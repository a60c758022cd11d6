import MpiTestSuite.Coding.Grid
import MpiTestSuite.P2P.Exchange
import MpiTestSuite.Runs.Stages

/-!
# Sending and receiving at once

In `"Ring Send with cart comm"` and `"Direct Partner Intercomm"` every rank calls `MPI_Sendrecv`
with ranks that have been computed before: in the first test those of its neighbours along each of
the dimensions of a grid, in the second one that of the process with its own rank in the other
group. At the end of a dimension, and in the larger of two groups, there are ranks without a
partner, for whom `MPI_PROC_NULL` stands.

A rank that is sent to by another receives from it (`SendrecvTest.sendTo_iff`). That is all that is
needed: though the rounds have one tag and nothing keeps the ranks together, what is received in a
round has been sent in it. In the grid it holds because a shift in one direction undoes the one in
the other.
-/

open MpiTestSuite.Runs MpiTestSuite.Runs.Requests

namespace MpiTestSuite

namespace P2P

/-! ## Rounds of `MPI_Sendrecv` -/

/-- A test that calls `MPI_Sendrecv` in some rounds; `none` is `MPI_PROC_NULL`. -/
structure SendrecvTest (ι : Type) where
  rounds : ℕ
  sendTo : ℕ → ι → Option ι
  recvFrom : ℕ → ι → Option ι
  /-- The error if the number of elements is wrong. -/
  message : String
  /-- Who is sent to receives. -/
  sendTo_iff : ∀ i r q, sendTo i r = some q ↔ recvFrom i q = some r

namespace SendrecvTest

variable {ι : Type} (test : SendrecvTest ι)

section

variable (tag : ℤ) (packet : ι → Packet)

/-- A call of `MPI_Sendrecv`: a send in slot `0` and a receive in slot `1`, if they have partners.
-/
def call (i : ℕ) (r : ι) : List (Instr ι ℤ Packet) :=
  ((test.sendTo i r).toList.map fun q ↦ .send 0 .standard q tag (packet r))
    ++ ((test.recvFrom i r).toList.map fun q ↦ .recv 1 q tag)
    ++ [.wait (((test.sendTo i r).toList.map fun _ ↦ 0)
      ++ (test.recvFrom i r).toList.map fun _ ↦ 1)]

/-- The calls of all ranks in all rounds. -/
def program : ι → List (Instr ι ℤ Packet) := plainSequence test.rounds (test.call tag packet)

end

section

variable (cfg : Config) (t : TypeSlot) (env : Env) (mode : TstMode) (rankOf : ι → ℕ)
  (arrival : ℕ → Option Arrival) (q : ι)

/-- What is done after a call: the receive buffer, and the environments that
`tst_test_recordfailure` has been called with. The status of a receive from `MPI_PROC_NULL` is as it
should be, and nothing else is looked at then. -/
def check (state : Memory × List Env) (i : ℕ) : Except Stop (Memory × List Env) :=
  match test.recvFrom i q with
  | none => .ok state
  | some r =>
    match arrival i with
    | none => .error (.error "Error in status")
    | some a =>
      if a.source ≠ rankOf r ∨ a.tag ≠ env.tag then .error (.error "Error in status")
      else if a.wrongCount env mode then .error (.error test.message)
      else
        let recvBuffer := transferred t.datatype.typemap a.packet.count.toNat a.packet.stride
          a.packet.buffer state.1
        (orStop (tstTestCheckstandardarray cfg t env recvBuffer (rankOf r))).map fun calls ↦
          (recvBuffer, state.2 ++ calls)

/-- The function `_run` of a test, given what has been received in each round. -/
def run : Except Stop (List Env) :=
  ((List.range test.rounds).foldlM (test.check cfg t env mode rankOf arrival q)
    (freshValues t env.valuesNum.toNat, [])).map Prod.snd

end

/-! ## The calls -/

section

variable {test} {tag : ℤ} {packet : ι → Packet} {i : ℕ} {r q : ι}

theorem mem_call {a : Instr ι ℤ Packet} : a ∈ test.call tag packet i r ↔
    (∃ q, test.sendTo i r = some q ∧ a = .send 0 .standard q tag (packet r)) ∨
      (∃ q, test.recvFrom i r = some q ∧ a = .recv 1 q tag) ∨
      a = .wait (((test.sendTo i r).toList.map fun _ ↦ 0)
        ++ (test.recvFrom i r).toList.map fun _ ↦ 1) := by
  simp only [call, List.mem_append, List.mem_map, Option.mem_toList,
    List.mem_singleton, or_assoc, eq_comm (b := a)]

theorem send_mem_call {slot : ℕ} {mode : Mode} {k : ℤ} {x : Packet} :
    .send slot mode q k x ∈ test.call tag packet i r ↔
      test.sendTo i r = some q ∧ slot = 0 ∧ mode = .standard ∧ k = tag ∧ x = packet r := by
  simp only [mem_call, Instr.send.injEq, reduceCtorEq, and_false, exists_false, or_false]
  constructor
  · rintro ⟨q, hq, rfl, rfl, rfl, rfl, rfl⟩
    exact ⟨hq, rfl, rfl, rfl, rfl⟩
  · rintro ⟨hq, rfl, rfl, rfl, rfl⟩
    exact ⟨q, hq, rfl, rfl, rfl, rfl, rfl⟩

theorem recv_mem_call {slot : ℕ} {k : ℤ} : .recv slot q k ∈ test.call tag packet i r ↔
    test.recvFrom i r = some q ∧ slot = 1 ∧ k = tag := by
  simp only [mem_call, Instr.recv.injEq, reduceCtorEq, and_false, exists_false, or_false, false_or]
  constructor
  · rintro ⟨q, hq, rfl, rfl, rfl⟩
    exact ⟨hq, rfl, rfl⟩
  · rintro ⟨hq, rfl, rfl⟩
    exact ⟨q, hq, rfl, rfl, rfl⟩

/-- What holds of a send and a receive, and of all that stands in front of the wait. -/
theorem pairwise_call {R : Instr ι ℤ Packet → Instr ι ℤ Packet → Prop}
    (hboth : ∀ q q', R (.send 0 .standard q tag (packet r)) (.recv 1 q' tag))
    (hwait : ∀ a slots, a.slot?.isSome → R a (.wait slots)) :
    (test.call tag packet i r).Pairwise R := by
  have hsend : ∀ q slots, R (.send 0 .standard q tag (packet r)) (.wait slots) :=
    fun _ slots ↦ hwait _ slots rfl
  have hrecv : ∀ q slots, R (.recv 1 q tag) (.wait slots) := fun _ slots ↦ hwait _ slots rfl
  rw [call]
  cases test.sendTo i r <;> cases test.recvFrom i r <;> simp [hboth, hsend, hrecv]

/-- In a round all messages may have the same level. -/
theorem leveled_call (test : SendrecvTest ι) (tag : ℤ) (packet : ι → Packet) (i : ℕ) :
    Leveled (fun _ _ _ ↦ 0) (test.call tag packet i) where
  slots r := pairwise_call (fun _ _ ↦ by simp [Instr.slot?]) fun _ _ _ ↦ by simp [Instr.slot?]
  envelopes r :=
    pairwise_call (fun _ _ ↦ by simp [Instr.envelope?]) fun _ _ _ ↦ by simp [Instr.envelope?]
  partner r q k := by
    simp only [send_mem_call, recv_mem_call, exists_and_left, exists_eq_left,
      test.sendTo_iff i r q]
    simp
  started r slots hwait j hj := by
    obtain ⟨q, -, heq⟩ | ⟨q, -, heq⟩ | heq := mem_call.mp hwait
    · cases heq
    · cases heq
    · cases heq
      rcases List.mem_append.mp hj with hj | hj
      · obtain ⟨q, hq, rfl⟩ := List.mem_map.mp hj
        exact ⟨_, mem_call.mpr (.inl ⟨q, Option.mem_toList.mp hq, rfl⟩), rfl⟩
      · obtain ⟨q, hq, rfl⟩ := List.mem_map.mp hj
        exact ⟨_, mem_call.mpr (.inr (.inl ⟨q, Option.mem_toList.mp hq, rfl⟩)), rfl⟩
  behind r := pairwise_call (fun _ _ ↦ behind_of_slot rfl) fun _ slots _ ↦ behind_wait slots
  barriers r q := by
    have hnone : ∀ r, (test.call tag packet i r).countP Instr.isBarrier = 0 := by
      intro r
      refine List.countP_eq_zero.mpr fun a ha ↦ ?_
      rcases mem_call.mp ha with ⟨q, -, rfl⟩ | ⟨q, -, rfl⟩ | rfl <;> exact Bool.false_ne_true
    rw [hnone, hnone]

end

end SendrecvTest

/-! ## Every run -/

/-- What the rounds promise of a state that is reached. -/
structure SendrecvWorks {ι : Type} [DecidableEq ι] (cfg : Config) (t : TypeSlot) (env : Env)
    (mode : TstMode) (test : SendrecvTest ι) (rankOf : ι → ℕ) (packet : ι → Packet)
    (s : State ι ℤ Packet) : Prop where
  /-- As long as a rank has something left to do, there is a step. -/
  noDeadlock : ∀ q, s.todo q ≠ [] → ∃ s', Step s s'
  /-- What is matched is a send and a receive of one round. -/
  matched : ∀ d ∈ s.delivered, ∃ i < test.rounds, d.sendSlot = Nat.pair i 0 ∧
    d.recvSlot = Nat.pair i 1 ∧ test.sendTo i d.source = some d.dest ∧ d.payload = packet d.source
  /-- A rank that is through has received from its partners. -/
  received : ∀ q, s.todo q = [] → ∀ i < test.rounds, ∀ r ∈ test.recvFrom i q,
    arrival? s rankOf q (Nat.pair i 1) = some ⟨rankOf r, env.tag, packet r⟩
  /-- No `ERROR` is raised and no failure is recorded. -/
  quiet : ∀ q, s.todo q = [] →
    test.run cfg t env mode rankOf (fun i ↦ arrival? s rankOf q (Nat.pair i 1)) q = .ok []

/-- What the rounds promise of all runs. -/
structure SendrecvRuns {ι : Type} [DecidableEq ι] [Fintype ι] (cfg : Config) (t : TypeSlot)
    (env : Env) (mode : TstMode) (test : SendrecvTest ι) (rankOf : ι → ℕ) (packet : ι → Packet) :
    Prop where
  /-- The arrays that `_init` prepares are sent. -/
  packet_eq : ∀ r, sendArray cfg t env (rankOf r) = some (packet r)
  /-- No run is longer than the programs allow. -/
  bounded : ∀ k d s, Counted Step Buffer k d (State.init (test.program env.tag packet)) s →
    k ≤ ∑ q, (State.init (test.program env.tag packet)).work q
  works : ∀ s, Reachable (test.program env.tag packet) s →
    SendrecvWorks cfg t env mode test rankOf packet s

/-- What is received in a buffer again and again is not affected by what was there before. -/
theorem transferred_transferred (T : Typemap) (n : ℕ) (stride stride' : ℤ) (b b' m : Memory) :
    transferred T n stride b (transferred T n stride' b' m) = transferred T n stride b m := by
  funext p
  simp only [transferred]
  split <;> rfl

/-- What is received in a buffer is as if the buffer had just been allocated. -/
def AsNew (t : TypeSlot) (env : Env) (recvBuffer : Memory) : Prop :=
  ∀ stride b, transferred t.datatype.typemap env.valuesNum.toNat stride b recvBuffer
    = transferred t.datatype.typemap env.valuesNum.toNat stride b
      (freshValues t env.valuesNum.toNat)

section

variable {ι : Type} [DecidableEq ι] {cfg : Config} {t : TypeSlot} {env : Env}
  {test : SendrecvTest ι} {rankOf : ι → ℕ} {packet : ι → Packet} {s : State ι ℤ Packet}

section

variable (ht : t ∈ initTypes cfg) (hnull : t.datatype ≠ .null)
  (hpacket : ∀ r, sendArray cfg t env (rankOf r) = some (packet r))
  (hrank : ∀ r, rankOf r + env.valuesNum.toNat ≤ 2 ^ 32)

include ht hnull hpacket hrank

omit [DecidableEq ι] in
/-- Nothing wrong is found in a round with what the partner has sent. -/
theorem SendrecvTest.check_eq (mode : TstMode) {arrival : ℕ → Option Arrival} {q : ι} {i : ℕ}
    (harrival : ∀ r ∈ test.recvFrom i q, arrival i = some ⟨rankOf r, env.tag, packet r⟩)
    {recvBuffer : Memory} (hbuffer : AsNew t env recvBuffer) :
    ∃ recvBuffer', AsNew t env recvBuffer' ∧
      test.check cfg t env mode rankOf arrival q (recvBuffer, []) i = .ok (recvBuffer', []) := by
  rw [check]
  cases hfrom : test.recvFrom i q with
  | none => exact ⟨recvBuffer, hbuffer, rfl⟩
  | some r =>
    obtain ⟨-, sendBuffer, hset, hvalues⟩ := sendArray_eq_some_iff.mp (hpacket r)
    have hcount : (packet r).count = env.valuesNum := by
      rw [← hvalues]
      rfl
    have hnothing := Arrival.testCheckstandardarray_buffer ht hnull hset
      (a := ⟨rankOf r, env.tag, packet r⟩) hvalues.symm (by omega) (by exact_mod_cast hrank r)
    refine ⟨transferred t.datatype.typemap env.valuesNum.toNat (packet r).stride
      (packet r).buffer recvBuffer, fun stride b ↦ ?_, ?_⟩
    · rw [transferred_transferred, hbuffer]
    · rw [Arrival.buffer, hcount, ← hbuffer] at hnothing
      simp only [harrival r hfrom, ne_eq, not_true_eq_false, or_self, if_false,
        Arrival.wrongCount, hcount, bne_self_eq_false, Bool.and_false, Bool.false_eq_true,
        hnothing]
      rfl

omit [DecidableEq ι] in
theorem SendrecvTest.run_eq_nil (mode : TstMode) {arrival : ℕ → Option Arrival} {q : ι}
    (harrival : ∀ i < test.rounds, ∀ r ∈ test.recvFrom i q,
      arrival i = some ⟨rankOf r, env.tag, packet r⟩) :
    test.run cfg t env mode rankOf arrival q = .ok [] := by
  have hfold : ∃ state, (List.range test.rounds).foldlM
        (test.check cfg t env mode rankOf arrival q)
        (freshValues t env.valuesNum.toNat, []) = .ok state ∧
      AsNew t env state.1 ∧ state.2 = [] := by
    refine exists_foldlM_ok
      (I := fun _ (state : Memory × List Env) ↦ AsNew t env state.1 ∧ state.2 = [])
      ⟨fun _ _ ↦ rfl, rfl⟩ ?_
    rintro done i rest hsplit ⟨recvBuffer, calls⟩ ⟨hbuffer, hcalls⟩
    obtain rfl : calls = [] := hcalls
    have hi : i ∈ List.range test.rounds := by rw [← hsplit]; simp
    obtain ⟨recvBuffer', hbuffer', hcheck⟩ := test.check_eq ht hnull hpacket hrank mode
      (harrival i (List.mem_range.mp hi)) hbuffer
    exact ⟨_, hcheck, hbuffer', rfl⟩
  obtain ⟨state, heq, -, hcalls⟩ := hfold
  rw [run, heq]
  exact congrArg Except.ok hcalls

theorem sendrecvWorks_of_reachable (mode : TstMode)
    (h : Reachable (test.program env.tag packet) s) :
    SendrecvWorks cfg t env mode test rankOf packet s := by
  have hpaired : ∀ i < test.rounds, Paired (test.call env.tag packet i) :=
    fun i _ ↦ (test.leveled_call env.tag packet i).toPaired
  have hreceived : ∀ q, s.todo q = [] → ∀ i < test.rounds, ∀ r ∈ test.recvFrom i q,
      arrival? s rankOf q (Nat.pair i 1) = some ⟨rankOf r, env.tag, packet r⟩ := by
    intro q htodo i hi r hr
    have hcomplete := complete_sequence hpaired h hi htodo
      (SendrecvTest.mem_call.mpr (.inr (.inr rfl)))
      (List.mem_append_right _ (List.mem_map.mpr ⟨r, Option.mem_toList.mpr hr, rfl⟩))
    rw [arrival?, got_sequence hpaired h hi
      (SendrecvTest.send_mem_call.mpr ⟨(test.sendTo_iff i r q).mpr hr, rfl, rfl, rfl, rfl⟩)
      (SendrecvTest.recv_mem_call.mpr ⟨hr, rfl, rfl⟩) hcomplete]
    rfl
  refine ⟨fun q hq ↦ ?_, fun d hd ↦ ?_, hreceived, fun q htodo ↦
    test.run_eq_nil ht hnull hpacket hrank mode (hreceived q htodo)⟩
  · refine exists_step_sequence (M := 1) (fun i _ ↦ test.leveled_call env.tag packet i)
      (fun i _ r a ha ↦ ?_) (fun i _ r a ha m hm ↦ ?_) h hq
    · rcases SendrecvTest.mem_call.mp ha with ⟨q, -, rfl⟩ | ⟨q, -, rfl⟩ | rfl <;> rfl
    · rcases SendrecvTest.mem_call.mp ha with ⟨q, -, rfl⟩ | ⟨q, -, rfl⟩ | rfl
      · obtain rfl := Option.some_inj.mp hm
        exact Nat.one_pos
      · obtain rfl := Option.some_inj.mp hm
        exact Nat.one_pos
      · cases hm
  · obtain ⟨i, hi, a, b, mode, hsendSlot, hrecvSlot, hsend, hrecv⟩ :=
      exists_exchange_of_delivered hpaired h hd
    obtain ⟨hto, rfl, -, -, hpayload⟩ := SendrecvTest.send_mem_call.mp hsend
    obtain ⟨-, rfl, -⟩ := SendrecvTest.recv_mem_call.mp hrecv
    exact ⟨i, hi, hsendSlot, hrecvSlot, hto, hpayload⟩

end

end

/-! ## A grid -/

/-- `MPI_Cart_shift` by one: the rank that sends to `r` along dimension `i`, and the one that `r`
sends to. -/
def mpiCartShift (dims : List ℕ) (periods : List Bool) (i : ℕ) (r : Fin dims.prod) :
    Option (Fin dims.prod) × Option (Fin dims.prod) :=
  (neighbour (-1), neighbour 1)
where
  neighbour (disp : ℤ) : Option (Fin dims.prod) :=
    (Grid.shift dims periods i disp r).pmap (fun q hq ↦ ⟨q, hq⟩) fun _ ↦ Grid.shift_lt r.isLt

theorem neighbour_eq_some_iff {dims : List ℕ} {periods : List Bool} {i : ℕ} {r q : Fin dims.prod}
    {disp : ℤ} : mpiCartShift.neighbour dims periods i r disp = some q ↔
      Grid.shift dims periods i disp r = some (q : ℕ) := by
  rw [mpiCartShift.neighbour, Option.pmap_eq_some_iff]
  constructor
  · rintro ⟨a, -, hshift, rfl⟩
    exact hshift
  · exact fun hshift ↦ ⟨q, q.isLt, hshift, rfl⟩

/-- `tst_p2p_simple_ring_shift`, which sends to the rank that `MPI_Cart_shift` calls the source, and
receives from the destination. -/
def tstP2pSimpleRingShift (dims : List ℕ) (periods : List Bool) :
    SendrecvTest (Fin dims.prod) where
  rounds := dims.length
  sendTo i r := (mpiCartShift dims periods i r).1
  recvFrom i r := (mpiCartShift dims periods i r).2
  message := "Error in Menge"
  sendTo_iff i r q := by
    show mpiCartShift.neighbour dims periods i r (-1) = some q ↔
      mpiCartShift.neighbour dims periods i q 1 = some r
    rw [neighbour_eq_some_iff, neighbour_eq_some_iff, Grid.shift_comm r.isLt q.isLt, neg_neg]

/-! ## Two groups -/

/-- The process with the same rank in the other group. -/
def directPartner (c : Communicator) (x : c.Member) : Option c.Member :=
  if h : c.rank x < c.groups.size (c.groups.remote x.1) then some ⟨c.groups.remote x.1, ⟨x.2, h⟩⟩
  else none

theorem directPartner_eq_some_iff {c : Communicator} {x y : c.Member} :
    directPartner c x = some y ↔ y.1 = c.groups.remote x.1 ∧ c.rank y = c.rank x := by
  rw [directPartner]
  constructor
  · intro h
    split_ifs at h with hlt
    obtain rfl := Option.some_inj.mp h
    exact ⟨rfl, rfl⟩
  · obtain ⟨side, k⟩ := y
    rintro ⟨rfl, hrank⟩
    have hlt : c.rank x < c.groups.size (c.groups.remote x.1) := hrank ▸ k.isLt
    rw [dif_pos hlt, Option.some_inj]
    exact congrArg (Sigma.mk _) (Fin.ext hrank.symm)

/-- Partners are partners of each other. -/
theorem directPartner_comm {c : Communicator} {x y : c.Member}
    (h : directPartner c x = some y) : directPartner c y = some x := by
  obtain ⟨hside, hrank⟩ := directPartner_eq_some_iff.mp h
  exact directPartner_eq_some_iff.mpr ⟨by rw [hside, Groups.remote_remote], hrank.symm⟩

/-- `tst_p2p_direct_partner_intercomm`. -/
def tstP2pDirectPartnerIntercomm (c : Communicator) : SendrecvTest c.Member where
  rounds := 1
  sendTo _ := directPartner c
  recvFrom _ := directPartner c
  message := "Error in Count"
  sendTo_iff _ _ _ := ⟨directPartner_comm, directPartner_comm⟩

section

variable (cfg : Config) (t : TypeSlot) (ht : t ∈ initTypes cfg) (hnull : t.datatype ≠ .null)
  (env : Env) (mode : TstMode)

include ht hnull

/-- The rounds come to a good end exactly if the arrays fit. -/
theorem exists_sendrecvRuns_iff {ι : Type} [DecidableEq ι] [Fintype ι] [Nonempty ι]
    (test : SendrecvTest ι) {rankOf : ι → ℕ} {p : ℕ} (hsize : FitsInt p)
    (hrank : ∀ r, rankOf r < p) :
    (∃ packet, SendrecvRuns cfg t env mode test rankOf packet) ↔ ArrayFits t env.valuesNum := by
  constructor
  · rintro ⟨packet, hruns⟩
    obtain ⟨r⟩ := ‹Nonempty ι›
    exact (exists_sendArray_iff ht hnull).mp ⟨_, hruns.packet_eq r⟩
  · intro hfits
    obtain ⟨sendBuffer, -, hpacket⟩ :=
      exists_sendArrays ht hnull hfits fun r : ι ↦ (rankOf r : ℤ)
    exact ⟨_, hpacket, fun k d s h ↦ (Nat.le_add_right _ _).trans (le_of_counted h),
      fun s h ↦ sendrecvWorks_of_reachable ht hnull hpacket
        (fun r ↦ rank_add_values_le hfits.fitsInt hsize (hrank r)) mode h⟩

/-- **Grids.** In every grid, whether or not its dimensions are periodic, `"Ring Send with cart
comm"` works exactly if the arrays fit: its runs come to an end, nobody gets stuck, everybody
receives along every dimension what its neighbour has sent there, and there is no `ERROR` and no
failure. -/
theorem cart_shift_works_iff (dims : List ℕ) (periods : List Bool) (hpos : 0 < dims.prod)
    (hsize : FitsInt (dims.prod : ℕ)) :
    (∃ packet, SendrecvRuns cfg t env mode (tstP2pSimpleRingShift dims periods)
      (fun r : Fin dims.prod ↦ (r : ℕ)) packet) ↔ ArrayFits t env.valuesNum := by
  have : Nonempty (Fin dims.prod) := ⟨⟨0, hpos⟩⟩
  exact exists_sendrecvRuns_iff cfg t ht hnull env mode _ hsize Fin.isLt

omit ht hnull in
/-- A grid of two by three ranks, periodic in both dimensions. -/
theorem cart_shift_works_iff_six :
    let cfg : Config := ⟨2, true, true, true, true, true, true, true, true⟩
    (∃ packet, SendrecvRuns cfg (slotMpi2 6) ⟨25, 6, 6, 3, 0⟩ .strict
      (tstP2pSimpleRingShift [2, 3] [true, true]) (fun r : Fin [2, 3].prod ↦ (r : ℕ)) packet) ↔
      ArrayFits (slotMpi2 6) 3 :=
  cart_shift_works_iff ⟨2, true, true, true, true, true, true, true, true⟩ (slotMpi2 6)
    (by decide +kernel) (by decide +kernel) ⟨25, 6, 6, 3, 0⟩ .strict [2, 3] [true, true]
    (by decide) (by decide)

/-- **Partners.** The same for `"Direct Partner Intercomm"`, for groups of any sizes. -/
theorem direct_partner_works_iff (c : Communicator) (hmember : Nonempty c.Member)
    (hsize : ∀ side, FitsInt (c.groups.size side)) :
    (∃ packet, SendrecvRuns cfg t env mode (tstP2pDirectPartnerIntercomm c) c.rank packet) ↔
      ArrayFits t env.valuesNum := by
  have hmax : FitsInt (max (c.groups.size false) (c.groups.size true) : ℕ) := by
    have hfalse := hsize false
    have htrue := hsize true
    rw [Nat.cast_max]
    exact ⟨le_max_of_le_left hfalse.1, max_lt hfalse.2 htrue.2⟩
  refine exists_sendrecvRuns_iff cfg t ht hnull env mode _ hmax fun x ↦ ?_
  obtain ⟨side, r⟩ := x
  cases side with
  | false => exact lt_max_of_lt_left r.isLt
  | true => exact lt_max_of_lt_right r.isLt

omit ht hnull in
/-- Groups of two and of three ranks. -/
theorem direct_partner_works_iff_five :
    let cfg : Config := ⟨2, true, true, true, true, true, true, true, true⟩
    let c : Communicator := ⟨.inter 2 3, tstMpiInterComm, by decide⟩
    (∃ packet, SendrecvRuns cfg (slotMpi2 6) ⟨17, 10, 6, 3, 0⟩ .strict
      (tstP2pDirectPartnerIntercomm c) c.rank packet) ↔ ArrayFits (slotMpi2 6) 3 :=
  direct_partner_works_iff ⟨2, true, true, true, true, true, true, true, true⟩ (slotMpi2 6)
    (by decide +kernel) (by decide +kernel) ⟨17, 10, 6, 3, 0⟩ .strict
    ⟨.inter 2 3, tstMpiInterComm, by decide⟩ ⟨⟨false, ⟨0, by decide⟩⟩⟩ (by decide)

end

end P2P

end MpiTestSuite

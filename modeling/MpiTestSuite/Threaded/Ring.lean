import MpiTestSuite.Threaded.Parties

/-!
# The ring of all threads

In `"Threaded ring"` all threads of all processes form one ring on the communicator of the master.
The threads of a process are numbered from zero, the master being the last one. Thread `u` of a rank
sends to the next rank, with the tag of thread `u + 1`, and receives from the rank before, with its
own tag. The ring does not lead from the last rank to the first one more often than from any other
to the next: it is the threads that are passed through, one by one. So the message that thread `u`
receives anywhere waits for that of thread `u - 1` at the rank before, and thread zero, which sends
before it receives, waits for the last thread.
-/

open MpiTestSuite.Runs MpiTestSuite.Runs.Threads

namespace MpiTestSuite

namespace Threaded

/-! ## The test -/

/-- `MPI_Send`, with its request in slot 0 of the thread. -/
def mpiSend (thread : ℕ) (packet : P2P.Packet) (dest : Option ℕ) (key : Key) : Calls :=
  [.send (thread, 0) false dest key packet, .wait [(thread, 0)]]

/-- `MPI_Recv`, with its request in slot 1 of the thread. -/
def mpiRecv (thread : ℕ) (source : Option ℕ) (key : Key) : Calls :=
  [.recv (thread, 1) source key, .wait [(thread, 1)]]

/-- `num_threads` in `tst_threaded_ring_run`: the master is one of them. -/
def ringNumThreads (numThreads : ℕ) : ℤ := 1 + numThreads

/-- `thread_num` in `tst_threaded_ring_run`. -/
def ringThreadNum (numThreads thread : ℕ) : ℤ :=
  (tstThreadGetNum (List.range numThreads) thread + ringNumThreads numThreads).tmod
    (ringNumThreads numThreads)

def threadTagTo (tag : ℤ) (numThreads thread : ℕ) : ℤ :=
  tag + (ringThreadNum numThreads thread + 1).tmod (ringNumThreads numThreads)

def threadTagFrom (tag : ℤ) (numThreads thread : ℕ) : ℤ := tag + ringThreadNum numThreads thread

def ringPlace : Flags → ℕ → ℕ → Except Stop P2P.RingPlace :=
  threadedPlace "tst_threaded_ring cannot run with this kind of communicator" true

/-- The calls of `tst_threaded_ring_run`. -/
def tstThreadedRingRun (commClass : Flags) (commSize numThreads : ℕ) (tag : ℤ)
    (packet : P2P.Packet) (commRank thread : ℕ) : Except Stop Calls := do
  let place ← ringPlace commClass commRank commSize
  let send := mpiSend thread packet place.sendTo
    (tstCommGetmastercomm, threadTagTo tag numThreads thread)
  let recv := mpiRecv thread place.recvFrom
    (tstCommGetmastercomm, threadTagFrom tag numThreads thread)
  if 1 < ringNumThreads numThreads then
    if ringThreadNum numThreads thread = 0 then return send ++ recv
    else return recv ++ send
  else .error (.error "tst_threaded_ring makes no sense when run with less than 2 threads.\n")

/-- A status is that of a message from `recvFrom` with the tag, or of a receive from
`MPI_PROC_NULL`. Otherwise the message `wrong` is printed. If something was received, `check` is
made of it. -/
def checkArrival (wrong : String) (recvFrom : Option ℕ) (tag : ℤ) (arrival : Option P2P.Arrival)
    (check : P2P.Arrival → ℕ → Except Stop (List Env)) : Except Stop (List Env) :=
  if arrival.map P2P.Arrival.source ≠ recvFrom
      ∨ (recvFrom ≠ none ∧ arrival.map P2P.Arrival.tag ≠ some tag)
      ∨ (recvFrom = none ∧ arrival.map P2P.Arrival.tag ≠ none) then
    .error (.error wrong)
  else
    match arrival, recvFrom with
    | some a, some source => check a source
    | _, _ => .ok []

/-- `tst_threaded_ring_run` after the calls: the environments that `tst_test_recordfailure` is
called with. -/
def tstThreadedRingCheck (cfg : Config) (t : TypeSlot) (env : Env) (mode : TstMode)
    (commClass : Flags) (commSize numThreads commRank thread : ℕ)
    (arrival : Option P2P.Arrival) : Except Stop (List Env) := do
  let place ← ringPlace commClass commRank commSize
  checkArrival "Error in status" place.recvFrom (threadTagFrom env.tag numThreads thread) arrival
    fun a source ↦ a.check cfg t env mode "Error in count" source

/-! ## The threads of the ring -/

section

variable {n u : ℕ}

/-- The numbers of the threads. -/
theorem ringThreadNum_eq (hu : u < n + 1) : ringThreadNum n u = u := by
  rw [ringThreadNum, tstThreadGetNum_range, ringNumThreads]
  split_ifs with h
  · rw [Int.tmod_eq_emod_of_nonneg (by omega), Int.add_emod_right, Int.emod_eq_of_lt] <;> omega
  · rw [Int.tmod_eq_emod_of_nonneg (by omega), Int.emod_eq_of_lt] <;> omega

theorem threadTagFrom_eq (tag : ℤ) (hu : u < n + 1) : threadTagFrom tag n u = tag + u := by
  rw [threadTagFrom, ringThreadNum_eq hu]

/-- The tag of the next thread. -/
theorem threadTagTo_eq (tag : ℤ) (hu : u < n + 1) :
    threadTagTo tag n u = tag + ((u + 1) % (n + 1) : ℕ) := by
  rw [threadTagTo, ringThreadNum_eq hu, ringNumThreads, Int.tmod_eq_emod_of_nonneg (by omega)]
  push_cast
  rw [add_comm (1 : ℤ)]

end

/-- The program of a party, if there are several ranks. -/
def ringCalls (p n : ℕ) (tag : ℤ) (packet : P2P.Packet) (r u : ℕ) : Calls :=
  if u = 0 then
    mpiSend u packet (some ((r + 1) % p)) (.master, tag + ((u + 1) % (n + 1) : ℕ))
      ++ mpiRecv u (some ((r + p - 1) % p)) (.master, tag + u)
  else
    mpiRecv u (some ((r + p - 1) % p)) (.master, tag + u)
      ++ mpiSend u packet (some ((r + 1) % p)) (.master, tag + ((u + 1) % (n + 1) : ℕ))

section

variable {commClass : Flags} {p n : ℕ} {tag : ℤ} {packet : ℕ → P2P.Packet}

/-- The program of a ring of several ranks. -/
def ringProgram (commClass : Flags) (p n : ℕ) (tag : ℤ) (packet : ℕ → P2P.Packet) :
    ℕ × ℕ → Calls :=
  partyProgram p n fun r u ↦ tstThreadedRingRun commClass p n tag (packet r) r u

variable (hself : commClass &&& tstMpiCommSelf = 0) (hintra : commClass &&& tstMpiIntraComm ≠ 0)
  (hp : 1 < p) (hn : 0 < n)

include hself hintra hp hn

theorem ringProgram_eq (x : ℕ × ℕ) : ringProgram commClass p n tag packet x
    = if x.1 < p ∧ x.2 < n + 1 then ringCalls p n tag (packet x.1) x.1 x.2 else [] := by
  rw [ringProgram, partyProgram]
  split_ifs with hx
  · have hnum : ringThreadNum n x.2 = 0 ↔ x.2 = 0 := by
      rw [ringThreadNum_eq hx.2]
      exact Int.natCast_eq_zero
    have hseveral : (1 : ℤ) < ringNumThreads n := by
      rw [ringNumThreads]
      omega
    have hcalls : tstThreadedRingRun commClass p n tag (packet x.1) x.1 x.2
        = .ok (ringCalls p n tag (packet x.1) x.1 x.2) := by
      rw [tstThreadedRingRun, ringPlace, threadedPlace_intra hself hintra, if_pos (.inr hp),
        ok_bind, if_pos hseveral, threadTagTo_eq tag hx.2, threadTagFrom_eq tag hx.2, ringCalls]
      by_cases h0 : x.2 = 0
      · rw [if_pos (hnum.mpr h0), if_pos h0]
        rfl
      · rw [if_neg (mt hnum.mp h0), if_neg h0]
        rfl
    rw [hcalls]
  · rfl

theorem mem_ringProgram {x : ℕ × ℕ} {a : Instr ℕ Slot Key P2P.Packet} :
    a ∈ ringProgram commClass p n tag packet x ↔ (x.1 < p ∧ x.2 < n + 1) ∧
      (a = .send (x.2, 0) false (some ((x.1 + 1) % p)) (.master, tag + ((x.2 + 1) % (n + 1) : ℕ))
          (packet x.1) ∨ a = .wait [(x.2, 0)] ∨
        a = .recv (x.2, 1) (some ((x.1 + p - 1) % p)) (.master, tag + x.2) ∨
        a = .wait [(x.2, 1)]) := by
  rw [ringProgram_eq hself hintra hp hn]
  split_ifs with hx
  · rw [ringCalls]
    split_ifs
    · simp [mpiSend, mpiRecv, hx]
    · simp only [mpiSend, mpiRecv, List.cons_append, List.nil_append, List.mem_cons,
        List.not_mem_nil, or_false, hx, true_and]
      tauto
  · exact iff_of_false List.not_mem_nil fun h ↦ hx h.1

theorem send_mem_ringProgram {r u : ℕ} {i : Slot} {m : Bool} {dest : Option ℕ} {k : Key}
    {y : P2P.Packet} : .send i m dest k y ∈ ringProgram commClass p n tag packet (r, u) ↔
      (r < p ∧ u < n + 1) ∧ i = (u, 0) ∧ m = false ∧ dest = some ((r + 1) % p) ∧
        k = (.master, tag + ((u + 1) % (n + 1) : ℕ)) ∧ y = packet r := by
  simp [mem_ringProgram hself hintra hp hn]

theorem recv_mem_ringProgram {q u : ℕ} {j : Slot} {source : Option ℕ} {k : Key} :
    .recv j source k ∈ ringProgram commClass p n tag packet (q, u) ↔
      (q < p ∧ u < n + 1) ∧ j = (u, 1) ∧ source = some ((q + p - 1) % p) ∧
        k = (.master, tag + u) := by
  simp [mem_ringProgram hself hintra hp hn]

/-- What has a slot has that of its own thread. -/
theorem slot_mem_ringProgram {r u : ℕ} {a : Instr ℕ Slot Key P2P.Packet} {i : Slot}
    (ha : a ∈ ringProgram commClass p n tag packet (r, u)) (hi : i ∈ a.slot?) :
    i.1 = u ∧ (i.2 = 0 ∧ a = .send (u, 0) false (some ((r + 1) % p))
        (.master, tag + ((u + 1) % (n + 1) : ℕ)) (packet r) ∨
      i.2 = 1 ∧ a = .recv (u, 1) (some ((r + p - 1) % p)) (.master, tag + u)) := by
  obtain ⟨-, rfl | rfl | rfl | rfl⟩ := (mem_ringProgram hself hintra hp hn).mp ha
  · obtain rfl := Option.some_inj.mp hi
    exact ⟨rfl, .inl ⟨rfl, rfl⟩⟩
  · cases hi
  · obtain rfl := Option.some_inj.mp hi
    exact ⟨rfl, .inr ⟨rfl, rfl⟩⟩
  · cases hi

/-- The number of a message is that of the thread that receives it; that of thread zero comes
last. -/
def messageNumber (n : ℕ) (slot : Slot) : ℕ :=
  if slot.2 = 0 then slot.1 + 1 else if slot.1 = 0 then n + 1 else slot.1

/-- A message is started on both sides, and then it is waited for. -/
def ringLevel (n : ℕ) (_ : ℕ × ℕ) : Instr ℕ Slot Key P2P.Packet → ℕ
  | .send slot _ _ _ _ => 2 * messageNumber n slot
  | .recv slot _ _ => 2 * messageNumber n slot
  | .wait (slot :: _) => 2 * messageNumber n slot + 1
  | _ => 0

theorem sorted_ringProgram (x : ℕ × ℕ) : (ringProgram commClass p n tag packet x).Pairwise
    fun a b ↦ ringLevel n x a ≤ ringLevel n x b := by
  rw [ringProgram_eq hself hintra hp hn]
  split_ifs with hx
  · rw [ringCalls]
    split_ifs with h0
    · simp [mpiSend, mpiRecv, ringLevel, messageNumber, h0]
      omega
    · simp [mpiSend, mpiRecv, ringLevel, messageNumber, h0]
      omega
  · exact .nil

omit hself hintra hp hn in
/-- Different threads have different next ones. -/
theorem eq_of_nextTag {t u : ℕ} (ht : t < n + 1) (hu : u < n + 1)
    (h : tag + ((t + 1) % (n + 1) : ℕ) = tag + ((u + 1) % (n + 1) : ℕ)) : t = u := by
  rw [P2P.next_eq ht, P2P.next_eq hu] at h
  split_ifs at h <;> omega

/-- No two requests of a process have the same slot or the same envelope. -/
theorem paired_ringProgram : Paired (ringProgram commClass p n tag packet) := by
  have hslot := @slot_mem_ringProgram commClass p n tag packet hself hintra hp hn
  have hsend := @send_mem_ringProgram commClass p n tag packet hself hintra hp hn
  have hrecv := @recv_mem_ringProgram commClass p n tag packet hself hintra hp hn
  refine ⟨fun r t u a ha b hb i hia hib ↦ ?_, fun r t u a ha b hb e hea heb ↦ ?_⟩
  · obtain ⟨rfl, hcase⟩ := hslot ha hia
    obtain ⟨rfl, hcase'⟩ := hslot hb hib
    rcases hcase with ⟨h0, rfl⟩ | ⟨h1, rfl⟩
    · rcases hcase' with ⟨-, rfl⟩ | ⟨h1, -⟩
      · exact ⟨rfl, rfl⟩
      · omega
    · rcases hcase' with ⟨h0, -⟩ | ⟨-, rfl⟩
      · omega
      · exact ⟨rfl, rfl⟩
  · obtain ⟨isSend, q, k⟩ := e
    cases isSend with
    | true =>
      obtain ⟨i, m, y, rfl⟩ := Instr.mem_envelope?_send.mp hea
      obtain ⟨i', m', y', rfl⟩ := Instr.mem_envelope?_send.mp heb
      obtain ⟨⟨-, ht⟩, rfl, rfl, -, hk, rfl⟩ := hsend.mp ha
      obtain ⟨⟨-, hu⟩, rfl, rfl, -, hk', rfl⟩ := hsend.mp hb
      obtain rfl := eq_of_nextTag ht hu (Prod.mk.inj (hk.symm.trans hk')).2
      exact ⟨rfl, rfl⟩
    | false =>
      obtain ⟨j, rfl⟩ := Instr.mem_envelope?_recv.mp hea
      obtain ⟨j', rfl⟩ := Instr.mem_envelope?_recv.mp heb
      obtain ⟨-, rfl, -, hk⟩ := hrecv.mp ha
      obtain ⟨-, rfl, -, hk'⟩ := hrecv.mp hb
      have htag : tag + (t : ℤ) = tag + u := (Prod.mk.inj (hk.symm.trans hk')).2
      obtain rfl : t = u := by omega
      exact ⟨rfl, rfl⟩

/-- Every request has its partner on the rank before or behind. -/
theorem served_ringProgram : Served (ringProgram commClass p n tag packet) := by
  have hsend := @send_mem_ringProgram commClass p n tag packet hself hintra hp hn
  have hrecv := @recv_mem_ringProgram commClass p n tag packet hself hintra hp hn
  refine ⟨paired_ringProgram hself hintra hp hn, fun x slots hwait i hi ↦ ?_,
    fun x tag' hawait ↦ ?_, fun x a ha e he ↦ ?_⟩
  · obtain ⟨hx, hslots⟩ := (mem_ringProgram hself hintra hp hn).mp hwait
    rcases (by simpa using hslots : slots = [(x.2, 0)] ∨ slots = [(x.2, 1)]) with rfl | rfl
    · obtain rfl := List.mem_singleton.mp hi
      exact ⟨x.2, _, hsend.mpr ⟨hx, rfl, rfl, rfl, rfl, rfl⟩, rfl⟩
    · obtain rfl := List.mem_singleton.mp hi
      exact ⟨x.2, _, hrecv.mpr ⟨hx, rfl, rfl, rfl⟩, rfl⟩
  · obtain ⟨-, h⟩ := (mem_ringProgram hself hintra hp hn).mp hawait
    simp at h
  · obtain ⟨isSend, q, k⟩ := e
    cases isSend with
    | true =>
      obtain ⟨i, m, y, rfl⟩ := Instr.mem_envelope?_send.mp he
      obtain ⟨⟨hr, hu⟩, -, -, hq, rfl, -⟩ := hsend.mp ha
      obtain rfl := Option.some_inj.mp hq
      have hlt : (x.1 + 1) % p < p := Nat.mod_lt _ (by omega)
      have hprev := (P2P.next_eq_iff hr hlt).mp rfl
      refine ⟨(x.2 + 1) % (n + 1), _,
        hrecv.mpr ⟨⟨hlt, Nat.mod_lt _ (Nat.succ_pos n)⟩, rfl, rfl, rfl⟩, _, .inl ⟨he, ?_⟩⟩
      exact Instr.mem_envelope?_recv.mpr ⟨_, by rw [← hprev]⟩
    | false =>
      obtain ⟨j, rfl⟩ := Instr.mem_envelope?_recv.mp he
      obtain ⟨⟨hq, hu⟩, -, hr, rfl⟩ := hrecv.mp ha
      obtain rfl := Option.some_inj.mp hr
      have hlt : (x.1 + p - 1) % p < p := Nat.mod_lt _ (by omega)
      have hnext := (P2P.next_eq_iff hlt hq).mpr rfl
      have hthread : (x.2 + (n + 1) - 1) % (n + 1) < n + 1 := Nat.mod_lt _ (Nat.succ_pos n)
      have hnextThread := (P2P.next_eq_iff hthread hu).mpr rfl
      refine ⟨(x.2 + (n + 1) - 1) % (n + 1), _,
        hsend.mpr ⟨⟨hlt, hthread⟩, rfl, rfl, rfl, rfl, rfl⟩, _, .inr ⟨he, ?_⟩⟩
      exact Instr.mem_envelope?_send.mpr ⟨_, _, _, by rw [← hnext, ← hnextThread]⟩

omit hself hintra hp hn in
theorem ringLevel_of_slot {x : ℕ × ℕ} {a : Instr ℕ Slot Key P2P.Packet} {i : Slot}
    (hi : a.slot? = some i) : ringLevel n x a = 2 * messageNumber n i := by
  cases a with
  | send | recv =>
    obtain rfl := Option.some_inj.mp hi
    rfl
  | wait | signal | await | attach | detach => cases hi

/-- A send and its receive belong to the same message. -/
theorem messageNumber_eq {r t : ℕ} {a : Instr ℕ Slot Key P2P.Packet}
    (ha : a ∈ ringProgram commClass p n tag packet (r, t)) {x : ℕ × ℕ}
    {b : Instr ℕ Slot Key P2P.Packet} (hb : b ∈ ringProgram commClass p n tag packet x)
    (hpartners : Partners r a x.1 b) {i j : Slot} (hi : a.slot? = some i) (hj : b.slot? = some j) :
    messageNumber n j = messageNumber n i := by
  -- the thread that receives is the one behind the thread that sends
  have hnumber : ∀ {t u : ℕ}, t < n + 1 → tag + ((t + 1) % (n + 1) : ℕ) = tag + (u : ℤ) →
      messageNumber n (u, 1) = messageNumber n (t, 0) := by
    intro t u ht htag
    have hu : u = (t + 1) % (n + 1) := by omega
    rw [P2P.next_eq ht] at hu
    simp only [messageNumber, one_ne_zero, if_false, if_true]
    split_ifs at hu ⊢ <;> omega
  obtain ⟨k, ⟨hsend, hrecv⟩ | ⟨hrecv, hsend⟩⟩ := hpartners
  · obtain ⟨i', m, payload, rfl⟩ := Instr.mem_envelope?_send.mp hsend
    obtain ⟨j', rfl⟩ := Instr.mem_envelope?_recv.mp hrecv
    obtain ⟨⟨-, ht⟩, rfl, -, -, hk, -⟩ := (send_mem_ringProgram hself hintra hp hn).mp ha
    obtain ⟨-, rfl, -, hk'⟩ := (recv_mem_ringProgram hself hintra hp hn).mp hb
    obtain rfl := Option.some_inj.mp hi
    obtain rfl := Option.some_inj.mp hj
    exact hnumber ht (Prod.mk.inj (hk.symm.trans hk')).2
  · obtain ⟨i', rfl⟩ := Instr.mem_envelope?_recv.mp hrecv
    obtain ⟨j', m, payload, rfl⟩ := Instr.mem_envelope?_send.mp hsend
    obtain ⟨-, rfl, -, hk⟩ := (recv_mem_ringProgram hself hintra hp hn).mp ha
    obtain ⟨⟨-, hu⟩, rfl, -, -, hk', -⟩ := (send_mem_ringProgram hself hintra hp hn).mp hb
    obtain rfl := Option.some_inj.mp hi
    obtain rfl := Option.some_inj.mp hj
    exact (hnumber hu (Prod.mk.inj (hk'.symm.trans hk)).2).symm

theorem needed_of_wait {x : ℕ × ℕ} {i : Slot} {c : Condition ℕ Slot}
    (hc : c ∈ Condition.waits (ringProgram commClass p n tag packet) x (.wait [i]))
    {y : (ℕ × ℕ) × Instr ℕ Slot Key P2P.Packet}
    (hy : y ∈ Condition.needs (ringProgram commClass p n tag packet) c) :
    y.2 ∈ ringProgram commClass p n tag packet y.1 ∧
      ringLevel n y.1 y.2 < ringLevel n x (.wait [i]) := by
  obtain ⟨i', hi', rfl⟩ := hc
  obtain rfl := List.mem_singleton.mp hi'
  obtain ⟨hmem, hcase⟩ := hy
  refine ⟨hmem, ?_⟩
  show _ < 2 * messageNumber n i' + 1
  rcases hcase with ⟨-, hslot⟩ | ⟨t, b, hb, hslot, hlocal, hpartners⟩
  · rw [ringLevel_of_slot hslot]
    exact Nat.lt_succ_self _
  · obtain ⟨j, hslot'⟩ := hpartners.exists_slot
    rw [ringLevel_of_slot hslot',
      messageNumber_eq hself hintra hp hn hb hmem hpartners hslot hslot']
    exact Nat.lt_succ_self _

/-- Nobody waits for a message that waits for one of his own. -/
theorem leveled_ringProgram : Conditions.Leveled
    (Condition.waits (ringProgram commClass p n tag packet))
    (Condition.needs (ringProgram commClass p n tag packet)) (ringLevel n)
    (ringProgram commClass p n tag packet) where
  sorted := sorted_ringProgram hself hintra hp hn
  needed x a ha c hc y hy := by
    obtain ⟨-, rfl | rfl | rfl | rfl⟩ := (mem_ringProgram hself hintra hp hn).mp ha
    · exact absurd hc (Set.notMem_empty c)
    · exact needed_of_wait hself hintra hp hn hc hy
    · exact absurd hc (Set.notMem_empty c)
    · exact needed_of_wait hself hintra hp hn hc hy

end

/-! ## Every run -/

/-- What the test promises of a state that is reached with `p` ranks and `n` workers each. -/
structure RingWorks (cfg : Config) (t : TypeSlot) (env : Env) (mode : TstMode) (commClass : Flags)
    (p n : ℕ) (packet : ℕ → P2P.Packet) (s : State ℕ ℕ Slot Key P2P.Packet) : Prop where
  /-- As long as a thread has something left to do, there is a step. -/
  noDeadlock : ∀ x, s.todo x ≠ [] → ∃ s', Step s s'
  /-- Every message goes from a thread to the next thread of the next rank. -/
  delivered : ∀ d ∈ s.delivered, ∃ r < p, ∃ u < n + 1, d.source = r ∧ d.sendSlot = (u, 0) ∧
    d.dest = (r + 1) % p ∧ d.recvSlot = ((u + 1) % (n + 1), 1) ∧
    d.key = (.master, env.tag + ((u + 1) % (n + 1) : ℕ)) ∧ d.payload = packet r
  /-- A thread that is through has received one message. -/
  once : ∀ r < p, ∀ u < n + 1, s.todo (r, u) = [] →
    s.delivered.countP (fun d ↦ d.dest = r ∧ d.recvSlot = (u, 1)) = 1
  /-- It finds in it the rank before and its own tag. No `ERROR` is raised and no failure is
  recorded. -/
  quiet : ∀ r < p, ∀ u < n + 1, s.todo (r, u) = [] →
    (arrivalAt s r (u, 1)).map P2P.Arrival.source = some ((r + p - 1) % p) ∧
    (arrivalAt s r (u, 1)).map P2P.Arrival.tag = some (env.tag + u) ∧
    tstThreadedRingCheck cfg t env mode commClass p n r u (arrivalAt s r (u, 1)) = .ok []

section

variable {cfg : Config} {t : TypeSlot} {env : Env} {commClass : Flags} {p n : ℕ}
  {s : State ℕ ℕ Slot Key P2P.Packet}

theorem ringWorks_of_reachable (ht : t ∈ initTypes cfg) (hnull : t.datatype ≠ .null)
    (hfits : ArrayFits t env.valuesNum) (hsize : FitsInt p) (mode : TstMode)
    (hself : commClass &&& tstMpiCommSelf = 0) (hintra : commClass &&& tstMpiIntraComm ≠ 0)
    (hp : 1 < p) (hn : 0 < n) {sendBuffer : ℕ → Memory}
    (hset : ∀ r : ℕ, P2P.standardBuffer cfg t env r = some (sendBuffer r))
    (h : Reachable (ringProgram commClass p n env.tag fun r ↦ .values t env (sendBuffer r)) s) :
    RingWorks cfg t env mode commClass p n (fun r ↦ .values t env (sendBuffer r)) s := by
  have hgenuine := h.genuine
  have hserved := @served_ringProgram commClass p n env.tag
    (fun r ↦ .values t env (sendBuffer r)) hself hintra hp hn
  have hleveled := @leveled_ringProgram commClass p n env.tag
    (fun r ↦ .values t env (sendBuffer r)) hself hintra hp hn
  have hsend := @send_mem_ringProgram commClass p n env.tag
    (fun r ↦ .values t env (sendBuffer r)) hself hintra hp hn
  have hrecv := @recv_mem_ringProgram commClass p n env.tag
    (fun r ↦ .values t env (sendBuffer r)) hself hintra hp hn
  have hcomplete : ∀ r < p, ∀ u < n + 1, s.todo (r, u) = [] → s.Complete r (u, 1) := by
    intro r hr u hu htodo
    refine hgenuine.waited (r, u) (.wait [(u, 1)]) ?_ _ rfl _ (List.mem_singleton_self _)
    rw [hgenuine.done_eq htodo, mem_ringProgram hself hintra hp hn]
    exact ⟨⟨hr, hu⟩, .inr (.inr (.inr rfl))⟩
  -- what a thread has received
  have harrival : ∀ r < p, ∀ u < n + 1, s.todo (r, u) = [] → arrivalAt s r (u, 1)
      = some ⟨(r + p - 1) % p, env.tag + u, .values t env (sendBuffer ((r + p - 1) % p))⟩ := by
    intro r hr u hu htodo
    have hprev : (r + p - 1) % p < p := Nat.mod_lt _ (by omega)
    have hthread : (u + (n + 1) - 1) % (n + 1) < n + 1 := Nat.mod_lt _ (Nat.succ_pos n)
    have hnext := (P2P.next_eq_iff hprev hr).mpr rfl
    have hnextThread := (P2P.next_eq_iff hthread hu).mpr rfl
    have hgot := hgenuine.got_eq hserved.toPaired
      (hsend.mpr ⟨⟨hprev, hthread⟩, rfl, rfl, by rw [← hnext], by rw [← hnextThread], rfl⟩)
      (hrecv.mpr ⟨⟨hr, hu⟩, rfl, rfl, rfl⟩) (hcomplete r hr u hu htodo)
    rw [arrivalAt, hgot]
    rfl
  refine ⟨fun x ↦ hgenuine.exists_step hserved hleveled, fun d hd ↦ ?_, fun r hr u hu htodo ↦ ?_,
    fun r hr u hu htodo ↦ ?_⟩
  · obtain ⟨u, m, hsent⟩ := hgenuine.sent d hd
    obtain ⟨v, hreceived⟩ := hgenuine.received d hd
    obtain ⟨⟨hr, hu⟩, hslot, -, hdest, hkey, hpayload⟩ := hsend.mp (hgenuine.mem_of_done hsent)
    obtain ⟨⟨hq, hv⟩, hslot', -, hkey'⟩ := hrecv.mp (hgenuine.mem_of_done hreceived)
    have htag : env.tag + ((u + 1) % (n + 1) : ℕ) = env.tag + v :=
      (Prod.mk.inj (hkey.symm.trans hkey')).2
    have hthread : v = (u + 1) % (n + 1) := by omega
    exact ⟨d.source, hr, u, hu, rfl, hslot, Option.some_inj.mp hdest, hthread ▸ hslot', hkey,
      hpayload⟩
  · exact hgenuine.countP_delivered hserved.toPaired (hrecv.mpr ⟨⟨hr, hu⟩, rfl, rfl, rfl⟩)
      (hcomplete r hr u hu htodo)
  · rw [harrival r hr u hu htodo]
    have hprev : (r + p - 1) % p < p := Nat.mod_lt _ (by omega)
    have hbound := P2P.rank_add_values_le hfits.fitsInt hsize hprev
    refine ⟨rfl, rfl, ?_⟩
    rw [tstThreadedRingCheck, ringPlace, threadedPlace_intra hself hintra, if_pos (.inr hp),
      ok_bind, threadTagFrom_eq env.tag hu, checkArrival, if_neg (by simp)]
    exact P2P.Arrival.check_eq_nil ht hnull (hset _) rfl mode "Error in count" (by omega) (by omega)

end

/-- **The ring of all threads.** With several ranks and any number of workers, the test works
exactly if the arrays fit: no state is reached in which a thread is stuck, even if every send waits
for its receive. Every thread receives one message, which is that of the thread before it at the
rank before, with the tag that it expects, and there is no `ERROR` and no failure. -/
theorem threaded_ring_works_iff (cfg : Config) (t : TypeSlot) (ht : t ∈ initTypes cfg)
    (hnull : t.datatype ≠ .null) (env : Env) (mode : TstMode)
    (row : Test) (hrow : tstTest cfg env.test = some row)
    (hname : row.functions = some "tst_threaded_ring") (commClass : Flags)
    (hadmitted : commClass &&& row.runWithComm ≠ 0) (p : ℕ) (hsize : FitsInt p)
    (hself : commClass &&& tstMpiCommSelf ≠ 0 → p = 1) (hp : 2 ≤ p) (n : ℕ) (hn : 1 ≤ n) :
    (∃ sendBuffer : ℕ → Memory,
      (∀ r < p, P2P.sendArray cfg t env r = some (.values t env (sendBuffer r))) ∧
      ∀ s, Reachable (ringProgram commClass p n env.tag fun r ↦ .values t env (sendBuffer r)) s →
        RingWorks cfg t env mode commClass p n (fun r ↦ .values t env (sendBuffer r)) s) ↔
      ArrayFits t env.valuesNum := by
  rw [runWithComm_threaded hrow (by simp [threadedFunctions]) hname] at hadmitted
  have hzero : commClass &&& tstMpiCommSelf = 0 := by
    by_contra hne
    have hone := hself hne
    omega
  constructor
  · rintro ⟨sendBuffer, hsend, -⟩
    exact (P2P.exists_sendArray_iff ht hnull).mp ⟨_, hsend 0 (by omega)⟩
  · intro hfits
    obtain ⟨sendBuffer, hset, hsend⟩ :=
      P2P.exists_sendArrays ht hnull hfits fun r : ℕ ↦ (r : ℤ)
    exact ⟨sendBuffer, fun r _ ↦ hsend r, fun s h ↦ ringWorks_of_reachable ht hnull hfits hsize
      mode hzero (intra_of_admitted hadmitted hzero) hp hn hset h⟩

/-- Two ranks with one worker each. -/
theorem threaded_ring_works_iff_two :
    let cfg : Config := ⟨2, true, true, true, true, true, true, true, true⟩
    let env : Env := ⟨104, 0, 6, 3, 0⟩
    (∃ sendBuffer : ℕ → Memory,
      (∀ r < (2 : ℕ), P2P.sendArray cfg (slotMpi2 6) env r
        = some (.values (slotMpi2 6) env (sendBuffer r))) ∧
      ∀ s, Reachable (ringProgram tstMpiIntraComm 2 1 0
          fun r ↦ .values (slotMpi2 6) env (sendBuffer r)) s →
        RingWorks cfg (slotMpi2 6) env .strict tstMpiIntraComm 2 1
          (fun r ↦ .values (slotMpi2 6) env (sendBuffer r)) s) ↔
      ArrayFits (slotMpi2 6) 3 :=
  threaded_ring_works_iff ⟨2, true, true, true, true, true, true, true, true⟩ (slotMpi2 6)
    (by decide +kernel) (by decide +kernel) ⟨104, 0, 6, 3, 0⟩ .strict _ rfl rfl tstMpiIntraComm
    (by decide) 2 (by decide) (by decide) (by decide) 1 (by decide)

/-- Arrays of 300000000 values of `MPI_DOUBLE` are larger than an `int` can say. -/
theorem threaded_ring_fails :
    let cfg : Config := ⟨2, true, true, true, true, true, true, true, true⟩
    let env : Env := ⟨104, 0, 11, 300000000, 0⟩
    ¬∃ sendBuffer : ℕ → Memory,
      (∀ r < (2 : ℕ), P2P.sendArray cfg (slotMpi2 11) env r
        = some (.values (slotMpi2 11) env (sendBuffer r))) ∧
      ∀ s, Reachable (ringProgram tstMpiIntraComm 2 1 0
          fun r ↦ .values (slotMpi2 11) env (sendBuffer r)) s →
        RingWorks cfg (slotMpi2 11) env .strict tstMpiIntraComm 2 1
          (fun r ↦ .values (slotMpi2 11) env (sendBuffer r)) s := by
  rintro cfg env ⟨sendBuffer, hsend, -⟩
  have hfits := (P2P.exists_sendArray_iff (by decide +kernel) (by decide +kernel)).mp
    ⟨_, hsend 0 (by decide)⟩
  exact absurd hfits (by decide +kernel)

end Threaded

end MpiTestSuite

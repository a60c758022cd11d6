import MpiTestSuite.P2P.Messages
import MpiTestSuite.Tables.Comms

/-!
# Everybody to everybody

In `"Alltoall"`, `"Alltoall Issend"`, `"Alltoall Irsend"` and `"Alltoall xIsend"` every rank sends
to all ranks of its communicator, or of the other group of an inter-communicator, and receives from
all of them, with two requests for each index `k`: the one in slot `2 * k` sends to rank `k`, and
the one in slot `2 * k + 1` receives from rank `size - 1 - k`. Then it waits for all of them.

The four tests differ in the sends. In `"Alltoall Irsend"` all receives are started first, and a
barrier stands between them and the sends. In `"Alltoall xIsend"` a single value is sent over and
over again, with a datatype of stride zero.
-/

open MpiTestSuite.Runs.Requests

namespace MpiTestSuite

namespace P2P

/-! ## Communicators -/

/-- The groups of a communicator, by their sizes. -/
inductive Groups
  | intra (size : ℕ)
  | inter (size remoteSize : ℕ)

namespace Groups

def isIntra : Groups → Bool
  | intra _ => true
  | inter _ _ => false

/-- The size of one of two groups; an intra-communicator has no second one. -/
def size : Groups → Bool → ℕ
  | intra n, side => bif side then 0 else n
  | inter n m, side => bif side then m else n

/-- The group that a group exchanges messages with. -/
def remote : Groups → Bool → Bool
  | intra _, side => side
  | inter _ _, side => !side

theorem remote_remote (g : Groups) (side : Bool) : g.remote (g.remote side) = side := by
  cases g with
  | intra => rfl
  | inter => exact Bool.not_not side

end Groups

/-- A communicator: its groups, and the class it has been registered with. -/
structure Communicator where
  groups : Groups
  commClass : Flags
  intra_iff : commClass &&& tstMpiIntraComm ≠ 0 ↔ groups.isIntra = true

namespace Communicator

/-- A process, by its group and its rank there. -/
abbrev Member (c : Communicator) := Σ side : Bool, Fin (c.groups.size side)

/-- `comm_size`: what `MPI_Comm_size` or `MPI_Comm_remote_size` says. -/
def commSize (c : Communicator) (side : Bool) : ℕ :=
  if c.commClass &&& tstMpiIntraComm ≠ 0 then c.groups.size side
  else c.groups.size (c.groups.remote side)

theorem commSize_eq (c : Communicator) (side : Bool) :
    c.commSize side = c.groups.size (c.groups.remote side) := by
  rw [commSize]
  split_ifs with hintra
  · rw [c.intra_iff] at hintra
    cases hgroups : c.groups with
    | intra => rfl
    | inter => simp [hgroups, Groups.isIntra] at hintra
  · rfl

/-- The process that is meant by rank `k` in a call of a process. -/
def peer (c : Communicator) (x : c.Member) (k : Fin (c.commSize x.1)) : c.Member :=
  ⟨c.groups.remote x.1, k.cast (c.commSize_eq x.1)⟩

/-- `comm_rank`. -/
def rank (c : Communicator) (x : c.Member) : ℕ := x.2

end Communicator

/-! ## The tests -/

/-- A test of this kind. -/
structure AlltoallTest where
  /-- What the names of its functions begin with. -/
  functions : String
  mode : Mode
  /-- Whether all receives are started first, with a barrier behind them. -/
  separate : Bool
  /-- The error if a send leaves no request. -/
  message : String
  /-- What a rank sends. -/
  packet : Config → TypeSlot → Env → ℤ → Option Packet
  /-- What is recorded about an arrival from a rank. The buffer of the check may hold anything. -/
  compare : Config → TypeSlot → Env → Memory → Arrival → ℤ → Option (List Env)

def compareArray (cfg : Config) (t : TypeSlot) (env : Env) (_ : Memory) (a : Arrival)
    (commRank : ℤ) : Option (List Env) :=
  tstTestCheckstandardarray cfg t env (a.buffer t env) commRank

/-- One element with `env->extra_type_send`, which is the same element `env->values_num` times. The
receive buffers have been allocated for as many. -/
def sendSameValue (cfg : Config) (t : TypeSlot) (env : Env) (commRank : ℤ) : Option Packet := do
  let sendBuffer ← tstTypeAllocvalues t 1
  let sendBuffer ← tstTypeSetvalue cfg t sendBuffer 0 .value commRank
  let count ← elementCount env.valuesNum
  let _ ← tstTypeAllocvalues t env.valuesNum
  return ⟨sendBuffer, 0, count⟩

/-- Every element that differs from the value is recorded. -/
def compareSameValue (cfg : Config) (t : TypeSlot) (env : Env) (checkBuffer : Memory) (a : Arrival)
    (commRank : ℤ) : Option (List Env) := do
  let checkBuffer ← tstTypeSetvalue cfg t checkBuffer 0 .value commRank
  let differing := (List.range env.valuesNum.toNat).filter fun i : ℕ ↦
    tstTypeCmpvalue t checkBuffer 0 (a.buffer t env) (i * t.size)
  return differing.map fun _ ↦ env

def tstP2pAlltoall : AlltoallTest where
  functions := "tst_p2p_alltoall"
  mode := .standard
  separate := false
  message := "Error in request after MPI_Isend"
  packet := sendArray
  compare := compareArray

def tstP2pAlltoallIssend : AlltoallTest where
  functions := "tst_p2p_alltoall_issend"
  mode := .synchronous
  separate := false
  message := "Error in request after MPI_Issend"
  packet := sendArray
  compare := compareArray

def tstP2pAlltoallIrsend : AlltoallTest where
  functions := "tst_p2p_alltoall_irsend"
  mode := .ready
  separate := true
  message := "Error in request after MPI_Isend"
  packet := sendArray
  compare := compareArray

def tstP2pAlltoallXisend : AlltoallTest where
  functions := "tst_p2p_alltoall_xisend"
  mode := .standard
  separate := false
  message := "Error in request after MPI_Isend"
  packet := sendSameValue
  compare := compareSameValue

def alltoallTests : List AlltoallTest :=
  [tstP2pAlltoall, tstP2pAlltoallIssend, tstP2pAlltoallIrsend, tstP2pAlltoallXisend]

section

variable (test : AlltoallTest) (c : Communicator) (packet : c.Member → Packet) (tag : ℤ)
  (x : c.Member)

/-- The send to rank `k`. -/
def AlltoallTest.send (k : Fin (c.commSize x.1)) : Instr c.Member ℤ Packet :=
  .send (2 * k) test.mode (c.peer x k) tag (packet x)

/-- The receive from rank `comm_size - k - 1`. -/
def alltoallRecv (k : Fin (c.commSize x.1)) : Instr c.Member ℤ Packet :=
  .recv (2 * k + 1) (c.peer x k.rev) tag

/-- The calls that start something, and the barrier. -/
def AlltoallTest.starts : List (Instr c.Member ℤ Packet) :=
  let ranks := List.finRange (c.commSize x.1)
  if test.separate then
    ranks.map (alltoallRecv c tag x) ++ .barrier :: ranks.map (test.send c packet tag x)
  else ranks.flatMap fun k ↦ [test.send c packet tag x k, alltoallRecv c tag x k]

/-- The calls of a rank. -/
def AlltoallTest.program : List (Instr c.Member ℤ Packet) :=
  test.starts c packet tag x ++ [.wait (List.range (c.commSize x.1 * 2))]

end

/-! ## Requests and checks -/

/-- `env->req_buffer` after a call: whether a request is not `MPI_REQUEST_NULL`, and what is checked
then. -/
def AlltoallTest.request {ι : Type} (test : AlltoallTest) (requests : ℕ → Bool) :
    Instr ι ℤ Packet → Except Stop (ℕ → Bool)
  | .send slot _ _ _ _ => started (Function.update requests slot true) slot test.message
  | .recv slot _ _ =>
    started (Function.update requests slot true) slot "Error in request after MPI_Irecv"
  | .wait slots => .ok fun i ↦ requests i && !slots.contains i
  | .barrier => .ok requests
where
  started (requests : ℕ → Bool) (slot : ℕ) (message : String) : Except Stop (ℕ → Bool) :=
    if requests slot then .ok requests else .error (.error message)

/-- What `tst_p2p_alltoall_run` and its likes find wrong when they have made their calls, given what
has been received in each slot: the environments that `tst_test_recordfailure` is called with. -/
def AlltoallTest.run {ι : Type} (test : AlltoallTest) (cfg : Config) (t : TypeSlot) (env : Env)
    (mode : TstMode) (commSize : ℕ) (checkBuffer : ℕ → Memory) (calls : List (Instr ι ℤ Packet))
    (arrival : ℕ → Option Arrival) : Except Stop (List Env) := do
  let requests ← calls.foldlM test.request fun _ ↦ false
  judgeAll (List.range commSize) fun k ↦
    if requests (2 * k) || requests (2 * k + 1) then
      .error (.error "Requests are not reset to MPI_REQUEST_NULL")
    else
      judge env (arrival (2 * k + 1)) (commSize - k - 1) fun a ↦
        a.checkWith env mode "Error in Count"
          (test.compare cfg t env (checkBuffer k) a (commSize - k - 1 : ℕ))

/-! ## Who is meant -/

namespace Communicator

variable {c : Communicator} {x y : c.Member}

theorem exists_peer : (∃ k, y = c.peer x k) ↔ y.1 = c.groups.remote x.1 := by
  constructor
  · rintro ⟨k, rfl⟩
    rfl
  · intro hside
    obtain ⟨side, r⟩ := y
    obtain rfl : side = c.groups.remote x.1 := hside
    exact ⟨r.cast (c.commSize_eq x.1).symm, rfl⟩

/-- Everybody is a peer of its peers. -/
theorem exists_peer_comm : (∃ k, y = c.peer x k) ↔ ∃ k, x = c.peer y k := by
  rw [exists_peer, exists_peer]
  constructor
  · intro hside
    rw [hside, Groups.remote_remote]
  · intro hside
    rw [hside, Groups.remote_remote]

theorem exists_peer_rev : (∃ k : Fin (c.commSize x.1), y = c.peer x k.rev) ↔
    ∃ k, y = c.peer x k := by
  constructor
  · rintro ⟨k, rfl⟩
    exact ⟨k.rev, rfl⟩
  · rintro ⟨k, rfl⟩
    exact ⟨k.rev, by rw [Fin.rev_rev]⟩

theorem peer_injective : Function.Injective (c.peer x) := by
  intro k k' heq
  have hrank : c.rank (c.peer x k) = c.rank (c.peer x k') := by rw [heq]
  exact Fin.ext hrank

theorem rank_peer_rev (k : Fin (c.commSize x.1)) :
    c.rank (c.peer x k.rev) = c.commSize x.1 - k - 1 := by
  show (k.rev : ℕ) = _
  rw [Fin.val_rev, Nat.sub_sub]

end Communicator

/-! ## The calls -/

section

variable {test : AlltoallTest} {c : Communicator} {packet : c.Member → Packet} {tag : ℤ}
  {x : c.Member}

theorem AlltoallTest.mem_starts {a : Instr c.Member ℤ Packet} :
    a ∈ test.starts c packet tag x ↔ (∃ k, a = test.send c packet tag x k) ∨
      (∃ k, a = alltoallRecv c tag x k) ∨ test.separate = true ∧ a = .barrier := by
  rw [starts]
  cases test.separate with
  | true =>
    simp only [if_true, List.mem_append, List.mem_cons, List.mem_map, List.mem_finRange, true_and,
      eq_comm (b := a)]
    tauto
  | false =>
    simp only [Bool.false_eq_true, if_false, List.mem_flatMap, List.mem_finRange, true_and,
      List.mem_cons, List.not_mem_nil, or_false, false_and, exists_or]

/-- What holds of any two calls in the order in which they are made. -/
theorem AlltoallTest.pairwise_starts {R : Instr c.Member ℤ Packet → Instr c.Member ℤ Packet → Prop}
    (hsend : ∀ k k', k < k' → R (test.send c packet tag x k) (test.send c packet tag x k'))
    (hrecv : ∀ k k', k < k' → R (alltoallRecv c tag x k) (alltoallRecv c tag x k'))
    (hboth : ∀ k k', R (test.send c packet tag x k) (alltoallRecv c tag x k') ∧
      R (alltoallRecv c tag x k) (test.send c packet tag x k'))
    (hbarrier : ∀ k, R (alltoallRecv c tag x k) .barrier ∧
      R .barrier (test.send c packet tag x k)) :
    (test.starts c packet tag x).Pairwise R := by
  have hranks := List.pairwise_lt_finRange (c.commSize x.1)
  rw [starts]
  cases test.separate with
  | true =>
    rw [if_pos rfl, List.pairwise_append, List.pairwise_cons, List.pairwise_map, List.pairwise_map]
    refine ⟨hranks.imp fun {k k'} ↦ hrecv k k',
      ⟨List.forall_mem_map.mpr fun k _ ↦ (hbarrier k).2, hranks.imp fun {k k'} ↦ hsend k k'⟩, ?_⟩
    refine List.forall_mem_map.mpr fun k _ ↦ List.forall_mem_cons.mpr ⟨(hbarrier k).1, ?_⟩
    exact List.forall_mem_map.mpr fun k' _ ↦ (hboth k k').2
  | false =>
    rw [if_neg Bool.false_ne_true, List.pairwise_flatMap]
    refine ⟨fun k _ ↦ List.pairwise_pair.mpr (hboth k k).1, hranks.imp fun {k k'} hlt ↦ ?_⟩
    simp only [List.forall_mem_cons, List.not_mem_nil, IsEmpty.forall_iff, implies_true, and_true]
    exact ⟨⟨hsend k k' hlt, (hboth k k').1⟩, (hboth k k').2, hrecv k k' hlt⟩

/-- The wait is the last call. -/
theorem AlltoallTest.pairwise_program
    {R : Instr c.Member ℤ Packet → Instr c.Member ℤ Packet → Prop}
    (hstarts : (test.starts c packet tag x).Pairwise R)
    (hwait : ∀ a ∈ test.starts c packet tag x, R a (.wait (List.range (c.commSize x.1 * 2)))) :
    (test.program c packet tag x).Pairwise R := by
  rw [program, List.pairwise_append]
  refine ⟨hstarts, List.pairwise_singleton _ _, fun a ha b hb ↦ ?_⟩
  rw [List.mem_singleton.mp hb]
  exact hwait a ha

theorem AlltoallTest.mem_program {a : Instr c.Member ℤ Packet} :
    a ∈ test.program c packet tag x ↔
      a ∈ test.starts c packet tag x ∨ a = .wait (List.range (c.commSize x.1 * 2)) := by
  rw [program, List.mem_append, List.mem_singleton]

theorem AlltoallTest.send_mem_program {i : ℕ} {mode : Mode} {y : c.Member} {k : ℤ}
    {packet' : Packet} : .send i mode y k packet' ∈ test.program c packet tag x ↔
      mode = test.mode ∧ k = tag ∧ packet' = packet x ∧
        ∃ j : Fin (c.commSize x.1), i = 2 * j ∧ y = c.peer x j := by
  simp only [mem_program, mem_starts, send, alltoallRecv, reduceCtorEq, and_false, or_false,
    exists_false, Instr.send.injEq]
  constructor
  · rintro ⟨j, rfl, rfl, rfl, rfl, rfl⟩
    exact ⟨rfl, rfl, rfl, j, rfl, rfl⟩
  · rintro ⟨rfl, rfl, rfl, j, rfl, rfl⟩
    exact ⟨j, rfl, rfl, rfl, rfl, rfl⟩

theorem AlltoallTest.recv_mem_program {i : ℕ} {y : c.Member} {k : ℤ} :
    .recv i y k ∈ test.program c packet tag x ↔
      k = tag ∧ ∃ j : Fin (c.commSize x.1), i = 2 * j + 1 ∧ y = c.peer x j.rev := by
  simp only [mem_program, mem_starts, send, alltoallRecv, reduceCtorEq, and_false, or_false,
    false_or, exists_false, Instr.recv.injEq]
  constructor
  · rintro ⟨j, rfl, rfl, rfl⟩
    exact ⟨rfl, j, rfl, rfl⟩
  · rintro ⟨rfl, j, rfl, rfl⟩
    exact ⟨j, rfl, rfl, rfl⟩

theorem AlltoallTest.barrier_mem_program :
    .barrier ∈ test.program c packet tag x ↔ test.separate = true := by
  simp [mem_program, mem_starts, send, alltoallRecv]

/-- No slot is used twice. -/
theorem AlltoallTest.slots_program :
    (test.program c packet tag x).Pairwise fun a b ↦ ∀ i ∈ a.slot?, i ∉ b.slot? := by
  refine pairwise_program (pairwise_starts (fun k k' hlt i hi hi' ↦ ?_)
    (fun k k' hlt i hi hi' ↦ ?_) (fun k k' ↦ ⟨fun i hi hi' ↦ ?_, fun i hi hi' ↦ ?_⟩)
    fun k ↦ ⟨fun i _ ↦ nofun, nofun⟩) fun a _ i _ ↦ nofun
  all_goals
    have hslot := Option.some_inj.mp hi
    have hslot' := Option.some_inj.mp hi'
    omega

/-- No two sends go to the same process, and no two receives wait for the same one. -/
theorem AlltoallTest.envelopes_program :
    (test.program c packet tag x).Pairwise fun a b ↦ ∀ e ∈ a.envelope?, e ∉ b.envelope? := by
  refine pairwise_program (pairwise_starts (fun k k' hlt e he he' ↦ ?_)
    (fun k k' hlt e he he' ↦ ?_) (fun k k' ↦ ⟨fun e he he' ↦ ?_, fun e he he' ↦ ?_⟩)
    fun k ↦ ⟨fun e _ ↦ nofun, nofun⟩) fun a _ e _ ↦ nofun
  · have heq := Option.some_inj.mp (he.trans he'.symm)
    simp only [Prod.mk.injEq, true_and] at heq
    exact hlt.ne (Communicator.peer_injective heq.1)
  · have heq := Option.some_inj.mp (he.trans he'.symm)
    simp only [Prod.mk.injEq, true_and] at heq
    exact hlt.ne (Fin.rev_injective (Communicator.peer_injective heq.1))
  · cases Option.some_inj.mp (he.trans he'.symm)
  · cases Option.some_inj.mp (he.trans he'.symm)

/-- Every slot is used. -/
theorem AlltoallTest.exists_slot {i : ℕ} : (∃ a ∈ test.program c packet tag x, a.slot? = some i) ↔
    i < c.commSize x.1 * 2 := by
  constructor
  · rintro ⟨a, ha, hslot⟩
    rcases mem_program.mp ha with ha | rfl
    · rcases mem_starts.mp ha with ⟨k, rfl⟩ | ⟨k, rfl⟩ | ⟨-, rfl⟩
      · have hi := Option.some_inj.mp hslot
        omega
      · have hi := Option.some_inj.mp hslot
        omega
      · cases hslot
    · cases hslot
  · intro hi
    have hk : i / 2 < c.commSize x.1 := by omega
    rcases Nat.mod_two_eq_zero_or_one i with hmod | hmod
    · refine ⟨test.send c packet tag x ⟨i / 2, hk⟩,
        mem_program.mpr (Or.inl (mem_starts.mpr (Or.inl ⟨_, rfl⟩))), ?_⟩
      show some (2 * (i / 2)) = some i
      rw [Nat.mul_div_cancel' (Nat.dvd_of_mod_eq_zero hmod)]
    · refine ⟨alltoallRecv c tag x ⟨i / 2, hk⟩,
        mem_program.mpr (Or.inl (mem_starts.mpr (Or.inr (Or.inl ⟨_, rfl⟩)))), ?_⟩
      show some (2 * (i / 2) + 1) = some i
      congr 1
      omega

/-- **Slots.** Each of the slots is filled by one call. -/
theorem AlltoallTest.perm_slots : ((test.program c packet tag x).filterMap Instr.slot?).Perm
    (List.range (c.commSize x.1 * 2)) := by
  refine (List.perm_ext_iff_of_nodup ?_ List.nodup_range).mpr fun i ↦ ?_
  · refine slots_program.filterMap _ ?_
    rintro a b hab i hi j hj rfl
    exact hab i hi hj
  · rw [List.mem_filterMap, exists_slot, List.mem_range]

/-- **Matching.** There is a send to a process exactly if there is a receive for it. -/
theorem AlltoallTest.partner_program {y : c.Member} {k : ℤ} :
    (∃ i mode packet', .send i mode y k packet' ∈ test.program c packet tag x) ↔
      ∃ i, .recv i x k ∈ test.program c packet tag y := by
  simp only [send_mem_program, recv_mem_program]
  have hpeer := (Communicator.exists_peer_comm (x := x) (y := y)).trans
    Communicator.exists_peer_rev.symm
  constructor
  · rintro ⟨i, mode, packet', rfl, rfl, rfl, j, -, hj⟩
    obtain ⟨j', hj'⟩ := hpeer.mp ⟨j, hj⟩
    exact ⟨_, rfl, j', rfl, hj'⟩
  · rintro ⟨i, rfl, j, -, hj⟩
    obtain ⟨j', hj'⟩ := hpeer.mpr ⟨j, hj⟩
    exact ⟨_, _, _, rfl, rfl, rfl, j', rfl, hj'⟩

theorem AlltoallTest.paired_program : Paired (test.program c packet tag) where
  slots _ := slots_program
  envelopes _ := envelopes_program
  partner _ _ _ := partner_program

theorem AlltoallTest.countP_barrier : (test.program c packet tag x).countP Instr.isBarrier
    = test.separate.toNat := by
  have hnone : ∀ {ι' : Type} (l : List ι') (f : ι' → Instr c.Member ℤ Packet),
      (∀ k, (f k).isBarrier = false) → (l.map f).countP Instr.isBarrier = 0 := by
    intro ι' l f hf
    refine List.countP_eq_zero.mpr (List.forall_mem_map.mpr fun k _ ↦ ?_)
    rw [hf k]
    exact Bool.false_ne_true
  rw [program, List.countP_append, starts]
  cases test.separate with
  | true =>
    rw [if_pos rfl, List.countP_append, List.countP_cons_of_pos rfl, hnone _ _ fun _ ↦ rfl,
      hnone _ _ fun _ ↦ rfl]
    rfl
  | false =>
    rw [if_neg Bool.false_ne_true, List.countP_flatMap]
    simp [send, alltoallRecv, Instr.isBarrier, Function.comp_def]

/-- Nothing stands behind the only wait, so all messages may have the same level. -/
theorem AlltoallTest.leveled_program :
    Leveled (fun _ _ _ ↦ 0) (test.program c packet tag) := by
  refine ⟨paired_program, fun x slots hwait i hi ↦ ?_, fun x ↦ ?_, fun x y ↦ ?_⟩
  · rcases mem_program.mp hwait with hstart | heq
    · rcases mem_starts.mp hstart with ⟨k, hk⟩ | ⟨k, hk⟩ | ⟨-, hk⟩ <;> cases hk
    · rw [Instr.wait.inj heq, List.mem_range] at hi
      exact exists_slot.mpr hi
  · exact pairwise_program (pairwise_starts (fun _ _ _ ↦ behind_of_slot rfl)
      (fun _ _ _ ↦ behind_of_slot rfl) (fun _ _ ↦ ⟨behind_of_slot rfl, behind_of_slot rfl⟩)
      fun _ ↦ ⟨behind_of_slot rfl, behind_barrier⟩) fun _ _ ↦ behind_wait _
  · rw [countP_barrier, countP_barrier]

/-- **Ready sends.** A test with ready sends has a barrier in front of them, and all receives in
front of the barrier. -/
theorem AlltoallTest.readyInTime (htest : test ∈ alltoallTests)
    {s : State c.Member ℤ Packet} (h : Genuine (test.program c packet tag) s) : s.ReadyInTime := by
  have hseparate : test.mode = .ready → test.separate = true := by
    simp only [alltoallTests, List.mem_cons, List.not_mem_nil, or_false] at htest
    rcases htest with rfl | rfl | rfl | rfl <;> decide
  refine h.readyInTime paired_program (fun x a ha hready ↦ ?_) (fun x ↦ ?_) fun x ↦ ?_
  · cases a with
    | send i mode y k packet' =>
      obtain ⟨rfl, -⟩ := send_mem_program.mp ha
      refine ⟨.barrier, barrier_mem_program.mpr (hseparate ?_), rfl⟩
      cases hmode : test.mode with
      | ready => rfl
      | standard => simp [hmode, Instr.isReady] at hready
      | synchronous => simp [hmode, Instr.isReady] at hready
    | recv => cases hready
    | wait => cases hready
    | barrier => cases hready
  · exact pairwise_program (pairwise_starts (fun _ _ _ _ ↦ rfl) (fun _ _ _ _ ↦ rfl)
      (fun _ _ ↦ ⟨fun _ ↦ rfl, fun _ ↦ rfl⟩) fun _ ↦ ⟨nofun, fun _ ↦ rfl⟩) fun _ _ _ ↦ rfl
  · exact pairwise_program (pairwise_starts (fun _ _ _ ↦ nofun) (fun _ _ _ ↦ nofun)
      (fun _ _ ↦ ⟨nofun, nofun⟩) fun _ ↦ ⟨nofun, fun _ ↦ rfl⟩) fun _ _ _ ↦ rfl

end

/-! ## What is sent and what is expected -/

/-- The bytes of an element of a packet, from its lower to its upper bound. -/
def Packet.element (t : TypeSlot) (packet : Packet) (i : ℕ) : List UInt8 :=
  load packet.buffer (i * packet.stride + t.lb) t.size.toNat

/-- The elements of a buffer are those of a packet, as far as a comparison can tell. -/
def Packet.Matches (t : TypeSlot) (env : Env) (packet : Packet) (buffer : Memory) : Prop :=
  ∀ i : ℕ, i < env.valuesNum.toNat →
    tstTypeCmpvalue t buffer (i * t.size) packet.buffer (i * packet.stride) = false

/-- What a rank sends arrives, and nothing is recorded about it. -/
structure AlltoallTest.Sound (test : AlltoallTest) (cfg : Config) (t : TypeSlot) (env : Env)
    (commRank : ℕ) (packet : Packet) : Prop where
  count : packet.count = env.valuesNum
  elements : ∀ a : Arrival, a.packet = packet → ∀ i < env.valuesNum.toNat,
    window t (a.buffer t env) i = packet.element t i
  compare : ∀ checkBuffer, ∀ a : Arrival, a.packet = packet →
    test.compare cfg t env checkBuffer a commRank = some []
  /-- Whatever arrives as the message of the rank is compared with what the rank sends. -/
  judged : ∀ checkBuffer, ∀ a : Arrival, ∃ calls,
    test.compare cfg t env checkBuffer a commRank = some calls ∧
      (calls = [] ↔ packet.Matches t env (a.buffer t env))

section

variable {cfg : Config} {t : TypeSlot} {env : Env} {commRank : ℕ}

theorem sound_array (ht : t ∈ initTypes cfg) (hnull : t.datatype ≠ .null) {test : AlltoallTest}
    (hcompare : test.compare = compareArray) (hbound : commRank + env.valuesNum.toNat ≤ 2 ^ 32)
    {packet : Packet} (hpacket : sendArray cfg t env commRank = some packet) :
    test.Sound cfg t env commRank packet := by
  have hfits := (exists_sendArray_iff ht hnull).mp ⟨packet, hpacket⟩
  obtain ⟨-, sendBuffer, hset, rfl⟩ := sendArray_eq_some_iff.mp hpacket
  obtain ⟨fields, hsendable⟩ := exists_sendable cfg ht hnull hfits.size
  have h := hsendable.settable
  refine ⟨rfl, fun a ha i hi ↦ ?_, fun checkBuffer a ha ↦ ?_, fun checkBuffer a ↦ ?_⟩
  · rw [Arrival.window_buffer ht hnull hset ha hi, window, Packet.element, Packet.values,
      hsendable.extent_eq]
  · rw [hcompare]
    exact Arrival.testCheckstandardarray_buffer ht hnull hset ha (by omega) (by omega)
  · obtain ⟨m, rfl⟩ := exists_written h hset
    refine ⟨_, by rw [hcompare, compareArray, h.testCheckstandardarray_eq], ?_⟩
    have hmatches : Packet.Matches t env (.values t env
        (written cfg t fields commRank env.valuesNum.toNat m)) (a.buffer t env) ↔
        HoldsStandardArray cfg t env.valuesNum.toNat commRank (a.buffer t env) := by
      rw [h.holdsStandardArray_iff]
      refine forall₂_congr fun i hi ↦ ?_
      rw [h.cmpvalue_written commRank m _ hi, Packet.values, hsendable.extent_eq]
      rfl
    rw [hmatches]
    simp

/-- An element that has been set, on its own. -/
theorem setFields_alone {fields : List FieldStore} (h : Settable cfg t fields) (m : Memory)
    (x : TypeSet × ℤ) {q : ℤ} (hlo : t.lb ≤ q) (hhi : q < t.ub) :
    setFields cfg t fields m 0 x.1 x.2 q = elementOf cfg t fields x q := by
  have hwindow := h.setFields_window m (fun _ ↦ 0) 0 0 x.1 x.2 hlo hhi
  rwa [zero_add] at hwindow

/-- With stride zero one element arrives in every place. -/
theorem buffer_sameValue (ht : t ∈ initTypes cfg) (hnull : t.datatype ≠ .null)
    {fields : List FieldStore} (h : Settable cfg t fields) {a : Arrival}
    (ha : a.packet = ⟨setFields cfg t fields (freshValues t 1) 0 .value commRank, 0,
      env.valuesNum⟩) {i : ℕ} (hi : i < env.valuesNum.toNat) {q : ℤ} (hlo : t.lb ≤ q)
    (hhi : q < t.ub) :
    a.buffer t env (i * t.size + q) = elementOf cfg t fields (.value, commRank) q := by
  rw [Arrival.buffer, ha]
  refine h.transferred_elements ht hnull (x := fun _ ↦ (.value, commRank))
    (fun _ i _ q hlo hhi ↦ ?_) i hi q hlo hhi
  rw [mul_zero, zero_add]
  exact setFields_alone h (freshValues t 1) (.value, commRank) hlo hhi

/-- What differs from the value is recorded. -/
theorem compareSameValue_eq {fields : List FieldStore} (h : Settable cfg t fields)
    (checkBuffer : Memory) (a : Arrival) :
    compareSameValue cfg t env checkBuffer a commRank
      = some (((List.range env.valuesNum.toNat).filter fun i : ℕ ↦ tstTypeCmpvalue t
          (a.buffer t env) (i * t.size) (elementOf cfg t fields (.value, commRank)) 0).map
            fun _ ↦ env) := by
  have hdiffers : ∀ i ∈ List.range env.valuesNum.toNat,
      tstTypeCmpvalue t (setFields cfg t fields checkBuffer 0 .value commRank) 0 (a.buffer t env)
          (i * t.size)
        = tstTypeCmpvalue t (a.buffer t env) (i * t.size)
          (elementOf cfg t fields (.value, commRank)) 0 := fun i _ ↦ by
    rw [cmpvalue_comm, h.cmpvalue_setFields _ _ checkBuffer (.value, commRank)]
  rw [compareSameValue, h.setvalue_eq]
  simp only [Option.pure_def, Option.bind_eq_bind, Option.bind_some, Option.some_inj]
  rw [List.filter_congr hdiffers]

/-- Nothing differs from the value if it is everywhere. -/
theorem cmpvalue_sameValue {fields : List FieldStore} (h : Settable cfg t fields)
    (hbound : commRank < 2 ^ 64) {buffer : Memory} {i : ℕ} (hbuffer : ∀ q, t.lb ≤ q → q < t.ub →
      buffer (i * t.size + q) = elementOf cfg t fields (.value, commRank) q) :
    tstTypeCmpvalue t buffer (i * t.size) (elementOf cfg t fields (.value, commRank)) 0
      = false := by
  have hreceived : tstTypeCmpvalue t (elementOf cfg t fields (.value, commRank)) 0
      buffer (i * t.size) = tstTypeCmpvalue t
      (elementOf cfg t fields (.value, commRank)) 0
      (elementOf cfg t fields (.value, commRank)) 0 :=
    h.cmpvalue_congr _ 0 fun q hlo hhi ↦ by
      rw [zero_add]
      exact hbuffer q hlo hhi
  rw [cmpvalue_comm, hreceived]
  exact h.cmpvalue_elementOf_self hbound

/-- The packets of equal values. -/
theorem sendSameValue_eq_some_iff {fields : List FieldStore} (h : Settable cfg t fields)
    {packet : Packet} : sendSameValue cfg t env commRank = some packet ↔
      (HasBlock t 1 ∧ ArrayFits t env.valuesNum) ∧
        packet
          = ⟨setFields cfg t fields (freshValues t 1) 0 .value commRank, 0, env.valuesNum⟩ := by
  rw [sendSameValue, arrayFits_iff, tstTypeAllocvalues, tstTypeAllocvalues]
  by_cases hone : HasBlock t 1
  · by_cases hcount : 0 ≤ env.valuesNum
    · by_cases hblock : HasBlock t env.valuesNum
      · simp [hone, elementCount_of_nonneg hcount, hcount, hblock, h.setvalue_eq, freshValues,
          eq_comm]
      · simp [hone, hcount, hblock, h.setvalue_eq]
    · simp [hone, elementCount_eq_none hcount, hcount, h.setvalue_eq]
  · simp [hone]

theorem sound_sameValue (ht : t ∈ initTypes cfg) (hnull : t.datatype ≠ .null)
    {test : AlltoallTest} (hcompare : test.compare = compareSameValue) (hbound : commRank < 2 ^ 64)
    {packet : Packet} (hpacket : sendSameValue cfg t env commRank = some packet) :
    test.Sound cfg t env commRank packet := by
  obtain ⟨fields, h⟩ := exists_settable cfg ht hnull
  have hsize : t.size = t.ub - t.lb := rfl
  obtain ⟨-, rfl⟩ := (sendSameValue_eq_some_iff h).mp hpacket
  have halone : ∀ q, t.lb ≤ q → q < t.ub →
      setFields cfg t fields (freshValues t 1) 0 .value commRank q
        = elementOf cfg t fields (.value, commRank) q := fun q hlo hhi ↦
    setFields_alone h (freshValues t 1) (.value, commRank) hlo hhi
  refine ⟨rfl, fun a ha i hi ↦ load_congr fun k hk ↦ ?_, fun checkBuffer a ha ↦ ?_,
    fun checkBuffer a ↦ ⟨_, by rw [hcompare, compareSameValue_eq h], ?_⟩⟩
  · have hlo : t.lb ≤ t.lb + k := by omega
    have hhi : t.lb + k < t.ub := by omega
    rw [add_assoc, buffer_sameValue ht hnull h ha hi hlo hhi, mul_zero, zero_add]
    exact (halone _ hlo hhi).symm
  · rw [hcompare, compareSameValue_eq h, Option.some_inj, List.map_eq_nil_iff,
      List.filter_eq_nil_iff]
    intro i hi
    rw [Bool.not_eq_true]
    exact cmpvalue_sameValue h hbound fun q hlo hhi ↦
      buffer_sameValue ht hnull h ha (List.mem_range.mp hi) hlo hhi
  · rw [List.map_eq_nil_iff, List.filter_eq_nil_iff, Packet.Matches]
    simp only [List.mem_range, Bool.not_eq_true]
    refine forall₂_congr fun i hi ↦ ?_
    rw [mul_zero, h.cmpvalue_congr (a.buffer t env) (i * t.size) fun q hlo hhi ↦ ?_]
    rw [zero_add]
    exact (halone q hlo hhi).symm

/-- **Sizes.** A rank has something to send exactly if the arrays fit. -/
theorem exists_packet_iff (ht : t ∈ initTypes cfg) (hnull : t.datatype ≠ .null)
    {test : AlltoallTest} (htest : test ∈ alltoallTests) :
    (∃ packet, test.packet cfg t env commRank = some packet) ↔ ArrayFits t env.valuesNum := by
  have hsame : (∃ packet, sendSameValue cfg t env commRank = some packet) ↔
      ArrayFits t env.valuesNum := by
    obtain ⟨fields, h⟩ := exists_settable cfg ht hnull
    simp only [sendSameValue_eq_some_iff h, exists_and_left, exists_eq, and_true]
    exact and_iff_right_of_imp fun hfits ↦ hasBlock_one cfg ht hfits.size
  simp only [alltoallTests, List.mem_cons, List.not_mem_nil, or_false] at htest
  rcases htest with rfl | rfl | rfl | rfl
  · exact exists_sendArray_iff ht hnull
  · exact exists_sendArray_iff ht hnull
  · exact exists_sendArray_iff ht hnull
  · exact hsame

/-- All tests. -/
theorem sound_packet (ht : t ∈ initTypes cfg) (hnull : t.datatype ≠ .null)
    (hbound : commRank + env.valuesNum.toNat ≤ 2 ^ 32) {test : AlltoallTest}
    (htest : test ∈ alltoallTests) {packet : Packet}
    (hpacket : test.packet cfg t env commRank = some packet) :
    test.Sound cfg t env commRank packet := by
  simp only [alltoallTests, List.mem_cons, List.not_mem_nil, or_false] at htest
  rcases htest with rfl | rfl | rfl | rfl
  · exact sound_array ht hnull rfl hbound hpacket
  · exact sound_array ht hnull rfl hbound hpacket
  · exact sound_array ht hnull rfl hbound hpacket
  · exact sound_sameValue ht hnull rfl (by omega) hpacket

end

/-! ## Requests -/

section

variable {test : AlltoallTest} {c : Communicator} {packet : c.Member → Packet} {tag : ℤ}
  {x : c.Member}

/-- A request that has just been started is not `MPI_REQUEST_NULL`. -/
theorem AlltoallTest.exists_request {ι : Type} (test : AlltoallTest) (requests : ℕ → Bool)
    (a : Instr ι ℤ Packet) : ∃ requests', test.request requests a = .ok requests' := by
  have hstarted : ∀ slot message, request.started (Function.update requests slot true) slot message
      = .ok (Function.update requests slot true) := fun slot message ↦ by
    rw [request.started, Function.update_self, if_pos rfl]
  cases a with
  | send slot mode dest key payload => exact ⟨_, hstarted slot test.message⟩
  | recv slot source key => exact ⟨_, hstarted slot "Error in request after MPI_Irecv"⟩
  | wait slots => exact ⟨_, rfl⟩
  | barrier => exact ⟨_, rfl⟩

theorem AlltoallTest.exists_requests {ι : Type} (test : AlltoallTest)
    (calls : List (Instr ι ℤ Packet)) (requests : ℕ → Bool) :
    ∃ requests', calls.foldlM test.request requests = .ok requests' := by
  induction calls generalizing requests with
  | nil => exact ⟨requests, rfl⟩
  | cons a calls ih =>
    obtain ⟨requests', hrequest⟩ := test.exists_request requests a
    rw [Runs.foldlM_cons_ok hrequest]
    exact ih requests'

/-- After `MPI_Waitall` all requests are `MPI_REQUEST_NULL`. -/
theorem AlltoallTest.requests_program (test : AlltoallTest) (c : Communicator)
    (packet : c.Member → Packet) (tag : ℤ) (x : c.Member) :
    ∃ requests, (test.program c packet tag x).foldlM test.request (fun _ ↦ false) = .ok requests ∧
      ∀ i < c.commSize x.1 * 2, requests i = false := by
  obtain ⟨requests, hstarts⟩ := test.exists_requests (test.starts c packet tag x) fun _ ↦ false
  refine ⟨fun i ↦ requests i && !(List.range (c.commSize x.1 * 2)).contains i, ?_, fun i hi ↦ ?_⟩
  · rw [program, List.foldlM_append, hstarts]
    rfl
  · simp [hi]

/-- When all calls have been made, what has been received is judged. -/
theorem AlltoallTest.run_program (test : AlltoallTest) (c : Communicator)
    (packet : c.Member → Packet) (tag : ℤ) (x : c.Member) (cfg : Config) (t : TypeSlot) (env : Env)
    (mode : TstMode) (checkBuffer : ℕ → Memory) (arrival : ℕ → Option Arrival) :
    test.run cfg t env mode (c.commSize x.1) checkBuffer (test.program c packet tag x) arrival
      = judgeAll (List.range (c.commSize x.1)) fun k ↦
        judge env (arrival (2 * k + 1)) (c.commSize x.1 - k - 1) fun a ↦
          a.checkWith env mode "Error in Count"
            (test.compare cfg t env (checkBuffer k) a (c.commSize x.1 - k - 1 : ℕ)) := by
  obtain ⟨requests, hrequests, hnull⟩ := test.requests_program c packet tag x
  rw [run, hrequests, Runs.ok_bind]
  refine judgeAll_congr fun k hk ↦ ?_
  have hlt := List.mem_range.mp hk
  rw [hnull (2 * k) (by omega), hnull (2 * k + 1) (by omega), Bool.or_self,
    if_neg Bool.false_ne_true]

end

/-! ## Every run -/

/-- What the calls of the ranks are like. -/
structure AlltoallPosts (test : AlltoallTest) (c : Communicator) (packet : c.Member → Packet)
    (tag : ℤ) : Prop where
  /-- Each slot is filled by one call. -/
  slots : ∀ x, ((test.program c packet tag x).filterMap Instr.slot?).Perm
    (List.range (c.commSize x.1 * 2))
  /-- The last call waits for all of them. -/
  waits : ∀ x,
    (test.program c packet tag x).getLast? = some (.wait (List.range (c.commSize x.1 * 2)))
  /-- A process sends once to each peer, -/
  sends : ∀ x y, (test.program c packet tag x).countP (fun a ↦ (a.sendTo? y tag).isSome)
    = if y.1 = c.groups.remote x.1 then 1 else 0
  /-- who has one receive for that. -/
  recvs : ∀ x y, (test.program c packet tag y).countP (fun a ↦ (a.recvFrom? x tag).isSome)
    = if y.1 = c.groups.remote x.1 then 1 else 0

/-- What the tests promise of a state that is reached. -/
structure AlltoallWorks (test : AlltoallTest) (cfg : Config) (t : TypeSlot) (env : Env)
    (mode : TstMode) (c : Communicator) (packet : c.Member → Packet)
    (s : State c.Member ℤ Packet) : Prop where
  /-- As long as a process has something left to do, there is a step. -/
  noDeadlock : ∀ x, s.todo x ≠ [] → ∃ s', Step s s'
  /-- A ready send is not started before its receive. -/
  ready : s.ReadyInTime
  /-- What is matched is a send to a rank, and a receive from a rank, in their slots. -/
  matched : ∀ d ∈ s.delivered,
    (∃ k : Fin (c.commSize d.source.1), d.sendSlot = 2 * k ∧ d.dest = c.peer d.source k) ∧
      ∃ k : Fin (c.commSize d.dest.1), d.recvSlot = 2 * k + 1 ∧ d.source = c.peer d.dest k.rev
  /-- A process that is through has received one message from each peer. -/
  once : ∀ x y, y.1 = c.groups.remote x.1 → s.todo x = [] →
    s.delivered.countP (fun d ↦ d.source = y ∧ d.dest = x) = 1
  /-- What is in a buffer has been sent by the rank that it is judged by. -/
  elements : ∀ x (k : Fin (c.commSize x.1)), ∀ a ∈ arrival? s c.rank x (2 * k + 1),
    a.source = c.commSize x.1 - k - 1 ∧ ∀ i < env.valuesNum.toNat,
      window t (a.buffer t env) i = (packet (c.peer x k.rev)).element t i
  /-- No `ERROR` is raised and no failure is recorded. -/
  quiet : ∀ x, s.todo x = [] → ∀ checkBuffer, test.run cfg t env mode (c.commSize x.1) checkBuffer
    (s.done x) (arrival? s c.rank x) = .ok []
  /-- Whatever had arrived from the right ranks, a buffer is compared with what its rank sends. -/
  judged : ∀ x, s.todo x = [] → ∀ checkBuffer (arrival : ℕ → Option Arrival)
    (a : Fin (c.commSize x.1) → Arrival), (∀ k : Fin (c.commSize x.1),
      arrival (2 * k + 1) = some (a k) ∧ (a k).source = c.rank (c.peer x k.rev) ∧
        (a k).tag = env.tag ∧ (a k).packet.count = env.valuesNum) →
    ∃ calls,
      test.run cfg t env mode (c.commSize x.1) checkBuffer (s.done x) arrival = .ok calls ∧
      (calls = [] ↔ ∀ k, (packet (c.peer x k.rev)).Matches t env ((a k).buffer t env))

section

variable {test : AlltoallTest} {c : Communicator} {packet : c.Member → Packet} {tag : ℤ}

theorem alltoallPosts : AlltoallPosts test c packet tag where
  slots _ := AlltoallTest.perm_slots
  waits x := List.getLast?_concat
  sends x y := by
    split_ifs with hside
    · obtain ⟨k, hk⟩ := Communicator.exists_peer.mpr hside
      exact Paired.countP_eq_one AlltoallTest.envelopes_program
        (fun a _ ↦ Instr.isSome_sendTo?)
        (AlltoallTest.send_mem_program.mpr ⟨rfl, rfl, rfl, k, rfl, hk⟩) rfl
    · refine List.countP_eq_zero.mpr fun a ha hsome ↦ hside ?_
      obtain ⟨i, mode, payload, rfl⟩ := Instr.mem_envelope?_send.mp (Instr.isSome_sendTo?.mp hsome)
      obtain ⟨-, -, -, k, -, hk⟩ := AlltoallTest.send_mem_program.mp ha
      exact Communicator.exists_peer.mp ⟨k, hk⟩
  recvs x y := by
    have hpeer := (Communicator.exists_peer.symm.trans
      Communicator.exists_peer_comm).trans (Communicator.exists_peer_rev (x := y) (y := x)).symm
    split_ifs with hside
    · obtain ⟨k, hk⟩ := hpeer.mp hside
      exact Paired.countP_eq_one AlltoallTest.envelopes_program
        (fun a _ ↦ Instr.isSome_recvFrom?)
        (AlltoallTest.recv_mem_program.mpr ⟨rfl, k, rfl, hk⟩) rfl
    · refine List.countP_eq_zero.mpr fun a ha hsome ↦ hside ?_
      obtain ⟨i, rfl⟩ := Instr.mem_envelope?_recv.mp (Instr.isSome_recvFrom?.mp hsome)
      obtain ⟨-, k, -, hk⟩ := AlltoallTest.recv_mem_program.mp ha
      exact hpeer.mpr ⟨k, hk⟩

variable {cfg : Config} {t : TypeSlot} {env : Env} {s : State c.Member ℤ Packet}

/-- What has arrived from the right ranks is compared with what they send. -/
theorem AlltoallTest.run_judged (mode : TstMode) (checkBuffer : ℕ → Memory) {x : c.Member}
    {arrival : ℕ → Option Arrival} {a : Fin (c.commSize x.1) → Arrival}
    (hexpected : ∀ k : Fin (c.commSize x.1),
      test.Sound cfg t env (c.commSize x.1 - k - 1) (packet (c.peer x k.rev)))
    (ha : ∀ k : Fin (c.commSize x.1),
      arrival (2 * k + 1) = some (a k) ∧ (a k).source = c.rank (c.peer x k.rev) ∧
        (a k).tag = env.tag ∧ (a k).packet.count = env.valuesNum) :
    ∃ calls,
      test.run cfg t env mode (c.commSize x.1) checkBuffer (test.program c packet tag x) arrival
        = .ok calls ∧
      (calls = [] ↔ ∀ k, (packet (c.peer x k.rev)).Matches t env ((a k).buffer t env)) := by
  choose calls hcalls hmatches using fun k : Fin (c.commSize x.1) ↦
    (hexpected k).judged (checkBuffer k) (a k)
  have hjudge : ∀ k ∈ List.range (c.commSize x.1),
      judge env (arrival (2 * k + 1)) (c.commSize x.1 - k - 1) (fun a ↦
        a.checkWith env mode "Error in Count"
          (test.compare cfg t env (checkBuffer k) a (c.commSize x.1 - k - 1 : ℕ)))
        = .ok (if hk : k < c.commSize x.1 then calls ⟨k, hk⟩ else []) := by
    intro k hk
    have hlt := List.mem_range.mp hk
    obtain ⟨hsome, hsource, htag, hcount⟩ := ha ⟨k, hlt⟩
    rw [Communicator.rank_peer_rev] at hsource
    rw [hsome, judge, if_neg (by simp [hsource, htag]), Arrival.checkWith_of_count mode _ hcount,
      hcalls ⟨k, hlt⟩, dif_pos hlt, orStop]
  rw [test.run_program, judgeAll_eq_ok hjudge]
  refine ⟨_, rfl, ?_⟩
  rw [List.flatMap_eq_nil_iff]
  constructor
  · intro hall k
    have hk := hall k (List.mem_range.mpr k.isLt)
    rw [dif_pos k.isLt] at hk
    exact (hmatches k).mp hk
  · intro hall k hk
    have hlt := List.mem_range.mp hk
    rw [dif_pos hlt]
    exact (hmatches ⟨k, hlt⟩).mpr (hall ⟨k, hlt⟩)

theorem alltoallWorks_of_reachable (mode : TstMode) (htest : test ∈ alltoallTests)
    (hsound : ∀ x, test.Sound cfg t env (c.rank x) (packet x))
    (h : Reachable (test.program c packet env.tag) s) :
    AlltoallWorks test cfg t env mode c packet s := by
  have hgenuine := h.genuine
  have hpaired : Paired (test.program c packet env.tag) := AlltoallTest.paired_program
  -- the message that is received in slot `2 * k + 1`
  have harrival : ∀ x (k : Fin (c.commSize x.1)), s.Complete x (2 * k + 1) →
      arrival? s c.rank x (2 * k + 1)
        = some ⟨c.commSize x.1 - k - 1, env.tag, packet (c.peer x k.rev)⟩ := by
    intro x k hcomplete
    obtain ⟨j, hj⟩ := Communicator.exists_peer_comm.mp ⟨k.rev, rfl⟩
    rw [arrival?_eq hgenuine hpaired
      (AlltoallTest.send_mem_program.mpr ⟨rfl, rfl, rfl, j, rfl, hj⟩)
      (AlltoallTest.recv_mem_program.mpr ⟨rfl, k, rfl, rfl⟩) hcomplete,
      Communicator.rank_peer_rev]
  have hexpected : ∀ x (k : Fin (c.commSize x.1)),
      test.Sound cfg t env (c.commSize x.1 - k - 1) (packet (c.peer x k.rev)) := by
    intro x k
    rw [← Communicator.rank_peer_rev]
    exact hsound _
  have hcomplete : ∀ x, s.todo x = [] → ∀ k : Fin (c.commSize x.1),
      s.Complete x (2 * k + 1) := fun x htodo k ↦
    hgenuine.complete_of_todo htodo (AlltoallTest.mem_program.mpr (Or.inr rfl))
      (List.mem_range.mpr (by omega))
  refine ⟨fun x ↦ AlltoallTest.leveled_program.exists_step hgenuine,
    AlltoallTest.readyInTime htest hgenuine, fun d hd ↦ ?_, fun x y hside htodo ↦ ?_,
    fun x k a ha ↦ ?_, fun x htodo checkBuffer ↦ ?_,
    fun x htodo checkBuffer arrival a ha ↦ ?_⟩
  · obtain ⟨mode', hsent⟩ := hgenuine.sent d hd
    obtain ⟨-, -, -, hsend⟩ := AlltoallTest.send_mem_program.mp (hgenuine.mem_of_done hsent)
    exact ⟨hsend, (AlltoallTest.recv_mem_program.mp
      (hgenuine.mem_of_done (hgenuine.received d hd))).2⟩
  · obtain ⟨k, rfl⟩ := Communicator.exists_peer_rev.mpr (Communicator.exists_peer.mpr hside)
    refine hgenuine.countP_source hpaired (AlltoallTest.recv_mem_program.mpr ⟨rfl, k, rfl, rfl⟩)
      (hcomplete x htodo k) (fun d hd ↦ ?_) fun d _ ↦ decide_eq_true_iff
    exact (AlltoallTest.recv_mem_program.mp (hgenuine.mem_of_done (hgenuine.received d hd))).1
  · rw [harrival x k (complete_of_arrival? ha)] at ha
    obtain rfl := Option.some_inj.mp ha
    exact ⟨rfl, (hexpected x k).elements _ rfl⟩
  · rw [hgenuine.done_eq htodo, test.run_program]
    refine judgeAll_eq_nil fun k hk ↦ ?_
    have hlt := List.mem_range.mp hk
    rw [harrival x ⟨k, hlt⟩ (hcomplete x htodo ⟨k, hlt⟩), judge, if_neg (by simp),
      (hexpected x ⟨k, hlt⟩).compare _ _ rfl]
    exact Arrival.checkWith_eq_nil mode _ (hexpected x ⟨k, hlt⟩).count
  · rw [hgenuine.done_eq htodo]
    exact AlltoallTest.run_judged mode checkBuffer (hexpected x) ha

end

/-- **Everybody to everybody.** On every communicator, with one group or with two of whatever sizes,
the tests work exactly if the arrays fit. Then the calls of the ranks match: each of the slots is
filled by one call and waited for, and a process sends to another exactly if that one has a receive
for it. In every run nobody is ever stuck, no ready send is started before its receive, a rank
receives one message from each peer, in the buffer in which it expects it, and nothing is reported;
whatever else arrived would be compared with what that peer sends. -/
theorem alltoall_works_iff (cfg : Config) (t : TypeSlot) (ht : t ∈ initTypes cfg)
    (hnull : t.datatype ≠ .null) (env : Env) (mode : TstMode)
    (test : AlltoallTest) (htest : test ∈ alltoallTests) (c : Communicator)
    (hmember : Nonempty c.Member) (hsize : ∀ side, FitsInt (c.groups.size side)) :
    (∃ packet : c.Member → Packet,
      (∀ x, test.packet cfg t env (c.rank x) = some (packet x)) ∧
      AlltoallPosts test c packet env.tag ∧
      ∀ s, Reachable (test.program c packet env.tag) s →
        AlltoallWorks test cfg t env mode c packet s) ↔
      ArrayFits t env.valuesNum := by
  constructor
  · rintro ⟨packet, hpacket, -, -⟩
    obtain ⟨x⟩ := hmember
    exact (exists_packet_iff ht hnull htest).mp ⟨_, hpacket x⟩
  · intro hfits
    have hbound : ∀ x : c.Member, c.rank x + env.valuesNum.toNat ≤ 2 ^ 32 := fun x ↦
      rank_add_values_le hfits.fitsInt (hsize x.1) x.2.isLt
    have hexists : ∀ x : c.Member, ∃ packet, test.packet cfg t env (c.rank x) = some packet :=
      fun x ↦ (exists_packet_iff ht hnull htest).mpr hfits
    choose packet hpacket using hexists
    exact ⟨packet, hpacket, alltoallPosts, fun s h ↦ alltoallWorks_of_reachable mode htest
      (fun x ↦ sound_packet ht hnull (hbound x) htest (hpacket x)) h⟩

/-- `"Alltoall xIsend"` between groups of two and of three ranks. -/
theorem alltoall_works_iff_inter :
    let cfg : Config := ⟨2, true, true, true, true, true, true, true, true⟩
    let env : Env := ⟨24, 10, 6, 3, 0⟩
    let c : Communicator := ⟨.inter 2 3, tstMpiInterComm, by decide⟩
    (∃ packet : c.Member → Packet,
      (∀ x, tstP2pAlltoallXisend.packet cfg (slotMpi2 6) env (c.rank x) = some (packet x)) ∧
      AlltoallPosts tstP2pAlltoallXisend c packet 0 ∧
      ∀ s, Reachable (tstP2pAlltoallXisend.program c packet 0) s →
        AlltoallWorks tstP2pAlltoallXisend cfg (slotMpi2 6) env .strict c packet s) ↔
      ArrayFits (slotMpi2 6) 3 :=
  alltoall_works_iff ⟨2, true, true, true, true, true, true, true, true⟩ (slotMpi2 6)
    (by decide +kernel) (by decide +kernel) ⟨24, 10, 6, 3, 0⟩ .strict
    tstP2pAlltoallXisend (by simp [alltoallTests]) ⟨.inter 2 3, tstMpiInterComm, by decide⟩
    ⟨false, ⟨0, by decide⟩⟩ (by decide)

/-- Arrays of 300000000 values of `MPI_DOUBLE` are larger than an `int` can say. -/
theorem alltoall_fails :
    let cfg : Config := ⟨2, true, true, true, true, true, true, true, true⟩
    let env : Env := ⟨21, 0, 11, 300000000, 0⟩
    let c : Communicator := ⟨.intra 2, tstMpiIntraComm, by decide⟩
    ¬∃ packet : c.Member → Packet,
      (∀ x, tstP2pAlltoall.packet cfg (slotMpi2 11) env (c.rank x) = some (packet x)) ∧
      AlltoallPosts tstP2pAlltoall c packet 0 ∧
      ∀ s, Reachable (tstP2pAlltoall.program c packet 0) s →
        AlltoallWorks tstP2pAlltoall cfg (slotMpi2 11) env .strict c packet s := by
  rintro cfg env c ⟨packet, hpacket, -, -⟩
  have hfits := (exists_packet_iff (by decide +kernel) (by decide +kernel)
    (by simp [alltoallTests])).mp ⟨_, hpacket ⟨false, ⟨0, by decide⟩⟩⟩
  exact absurd hfits (by decide +kernel)

end P2P

end MpiTestSuite

import Mathlib.Algebra.BigOperators.Group.Finset.Piecewise
import MpiTestSuite.Threaded.Parties
import MpiTestSuite.Types.Transfer

/-!
# Partitioned communication

In the two partitioned tests a message goes once around the ring of the ranks, from rank zero to
rank zero. The master of a rank starts one partitioned send and one partitioned receive and waits
for both; every worker has a partition of the send. At rank zero the workers mark their partitions
ready at once. Elsewhere they wait for what has to be forwarded, copy it from the receive buffer to
the send buffer and then mark their partition ready.

A receive partition is as long as `ratio_send_to_receive` send partitions. If that is one, every
worker waits for its own partition. Otherwise the first worker of a group waits for the partition of
the group, and signals the others (`routed`).

Here is the model of the runs of both tests, with its invariants (`Partitioned.Genuine`) and with
the fact that nobody is ever stuck if the receive partitions cover the send partitions or there is
only one rank (`Partitioned.Genuine.exists_step`).
-/

open MpiTestSuite.Runs Relation

namespace MpiTestSuite

namespace Threaded

/-! ## The tests -/

/-- `MPI_Barrier` on `MPI_COMM_WORLD`, and the two uses of `thread_barrier`: before the transfer and
behind it. -/
inductive Barrier
  | world
  | before
  | behind
  deriving DecidableEq, Repr

/-- What the threads do. -/
inductive PartitionedInstr
  /-- What the master does in `_init` that the workers wait for. -/
  | initBuffer
  /-- Wait until the global buffer has its size. -/
  | awaitBuffer
  /-- `tst_type_setstandardarray` -/
  | setArray
  /-- `MPI_Psend_init`, `MPI_Precv_init` and `MPI_Startall`. -/
  | startall (sendTo recvFrom : ℕ)
  | enter (b : Barrier)
  | leave (b : Barrier)
  | pready (partition : ℕ)
  | waitForPartition (partition : ℕ)
  | signalSend (tag : ℕ)
  | signalWait (tag : ℕ)
  /-- Copy a send partition from the receive buffer to the send buffer. -/
  | memcpy (partition : ℕ)
  | waitall
  deriving DecidableEq, Repr

/-- It stands between the barriers, in the program of a worker. -/
def PartitionedInstr.isWork : PartitionedInstr → Bool
  | pready _ | waitForPartition _ | signalSend _ | signalWait _ | memcpy _ => true
  | _ => false

/-- What the tests depend on. -/
structure Partitioned where
  cfg : Config
  t : TypeSlot
  /-- `env->values_num`, the number of elements of a send partition. -/
  valuesNum : ℤ
  commClass : Flags
  /-- The number of ranks. -/
  p : ℕ
  /-- The number of workers, `num_worker_threads`. -/
  n : ℕ
  /-- `ratio_send_to_receive` -/
  ratio : ℕ
  /-- Workers without a receive partition wait for a signal. -/
  routed : Bool

/-- `tst_threaded_ring_partitioned_init` and `tst_threaded_ring_partitioned_run` -/
def tstThreadedRingPartitioned (cfg : Config) (t : TypeSlot) (valuesNum : ℤ) (commClass : Flags)
    (p n : ℕ) : Partitioned :=
  ⟨cfg, t, valuesNum, commClass, p, n, 1, false⟩

/-- `tst_threaded_ring_partitioned_many_to_one_init` and
`tst_threaded_ring_partitioned_many_to_one_run` -/
def tstThreadedRingPartitionedManyToOne (cfg : Config) (t : TypeSlot) (valuesNum : ℤ)
    (commClass : Flags) (p n : ℕ) : Partitioned :=
  ⟨cfg, t, valuesNum, commClass, p, n, 4, true⟩

/-- `send_to` and `recv_from`. -/
def partitionedPlace (commClass : Flags) (commRank commSize : ℕ) : Except Stop (ℕ × ℕ) :=
  if commClass &&& tstMpiIntraComm ≠ 0 then
    .ok ((commRank + 1) % commSize, (commRank + commSize - 1) % commSize)
  else if commClass &&& tstMpiCommSelf ≠ 0 then .ok (commRank, commRank)
  else .error (.error "tst_threaded_ring_partitioned cannot run with this kind of communicator")

namespace Partitioned

variable (S : Partitioned)

/-- `num_recv_partitions` -/
def numRecv : ℕ := S.n / S.ratio

/-- `recv_partition_num` -/
def recvPartitionNum (threadNum : ℤ) : ℤ :=
  if threadNum.tmod S.ratio = 0 then threadNum.tdiv S.ratio else -1

/-- The thread has a send partition. -/
def HasSend (threadNum : ℤ) : Prop := 0 ≤ threadNum ∧ threadNum < S.n

/-- The thread has a receive partition. -/
def HasRecv (threadNum : ℤ) : Prop :=
  0 ≤ S.recvPartitionNum threadNum ∧ S.recvPartitionNum threadNum < S.numRecv

instance : DecidablePred S.HasSend := fun _ ↦ inferInstanceAs (Decidable (_ ∧ _))

instance : DecidablePred S.HasRecv := fun _ ↦ inferInstanceAs (Decidable (_ ∧ _))

/-- What is done between the barriers. -/
def work (commRank : ℕ) (threadNum : ℤ) : List PartitionedInstr :=
  let recv := PartitionedInstr.waitForPartition (S.recvPartitionNum threadNum).toNat
  if commRank = 0 then
    (if S.HasSend threadNum then [.pready threadNum.toNat] else [])
      ++ (if S.HasRecv threadNum then [recv] else [])
  else if S.HasSend threadNum then
    (if S.HasRecv threadNum then
      recv :: (if S.routed then (List.range' 1 (S.ratio - 1)).map fun i ↦
        .signalSend (threadNum.toNat + i) else [])
    else if S.routed then [.signalWait threadNum.toNat] else [])
      ++ [.memcpy threadNum.toNat, .pready threadNum.toNat]
  else []

/-- What the functions `_init` do. -/
def init (commRank : ℕ) (threadNum : ℤ) : List PartitionedInstr :=
  (if threadNum = tstThreadMaster then [.initBuffer] else []) ++ [.awaitBuffer]
    ++ (if commRank = 0 ∧ threadNum = tstThreadMaster then [.setArray] else [])

/-- What the functions `_run` do, up to the check. -/
def run (commRank : ℕ) (threadNum : ℤ) : Except Stop (List PartitionedInstr) := do
  let place ← partitionedPlace S.commClass commRank S.p
  return (if threadNum = tstThreadMaster
      then [.startall place.1 place.2, .enter .world, .leave .world] else [])
    ++ [.enter .before, .leave .before] ++ S.work commRank threadNum
    ++ (if threadNum = tstThreadMaster then [.waitall] else []) ++ [.enter .behind, .leave .behind]

/-- The program of a party. -/
def program (x : ℕ × ℕ) : List PartitionedInstr :=
  if x.1 < S.p ∧ x.2 < S.n + 1 then
    let threadNum := tstThreadGetNum (List.range S.n) x.2
    init x.1 threadNum
      ++ (match S.run x.1 threadNum with
        | .ok calls => calls
        | .error _ => [])
  else []

/-! ## The system -/

/-- `buffer_size`, unless the product of two `int`s overflows. -/
def bufferSize : Option ℕ := do
  let values ← checkedSigned (S.n * S.valuesNum)
  return sizeT (values * S.t.size)

/-- The size that `tst_thread_global_buffer_init` keeps, whose parameter is an `int`. -/
def globalBufferSize (bufferSize : ℕ) : ℤ := wrapInt (2 * bufferSize)

/-- A byte of data of the elements from the element `first` on. -/
def dataByte (T : Typemap) (first count : ℕ) (q : ℤ) : Bool :=
  (List.range count).any fun i ↦ decide (q - (first + i : ℕ) * T.extent ∈ T.bytes)

/-- A byte of data of a send partition. -/
def Data (i : ℕ) (q : ℤ) : Prop :=
  dataByte S.t.datatype.typemap (i * S.valuesNum.toNat) S.valuesNum.toNat q = true

instance (i : ℕ) : DecidablePred (S.Data i) := fun _ ↦ inferInstanceAs (Decidable (_ = true))

/-- The state of the system. -/
structure State where
  /-- What each party has executed. -/
  done : ℕ × ℕ → List PartitionedInstr
  /-- What it has yet to do. -/
  todo : ℕ × ℕ → List PartitionedInstr
  /-- The processes that are not in the communicator have come to their `MPI_Barrier`. -/
  outside : Bool
  /-- The receive partitions that have arrived, with their ranks. -/
  arrived : List (ℕ × ℕ)
  sendBuffer : ℕ → Memory
  recvBuffer : ℕ → Memory

namespace State

variable (s : State)

/-- Some thread of the rank has executed an instruction. -/
def Has (r : ℕ) (a : PartitionedInstr) : Prop := ∃ u, a ∈ s.done (r, u)

end State

/-- The initial state, with whatever is in the buffers. -/
def initial (sendBuffer recvBuffer : ℕ → Memory) : State where
  done _ := []
  todo := S.program
  outside := false
  arrived := []
  sendBuffer := sendBuffer
  recvBuffer := recvBuffer

/-- What an instruction makes of the send buffer of a rank. The products of `int`s that `memcpy`
uses do not overflow once the global buffer has its size. -/
def write (r : ℕ) (sendBuffer recvBuffer : Memory) : PartitionedInstr → Memory
  | .setArray => (tstTypeSetstandardarray S.cfg S.t (S.n * S.valuesNum).toNat sendBuffer r).getD
      sendBuffer
  | .memcpy i => fun q ↦
      let beginIndex := S.valuesNum * i * S.t.size
      if beginIndex ≤ q ∧ q < beginIndex + S.valuesNum * S.t.size then recvBuffer q
      else sendBuffer q
  | _ => sendBuffer

/-- Party `x` has executed `a`. -/
def execute (s : State) (x : ℕ × ℕ) (a : PartitionedInstr) (rest : List PartitionedInstr) : State :=
  { s with
    done := Function.update s.done x (s.done x ++ [a])
    todo := Function.update s.todo x rest
    sendBuffer := Function.update s.sendBuffer x.1
      (S.write x.1 (s.sendBuffer x.1) (s.recvBuffer x.1) a) }

/-- Receive partition `j` of rank `q` has got its elements from rank `r`. -/
def arrive (s : State) (r q j : ℕ) : State :=
  { s with
    arrived := s.arrived ++ [(q, j)]
    recvBuffer := Function.update s.recvBuffer q fun a ↦
      if dataByte S.t.datatype.typemap (j * (S.ratio * S.valuesNum.toNat))
        (S.ratio * S.valuesNum.toNat) a then s.sendBuffer r a else s.recvBuffer q a }

/-- The global buffer of a rank has the size that its threads wait for. If it is not, they wait
forever, unless what was left of the size is negative, so that `malloc` has failed before. -/
def BufferReady (s : State) (r : ℕ) : Prop :=
  ∃ size, S.bufferSize = some size ∧
    sizeT (if .initBuffer ∈ s.done (r, S.n) then globalBufferSize size else 0)
      = 2 * size % 2 ^ 64

/-- The send partitions that a receive partition is made of. -/
def Covered (i j : ℕ) : Prop := S.ratio * j ≤ i ∧ i < S.ratio * (j + 1)

/-- A party can be sure to be able to execute an instruction. -/
def Sure (s : State) (x : ℕ × ℕ) : PartitionedInstr → Prop
  | .awaitBuffer => S.BufferReady s x.1
  | .leave .world => s.outside = true ∧ ∀ q < S.p, s.Has q (.enter .world)
  | .leave b => ∀ u < S.n + 1, .enter b ∈ s.done (x.1, u)
  | .waitForPartition j => (x.1, j) ∈ s.arrived
  | .signalWait tag => s.Has x.1 (.signalSend tag)
  | .waitall => (∀ j < S.numRecv, (x.1, j) ∈ s.arrived) ∧
      ∀ d c, s.Has x.1 (.startall d c) → ∀ j < S.numRecv, (d, j) ∈ s.arrived
  | _ => True

/-- The steps that the system takes sooner or later. -/
inductive Step (s : State) : State → Prop
  | execute {x a rest} : s.todo x = a :: rest → S.Sure s x a → Step s (S.execute s x a rest)
  | outside : s.outside = false → Step s { s with outside := true }
  | arrive {r q j d c} : s.Has q (.startall d r) → s.Has r (.startall q c) → j < S.numRecv →
      (∀ i, S.Covered i j → s.Has r (.pready i)) → (q, j) ∉ s.arrived →
      Step s (S.arrive s r q j)

/-- What the system may do: a send may end before all of its partitions have arrived, if they are
ready. -/
inductive May (s : State) : State → Prop
  | waitall {x rest} : s.todo x = .waitall :: rest →
      (∀ j < S.numRecv, (x.1, j) ∈ s.arrived) → (∀ i < S.n, s.Has x.1 (.pready i)) →
      May s (S.execute s x .waitall rest)

/-- The states that are reached from the initial one. -/
def Reachable (sendBuffer recvBuffer : ℕ → Memory) (s : State) : Prop :=
  ReflTransGen (fun s s' ↦ S.Step s s' ∨ S.May s s') (S.initial sendBuffer recvBuffer) s

/-! ## The programs -/

section

variable {S}

/-- The group that a worker waits for. -/
theorem hasRecv_iff (hratio : 0 < S.ratio) (u : ℕ) :
    S.HasRecv u ↔ ∃ j < S.numRecv, u = S.ratio * j := by
  rw [HasRecv, recvPartitionNum, Int.tmod_eq_emod_of_nonneg (Int.natCast_nonneg u),
    Int.tdiv_eq_ediv_of_nonneg (Int.natCast_nonneg u)]
  split_ifs with hmod
  · have hdvd : u = S.ratio * (u / S.ratio) := by
      have hzero : u % S.ratio = 0 := by exact_mod_cast hmod
      have hdiv := Nat.div_add_mod u S.ratio
      omega
    rw [← Int.natCast_ediv]
    constructor
    · rintro ⟨-, hlt⟩
      exact ⟨u / S.ratio, by exact_mod_cast hlt, hdvd⟩
    · rintro ⟨j, hj, rfl⟩
      rw [Nat.mul_div_cancel_left j hratio]
      exact ⟨Int.natCast_nonneg j, by exact_mod_cast hj⟩
  · constructor
    · rintro ⟨hneg, -⟩
      omega
    · rintro ⟨j, -, rfl⟩
      refine absurd ?_ hmod
      push_cast
      exact Int.mul_emod_right _ _

theorem recvPartitionNum_mul (hratio : 0 < S.ratio) (j : ℕ) :
    S.recvPartitionNum (S.ratio * j : ℕ) = j := by
  have hpos : (S.ratio : ℤ) ≠ 0 := by omega
  rw [recvPartitionNum, if_pos (by push_cast; exact Int.mul_tmod_right _ _)]
  push_cast
  exact Int.mul_tdiv_cancel_left _ hpos

/-- The master has no partitions. -/
theorem work_master (r : ℕ) : S.work r tstThreadMaster = [] := by
  have hsend : ¬S.HasSend tstThreadMaster := fun h ↦ absurd h.1 (by decide)
  have hrecv : ¬S.HasRecv tstThreadMaster := by
    rw [HasRecv, recvPartitionNum]
    split_ifs with h
    · rcases Nat.lt_or_ge 1 S.ratio with hlt | hle
      · rw [tstThreadMaster, Int.neg_tmod, Int.tmod_eq_of_lt (by omega) (by omega)] at h
        omega
      · obtain hzero | hone : S.ratio = 0 ∨ S.ratio = 1 := by omega
        · simp [hzero, tstThreadMaster, numRecv]
        · simp [hone, tstThreadMaster]
    · rintro ⟨hneg, -⟩
      omega
  simp [work, hsend, hrecv]

/-- What a worker does between the barriers. -/
theorem mem_work (hratio : 0 < S.ratio) {r u : ℕ} (hu : u < S.n) {a : PartitionedInstr} :
    a ∈ S.work r u ↔ a = .pready u ∨ r ≠ 0 ∧ a = .memcpy u ∨
      (∃ j < S.numRecv, u = S.ratio * j ∧ (a = .waitForPartition j ∨
        r ≠ 0 ∧ S.routed = true ∧ ∃ i, 1 ≤ i ∧ i < S.ratio ∧ a = .signalSend (u + i))) ∨
      r ≠ 0 ∧ S.routed = true ∧ (∀ j < S.numRecv, u ≠ S.ratio * j) ∧ a = .signalWait u := by
  have hsend : S.HasSend u := ⟨Int.natCast_nonneg u, by exact_mod_cast hu⟩
  by_cases hrecv : S.HasRecv u
  · obtain ⟨j, hj, rfl⟩ := (hasRecv_iff hratio u).mp hrecv
    have hsame : ∀ j', S.ratio * j = S.ratio * j' ↔ j = j' := fun j' ↦
      Nat.mul_left_cancel_iff hratio
    have hrange : ∀ i, i ∈ List.range' 1 (S.ratio - 1) ↔ 1 ≤ i ∧ i < S.ratio := by
      intro i
      rw [List.mem_range'_1]
      omega
    rw [work]
    simp only [recvPartitionNum_mul hratio, hsend, hrecv, Int.toNat_natCast, if_true]
    by_cases hr : r = 0
    · simp [hr, hsame, hj]
    · cases hrouted : S.routed <;> simp [hr, hsame, hj, hrange] <;> grind
  · have hnone : ∀ j < S.numRecv, u ≠ S.ratio * j := fun j hj h ↦
      hrecv ((hasRecv_iff hratio u).mpr ⟨j, hj, h⟩)
    rw [work]
    simp only [hsend, hrecv, Int.toNat_natCast, if_true, if_false]
    by_cases hr : r = 0
    · simp [hr]
      grind
    · cases hrouted : S.routed <;> simp [hr] <;> grind

end

/-- The message goes around all ranks. -/
structure Admitted : Prop where
  ratio : 0 < S.ratio
  place : ∀ r < S.p,
    partitionedPlace S.commClass r S.p = .ok ((r + 1) % S.p, (r + S.p - 1) % S.p)

/-- It does on the communicators that the tests are run with. -/
theorem admitted_of_class {S : Partitioned} (hratio : 0 < S.ratio)
    (hclass : S.commClass &&& (tstMpiCommSelf ||| tstMpiIntraComm) ≠ 0)
    (hself : S.commClass &&& tstMpiCommSelf ≠ 0 → S.p = 1) : S.Admitted where
  ratio := hratio
  place r hr := by
    rw [partitionedPlace]
    by_cases hintra : S.commClass &&& tstMpiIntraComm = 0
    · have hself' : S.commClass &&& tstMpiCommSelf ≠ 0 := fun hzero ↦
        intra_of_admitted hclass hzero hintra
      rw [if_neg (not_not_intro hintra), if_pos hself', hself hself']
      obtain rfl : r = 0 := by
        have hone := hself hself'
        omega
      rfl
    · rw [if_pos hintra]

section

variable {S} (h : S.Admitted)

include h

theorem program_master {r : ℕ} (hr : r < S.p) : S.program (r, S.n)
    = [.initBuffer, .awaitBuffer] ++ (if r = 0 then [.setArray] else [])
      ++ [.startall ((r + 1) % S.p) ((r + S.p - 1) % S.p), .enter .world, .leave .world,
        .enter .before, .leave .before, .waitall, .enter .behind, .leave .behind] := by
  have hnum : tstThreadGetNum (List.range S.n) S.n = tstThreadMaster := by
    rw [tstThreadGetNum_range, if_neg (lt_irrefl _)]
    rfl
  rw [program, if_pos ⟨hr, Nat.lt_succ_self _⟩]
  simp only [hnum, init, run, h.place r hr, work_master, ok_bind, pure, Except.pure, if_true,
    and_true]
  split_ifs <;> rfl

theorem program_worker {r u : ℕ} (hr : r < S.p) (hu : u < S.n) : S.program (r, u)
    = [.awaitBuffer]
      ++ ([.enter .before, .leave .before] ++ S.work r u ++ [.enter .behind, .leave .behind]) := by
  have hnum : tstThreadGetNum (List.range S.n) u = u := by
    rw [tstThreadGetNum_range, if_pos hu]
  have hworker : (u : ℤ) ≠ tstThreadMaster := by
    rw [tstThreadMaster]
    omega
  rw [program, if_pos ⟨hr, Nat.lt_succ_of_lt hu⟩]
  simp only [hnum, init, run, h.place r hr, hworker, ok_bind, pure, Except.pure, if_false,
    and_false, List.nil_append, List.append_nil]

omit h in
example : (tstThreadedRingPartitionedManyToOne
    ⟨2, true, true, true, true, true, true, true, true⟩ (slotMpi2 6) 3 tstMpiIntraComm 2 4).program
      (1, 0) = [.awaitBuffer, .enter .before, .leave .before, .waitForPartition 0, .signalSend 1,
        .signalSend 2, .signalSend 3, .memcpy 0, .pready 0, .enter .behind, .leave .behind] := by
  decide +kernel

omit h in
theorem program_eq_nil {x : ℕ × ℕ} (hx : ¬(x.1 < S.p ∧ x.2 < S.n + 1)) : S.program x = [] :=
  if_neg hx

/-- The instructions of a party. -/
theorem mem_program {r u : ℕ} {a : PartitionedInstr} :
    a ∈ S.program (r, u) ↔ r < S.p ∧ u < S.n + 1 ∧
      ((a = .awaitBuffer ∨ u = S.n ∧ (a = .initBuffer ∨ r = 0 ∧ a = .setArray)) ∨
        u = S.n ∧ (a = .startall ((r + 1) % S.p) ((r + S.p - 1) % S.p) ∨ a = .enter .world ∨
          a = .leave .world ∨ a = .waitall) ∨
        (∃ b, b ≠ .world ∧ (a = .enter b ∨ a = .leave b)) ∨ u < S.n ∧ a ∈ S.work r u) := by
  have hbarrier : (∃ b, b ≠ Barrier.world ∧ (a = .enter b ∨ a = .leave b)) ↔
      a = .enter .before ∨ a = .leave .before ∨ a = .enter .behind ∨ a = .leave .behind := by
    constructor
    · rintro ⟨b, hb, hcase⟩
      cases b with
      | world => exact absurd rfl hb
      | before => exact hcase.elim .inl fun h ↦ .inr (.inl h)
      | behind => exact .inr (.inr hcase)
    · rintro (rfl | rfl | rfl | rfl)
      · exact ⟨.before, by decide, .inl rfl⟩
      · exact ⟨.before, by decide, .inr rfl⟩
      · exact ⟨.behind, by decide, .inl rfl⟩
      · exact ⟨.behind, by decide, .inr rfl⟩
  rw [hbarrier]
  by_cases hx : r < S.p ∧ u < S.n + 1
  · obtain ⟨hr, hu⟩ := hx
    rcases Nat.lt_or_eq_of_le (Nat.lt_succ_iff.mp hu) with hlt | rfl
    · rw [program_worker h hr hlt]
      simp [hr, hu, hlt, hlt.ne]
      grind
    · rw [program_master h hr]
      by_cases h0 : r = 0
      · subst h0
        simp [hr]
        grind
      · simp [hr, h0]
        grind
  · rw [program_eq_nil hx]
    grind

theorem mem_program_of_isWork {r u : ℕ} {a : PartitionedInstr} (ha : a.isWork = true) :
    a ∈ S.program (r, u) ↔ r < S.p ∧ u < S.n ∧ a ∈ S.work r u := by
  rw [mem_program h]
  constructor
  · rintro ⟨hr, -, hcase | ⟨-, hcase⟩ | ⟨b, -, hcase⟩ | ⟨hu, hwork⟩⟩
    · obtain rfl | ⟨-, rfl | ⟨-, rfl⟩⟩ := hcase <;> cases ha
    · obtain rfl | rfl | rfl | rfl := hcase <;> cases ha
    · obtain rfl | rfl := hcase <;> cases ha
    · exact ⟨hr, hu, hwork⟩
  · rintro ⟨hr, hu, hwork⟩
    exact ⟨hr, Nat.lt_succ_of_lt hu, .inr (.inr (.inr ⟨hu, hwork⟩))⟩

theorem not_mem_work {r u : ℕ} (hu : u < S.n) {a : PartitionedInstr} (ha : a.isWork = false) :
    a ∉ S.work r u := by
  rw [mem_work h.ratio hu]
  rintro (rfl | ⟨-, rfl⟩ | ⟨j, -, -, rfl | ⟨-, -, i, -, -, rfl⟩⟩ | ⟨-, -, -, rfl⟩) <;> cases ha

theorem mem_pready {r u i : ℕ} :
    .pready i ∈ S.program (r, u) ↔ r < S.p ∧ u < S.n ∧ i = u := by
  rw [mem_program_of_isWork h rfl]
  refine and_congr_right fun hr ↦ and_congr_right fun hu ↦ ?_
  simp [mem_work h.ratio hu]

theorem mem_memcpy {r u i : ℕ} :
    .memcpy i ∈ S.program (r, u) ↔ r < S.p ∧ u < S.n ∧ r ≠ 0 ∧ i = u := by
  rw [mem_program_of_isWork h rfl]
  refine and_congr_right fun hr ↦ and_congr_right fun hu ↦ ?_
  simp [mem_work h.ratio hu]

theorem mem_waitForPartition {r u j : ℕ} : .waitForPartition j ∈ S.program (r, u) ↔
    r < S.p ∧ u < S.n ∧ j < S.numRecv ∧ u = S.ratio * j := by
  rw [mem_program_of_isWork h rfl]
  refine and_congr_right fun hr ↦ and_congr_right fun hu ↦ ?_
  simp [mem_work h.ratio hu]

theorem mem_signalSend {r u tag : ℕ} : .signalSend tag ∈ S.program (r, u) ↔
    r < S.p ∧ u < S.n ∧ r ≠ 0 ∧ S.routed = true ∧
      ∃ j < S.numRecv, u = S.ratio * j ∧ u < tag ∧ tag < u + S.ratio := by
  rw [mem_program_of_isWork h rfl]
  refine and_congr_right fun hr ↦ and_congr_right fun hu ↦ ?_
  rw [mem_work h.ratio hu]
  constructor
  · rintro (hcase | ⟨-, hcase⟩ | ⟨j, hj, huj, hcase | ⟨hr0, hrouted, i, hi, hlt, hcase⟩⟩ |
      ⟨-, -, -, hcase⟩)
    case inr.inr.inl.inr =>
      obtain rfl := PartitionedInstr.signalSend.inj hcase
      exact ⟨hr0, hrouted, j, hj, huj, by omega, by omega⟩
    all_goals cases hcase
  · rintro ⟨hr0, hrouted, j, hj, huj, hlt, hlt'⟩
    refine .inr (.inr (.inl ⟨j, hj, huj, .inr ⟨hr0, hrouted, tag - u, by omega, by omega, ?_⟩⟩))
    rw [Nat.add_sub_cancel' hlt.le]

theorem mem_signalWait {r u tag : ℕ} : .signalWait tag ∈ S.program (r, u) ↔
    r < S.p ∧ u < S.n ∧ r ≠ 0 ∧ S.routed = true ∧ (∀ j < S.numRecv, u ≠ S.ratio * j) ∧
      tag = u := by
  rw [mem_program_of_isWork h rfl]
  refine and_congr_right fun hr ↦ and_congr_right fun hu ↦ ?_
  simp [mem_work h.ratio hu]

theorem mem_program_of_not_isWork {r u : ℕ} {a : PartitionedInstr} (ha : a.isWork = false) :
    a ∈ S.program (r, u) ↔ r < S.p ∧ u < S.n + 1 ∧
      ((a = .awaitBuffer ∨ u = S.n ∧ (a = .initBuffer ∨ r = 0 ∧ a = .setArray)) ∨
        u = S.n ∧ (a = .startall ((r + 1) % S.p) ((r + S.p - 1) % S.p) ∨ a = .enter .world ∨
          a = .leave .world ∨ a = .waitall) ∨
        ∃ b, b ≠ .world ∧ (a = .enter b ∨ a = .leave b)) := by
  rw [mem_program h]
  refine and_congr_right fun hr ↦ and_congr_right fun _ ↦ or_congr_right (or_congr_right ?_)
  exact or_iff_left fun ⟨hu, hwork⟩ ↦ not_mem_work h hu ha hwork

/-- The master starts the requests. -/
theorem mem_startall {r u d c : ℕ} : .startall d c ∈ S.program (r, u) ↔
    r < S.p ∧ u = S.n ∧ d = (r + 1) % S.p ∧ c = (r + S.p - 1) % S.p := by
  rw [mem_program_of_not_isWork h rfl]
  simp
  omega

theorem mem_waitall {r u : ℕ} : .waitall ∈ S.program (r, u) ↔ r < S.p ∧ u = S.n := by
  rw [mem_program_of_not_isWork h rfl]
  simp
  omega

theorem mem_initBuffer {r u : ℕ} :
    .initBuffer ∈ S.program (r, u) ↔ r < S.p ∧ u = S.n := by
  rw [mem_program_of_not_isWork h rfl]
  simp
  omega

theorem mem_awaitBuffer {r u : ℕ} :
    .awaitBuffer ∈ S.program (r, u) ↔ r < S.p ∧ u < S.n + 1 := by
  rw [mem_program_of_not_isWork h rfl]
  simp

theorem mem_setArray {r u : ℕ} :
    .setArray ∈ S.program (r, u) ↔ r < S.p ∧ u = S.n ∧ r = 0 := by
  rw [mem_program_of_not_isWork h rfl]
  simp
  omega

/-- Only masters come to the barrier of all processes. -/
theorem mem_enter {r u : ℕ} {b : Barrier} :
    .enter b ∈ S.program (r, u) ↔ r < S.p ∧ u < S.n + 1 ∧ (b = .world → u = S.n) := by
  rw [mem_program_of_not_isWork h rfl]
  cases b <;> simp

theorem mem_leave {r u : ℕ} {b : Barrier} :
    .leave b ∈ S.program (r, u) ↔ r < S.p ∧ u < S.n + 1 ∧ (b = .world → u = S.n) := by
  rw [mem_program_of_not_isWork h rfl]
  cases b <;> simp

end

/-! ## What is kept -/

/-- What holds since a party has executed an instruction. -/
def Since (s : State) (x : ℕ × ℕ) : PartitionedInstr → Prop
  | .awaitBuffer => ∃ size, S.bufferSize = some size ∧
      (.initBuffer ∈ s.done (x.1, S.n) ∧ sizeT (globalBufferSize size) = 2 * size % 2 ^ 64 ∨
        sizeT 0 = 2 * size % 2 ^ 64)
  | .leave .world => ∀ q < S.p, s.Has q (.enter .world)
  | .leave b => ∀ u < S.n + 1, .enter b ∈ s.done (x.1, u)
  | .waitForPartition j => (x.1, j) ∈ s.arrived
  | .signalWait tag => s.Has x.1 (.signalSend tag)
  | .waitall => ∀ j < S.numRecv, (x.1, j) ∈ s.arrived
  | _ => True

/-- What is known of every state that is reached. -/
structure Genuine (s : State) : Prop where
  split : ∀ x, s.done x ++ s.todo x = S.program x
  /-- Nobody has waited in vain. -/
  since : ∀ x, ∀ a ∈ s.done x, S.Since s x a
  /-- What has arrived has been sent. -/
  arrived : ∀ q j, (q, j) ∈ s.arrived → j < S.numRecv ∧ ∃ r, (∃ d, s.Has q (.startall d r)) ∧
    (∃ c, s.Has r (.startall q c)) ∧ ∀ i, S.Covered i j → s.Has r (.pready i)
  nodup : s.arrived.Nodup

/-- What has happened stays. -/
structure State.Before (s s' : State) : Prop where
  done : ∀ x, ∀ a ∈ s.done x, a ∈ s'.done x
  arrived : ∀ y ∈ s.arrived, y ∈ s'.arrived

section

variable {S} {s s' : State}

theorem State.Before.has (h : s.Before s') {r : ℕ} {a : PartitionedInstr} (ha : s.Has r a) :
    s'.Has r a := ha.imp fun _ hu ↦ h.done _ _ hu

theorem State.Before.since (h : s.Before s') {x : ℕ × ℕ} {a : PartitionedInstr}
    (ha : S.Since s x a) : S.Since s' x a := by
  cases a with
  | awaitBuffer =>
    obtain ⟨size, hsize, hcase⟩ := ha
    exact ⟨size, hsize, hcase.imp_left (And.imp_left (h.done _ _))⟩
  | leave b =>
    cases b with
    | world => exact fun q hq ↦ h.has (ha q hq)
    | before | behind => exact fun u hu ↦ h.done _ _ (ha u hu)
  | waitForPartition j => exact h.arrived _ ha
  | signalWait tag => exact h.has ha
  | waitall => exact fun j hj ↦ h.arrived _ (ha j hj)
  | initBuffer | setArray | startall | enter | pready | signalSend | memcpy => trivial

theorem since_of_sure {x : ℕ × ℕ} {a : PartitionedInstr} (ha : S.Sure s x a) : S.Since s x a := by
  cases a with
  | awaitBuffer =>
    obtain ⟨size, hsize, hready⟩ := ha
    refine ⟨size, hsize, ?_⟩
    split_ifs at hready with hinit
    · exact .inl ⟨hinit, hready⟩
    · exact .inr hready
  | leave b =>
    cases b with
    | world => exact ha.2
    | before | behind => exact ha
  | waitForPartition | signalWait => exact ha
  | waitall => exact ha.1
  | initBuffer | setArray | startall | enter | pready | signalSend | memcpy => trivial

theorem mem_done_execute {x y : ℕ × ℕ} {a b : PartitionedInstr} {rest : List PartitionedInstr} :
    b ∈ (S.execute s x a rest).done y ↔ b ∈ s.done y ∨ y = x ∧ b = a := by
  rw [execute]
  rcases eq_or_ne y x with rfl | hy
  · simp
  · simp [hy]

theorem before_execute (x : ℕ × ℕ) (a : PartitionedInstr) (rest : List PartitionedInstr) :
    s.Before (S.execute s x a rest) where
  done _ _ ha := mem_done_execute.mpr (.inl ha)
  arrived _ hy := hy

theorem before_arrive (r q j : ℕ) : s.Before (S.arrive s r q j) where
  done _ _ ha := ha
  arrived _ hy := List.mem_append_left _ hy

namespace Genuine

theorem initial (sendBuffer recvBuffer : ℕ → Memory) :
    S.Genuine (S.initial sendBuffer recvBuffer) where
  split _ := rfl
  since _ _ ha := absurd ha List.not_mem_nil
  arrived _ _ hq := absurd hq List.not_mem_nil
  nodup := List.nodup_nil

/-- An instruction has been executed. -/
theorem execute (h : S.Genuine s) {x : ℕ × ℕ} {a : PartitionedInstr}
    {rest : List PartitionedInstr} (htodo : s.todo x = a :: rest) (ha : S.Since s x a) :
    S.Genuine (S.execute s x a rest) := by
  have hbefore := before_execute (S := S) (s := s) x a rest
  refine ⟨fun y ↦ ?_, fun y b hb ↦ ?_, fun q j hq ↦ ?_, h.nodup⟩
  · have hsplit := h.split y
    rw [Partitioned.execute]
    rcases eq_or_ne y x with rfl | hy
    · simpa [htodo] using hsplit
    · simpa [hy] using hsplit
  · rcases mem_done_execute.mp hb with hold | ⟨rfl, rfl⟩
    · exact hbefore.since (h.since y b hold)
    · exact hbefore.since ha
  · obtain ⟨hj, r, ⟨d, hd⟩, ⟨c, hc⟩, hready⟩ := h.arrived q j hq
    exact ⟨hj, r, ⟨d, hbefore.has hd⟩, ⟨c, hbefore.has hc⟩, fun i hi ↦ hbefore.has (hready i hi)⟩

theorem arrive (h : S.Genuine s) {r q j d c : ℕ} (hd : s.Has q (.startall d r))
    (hc : s.Has r (.startall q c)) (hj : j < S.numRecv)
    (hready : ∀ i, S.Covered i j → s.Has r (.pready i)) (hnew : (q, j) ∉ s.arrived) :
    S.Genuine (S.arrive s r q j) := by
  have hbefore := before_arrive (S := S) (s := s) r q j
  refine ⟨h.split, fun y b hb ↦ hbefore.since (h.since y b hb), fun q' j' hq' ↦ ?_,
    h.nodup.append (List.nodup_singleton _) (List.disjoint_singleton.mpr hnew)⟩
  rcases List.mem_append.mp hq' with hold | heq
  · exact h.arrived q' j' hold
  · obtain ⟨rfl, rfl⟩ := Prod.mk.inj (List.mem_singleton.mp heq)
    exact ⟨hj, r, ⟨d, hd⟩, ⟨c, hc⟩, hready⟩

theorem step (h : S.Genuine s) (hstep : S.Step s s') : S.Genuine s' := by
  cases hstep with
  | execute htodo hsure => exact h.execute htodo (since_of_sure hsure)
  | outside _ =>
    exact ⟨h.split, fun x a ha ↦ State.Before.since ⟨fun _ _ h ↦ h, fun _ h ↦ h⟩ (h.since x a ha),
      h.arrived, h.nodup⟩
  | arrive hd hc hj hready hnew => exact h.arrive hd hc hj hready hnew

theorem may (h : S.Genuine s) (hmay : S.May s s') : S.Genuine s' := by
  cases hmay with
  | waitall htodo harrived _ => exact h.execute htodo harrived

theorem mem_of_done (h : S.Genuine s) {x : ℕ × ℕ} {a : PartitionedInstr} (ha : a ∈ s.done x) :
    a ∈ S.program x := h.split x ▸ List.mem_append_left _ ha

theorem mem_of_todo (h : S.Genuine s) {x : ℕ × ℕ} {a : PartitionedInstr}
    {rest : List PartitionedInstr} (htodo : s.todo x = a :: rest) : a ∈ S.program x := by
  rw [← h.split x, htodo]
  exact List.mem_append_right _ List.mem_cons_self

theorem done_eq (h : S.Genuine s) {x : ℕ × ℕ} (hx : s.todo x = []) : s.done x = S.program x := by
  have hsplit := h.split x
  rwa [hx, List.append_nil] at hsplit

end Genuine

/-- **Every run.** -/
theorem Reachable.genuine {sendBuffer recvBuffer : ℕ → Memory}
    (h : S.Reachable sendBuffer recvBuffer s) : S.Genuine s := by
  induction h with
  | refl => exact .initial sendBuffer recvBuffer
  | tail _ hnext ih => exact hnext.elim ih.step ih.may

end

end Partitioned

end Threaded

end MpiTestSuite

import MpiTestSuite.P2P.Ring
import MpiTestSuite.Runs.Threads

/-!
# Threads that communicate

The tests of the class `Threaded` are executed by all threads of every process at the same time: by
the workers, which are numbered from zero, and by the master, whose number is `-1`. Every worker has
a duplicate of each communicator. `tst_comm_getcomm` gives a thread its own one,
`tst_comm_getmastercomm` gives everybody that of the master.

Here the threads of a process are natural numbers: the workers those below their number, and the
master is the one that comes next. A party is a thread of a rank.
-/

open MpiTestSuite.Runs.Threads

namespace MpiTestSuite

namespace Threaded

/-! ## The threads of a process -/

/-- `TST_THREAD_MASTER` -/
def tstThreadMaster : ℤ := -1

/-- `tst_thread_get_num`: the index of the calling thread in `tst_thread_tid_array`. -/
def tstThreadGetNum (tidArray : List ℕ) (self : ℕ) : ℤ :=
  match tidArray.findIdx? (· == self) with
  | some i => i
  | none => tstThreadMaster

/-- A communicator of the list: that of the master, or the duplicate of a worker. -/
inductive ThreadComm
  | master
  | worker (i : ℕ)
  deriving DecidableEq, Repr

/-- `tst_comm_getcomm` -/
def tstCommGetcomm (tidArray : List ℕ) (self : ℕ) : ThreadComm :=
  if tstThreadGetNum tidArray self = tstThreadMaster then .master
  else .worker (tstThreadGetNum tidArray self).toNat

/-- `tst_comm_getmastercomm` -/
def tstCommGetmastercomm : ThreadComm := .master

section

variable {numThreads t : ℕ}

/-- The workers have their numbers, and nobody else has one. -/
theorem tstThreadGetNum_range (numThreads t : ℕ) :
    tstThreadGetNum (List.range numThreads) t = if t < numThreads then (t : ℤ) else -1 := by
  rw [tstThreadGetNum]
  split_ifs with ht
  · have hfind : (List.range numThreads).findIdx? (· == t) = some t := by
      refine List.findIdx?_eq_some_iff_getElem.mpr ⟨by rwa [List.length_range], ?_, fun j hj ↦ ?_⟩
      · rw [List.getElem_range]
        exact BEq.rfl
      · rw [List.getElem_range]
        simpa using hj.ne
    rw [hfind]
  · have hfind : (List.range numThreads).findIdx? (· == t) = none := by
      refine List.findIdx?_eq_none_iff.mpr fun j hj ↦ ?_
      have hlt := List.mem_range.mp hj
      simp only [beq_eq_false_iff_ne]
      omega
    rw [hfind]
    rfl

/-- Who has a number is that worker. -/
theorem eq_of_tstThreadGetNum {numThreads t k : ℕ}
    (h : tstThreadGetNum (List.range numThreads) t = k) : t = k ∧ k < numThreads := by
  rw [tstThreadGetNum_range] at h
  split_ifs at h with ht
  omega

theorem tstCommGetcomm_range (numThreads t : ℕ) :
    tstCommGetcomm (List.range numThreads) t = if t < numThreads then .worker t else .master := by
  rw [tstCommGetcomm, tstThreadGetNum_range]
  split_ifs with ht h
  · rw [tstThreadMaster] at h
    omega
  · rw [Int.toNat_natCast]
  · rfl
  · rename_i h
    exact absurd rfl h

end

/-! ## Partners -/

/-- The variables that depend on the class of the communicator, in the tests that keep off a single
rank (`alone`) and in those that do not. -/
def threadedPlace (message : String) (alone : Bool) (commClass : Flags) (commRank commSize : ℕ) :
    Except Stop P2P.RingPlace :=
  if commClass &&& tstMpiCommSelf ≠ 0 then .ok ⟨0, none, none⟩
  else if commClass &&& tstMpiIntraComm ≠ 0 then
    if alone = false ∨ 1 < commSize then
      .ok ⟨commRank, some ((commRank + 1) % commSize),
        some ((commRank + commSize - 1) % commSize)⟩
    else .ok ⟨commRank, none, none⟩
  else .error (.error message)

theorem threadedPlace_self {message : String} {alone : Bool} {commClass : Flags}
    (hself : commClass &&& tstMpiCommSelf ≠ 0) (commRank commSize : ℕ) :
    threadedPlace message alone commClass commRank commSize = .ok ⟨0, none, none⟩ := if_pos hself

theorem threadedPlace_intra {message : String} {alone : Bool} {commClass : Flags}
    (hself : commClass &&& tstMpiCommSelf = 0) (hintra : commClass &&& tstMpiIntraComm ≠ 0)
    (commRank commSize : ℕ) :
    threadedPlace message alone commClass commRank commSize
      = .ok (if alone = false ∨ 1 < commSize then
          ⟨commRank, some ((commRank + 1) % commSize),
            some ((commRank + commSize - 1) % commSize)⟩
        else ⟨commRank, none, none⟩) := by
  rw [threadedPlace, if_neg (not_not_intro hself), if_pos hintra]
  split_ifs <;> rfl

/-- Who receives from a rank is who it sends to. -/
structure Around (p : ℕ) (place : ℕ → P2P.RingPlace) : Prop where
  next : ∀ r < p, ∀ q, (place r).sendTo = some q → q < p ∧ (place q).recvFrom = some r
  previous : ∀ q < p, ∀ r, (place q).recvFrom = some r → r < p ∧ (place r).sendTo = some q

/-- On a communicator of the two classes everybody has a place. -/
theorem exists_around (message : String) (alone : Bool) {commClass : Flags}
    (hclass : commClass &&& tstMpiCommSelf = 0 → commClass &&& tstMpiIntraComm ≠ 0) (p : ℕ) :
    ∃ place, (∀ r, threadedPlace message alone commClass r p = .ok (place r)) ∧
      Around p place := by
  by_cases hself : commClass &&& tstMpiCommSelf = 0
  · refine ⟨_, fun r ↦ threadedPlace_intra hself (hclass hself) r p, fun r hr q hq ↦ ?_,
      fun q hq r hr ↦ ?_⟩
    · by_cases hsome : alone = false ∨ 1 < p
      · simp only [if_pos hsome] at hq ⊢
        obtain rfl := Option.some_inj.mp hq
        have hlt : (r + 1) % p < p := Nat.mod_lt _ (by omega)
        exact ⟨hlt, congrArg some ((P2P.next_eq_iff hr hlt).mp rfl).symm⟩
      · simp only [if_neg hsome] at hq
        cases hq
    · by_cases hsome : alone = false ∨ 1 < p
      · simp only [if_pos hsome] at hr ⊢
        obtain rfl := Option.some_inj.mp hr
        have hlt : (q + p - 1) % p < p := Nat.mod_lt _ (by omega)
        exact ⟨hlt, congrArg some ((P2P.next_eq_iff hlt hq).mpr rfl).symm⟩
      · simp only [if_neg hsome] at hr
        cases hr
  · refine ⟨_, fun r ↦ threadedPlace_self hself r p, fun r _ q hq ↦ ?_, fun q _ r hr ↦ ?_⟩
    · cases hq
    · cases hr

/-- Requests of a process: the thread that has started one, and a number. -/
abbrev Slot := ℕ × ℕ

/-- Communicator and tag. -/
abbrev Key := ThreadComm × ℤ

/-- What the threads of the processes do. -/
abbrev Calls := List (Instr ℕ Slot Key P2P.Packet)

/-- A status with what has been received. If nothing has, it is that of a receive from
`MPI_PROC_NULL`, with `MPI_ANY_TAG`. -/
def arrivalAt (s : State ℕ ℕ Slot Key P2P.Packet) (r : ℕ) (slot : Slot) : Option P2P.Arrival :=
  (s.got r slot).map fun x ↦ ⟨x.1, x.2.1.2, x.2.2⟩

/-- Every party of `commSize` ranks with `numThreads` workers executes its calls. -/
def partyProgram (commSize numThreads : ℕ) (calls : ℕ → ℕ → Except Stop Calls) (x : ℕ × ℕ) :
    Calls :=
  if x.1 < commSize ∧ x.2 < numThreads + 1 then
    match calls x.1 x.2 with
    | .ok calls => calls
    | .error _ => []
  else []

/-- Only so many parties do anything. -/
theorem partyProgram_eq_nil {commSize numThreads : ℕ} {calls : ℕ → ℕ → Except Stop Calls}
    (x : ℕ × ℕ) (hx : x ∉ Finset.range commSize ×ˢ Finset.range (numThreads + 1)) :
    partyProgram commSize numThreads calls x = [] := by
  rw [Finset.mem_product, Finset.mem_range, Finset.mem_range] at hx
  exact if_neg hx

/-! ## Admission -/

/-- What the names of the functions of the tests begin with. -/
def threadedFunctions : List String :=
  ["tst_threaded_ring", "tst_threaded_ring_isend", "tst_threaded_ring_bsend",
    "tst_threaded_ring_persistent", "tst_threaded_comm_dup", "tst_threaded_ring_partitioned",
    "tst_threaded_ring_partitioned_many_to_one"]

/-- Their rows ask for the same classes of communicators. -/
theorem runWithComm_threaded {cfg : Config} {i : ℤ} {row : Test} (hrow : tstTest cfg i = some row)
    {functions : String} (hmem : functions ∈ threadedFunctions)
    (hname : row.functions = some functions) :
    row.runWithComm = tstMpiCommSelf ||| tstMpiIntraComm := by
  rcases tstTest_induction cfg
    (P := fun row ↦ decide (∀ functions ∈ threadedFunctions, row.functions = some functions →
      row.runWithComm = tstMpiCommSelf ||| tstMpiIntraComm))
    (by
      simp only [List.forall_mem_cons]
      exact ⟨rfl, rfl, rfl, rfl, rfl, rfl, fun _ h ↦ absurd h List.not_mem_nil⟩) hrow with rfl | h
  · cases hname
  · exact of_decide_eq_true h functions hmem hname

/-- A communicator that is admitted and not like `MPI_COMM_SELF` is an intra-communicator. -/
theorem intra_of_admitted {commClass : Flags}
    (hclass : commClass &&& (tstMpiCommSelf ||| tstMpiIntraComm) ≠ 0)
    (hself : commClass &&& tstMpiCommSelf = 0) : commClass &&& tstMpiIntraComm ≠ 0 := by
  intro hzero
  exact hclass (by rw [BitVec.and_or_distrib_left, hself, hzero]; rfl)

end Threaded

end MpiTestSuite

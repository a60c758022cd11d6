import MpiTestSuite.Coll.Bcast
import MpiTestSuite.Threaded.Parties

/-!
# Broadcasts on duplicated communicators

In `"Threaded bcast on duplicated comms"` worker zero of every process makes as many duplicates of
its communicator as there are workers, and every thread broadcasts on the duplicate with its number.
The master has the number `-1`, and so reads in front of the array. The array that a worker sets
before the broadcast, and looks for after it, is that of a number in which its rank occurs, so that
the ranks do not look for what the root has sent.
-/

namespace MpiTestSuite

namespace Threaded

/-! ## The test -/

/-- A duplicate, and how many have been made before it. -/
structure DupComm where
  original : ThreadComm
  number : ℕ
  deriving DecidableEq, Repr

/-- `new_comms`, as `tst_threaded_comm_dup_init` fills it in worker zero. -/
def newComms (numThreads : ℕ) : List DupComm :=
  (List.range numThreads).map fun i ↦ ⟨tstCommGetcomm (List.range numThreads) 0, i⟩

/-- An element of `new_comms`. -/
def newCommAt (numThreads : ℕ) (i : ℤ) : Except Stop DupComm :=
  if i < 0 then .error .outOfBounds
  else match (newComms numThreads)[i.toNat]? with
    | some comm => .ok comm
    | none => .error .outOfBounds

/-- `tag` in `tst_threaded_comm_dup_run`. -/
def commDupTag (commRank : ℕ) (threadNum : ℤ) : ℤ := 100 * commRank + threadNum

section

variable (cfg : Config) (t : TypeSlot) (env : Env) (extended : Bool) (commClass : Flags)
  (numThreads commRank : ℕ) (threadNum : ℤ)

/-- A round: the buffer, and the environments that `tst_test_recordfailure` is called with. A root
that has not been set is not to be used. -/
def commDupRound (delivered : ℕ → Option Memory) (state : Memory × List Env) (i : ℕ) :
    Except Stop (Memory × List Env) := do
  let tag := commDupTag commRank threadNum
  let sendBuffer ← P2P.orStop (tstTypeSetstandardarray cfg t env.valuesNum.toNat state.1 tag)
  let _ ← newCommAt numThreads threadNum
  let sendBuffer ← match bcastBuffer commRank (bcastRoot extended commClass commRank i)
      (delivered i) sendBuffer with
    | some buffer => .ok buffer
    | none => .error .outOfBounds
  let calls ← P2P.orStop (tstTestCheckstandardarray cfg t env sendBuffer tag)
  return (sendBuffer, state.2 ++ calls)

/-- `tst_threaded_comm_dup_run` in a thread, where `delivered i` is what `MPI_Bcast` delivers to it
in round `i`. -/
def tstThreadedCommDupRun (commSize : ℕ) (delivered : ℕ → Option Memory) (sendBuffer : Memory) :
    Except Stop (List Env) := do
  let state ← (List.range commSize).foldlM
    (commDupRound cfg t env extended commClass numThreads commRank threadNum delivered)
    (sendBuffer, [])
  return state.2

end

/-- The number of a thread. -/
def commDupThreadNum (numThreads thread : ℕ) : ℤ := tstThreadGetNum (List.range numThreads) thread

/-- What the test promises with `p` ranks and `n` workers each. -/
structure CommDupWorks (cfg : Config) (t : TypeSlot) (env : Env) (extended : Bool)
    (commClass : Flags) (p n : ℕ) : Prop where
  /-- The index of every thread is one of the array. -/
  index : ∀ u < n + 1, 0 ≤ commDupThreadNum n u ∧ commDupThreadNum n u < n
  /-- In every round the corresponding threads of all ranks have one communicator and one root. -/
  sameComm : ∀ u < n + 1, ∀ i < p, ∃ comm root, ∀ r < p,
    newCommAt n (commDupThreadNum n u) = .ok comm ∧ bcastRoot extended commClass r i = .rank root
  /-- What a rank looks for is what the root has sent. -/
  expected : ∀ u < n + 1, ∀ i < p, ∀ r < p, ∀ root,
    bcastRoot extended commClass r i = .rank root →
      commDupTag r (commDupThreadNum n u) = commDupTag root (commDupThreadNum n u)
  /-- If everybody gets the array of the root, no failure is recorded. -/
  quiet : ∀ u < n + 1, ∀ r < p, ∀ delivered : ℕ → Option Memory,
    (∀ i < p, ∀ root, bcastRoot extended commClass r i = .rank root → ∃ m, delivered i = some m ∧
      HoldsStandardArray cfg t env.valuesNum.toNat (commDupTag root (commDupThreadNum n u)) m) →
    ∀ sendBuffer, tstThreadedCommDupRun cfg t env extended commClass n r (commDupThreadNum n u) p
      delivered sendBuffer = .ok []

/-! ## What goes wrong -/

section

variable {n : ℕ}

/-- The workers have their duplicates, and nobody else has one. -/
theorem commDupThreadNum_iff {u : ℕ} :
    0 ≤ commDupThreadNum n u ∧ commDupThreadNum n u < n ↔ u < n := by
  rw [commDupThreadNum, tstThreadGetNum_range]
  split_ifs with hu <;> omega

/-- Two ranks never look for the same. -/
theorem commDupTag_inj {r r' : ℕ} {threadNum : ℤ} :
    commDupTag r threadNum = commDupTag r' threadNum ↔ r = r' := by
  rw [commDupTag, commDupTag]
  omega

/-- The master leaves the array in the first round. -/
theorem commDupRun_master {cfg : Config} {t : TypeSlot} (ht : t ∈ initTypes cfg)
    (hnull : t.datatype ≠ .null) (env : Env) (extended : Bool) (commClass : Flags) (commRank : ℕ)
    {commSize : ℕ} (hsize : 0 < commSize) (delivered : ℕ → Option Memory) (sendBuffer : Memory) :
    tstThreadedCommDupRun cfg t env extended commClass n commRank (commDupThreadNum n n) commSize
      delivered sendBuffer = .error .outOfBounds := by
  obtain ⟨fields, h⟩ := exists_settable cfg ht hnull
  obtain ⟨m, rfl⟩ := Nat.exists_eq_succ_of_ne_zero hsize.ne'
  have hnum : commDupThreadNum n n = -1 := by
    rw [commDupThreadNum, tstThreadGetNum_range, if_neg (lt_irrefl n)]
  rw [tstThreadedCommDupRun, List.range_succ_eq_map, List.foldlM_cons, commDupRound,
    h.setstandardarray_eq, hnum]
  rfl

/-- The ranks look for what the root has sent exactly if there is only one of them. -/
theorem commDupTag_eq_root_iff {extended : Bool} {commClass : Flags}
    (hclass : extended = true → commClass = tstMpiIntraComm) (p : ℕ) (threadNum : ℤ) :
    (∀ i < p, ∀ r < p, ∀ root, bcastRoot extended commClass r i = .rank root →
      commDupTag r threadNum = commDupTag root threadNum) ↔ p ≤ 1 := by
  have hroot : ∀ r, bcastRoot extended commClass r 0 = .rank 0 := by
    intro r
    cases extended with
    | true => rw [hclass rfl]; rfl
    | false => rfl
  constructor
  · intro hall
    by_contra hp
    have h1 := hall 0 (by omega) 1 (by omega) 0 (hroot 1)
    exact one_ne_zero (commDupTag_inj.mp h1)
  · intro hp i hi r hr root h
    obtain rfl : i = 0 := by omega
    obtain rfl : r = 0 := by omega
    rw [hroot, BcastRoot.rank.injEq] at h
    rw [h]

end

/-- **Broadcasts on duplicated communicators.** With no number of ranks and workers does the test
what it promises: the index of the master is not one of the array. -/
theorem comm_dup_never_works (cfg : Config) (t : TypeSlot) (env : Env) (extended : Bool)
    (commClass : Flags) (p n : ℕ) : ¬CommDupWorks cfg t env extended commClass p n := by
  intro hworks
  exact lt_irrefl n (commDupThreadNum_iff.mp (hworks.index n (Nat.lt_succ_self n)))

/-- Two ranks with two workers each. -/
theorem comm_dup_fails : ¬∀ (commClass : Flags),
    commClass &&& (tstMpiCommSelf ||| tstMpiIntraComm) ≠ 0 → ∀ p : ℕ, 1 ≤ p → ∀ n : ℕ, 1 ≤ n →
      CommDupWorks ⟨2, true, true, true, true, true, true, true, true⟩ (slotMpi2 6)
        ⟨108, 0, 6, 3, 0⟩ false commClass p n := by
  intro h
  have hmaster := (h tstMpiIntraComm (by decide) 2 (by decide) 2 (by decide)).index 2 (by decide)
  exact absurd hmaster (by decide)

end Threaded

end MpiTestSuite

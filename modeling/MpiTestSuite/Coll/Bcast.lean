import MpiTestSuite.Coding.CInt
import MpiTestSuite.Report.Oracle
import MpiTestSuite.Tables.Comms

/-!
# The oracle of the broadcast test

In round `i` the array of rank `i` is broadcast from rank `i`, and every rank checks that it holds
that array afterwards. This is what happens under `HAVE_MPI_EXTENDED_COLLECTIVES`, which no check of
`configure` defines; without it there is an assignment behind the choice of the root that makes rank
zero the root of all rounds.

There is one buffer, though, and every rank sets the array of rank `i` in it *before* the broadcast,
not only the root. On the other ranks the check therefore finds what the rank has put there itself
whenever `MPI_Bcast` delivers nothing. Only the delivery of something else is noticed
(`Settable.bcastRound_eq`).
-/

namespace MpiTestSuite

/-- The argument `root` of a call of `MPI_Bcast`. -/
inductive BcastRoot
  | rank (r : ℕ)
  /-- `MPI_ROOT`. -/
  | mpiRoot
  /-- `MPI_PROC_NULL`. -/
  | mpiProcNull
  /-- No value was assigned. -/
  | unset
  deriving DecidableEq, Repr

/-- The root in round `i`; `extended` stands for `HAVE_MPI_EXTENDED_COLLECTIVES`. -/
def bcastRoot (extended : Bool) (commClass : Flags) (commRank i : ℕ) : BcastRoot :=
  if extended then
    if commClass = tstMpiIntraComm then .rank i
    else if commClass = tstMpiInterComm then if i = commRank then .mpiRoot else .mpiProcNull
    else .unset
  -- `root = 0` stands behind the `if` and not in an `else`
  else .rank 0

section

variable (cfg : Config) (t : TypeSlot) (env : Env) (extended : Bool) (commClass : Flags)
  (commRank commSize : ℕ)

/-- What `MPI_Bcast` leaves in the buffer: the root keeps it, any other rank gets what is delivered,
if anything is. -/
def bcastBuffer (root : BcastRoot) (delivered : Option Memory) (sendBuffer : Memory) :
    Option Memory :=
  match root with
  | .rank r => some (if commRank = r then sendBuffer else delivered.getD sendBuffer)
  | .mpiRoot => some sendBuffer
  | .mpiProcNull => some sendBuffer
  | .unset => none

/-- A round: the buffer, and the environments that `tst_test_recordfailure` is called with. -/
def bcastRound (delivered : ℕ → Option Memory) (state : Memory × List Env) (i : ℕ) :
    Option (Memory × List Env) := do
  let sendBuffer ← tstTypeSetstandardarray cfg t env.valuesNum.toNat state.1 i
  let sendBuffer ← bcastBuffer commRank (bcastRoot extended commClass commRank i) (delivered i)
    sendBuffer
  let calls ← tstTestCheckstandardarray cfg t env sendBuffer i
  return (sendBuffer, state.2 ++ calls)

/-- `tst_coll_bcast_run`, where `delivered i` is what `MPI_Bcast` delivers to the rank in round `i`.
-/
def tstCollBcastRun (delivered : ℕ → Option Memory) (sendBuffer : Memory) : Option (List Env) := do
  let state ← (List.range commSize).foldlM
    (bcastRound cfg t env extended commClass commRank delivered) (sendBuffer, [])
  return state.2

end

/-- In round `i` something is delivered to the rank that is not the array of the root. -/
def WrongDelivery (cfg : Config) (t : TypeSlot) (n commRank : ℕ) (delivered : ℕ → Option Memory)
    (i : ℕ) : Prop :=
  i ≠ commRank ∧ ∃ m, delivered i = some m ∧ ¬HoldsStandardArray cfg t n i m

/-- In round `i` nothing is delivered to the rank, which is not the root. -/
def NoDelivery (commRank : ℕ) (delivered : ℕ → Option Memory) (i : ℕ) : Prop :=
  i ≠ commRank ∧ delivered i = none

/-- The root of a round. -/
theorem bcastRoot_intra {extended : Bool} {commSize : ℕ} (h : extended = true ∨ commSize ≤ 1)
    (commRank : ℕ) {i : ℕ} (hi : i < commSize) :
    bcastRoot extended tstMpiIntraComm commRank i = .rank i := by
  rcases h with rfl | hone
  · rfl
  · obtain rfl : i = 0 := by omega
    cases extended <;> rfl

/-- Every rank is the root in exactly one round, unless rank zero is in all of several. -/
theorem existsUnique_bcastRoot_iff (extended : Bool) (commRank commSize : ℕ) :
    (∀ r < commSize,
      ∃! i, i < commSize ∧ bcastRoot extended tstMpiIntraComm commRank i = .rank r) ↔
      extended = true ∨ commSize ≤ 1 := by
  constructor
  · intro hall
    by_contra hnot
    obtain ⟨hextended, hmany⟩ := not_or.mp hnot
    obtain ⟨i, ⟨-, hroot⟩, -⟩ := hall 1 (by omega)
    rw [Bool.not_eq_true] at hextended
    subst hextended
    cases hroot
  · intro h r hr
    refine ⟨r, ⟨hr, bcastRoot_intra h commRank hr⟩, ?_⟩
    rintro i ⟨hi, hroot⟩
    rw [bcastRoot_intra h commRank hi] at hroot
    exact BcastRoot.rank.inj hroot

namespace Settable

variable {cfg : Config} {t : TypeSlot} {fields : List FieldStore}

/-- A round records a failure exactly if something wrong is delivered in it. -/
theorem bcastRound_eq (h : Settable cfg t fields) (env : Env) (extended : Bool) (commRank : ℕ)
    (delivered : ℕ → Option Memory) (state : Memory × List Env) {i : ℕ}
    (hroot : bcastRoot extended tstMpiIntraComm commRank i = .rank i)
    (hbound : (i : ℤ) + env.valuesNum.toNat ≤ 2 ^ 32) :
    ∃ sendBuffer calls,
      bcastRound cfg t env extended tstMpiIntraComm commRank delivered state i
        = some (sendBuffer, state.2 ++ calls) ∧
      (calls = [] ↔ ¬WrongDelivery cfg t env.valuesNum.toNat commRank delivered i) := by
  have hown : HoldsStandardArray cfg t env.valuesNum.toNat i _ :=
    h.holdsStandardArray_written (by omega) hbound state.1
  rw [bcastRound, h.setstandardarray_eq, hroot]
  simp only [Option.pure_def, Option.bind_eq_bind, Option.bind_some, bcastBuffer,
    h.testCheckstandardarray_eq]
  refine ⟨_, _, rfl, ?_⟩
  rw [WrongDelivery]
  by_cases hself : commRank = i
  · simp [hself, hown]
  · rw [if_neg hself]
    cases hdelivered : delivered i with
    | none => simp [hown]
    | some m => simp [Ne.symm hself]

/-- The whole loop. -/
theorem foldlM_bcastRound (h : Settable cfg t fields) (env : Env) (extended : Bool) (commRank : ℕ)
    (delivered : ℕ → Option Memory) (rounds : List ℕ)
    (hroot : ∀ i ∈ rounds, bcastRoot extended tstMpiIntraComm commRank i = .rank i)
    (hbound : ∀ i ∈ rounds, (i : ℤ) + env.valuesNum.toNat ≤ 2 ^ 32) (state : Memory × List Env) :
    ∃ sendBuffer calls,
      rounds.foldlM (bcastRound cfg t env extended tstMpiIntraComm commRank delivered) state
        = some (sendBuffer, state.2 ++ calls) ∧
      (calls = [] ↔ ∀ i ∈ rounds,
        ¬WrongDelivery cfg t env.valuesNum.toNat commRank delivered i) := by
  induction rounds generalizing state with
  | nil => exact ⟨state.1, [], by rw [List.append_nil]; rfl, by simp⟩
  | cons i rounds ih =>
    obtain ⟨m, first, hround, hfirst⟩ := h.bcastRound_eq env extended commRank delivered state
      (hroot i List.mem_cons_self) (hbound i List.mem_cons_self)
    obtain ⟨m', rest, hloop, hrest⟩ := ih (fun j hj ↦ hroot j (List.mem_cons_of_mem i hj))
      (fun j hj ↦ hbound j (List.mem_cons_of_mem i hj)) (m, state.2 ++ first)
    refine ⟨m', first ++ rest, ?_, ?_⟩
    · rw [List.foldlM_cons, hround, ← List.append_assoc]
      exact hloop
    · rw [List.append_eq_nil_iff, hfirst, hrest, List.forall_mem_cons]

end Settable

/-- If the roots are as they should be, a rank records a failure exactly if something wrong is
delivered to it, and this is what it should do under the condition that something is always
delivered or something wrong is. -/
theorem bcastRun_detects_iff {cfg : Config} {t : TypeSlot} (ht : t ∈ initTypes cfg)
    (hnull : t.datatype ≠ .null) {env : Env} (hvalues : FitsInt env.valuesNum) {extended : Bool}
    (commRank : ℕ) {commSize : ℕ} (hsize : FitsInt commSize)
    (hroots : extended = true ∨ commSize ≤ 1) (delivered : ℕ → Option Memory)
    (sendBuffer : Memory) :
    ∃ calls, tstCollBcastRun cfg t env extended tstMpiIntraComm commRank commSize delivered
        sendBuffer = some calls ∧
      ((calls ≠ [] ↔ ∃ i < commSize,
          WrongDelivery cfg t env.valuesNum.toNat commRank delivered i ∨
            NoDelivery commRank delivered i) ↔
        (∀ i < commSize, ¬NoDelivery commRank delivered i) ∨
          ∃ i < commSize, WrongDelivery cfg t env.valuesNum.toNat commRank delivered i) := by
  obtain ⟨fields, h⟩ := exists_settable cfg ht hnull
  obtain ⟨m, calls, hloop, hcalls⟩ := h.foldlM_bcastRound env extended commRank delivered
    (List.range commSize) (fun i hi ↦ bcastRoot_intra hroots commRank (List.mem_range.mp hi))
    (fun i hi ↦ by
      have hlt := List.mem_range.mp hi
      have hn := hvalues.2
      have hp := hsize.2
      omega) (sendBuffer, [])
  refine ⟨calls, ?_, ?_⟩
  · rw [tstCollBcastRun, hloop]
    rfl
  · have hrecorded : calls ≠ [] ↔ ∃ i < commSize,
        WrongDelivery cfg t env.valuesNum.toNat commRank delivered i := by
      rw [Ne, hcalls]
      simp only [List.mem_range, not_forall, not_not, exists_prop]
    rw [hrecorded]
    constructor
    · intro hexact
      rw [or_iff_not_imp_right]
      intro hwrong i hi hnone
      exact hwrong (hexact.mpr ⟨i, hi, Or.inr hnone⟩)
    · intro hcond
      constructor
      · rintro ⟨i, hi, hwrong⟩
        exact ⟨i, hi, Or.inl hwrong⟩
      · rintro ⟨i, hi, hwrong | hnone⟩
        · exact ⟨i, hi, hwrong⟩
        · exact hcond.resolve_left fun hall ↦ hall i hi hnone

/-- **The broadcasts.** On a communicator of the class `TST_MPI_INTRA_COMM` every rank should be the
root in one round, and record a failure exactly if, in some round in which it is not the root,
something wrong or nothing is delivered to it. This is so if there is one rank or the roots are
those of `HAVE_MPI_EXTENDED_COLLECTIVES`, and something is always delivered or something wrong is.
-/
theorem bcast_detects_iff (cfg : Config) (t : TypeSlot) (ht : t ∈ initTypes cfg)
    (hnull : t.datatype ≠ .null) (env : Env) (hvalues : FitsInt env.valuesNum) (extended : Bool)
    (commRank commSize : ℕ) (hsize : FitsInt commSize) (delivered : ℕ → Option Memory)
    (sendBuffer : Memory) :
    ((∀ r < commSize,
        ∃! i, i < commSize ∧ bcastRoot extended tstMpiIntraComm commRank i = .rank r) ∧
      ∃ calls, tstCollBcastRun cfg t env extended tstMpiIntraComm commRank commSize delivered
          sendBuffer = some calls ∧
        (calls ≠ [] ↔ ∃ i < commSize,
          WrongDelivery cfg t env.valuesNum.toNat commRank delivered i ∨
            NoDelivery commRank delivered i)) ↔
      (extended = true ∨ commSize ≤ 1) ∧
        ((∀ i < commSize, ¬NoDelivery commRank delivered i) ∨
          ∃ i < commSize, WrongDelivery cfg t env.valuesNum.toNat commRank delivered i) := by
  rw [existsUnique_bcastRoot_iff]
  refine and_congr_right fun hroots ↦ ?_
  obtain ⟨calls, hrun, hiff⟩ := bcastRun_detects_iff ht hnull hvalues commRank hsize hroots
    delivered sendBuffer
  rw [hrun, ← hiff]
  simp only [Option.some_inj, exists_eq_left']

/-- Three values of `MPI_INT` on the second of two processes, to which nothing is delivered. -/
theorem bcast_detects_iff_int :
    let cfg : Config := ⟨2, true, true, true, true, true, true, true, true⟩
    let env : Env := ⟨30, 0, 6, 3, 0⟩
    ((∀ r < 2, ∃! i, i < 2 ∧ bcastRoot true tstMpiIntraComm 1 i = .rank r) ∧
      ∃ calls, tstCollBcastRun cfg (slotMpi2 6) env true tstMpiIntraComm 1 2 (fun _ ↦ none)
          (fun _ ↦ 0) = some calls ∧
        (calls ≠ [] ↔ ∃ i < 2,
          WrongDelivery cfg (slotMpi2 6) 3 1 (fun _ ↦ none) i ∨
            NoDelivery 1 (fun _ ↦ none) i)) ↔
      (true = true ∨ 2 ≤ 1) ∧
        ((∀ i < 2, ¬NoDelivery 1 (fun _ ↦ none) i) ∨
          ∃ i < 2, WrongDelivery cfg (slotMpi2 6) 3 1 (fun _ ↦ none) i) :=
  bcast_detects_iff ⟨2, true, true, true, true, true, true, true, true⟩ (slotMpi2 6)
    (by decide +kernel) (by decide +kernel) ⟨30, 0, 6, 3, 0⟩ (by decide) true 1 2 (by decide)
    (fun _ ↦ none) fun _ ↦ 0

/-- On the second of two processes nothing arrives, and nothing is recorded. -/
theorem bcast_misses_missing_delivery :
    ¬∀ (cfg : Config) (t : TypeSlot), t ∈ initTypes cfg → t.datatype ≠ .null →
      ∀ (env : Env), 1 ≤ env.valuesNum → FitsInt env.valuesNum →
        ∀ (extended : Bool) (commRank commSize : ℕ), commRank < commSize → FitsInt commSize →
        ∀ (delivered : ℕ → Option Memory) (sendBuffer : Memory) (calls : List Env),
          tstCollBcastRun cfg t env extended tstMpiIntraComm commRank commSize delivered sendBuffer
            = some calls →
          (calls ≠ [] ↔ ∃ i < commSize,
            WrongDelivery cfg t env.valuesNum.toNat commRank delivered i ∨
              NoDelivery commRank delivered i) := by
  intro h
  have hexact := h ⟨2, true, true, true, true, true, true, true, true⟩ (slotMpi2 6)
    (by decide +kernel) (by decide +kernel) ⟨30, 0, 6, 3, 0⟩ (by decide) (by decide) true 1 2
    (by decide) (by decide) (fun _ ↦ none) (fun _ ↦ 0) [] (by decide +kernel)
  exact hexact.mpr ⟨0, by decide, Or.inr ⟨by decide, rfl⟩⟩ rfl

end MpiTestSuite

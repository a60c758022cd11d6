import Mathlib.Algebra.BigOperators.Intervals
import Mathlib.Tactic.LinearCombination
import MpiTestSuite.Coding.CInt
import MpiTestSuite.Report.Failures
import MpiTestSuite.Types.StandardArray

/-!
# The oracles of the two sum tests

The all-reduce test and the test that accumulates into a window sum up the standard arrays of all
ranks, and both compare element `i` of the result with a closed form, from the third element on. The
closed form is exact, as long as its products are numbers of type `int`: it is the sum of `q + i`
over the ranks `q`, with no remainder in the division by two (`ProductsFit.expectedSum_eq`).

What is wrong is what comes after. The two programs count the elements that differ, and count them
right (`Settable.sumErrors_eq`), but no one reads the counter: neither of them ever records a
failure.
-/

namespace MpiTestSuite

/-- `sum + (i-2) * comm_size`, where `sum=(comm_size + 3) * comm_size /2`. The sum is an `MPI_Aint`,
what it is made of is computed in `int`. -/
def expectedSum (commSize i : ℕ) : ℤ :=
  (wrapInt (wrapInt (commSize + 3) * commSize)).tdiv 2 + wrapInt (((i : ℤ) - 2) * commSize)

/-- No product overflows. -/
structure ProductsFit (commSize valuesNum : ℕ) : Prop where
  sum : FitsInt (((commSize : ℤ) + 3) * commSize)
  element : ∀ i : ℕ, 2 ≤ i → i < valuesNum → FitsInt (((i : ℤ) - 2) * commSize)

instance (commSize valuesNum : ℕ) : Decidable (ProductsFit commSize valuesNum) :=
  decidable_of_iff (FitsInt (((commSize : ℤ) + 3) * commSize) ∧
      ∀ i < valuesNum, 2 ≤ i → FitsInt (((i : ℤ) - 2) * commSize))
    ⟨fun h ↦ ⟨h.1, fun i hi hn ↦ h.2 i hn hi⟩, fun h ↦ ⟨h.sum, fun i hn hi ↦ h.element i hi hn⟩⟩

section

variable (cfg : Config) (t : TypeSlot) (env : Env) (commRank commSize : ℕ)

/-- The check at the end of both programs: the number of errors. -/
def sumErrors (recvBuffer : Memory) : Option ℕ := do
  let state ← (List.range' 2 (env.valuesNum.toNat - 2)).foldlM (fun state (i : ℕ) ↦
    compareElement cfg t (.value, expectedSum commSize i) recvBuffer (i * t.size) state)
    (freshValues t 1, 0)
  return state.2

/-- `tst_coll_allreduce_sum_run`, where `recvBuffer` is what `MPI_Allreduce` leaves in the receive
buffer: the environments that `tst_test_recordfailure` is called with. -/
def tstCollAllreduceSumRun (sendBuffer recvBuffer : Memory) : Option (List Env) := do
  let _ ← tstTypeSetstandardarray cfg t env.valuesNum.toNat sendBuffer commRank
  let _errors ← sumErrors cfg t env commSize recvBuffer
  return []

/-- The ranks that a rank accumulates its array to. -/
def accumulateTargets : List ℕ := (List.range commSize).filter fun i ↦ !(commRank == i)

/-- `tst_accumulate_with_fence_sum_run`, where `recvBuffer` is what is in the window after the
second fence: the environments that `tst_test_recordfailure` is called with. -/
def tstAccumulateWithFenceSumRun (recvBuffer : Memory) : Option (List Env) := do
  let _errors ← sumErrors cfg t env commSize recvBuffer
  return []

end

/-- The number that element `i` of the window of a rank should hold in the end: what was there, and
what each rank accumulates to it. -/
def accumulatedSum (commSize target i : ℕ) : ℤ :=
  elementValue target i + ∑ origin ∈ Finset.range commSize,
    ((accumulateTargets origin commSize).count target : ℤ) * elementValue origin i

/-- Element `i` of a result is not the sum of what all ranks put there. -/
def sumDiffers (cfg : Config) (t : TypeSlot) (commSize : ℕ) (recvBuffer : Memory) (i : ℕ) : Bool :=
  (tstTypeSetvalue cfg t (fun _ ↦ 0) 0 .value
      (∑ q ∈ Finset.range commSize, elementValue q i)).any fun w ↦
    tstTypeCmpvalue t recvBuffer (i * t.size) w 0

/-! ## The closed form -/

theorem two_mul_sum (p : ℕ) (i : ℤ) :
    2 * ∑ q ∈ Finset.range p, ((q : ℤ) + i) = (p + 3) * p + 2 * ((i - 2) * p) := by
  induction p with
  | zero => simp
  | succ p ih =>
    rw [Finset.sum_range_succ, mul_add, ih]
    push_cast
    ring

/-- If the product does not overflow, the sum in it does not either. -/
theorem ProductsFit.fitsInt_add {p n : ℕ} (h : ProductsFit p n) : FitsInt ((p : ℤ) + 3) := by
  have hhigh := h.sum.2
  rcases Nat.eq_zero_or_pos p with rfl | hpos
  · decide
  · have hle : (p : ℤ) + 3 ≤ ((p : ℤ) + 3) * p :=
      le_mul_of_one_le_right (by omega) (by exact_mod_cast hpos)
    exact ⟨by omega, hle.trans_lt hhigh⟩

/-- **The closed form.** The division is exact. -/
theorem ProductsFit.expectedSum_eq {p n : ℕ} (h : ProductsFit p n) {i : ℕ} (hi : 2 ≤ i)
    (hn : i < n) : expectedSum p i = ∑ q ∈ Finset.range p, ((q : ℤ) + i) := by
  have hsum := two_mul_sum p i
  have hdouble : ((p : ℤ) + 3) * p
      = 2 * ((∑ q ∈ Finset.range p, ((q : ℤ) + i)) - ((i : ℤ) - 2) * p) := by
    linear_combination -hsum
  rw [expectedSum, wrapInt_of_fitsInt h.fitsInt_add, wrapInt_of_fitsInt h.sum,
    wrapInt_of_fitsInt (h.element i hi hn), hdouble, Int.mul_tdiv_cancel_left _ two_ne_zero,
    sub_add_cancel]

/-- Element `i` of the standard arrays, from the third on, sums up to the closed form. -/
theorem ProductsFit.sum_elementValue {p n : ℕ} (h : ProductsFit p n) {i : ℕ} (hi : 2 ≤ i)
    (hn : i < n) : ∑ q ∈ Finset.range p, elementValue q i = expectedSum p i := by
  rw [h.expectedSum_eq hi hn]
  exact Finset.sum_congr rfl fun q _ ↦ elementValue_of_two_le q hi

theorem count_accumulateTargets {commSize target : ℕ} (htarget : target < commSize) (origin : ℕ) :
    (accumulateTargets origin commSize).count target = if origin = target then 0 else 1 := by
  rw [accumulateTargets]
  by_cases h : origin = target
  · rw [if_pos h, List.count_eq_zero]
    simp [h]
  · rw [if_neg h, List.count_filter (by simp [h])]
    exact List.count_eq_one_of_mem List.nodup_range (List.mem_range.mpr htarget)

/-- Every other rank contributes once. -/
theorem accumulatedSum_eq {commSize target : ℕ} (htarget : target < commSize) (i : ℕ) :
    accumulatedSum commSize target i = ∑ q ∈ Finset.range commSize, elementValue q i := by
  have hmem : target ∈ Finset.range commSize := Finset.mem_range.mpr htarget
  rw [accumulatedSum, ← Finset.add_sum_erase _ _ hmem, ← Finset.add_sum_erase _ _ hmem,
    count_accumulateTargets htarget, if_pos rfl, Nat.cast_zero, zero_mul, zero_add]
  congr 1
  refine Finset.sum_congr rfl fun q hq ↦ ?_
  rw [count_accumulateTargets htarget, if_neg (Finset.ne_of_mem_erase hq), Nat.cast_one, one_mul]

/-! ## The check -/

/-- **The counter.** The check counts the elements that differ from the sum. -/
theorem Settable.sumErrors_eq {cfg : Config} {t : TypeSlot} {fields : List FieldStore}
    (h : Settable cfg t fields) (env : Env) {commSize : ℕ}
    (hproducts : ProductsFit commSize env.valuesNum.toNat) (recvBuffer : Memory) :
    sumErrors cfg t env commSize recvBuffer
      = some ((List.range' 2 (env.valuesNum.toNat - 2)).countP
          (sumDiffers cfg t commSize recvBuffer)) := by
  obtain ⟨cmpValue, hloop⟩ := h.foldlM_compare (List.range' 2 (env.valuesNum.toNat - 2))
    (fun i ↦ (.value, expectedSum commSize i)) (fun _ ↦ recvBuffer) (fun i ↦ i * t.size)
    (freshValues t 1) 0
  rw [sumErrors, hloop]
  simp only [Option.pure_def, Option.bind_eq_bind, Option.bind_some, Nat.zero_add, Option.some_inj]
  refine List.countP_congr fun i hi ↦ ?_
  obtain ⟨hlow, hhigh⟩ := List.mem_range'_1.mp hi
  rw [sumDiffers, hproducts.sum_elementValue hlow (by omega), h.setvalue_eq, Option.any_some]
  rfl

/-- **The oracles.** The closed form is the sum of what all ranks put into element `i`, for the
all-reduce test as for the window of any rank. A failure is recorded exactly if an element differs
from it, under the condition that none does: both programs run to their end and record nothing. -/
theorem sum_oracles_iff (cfg : Config) (t : TypeSlot) (ht : t ∈ initTypes cfg)
    (hnull : t.datatype ≠ .null) (env : Env) (commSize commRank : ℕ) (hrank : commRank < commSize)
    (hproducts : ProductsFit commSize env.valuesNum.toNat) (sendBuffer recvBuffer : Memory) :
    (∀ i, 2 ≤ i → i < env.valuesNum.toNat →
      expectedSum commSize i = ∑ q ∈ Finset.range commSize, ((q : ℤ) + i) ∧
      expectedSum commSize i = ∑ q ∈ Finset.range commSize, elementValue q i ∧
      expectedSum commSize i = accumulatedSum commSize commRank i) ∧
    (∃ calls, tstCollAllreduceSumRun cfg t env commRank commSize sendBuffer recvBuffer
        = some calls ∧
      ((calls ≠ [] ↔ ∃ i, 2 ≤ i ∧ i < env.valuesNum.toNat ∧
          sumDiffers cfg t commSize recvBuffer i = true) ↔
        ∀ i, 2 ≤ i → i < env.valuesNum.toNat →
          sumDiffers cfg t commSize recvBuffer i = false)) ∧
    ∃ calls, tstAccumulateWithFenceSumRun cfg t env commSize recvBuffer = some calls ∧
      ((calls ≠ [] ↔ ∃ i, 2 ≤ i ∧ i < env.valuesNum.toNat ∧
          sumDiffers cfg t commSize recvBuffer i = true) ↔
        ∀ i, 2 ≤ i → i < env.valuesNum.toNat →
          sumDiffers cfg t commSize recvBuffer i = false) := by
  obtain ⟨fields, h⟩ := exists_settable cfg ht hnull
  have hnothing : (([] : List Env) ≠ [] ↔ ∃ i, 2 ≤ i ∧ i < env.valuesNum.toNat ∧
        sumDiffers cfg t commSize recvBuffer i = true) ↔
      ∀ i, 2 ≤ i → i < env.valuesNum.toNat → sumDiffers cfg t commSize recvBuffer i = false := by
    simp
  refine ⟨fun i hi hn ↦ ⟨hproducts.expectedSum_eq hi hn, (hproducts.sum_elementValue hi hn).symm,
    ?_⟩, ⟨[], ?_, hnothing⟩, ⟨[], ?_, hnothing⟩⟩
  · rw [accumulatedSum_eq hrank, hproducts.sum_elementValue hi hn]
  · rw [tstCollAllreduceSumRun, h.setstandardarray_eq, h.sumErrors_eq env hproducts]
    rfl
  · rw [tstAccumulateWithFenceSumRun, h.sumErrors_eq env hproducts]
    rfl

/-- Four values of `MPI_DOUBLE` on three processes. -/
theorem sum_oracles_iff_double :
    let cfg : Config := ⟨2, true, true, true, true, true, true, true, true⟩
    let env : Env := ⟨36, 0, 11, 4, 0⟩
    (∀ i, 2 ≤ i → i < env.valuesNum.toNat →
      expectedSum 3 i = ∑ q ∈ Finset.range 3, ((q : ℤ) + i) ∧
      expectedSum 3 i = ∑ q ∈ Finset.range 3, elementValue q i ∧
      expectedSum 3 i = accumulatedSum 3 1 i) ∧
    (∃ calls, tstCollAllreduceSumRun cfg (slotMpi2 11) env 1 3 (fun _ ↦ 0) (fun _ ↦ 0)
        = some calls ∧
      ((calls ≠ [] ↔ ∃ i, 2 ≤ i ∧ i < env.valuesNum.toNat ∧
          sumDiffers cfg (slotMpi2 11) 3 (fun _ ↦ 0) i = true) ↔
        ∀ i, 2 ≤ i → i < env.valuesNum.toNat →
          sumDiffers cfg (slotMpi2 11) 3 (fun _ ↦ 0) i = false)) ∧
    ∃ calls, tstAccumulateWithFenceSumRun cfg (slotMpi2 11) env 3 (fun _ ↦ 0) = some calls ∧
      ((calls ≠ [] ↔ ∃ i, 2 ≤ i ∧ i < env.valuesNum.toNat ∧
          sumDiffers cfg (slotMpi2 11) 3 (fun _ ↦ 0) i = true) ↔
        ∀ i, 2 ≤ i → i < env.valuesNum.toNat →
          sumDiffers cfg (slotMpi2 11) 3 (fun _ ↦ 0) i = false) :=
  sum_oracles_iff ⟨2, true, true, true, true, true, true, true, true⟩ (slotMpi2 11)
    (by decide +kernel) (by decide +kernel) ⟨36, 0, 11, 4, 0⟩ 3 1 (by decide) (by decide)
    (fun _ ↦ 0) (fun _ ↦ 0)

/-- A result of zeros is found to be wrong, but neither program records it. -/
theorem sum_oracles_record_nothing :
    ¬∀ (cfg : Config) (t : TypeSlot), t ∈ initTypes cfg → t.datatype ≠ .null →
      ∀ (env : Env) (commSize commRank : ℕ), commRank < commSize →
        ProductsFit commSize env.valuesNum.toNat →
        ∀ (sendBuffer recvBuffer : Memory) (calls : List Env),
          (tstCollAllreduceSumRun cfg t env commRank commSize sendBuffer recvBuffer = some calls ∨
            tstAccumulateWithFenceSumRun cfg t env commSize recvBuffer = some calls) →
          (calls ≠ [] ↔ ∃ i, 2 ≤ i ∧ i < env.valuesNum.toNat ∧
            sumDiffers cfg t commSize recvBuffer i = true) := by
  intro h
  have hexact := h ⟨2, true, true, true, true, true, true, true, true⟩ (slotMpi2 11)
    (by decide +kernel) (by decide +kernel) ⟨36, 0, 11, 4, 0⟩ 3 1 (by decide) (by decide)
    (fun _ ↦ 0) (fun _ ↦ 0) [] (Or.inr (by decide +kernel))
  exact hexact.mpr ⟨2, by decide, by decide, by decide +kernel⟩ rfl

end MpiTestSuite

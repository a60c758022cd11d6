import Mathlib.Algebra.BigOperators.Group.Finset.Basic
import MpiTestSuite.Coding.CInt
import MpiTestSuite.Report.Failures
import MpiTestSuite.Types.Integers

/-!
# The oracle of the prefix sum test

Every rank contributes the numbers `0, 1, 2, …`, so the sum over the ranks up to `r` is `i * (r+1)`
at position `i`. Both are stored with `tst_type_setvalue`, which replaces what is too large for the
type by its largest value, and there the closed form is no longer the sum of what was contributed.

The loop that compares is left at the first position where the check buffer holds the largest value
of the type. In front of it nothing has been clamped (`IntegerSlot.not_scanClamped`), and the
oracle is exact.
-/

namespace MpiTestSuite

section

variable (cfg : Config) (t : TypeSlot) (env : Env) (commRank : ℕ)

/-- `tst_coll_scan_sum_init`: the send buffer and the check buffer. -/
def tstCollScanSumInit (buffers : Memory × Memory) : Option (Memory × Memory) :=
  (List.range env.valuesNum.toNat).foldlM (fun m (i : ℕ) ↦ do
    let sendBuffer ← tstTypeSetvalue cfg t m.1 (i * t.size) .value i
    let checkBuffer ← tstTypeSetvalue cfg t m.2 (i * t.size) .value (wrapInt (i * (commRank + 1)))
    return (sendBuffer, checkBuffer)) buffers

/-- The loop of `tst_coll_scan_sum_run`, over the positions that are left: the position where it
ends, and the number of errors. -/
def scanLoop (checkBuffer recvBuffer typeMaxValue : Memory) : List ℕ → ℕ → ℕ × ℕ
  | [], errors => (env.valuesNum.toNat, errors)
  | i :: is, errors =>
    if tstTypeCmpvalue t checkBuffer (i * t.size) typeMaxValue 0 = false then (i, errors)
    else scanLoop checkBuffer recvBuffer typeMaxValue is
      (if tstTypeCmpvalue t recvBuffer (i * t.size) checkBuffer (i * t.size) then errors + 1
        else errors)

/-- `tst_coll_scan_sum_run`, where `recvBuffer` is what `MPI_Scan` leaves in the receive buffer and
`stack` what is in `type_max_value` before it is set: the position where the loop ends, and the
environments that `tst_test_recordfailure` is called with. -/
def tstCollScanSumRun (checkBuffer recvBuffer stack : Memory) : Option (ℕ × List Env) := do
  let typeMaxValue ← tstTypeSetvalue cfg t stack 0 .max 0
  let state := scanLoop t env checkBuffer recvBuffer typeMaxValue
    (List.range env.valuesNum.toNat) 0
  return (state.1, if state.2 ≠ 0 then [env] else [])

end

/-- What is expected of `MPI_Scan` with `MPI_SUM`: the sum of the elements of all ranks up to the
own one, wherever it is a number of the type. -/
def ScanExact (b : Bool × ℕ) (t : TypeSlot) (n commRank : ℕ) (sendBuffers : ℕ → Memory)
    (recvBuffer : Memory) : Prop :=
  ∀ i : ℕ, i < n →
    intMin b ≤ ∑ q ∈ Finset.range (commRank + 1), numberAt b (sendBuffers q) (i * t.size) →
    ∑ q ∈ Finset.range (commRank + 1), numberAt b (sendBuffers q) (i * t.size) ≤ intMax b →
    numberAt b recvBuffer (i * t.size)
      = ∑ q ∈ Finset.range (commRank + 1), numberAt b (sendBuffers q) (i * t.size)

/-! ## The loop -/

/-- If nothing differs that is compared, the loop counts no error, and ends where the largest value
is found for the first time. -/
theorem scanLoop_eq {t : TypeSlot} {env : Env} {checkBuffer recvBuffer typeMaxValue : Memory}
    (hsame : ∀ i : ℕ, i < env.valuesNum.toNat →
      tstTypeCmpvalue t checkBuffer (i * t.size) typeMaxValue 0 = true →
      tstTypeCmpvalue t recvBuffer (i * t.size) checkBuffer (i * t.size) = false)
    {k m : ℕ} (hend : k + m = env.valuesNum.toNat) :
    ∃ stop, scanLoop t env checkBuffer recvBuffer typeMaxValue (List.range' k m) 0 = (stop, 0) ∧
      ∀ i : ℕ, k ≤ i → i < stop →
        tstTypeCmpvalue t checkBuffer (i * t.size) typeMaxValue 0 = true := by
  induction m generalizing k with
  | zero => exact ⟨env.valuesNum.toNat, rfl, fun i hki hi ↦ absurd hi (by omega)⟩
  | succ m ih =>
    rw [List.range'_succ, scanLoop]
    by_cases hmax : tstTypeCmpvalue t checkBuffer (k * t.size) typeMaxValue 0 = false
    · rw [if_pos hmax]
      exact ⟨k, rfl, fun i hki hi ↦ absurd hi (by omega)⟩
    · have hbelow := Bool.not_eq_false _ ▸ hmax
      rw [if_neg hmax, hsame k (by omega) hbelow, if_neg Bool.false_ne_true]
      obtain ⟨stop, hloop, hstop⟩ := ih (k := k + 1) (by omega)
      refine ⟨stop, hloop, fun i hki hi ↦ ?_⟩
      rcases hki.eq_or_lt with rfl | hlt
      · exact hbelow
      · exact hstop i hlt hi

/-! ## The buffers -/

/-- Elements that are all set to numbers. -/
def scanElements (n : ℕ) (value : ℕ → ℤ) : List (ℕ × TypeSet × ℤ) :=
  (List.range n).map fun i ↦ (i, .value, value i)

theorem ascending_scanElements (n : ℕ) (value : ℕ → ℤ) : Ascending (scanElements n value) := by
  rw [Ascending, scanElements, List.pairwise_map]
  exact List.pairwise_lt_range

/-- The initialisation sets the elements of both buffers. -/
theorem Settable.scanInit_eq {cfg : Config} {t : TypeSlot} {fields : List FieldStore}
    (h : Settable cfg t fields) (env : Env) (commRank : ℕ) (buffers : Memory × Memory) :
    tstCollScanSumInit cfg t env commRank buffers
      = some (setElements cfg t fields (scanElements env.valuesNum.toNat fun i ↦ i) buffers.1,
          setElements cfg t fields (scanElements env.valuesNum.toNat fun i ↦
            wrapInt (i * (commRank + 1))) buffers.2) := by
  have hloop : ∀ (is : List ℕ) (m : Memory × Memory),
      is.foldlM (fun m (i : ℕ) ↦ do
        let sendBuffer ← tstTypeSetvalue cfg t m.1 (i * t.size) .value i
        let checkBuffer ← tstTypeSetvalue cfg t m.2 (i * t.size) .value
          (wrapInt (i * (commRank + 1)))
        return (sendBuffer, checkBuffer)) m
      = some (setElements cfg t fields (is.map fun i ↦ (i, .value, (i : ℤ))) m.1,
          setElements cfg t fields (is.map fun i ↦
            (i, .value, wrapInt (i * (commRank + 1)))) m.2) := by
    intro is
    induction is with
    | nil => exact fun m ↦ rfl
    | cons i is ih =>
      intro m
      rw [List.foldlM_cons, h.setvalue_eq, h.setvalue_eq]
      exact ih _
  exact hloop (List.range env.valuesNum.toNat) buffers

/-- The expected sum at a position, or what is contributed there, is replaced by a bound of the
type. -/
def ScanClamped (b : Bool × ℕ) (commRank i : ℕ) : Prop :=
  clampInt b i ≠ i ∨ clampInt b (i * (commRank + 1)) ≠ i * (commRank + 1)

namespace IntegerSlot

variable {cfg : Config} {t : TypeSlot} {s : Scalar} {b : Bool × ℕ}

/-- Where the closed form has not become the largest value, neither it nor what was contributed has
been clamped. -/
theorem not_scanClamped {commRank i : ℕ}
    (hbelow : clampInt b (i * (commRank + 1)) ≠ intMax b) :
    ((i : ℤ) * (commRank + 1) < intMax b) ∧ ¬ScanClamped b commRank i := by
  have hmin := intMin_nonpos b
  have hle : (i : ℤ) ≤ i * (commRank + 1) := le_mul_of_one_le_right (by omega) (by omega)
  have hlt : (i : ℤ) * (commRank + 1) < intMax b := by
    by_contra hge
    rw [clampInt, min_eq_right (not_lt.mp hge), max_eq_right (hmin.trans (intMax_nonneg b))]
      at hbelow
    exact hbelow rfl
  refine ⟨hlt, ?_⟩
  rw [ScanClamped, clampInt_of_mem (by omega) (by omega), clampInt_of_mem (by omega) hlt.le]
  simp

theorem numberAt_scanElements (h : IntegerSlot cfg t s b) (value : ℕ → ℤ) (m : Memory) {n i : ℕ}
    (hi : i < n) :
    numberAt b (setElements cfg t (setScalar s) (scanElements n value) m) (i * t.size)
      = clampInt b (value i) :=
  h.numberAt_setElements (ascending_scanElements _ value) m
    (List.mem_map_of_mem (List.mem_range.mpr hi))

/-- What all ranks contribute to an element, where it is not clamped. -/
theorem sum_scanElements (h : IntegerSlot cfg t s b) (commRank : ℕ) {n i : ℕ} (hi : i < n)
    (hcontributed : clampInt b i = i) (buffers : ℕ → Memory) :
    ∑ q ∈ Finset.range (commRank + 1), numberAt b (setElements cfg t (setScalar s)
      (scanElements n fun i ↦ i) (buffers q)) (i * t.size) = i * (commRank + 1) := by
  rw [Finset.sum_congr rfl fun q _ ↦
      (h.numberAt_scanElements _ (buffers q) hi).trans hcontributed,
    Finset.sum_const, Finset.card_range, nsmul_eq_mul, mul_comm]
  push_cast
  rfl

/-- An element that differs from the largest value holds less. -/
theorem ne_max_of_cmpvalue (h : IntegerSlot cfg t s b) {m stack : Memory} {a : ℤ}
    (hdiffers : tstTypeCmpvalue t m a (setFields cfg t (setScalar s) stack 0 .max 0) 0 = true) :
    numberAt b m a ≠ intMax b := by
  intro heq
  have hsame : tstTypeCmpvalue t m a (setFields cfg t (setScalar s) stack 0 .max 0) 0 = false := by
    rw [h.cmpvalue_eq_false_iff, heq, h.numberAt_setFields]
    rfl
  rw [hsame] at hdiffers
  cases hdiffers

/-- **The run.** With an exact `MPI_Scan` nothing is recorded, and the loop ends no later than at
the first position where something has been clamped. -/
theorem scanSumRun_eq (h : IntegerSlot cfg t s b) (env : Env) (commRank : ℕ)
    (hproducts : ∀ i : ℕ, i < env.valuesNum.toNat → FitsInt (i * (commRank + 1)))
    (buffers : ℕ → Memory) {checkBuffer recvBuffer : Memory} (stack : Memory)
    (hcheck : ∀ i : ℕ, i < env.valuesNum.toNat →
      numberAt b checkBuffer (i * t.size) = clampInt b (wrapInt (i * (commRank + 1))))
    (hexact : ScanExact b t env.valuesNum.toNat commRank (fun q ↦ setElements cfg t (setScalar s)
      (scanElements env.valuesNum.toNat fun i ↦ i) (buffers q)) recvBuffer) :
    ∃ stop, tstCollScanSumRun cfg t env checkBuffer recvBuffer stack = some (stop, []) ∧
      ∀ i : ℕ, i < env.valuesNum.toNat → ScanClamped b commRank i → stop ≤ i := by
  have hbelow : ∀ i : ℕ, i < env.valuesNum.toNat →
      tstTypeCmpvalue t checkBuffer (i * t.size) (setFields cfg t (setScalar s) stack 0 .max 0) 0
        = true → ((i : ℤ) * (commRank + 1) < intMax b) ∧ ¬ScanClamped b commRank i := by
    intro i hi hdiffers
    have hne := h.ne_max_of_cmpvalue hdiffers
    rw [hcheck i hi, wrapInt_of_fitsInt (hproducts i hi)] at hne
    exact not_scanClamped hne
  have hsame : ∀ i : ℕ, i < env.valuesNum.toNat →
      tstTypeCmpvalue t checkBuffer (i * t.size) (setFields cfg t (setScalar s) stack 0 .max 0) 0
        = true → tstTypeCmpvalue t recvBuffer (i * t.size) checkBuffer (i * t.size) = false := by
    intro i hi hdiffers
    obtain ⟨hlt, hclamped⟩ := hbelow i hi hdiffers
    rw [ScanClamped, not_or, not_not, not_not] at hclamped
    -- neither the sum nor a summand has been clamped
    have hsum := h.sum_scanElements commRank hi hclamped.1 buffers
    have hmin := intMin_nonpos b
    have hnonneg : (0 : ℤ) ≤ i * (commRank + 1) := by positivity
    have hrecv := hexact i hi (by rw [hsum]; omega) (by rw [hsum]; omega)
    rw [h.cmpvalue_eq_false_iff, hrecv, hsum, hcheck i hi, wrapInt_of_fitsInt (hproducts i hi),
      hclamped.2]
  obtain ⟨stop, hloop, hstop⟩ :=
    scanLoop_eq hsame (k := 0) (m := env.valuesNum.toNat) (Nat.zero_add _)
  refine ⟨stop, ?_, fun i hi hclamped ↦ not_lt.mp fun hlt ↦
    (hbelow i hi (hstop i (Nat.zero_le i) hlt)).2 hclamped⟩
  rw [tstCollScanSumRun, h.settable.setvalue_eq]
  simp only [Option.pure_def, Option.bind_eq_bind, Option.bind_some]
  rw [List.range_eq_range', hloop]
  rfl

end IntegerSlot

/-- **No false alarm.** For every standard integer type and every rank: if the products are numbers
of type `int` and `MPI_Scan` is exact wherever the sum is a number of the datatype, no failure is
recorded, and the loop ends no later than at the first position where the expected sum or what is
contributed has been clamped. -/
theorem scan_sum_no_false_alarm (cfg : Config) (t : TypeSlot) (ht : t ∈ initTypes cfg)
    (hnull : t.datatype ≠ .null) (hclass : t.typeClass &&& tstMpiStandardCIntTypes cfg ≠ 0)
    (env : Env) (commSize : ℕ) (commRank : Fin commSize)
    (hproducts : ∀ i : ℕ, i < env.valuesNum.toNat → FitsInt (i * (commRank.val + 1)))
    (initial : ℕ → Memory × Memory) (recvBuffer stack : Memory) :
    ∃ s b, IntegerSlot cfg t s b ∧ ∃ buffers : ℕ → Memory × Memory,
      (∀ q < commSize, tstCollScanSumInit cfg t env q (initial q) = some (buffers q)) ∧
      (ScanExact b t env.valuesNum.toNat commRank (fun q ↦ (buffers q).1) recvBuffer →
        ∃ stop, tstCollScanSumRun cfg t env (buffers commRank).2 recvBuffer stack
            = some (stop, []) ∧
          ∀ i : ℕ, i < env.valuesNum.toNat → ScanClamped b commRank i → stop ≤ i) := by
  obtain ⟨s, b, h⟩ := exists_integerSlot cfg ht hnull hclass
  exact ⟨s, b, h, _, fun q _ ↦ h.settable.scanInit_eq env q (initial q), fun hexact ↦
    h.scanSumRun_eq env commRank hproducts (fun q ↦ (initial q).1) stack
      (fun i hi ↦ h.numberAt_scanElements _ (initial commRank).2 hi) hexact⟩

/-- Two hundred values of `MPI_UNSIGNED_CHAR` on the second of two processes, where the sum is
clamped from position 128 on. -/
theorem scan_sum_no_false_alarm_unsignedChar :
    let cfg : Config := ⟨2, true, true, true, true, true, true, true, true⟩
    let env : Env := ⟨34, 0, 1, 200, 0⟩
    ∃ s b, IntegerSlot cfg (slotMpi2 1) s b ∧ ∃ buffers : ℕ → Memory × Memory,
      (∀ q < 2, tstCollScanSumInit cfg (slotMpi2 1) env q (fun _ ↦ 0, fun _ ↦ 0)
        = some (buffers q)) ∧
      (ScanExact b (slotMpi2 1) 200 1 (fun q ↦ (buffers q).1) (fun _ ↦ 0) →
        ∃ stop, tstCollScanSumRun cfg (slotMpi2 1) env (buffers 1).2 (fun _ ↦ 0) (fun _ ↦ 0)
            = some (stop, []) ∧
          ∀ i : ℕ, i < 200 → ScanClamped b 1 i → stop ≤ i) :=
  scan_sum_no_false_alarm ⟨2, true, true, true, true, true, true, true, true⟩ (slotMpi2 1)
    (by decide +kernel) (by decide +kernel) (by decide +kernel) ⟨34, 0, 1, 200, 0⟩ 2 1
    (fun i hi ↦ by
      have hlt : i < 200 := hi
      simp only [FitsInt, Fin.val_one, Nat.cast_one]
      omega)
    (fun _ ↦ (fun _ ↦ 0, fun _ ↦ 0)) (fun _ ↦ 0) fun _ ↦ 0

end MpiTestSuite

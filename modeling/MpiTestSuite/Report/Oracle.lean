import MpiTestSuite.Report.Failures
import MpiTestSuite.Types.StandardArray

/-!
# Checks that record

Most tests compare what they received with the standard array of some rank, through
`tst_test_checkstandardarray`, which hands the environment to the recorder if an element differs.
`tst_type_checkstandardarray` itself only counts: where it is called directly, it is up to the
caller to make something of the count.
-/

namespace MpiTestSuite

/-- The first `n` elements of a buffer are those of the standard array of a rank. -/
def HoldsStandardArray (cfg : Config) (t : TypeSlot) (n : ℕ) (commRank : ℤ) (buffer : Memory) :
    Prop :=
  ∃ w, tstTypeSetstandardarray cfg t n (fun _ ↦ 0) commRank = some w ∧
    ∀ i < n, elementDiffers t buffer w i = false

instance (cfg : Config) (t : TypeSlot) (n : ℕ) (commRank : ℤ) (buffer : Memory) :
    Decidable (HoldsStandardArray cfg t n commRank buffer) :=
  decidable_of_iff (((tstTypeSetstandardarray cfg t n (fun _ ↦ 0) commRank).any fun w ↦
      decide (∀ i < n, elementDiffers t buffer w i = false)) = true) <| by
    simp only [Option.any_eq_true, decide_eq_true_eq]
    rfl

/-- `tst_test_checkstandardarray`: the environments that `tst_test_recordfailure` is called with. No
caller looks at the value it returns. -/
def tstTestCheckstandardarray (cfg : Config) (t : TypeSlot) (env : Env) (buffer : Memory)
    (commRank : ℤ) : Option (List Env) := do
  let ret ← tstTypeCheckstandardarray cfg t env.valuesNum.toNat buffer commRank
  return if ret ≠ 0 then [env] else []

namespace Settable

variable {cfg : Config} {t : TypeSlot} {fields : List FieldStore}

/-- Element by element, without the array. -/
theorem holdsStandardArray_iff (h : Settable cfg t fields) (n : ℕ) (commRank : ℤ)
    (buffer : Memory) :
    HoldsStandardArray cfg t n commRank buffer ↔ ∀ i : ℕ, i < n →
      tstTypeCmpvalue t buffer (i * t.size) (expected cfg t fields commRank i) 0 = false := by
  simp only [HoldsStandardArray, h.setstandardarray_eq, Option.some_inj, exists_eq_left']
  refine forall₂_congr fun i hi ↦ ?_
  rw [h.cmpvalue_written commRank (fun _ ↦ 0) buffer hi]

/-- Fewer elements of an array are held as well. -/
theorem holdsStandardArray_mono (h : Settable cfg t fields) {m n : ℕ} (hle : m ≤ n) (commRank : ℤ)
    (buffer : Memory) (hholds : HoldsStandardArray cfg t n commRank buffer) :
    HoldsStandardArray cfg t m commRank buffer := by
  rw [h.holdsStandardArray_iff] at hholds ⊢
  exact fun i hi ↦ hholds i (hi.trans_le hle)

/-- Elements without bytes are always held. -/
theorem holdsStandardArray_of_size_eq_zero (h : Settable cfg t fields) (hsize : t.size = 0) (n : ℕ)
    (commRank : ℤ) (buffer : Memory) : HoldsStandardArray cfg t n commRank buffer := by
  rw [h.holdsStandardArray_iff]
  intro i _
  have hclass : t.typeClass ≠ tstMpiLongDouble := fun hclass ↦ by
    obtain ⟨hlb, hub, -⟩ := h.longDouble hclass
    rw [TypeSlot.size] at hsize
    omega
  rw [tstTypeCmpvalue, if_neg hclass, hsize]
  rfl

/-- No element is counted exactly if the buffer holds the array. -/
theorem checkstandardarray_eq_zero_iff (h : Settable cfg t fields) (n : ℕ) (commRank : ℤ)
    (buffer : Memory) :
    tstTypeCheckstandardarray cfg t n buffer commRank = some 0 ↔
      HoldsStandardArray cfg t n commRank buffer := by
  rw [h.checkstandardarray_eq, h.holdsStandardArray_iff, Option.some_inj, List.countP_eq_zero]
  simp only [List.mem_range, Bool.not_eq_true]

/-- The check of a test records a failure exactly if the buffer does not hold the array. -/
theorem testCheckstandardarray_eq (h : Settable cfg t fields) (env : Env) (buffer : Memory)
    (commRank : ℤ) :
    tstTestCheckstandardarray cfg t env buffer commRank
      = some (if HoldsStandardArray cfg t env.valuesNum.toNat commRank buffer then []
          else [env]) := by
  have hiff := h.checkstandardarray_eq_zero_iff env.valuesNum.toNat commRank buffer
  rw [h.checkstandardarray_eq, Option.some_inj] at hiff
  rw [tstTestCheckstandardarray, h.checkstandardarray_eq]
  simp only [Option.pure_def, Option.bind_eq_bind, Option.bind_some, ne_eq, hiff, ite_not]

/-- A loop of checks whose results are dropped leaves nothing behind. -/
theorem forM_drop (h : Settable cfg t fields) {ι : Type} (n : ℕ) (is : List ι)
    (buffer : ι → Memory) (commRank : ι → ℤ) :
    (forM is fun i ↦ do
      let _ ← tstTypeCheckstandardarray cfg t n (buffer i) (commRank i)
      return ()) = some () := by
  induction is with
  | nil => rfl
  | cons i is ih =>
    rw [List.forM_cons, h.checkstandardarray_eq]
    exact ih

/-- A standard array holds itself, in whatever memory it was set. -/
theorem holdsStandardArray_written (h : Settable cfg t fields) {n : ℕ} {commRank : ℤ}
    (hlow : -2 ^ 31 ≤ commRank) (hhigh : commRank + n ≤ 2 ^ 32) (m : Memory) :
    HoldsStandardArray cfg t n commRank (written cfg t fields commRank n m) := by
  refine (h.holdsStandardArray_iff n commRank _).mpr fun i hi ↦ ?_
  rw [h.cmpvalue_written commRank m _ hi]
  exact h.elementDiffers_written_self m hi (by omega)

/-- Whether a buffer holds an array depends on the windows of its elements only. -/
theorem holdsStandardArray_congr (h : Settable cfg t fields) {n : ℕ} (commRank : ℤ)
    {m m' : Memory} (hwindows : ∀ i : ℕ, i < n → ∀ k, t.lb ≤ k → k < t.ub →
      m (i * t.size + k) = m' (i * t.size + k)) :
    HoldsStandardArray cfg t n commRank m ↔ HoldsStandardArray cfg t n commRank m' := by
  rw [h.holdsStandardArray_iff, h.holdsStandardArray_iff]
  refine forall₂_congr fun i hi ↦ ?_
  rw [cmpvalue_comm, cmpvalue_comm t m', h.cmpvalue_congr _ 0 (hwindows i hi)]

/-- A standard array passes the check. -/
theorem holdsStandardArray_of_isStandardArray (h : Settable cfg t fields) {n r : ℕ}
    (hbound : r + n ≤ 2 ^ 32) {buffer : Memory} (hbuffer : IsStandardArray cfg t n r buffer) :
    HoldsStandardArray cfg t n r buffer := by
  refine (h.holdsStandardArray_congr r fun i hi k hlo hhi ↦ ?_).mp
    (h.holdsStandardArray_written (by omega) (by exact_mod_cast hbound) fun _ ↦ 0)
  rw [h.written_apply r _ n hi hlo hhi,
    (h.isStandardArray_iff n r buffer).mp hbuffer i hi k hlo hhi]

end Settable

end MpiTestSuite

import MpiTestSuite.Selection.Token
import MpiTestSuite.Tables.Tests

/-!
# Selecting tests

`tst_test_select` and `tst_test_deselect`, and what the tokens of `-t` amount to.

Both functions search below the counter when they are given the name of a test, but
`tst_test_deselect` searches the whole array when it is given a class, and only members of a class
are searched for at all when one is selected. A deselection lowers the counter without moving
anything. The entry in the last used slot is then no longer below the counter: the next selection
or number overwrites it, and the next deselection of it by name does not find it.
-/

open MpiTestSuite.Runs MpiTestSuite.CString

namespace MpiTestSuite

/-- `*test_list_num >= test_list_max`. -/
def testsFull (num max : ℤ) : Bool := decide (max ≤ num)

/-- `1 << tst_class` for the class string number `i`, where `tst_class` is `i - 1`. The shift by
`-1` that `"Unspecified"` leads to is carried out modulo 32. -/
def testClassBit (i : ℕ) : Flags := 1#32 <<< ((i + 31) % 32)

/-- `tst_tests[j].class & (1 << tst_class)`. -/
def inTestClass (tests : List Test) (i j : ℕ) : Bool :=
  (tests[j]?.map Test.testClass).getD 0 &&& testClassBit i != 0

/-- The message of a test array that is full. -/
def tooManyTests : String := "Too many user selected tests"

/-- The message of a negative test counter. -/
def negativeTests : String := "Negative selected tests: This should not happen"

/-- `tst_test_select`. -/
def tstTestSelect (tests : List Test) : CString → Selected → Except Stop Selected :=
  resolve tstTestClassStrings (tests.map Test.description) "Test"
    (fun i ↦ forEach tests.length fun j s ↦
      if inTestClass tests i j then s.select testsFull tooManyTests j else .ok s)
    (fun j s ↦ s.select testsFull tooManyTests j)
    (fun message _ ↦ .error (.error message))

/-- `tst_test_deselect`. -/
def tstTestDeselect (tests : List Test) : CString → Selected → Except Stop Selected :=
  resolve tstTestClassStrings (tests.map Test.description) "Test"
    (fun i ↦ forEach tests.length fun j s ↦
      s.deselectMember negativeTests s.list.length (inTestClass tests i j) j)
    (fun j s ↦ s.deselect negativeTests s.num j)
    (fun message _ ↦ .error (.error message))

/-- The selection of tests in `main`. -/
def testSelector (tests : List Test) : Selector where
  max := tests.length
  tooLong := "Name of test too long for negation"
  outOfRange := "Specified test number out of range"
  select := tstTestSelect tests
  deselect := tstTestDeselect tests

/-- The tokens of `-t`: a name denotes the test or the tests of the class, a number itself. -/
def testSpec (tests : List Test) : (testSelector tests).Spec where
  denotes := denotes tstTestClassStrings (tests.map Test.description) tests.length
    (inTestClass tests)
  number := atoi
  selectOps := resolve tstTestClassStrings (tests.map Test.description) "Test"
    (fun i ↦ classOps tests.length (inTestClass tests i)
      (fun j ↦ [.select testsFull tooManyTests j]) (fun _ ↦ []))
    (fun j ↦ [.select testsFull tooManyTests j]) (fun message ↦ [.fail message])
  deselectOps := resolve tstTestClassStrings (tests.map Test.description) "Test"
    (fun i ↦ classOps tests.length (inTestClass tests i)
      (fun j ↦ [.deselectAnywhere negativeTests j]) (fun _ ↦ []))
    (fun j ↦ [.deselect negativeTests j]) (fun message ↦ [.fail message])
  number_nonneg _ h := h
  select_eq := resolve_eq
    (fun i ↦ forEach_eq (fun j s hj ↦ by rw [hj, foldlM_singleton]; rfl)
      (fun j s hj ↦ by rw [hj]; rfl))
    (fun j s ↦ (foldlM_singleton (.select testsFull tooManyTests j) s).symm)
  deselect_eq := resolve_eq
    (fun i ↦ forEach_eq
      (fun j s hj ↦ by rw [hj, foldlM_singleton, Selected.deselectMember_true]; rfl)
      (fun j s hj ↦ by rw [hj, Selected.deselectMember_false_length]; rfl))
    (fun j s ↦ (foldlM_singleton (.deselect negativeTests j) s).symm)
  select_wellFormed := by
    have hselect : ∀ j : ℕ, ∀ op ∈ [Operation.select testsFull tooManyTests j], op.WellFormed := by
      intro j op hop
      rw [List.mem_singleton.mp hop]
      refine ⟨Int.natCast_nonneg j, fun num max hle ↦ ?_⟩
      rw [testsFull, decide_eq_true_iff]
      omega
    refine resolve_induction (P := fun ops ↦ ∀ op ∈ ops, Operation.WellFormed op)
      (fun i ↦ classOps_wellFormed hselect fun _ op hop ↦ absurd hop List.not_mem_nil) hselect ?_
    simp [Operation.WellFormed]
  deselect_wellFormed := by
    refine resolve_induction (P := fun ops ↦ ∀ op ∈ ops, Operation.WellFormed op)
      (fun i ↦ classOps_wellFormed ?_ fun _ op hop ↦ absurd hop List.not_mem_nil) ?_ ?_ <;>
      simp [Operation.WellFormed]
  select_effect := resolve_insert (fun _ _ ↦ rfl) (fun _ _ ↦ rfl) (fun _ _ ↦ rfl)
  deselect_effect := resolve_erase (fun _ _ ↦ rfl) (fun _ _ ↦ rfl) (fun _ _ ↦ rfl)

/-- Test indices. -/
def ValidTest (tests : List Test) (x : ℤ) : Prop := x < tests.length

instance (tests : List Test) : DecidablePred (ValidTest tests) :=
  fun x ↦ inferInstanceAs (Decidable (x < tests.length))

/-- **Selection of tests.** If every elementary operation of the tokens is harmless, the tests left
in the array are those the command line says, each once. The condition is exact: it says that the
array is right after each of the operations. -/
theorem test_selection (cfg : Config) (tokens : List CString) :
    ((testSpec (tstTests cfg)).StepsHarmless (ValidTest (tstTests cfg)) tokens →
        (testSpec (tstTests cfg)).Right (ValidTest (tstTests cfg)) tokens) ∧
      ((testSpec (tstTests cfg)).StepsHarmless (ValidTest (tstTests cfg)) tokens ↔
        (testSpec (tstTests cfg)).StepsRight (ValidTest (tstTests cfg)) tokens) :=
  ⟨(testSpec (tstTests cfg)).right_of_stepsHarmless fun _ _ h ↦ h,
    (testSpec (tstTests cfg)).stepsHarmless_iff_stepsRight (fun _ _ h ↦ h) tokens⟩

/-- A configuration in which only the tests under no condition are compiled. -/
def plainConfig : Config := ⟨3, false, false, false, false, false, false, false, false⟩

/-- `-t all,^Status,0` loses the last test: the hole is in the first slot, but the number is stored
in the last one. -/
theorem test_selection_loses_last :
    ¬∀ (cfg : Config) (tokens : List CString),
      (testSpec (tstTests cfg)).Right (ValidTest (tstTests cfg)) tokens := by
  intro h
  exact absurd (h plainConfig [lit "all", lit "^Status", lit "0"]) (by decide +kernel)

end MpiTestSuite

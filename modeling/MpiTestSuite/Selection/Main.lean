import MpiTestSuite.Selection.Comms
import MpiTestSuite.Selection.Tests
import MpiTestSuite.Selection.Types

/-!
# The selections of `main`

`main` evaluates four options one after another: the tests, the communicators, the datatypes and the
numbers of values. This file puts the selections together and settles, for all three arrays at
once, when the program stays inside them.

`all` adds the capacity to a counter that may already be positive, and nothing but a selection by
name or class compares the counter with the capacity. A list that fits can therefore leave its
array, with a number after `all` for instance.
-/

open MpiTestSuite.Runs MpiTestSuite.CString

namespace MpiTestSuite

/-- The options `-t`, `-c`, `-d` and `-n`. -/
structure Arguments where
  test : CString
  comm : CString
  datatype : CString
  numValues : CString

/-- What is left after the selections: three compressed arrays and the value counts. -/
structure Selections where
  tests : Selected
  comms : Selected
  types : Selected
  values : List ℤ

/-- The capacity of `tst_value_array`. -/
def tstValueArrayMax : ℕ := 32

/-- One token of `-n`: store the value, then compare the counter with the capacity. -/
def valueToken (values : List ℤ) (str : CString) : Except Stop (List ℤ) :=
  if tstValueArrayMax ≤ values.length + 1 then .error (.error "Too many values specified")
  else .ok (values ++ [atoi str])

/-- The selections of `main`, in order. -/
def selections (cfg : Config) (t : CommTable) (a : Arguments) : Except Stop Selections := do
  let tests ← (testSelector (tstTests cfg)).run (strtok a.test)
  let comms ← (commSelector cfg t).run (strtok a.comm)
  let types ← (typeSelector cfg).run (strtok a.datatype)
  let values ← (strtok a.numValues).foldlM valueToken []
  return ⟨tests, comms, types, values⟩

theorem selections_ok {cfg : Config} {t : CommTable} {a : Arguments} {sel : Selections}
    (h : selections cfg t a = .ok sel) :
    (testSelector (tstTests cfg)).run (strtok a.test) = .ok sel.tests ∧
      (commSelector cfg t).run (strtok a.comm) = .ok sel.comms ∧
      (typeSelector cfg).run (strtok a.datatype) = .ok sel.types ∧
      (strtok a.numValues).foldlM valueToken [] = .ok sel.values := by
  rw [selections] at h
  cases htests : (testSelector (tstTests cfg)).run (strtok a.test) with
  | error e => rw [htests] at h; cases h
  | ok tests =>
    cases hcomms : (commSelector cfg t).run (strtok a.comm) with
    | error e => rw [htests, hcomms] at h; cases h
    | ok comms =>
      cases htypes : (typeSelector cfg).run (strtok a.datatype) with
      | error e => rw [htests, hcomms, htypes] at h; cases h
      | ok types =>
        cases hvalues : (strtok a.numValues).foldlM valueToken [] with
        | error e => rw [htests, hcomms, htypes, hvalues] at h; cases h
        | ok values =>
          rw [htests, hcomms, htypes, hvalues] at h
          cases h
          exact ⟨rfl, rfl, rfl, rfl⟩

/-- **Accesses.** Each of the three selections stays inside its array if and only if every one of
its elementary operations does in the array it is carried out on. -/
theorem selections_in_bounds (cfg : Config) (t : CommTable) (tokens : List CString) :
    ((testSelector (tstTests cfg)).run tokens ≠ .error .outOfBounds ↔
        (testSpec (tstTests cfg)).StepsInBounds tokens) ∧
      ((commSelector cfg t).run tokens ≠ .error .outOfBounds ↔
        (commSpec cfg t).StepsInBounds tokens) ∧
      ((typeSelector cfg).run tokens ≠ .error .outOfBounds ↔
        (typeSpec cfg).StepsInBounds tokens) :=
  ⟨(testSpec (tstTests cfg)).run_ne_outOfBounds_iff tokens,
    (commSpec cfg t).run_ne_outOfBounds_iff tokens, (typeSpec cfg).run_ne_outOfBounds_iff tokens⟩

/-- `-t all,0` stores behind the last slot. -/
theorem selections_all_zero_out_of_bounds :
    ¬∀ (cfg : Config) (t : CommTable) (tokens : List CString),
      (testSelector (tstTests cfg)).run tokens ≠ .error .outOfBounds ∧
        (commSelector cfg t).run tokens ≠ .error .outOfBounds ∧
        (typeSelector cfg).run tokens ≠ .error .outOfBounds := by
  intro h
  exact (h plainConfig (tstCommsRegister plainConfig 4) [lit "all", lit "0"]).1 (by decide +kernel)

end MpiTestSuite

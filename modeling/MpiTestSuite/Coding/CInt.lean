import Mathlib.Tactic.NormNum

/-!
# Integers of C

What an `int` holds, what is left in it of a number that it cannot hold, and what becomes of a
negative one that is converted to `size_t`. Overflow of an `int` is undefined in C; `wrapInt` is
what two's complement arithmetic makes of it in practice.
-/

namespace MpiTestSuite

/-- The number is within the range of `int`. -/
def FitsInt (x : ℤ) : Prop := -2 ^ 31 ≤ x ∧ x < 2 ^ 31

instance : DecidablePred FitsInt := fun x ↦ by
  unfold FitsInt
  infer_instance

/-- The lowest 32 bits, as an `int`. -/
def wrapInt (x : ℤ) : ℤ := (BitVec.ofInt 32 x).toInt

/-- What a computation with the type `int` gives; there is no telling what it is on overflow. -/
def checkedInt (x : ℕ) : Option ℕ := if x < 2 ^ 31 then some x else none

/-- The same for a number that may be negative. -/
def checkedSigned (x : ℤ) : Option ℤ := if -2 ^ 31 ≤ x ∧ x < 2 ^ 31 then some x else none

/-- An `int` as the argument of `malloc`. There is no memory for what a negative one becomes. -/
def mallocInt (x : ℤ) : Option ℕ := if 0 ≤ x then some x.toNat else none

/-- An `int` as an argument of type `size_t`. -/
def sizeT (x : ℤ) : ℕ := (x % 2 ^ 64).toNat

theorem fitsInt_wrapInt (x : ℤ) : FitsInt (wrapInt x) :=
  ⟨BitVec.le_toInt (BitVec.ofInt 32 x), BitVec.toInt_lt⟩

theorem wrapInt_of_fitsInt {x : ℤ} (h : FitsInt x) : wrapInt x = x := by
  obtain ⟨hlow, hhigh⟩ := h
  rw [wrapInt, BitVec.toInt_ofInt, Int.bmod_eq_of_le] <;> norm_num <;> omega

theorem sizeT_of_nonneg {x : ℤ} (h : FitsInt x) (h0 : 0 ≤ x) : (sizeT x : ℤ) = x := by
  obtain ⟨-, hhigh⟩ := h
  rw [sizeT]
  omega

/-- A negative `int` is converted to a size that no object has. -/
theorem le_sizeT_of_neg {x : ℤ} (h : FitsInt x) (h0 : x < 0) : 2 ^ 63 ≤ sizeT x := by
  obtain ⟨hlow, -⟩ := h
  rw [sizeT]
  omega

theorem checkedInt_of_lt {x : ℕ} (h : x < 2 ^ 31) : checkedInt x = some x := if_pos h

theorem checkedSigned_eq_some_iff {x y : ℤ} : checkedSigned x = some y ↔ FitsInt x ∧ x = y := by
  by_cases h : -2 ^ 31 ≤ x ∧ x < 2 ^ 31
  · rw [checkedSigned, if_pos h, Option.some_inj, FitsInt, and_iff_right h]
  · rw [checkedSigned, if_neg h]
    exact iff_of_false nofun fun hx ↦ h hx.1

theorem mallocInt_eq_some_iff {x : ℤ} {n : ℕ} : mallocInt x = some n ↔ x = n := by
  rw [mallocInt]
  split_ifs with h
  · rw [Option.some_inj]
    omega
  · exact iff_of_false nofun fun hx ↦ h (hx ▸ Int.natCast_nonneg n)

theorem checkedInt_eq_some_iff {x y : ℕ} : checkedInt x = some y ↔ x < 2 ^ 31 ∧ x = y := by
  by_cases h : x < 2 ^ 31
  · rw [checkedInt_of_lt h, Option.some_inj, and_iff_right h]
  · rw [checkedInt, if_neg h]
    exact iff_of_false nofun fun hx ↦ h hx.1

end MpiTestSuite

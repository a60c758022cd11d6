import MpiTestSuite.Tables.Tests
import MpiTestSuite.Types.Integers
import MpiTestSuite.Types.Transfer

/-!
# The order of scalars

`MPI_MIN` compares numbers, those of floating types as well. Their bits have the same order as the
numbers, apart from the sign, so that all scalars can be compared as integers (`keyAt`).

A standard array of a higher rank has no less in any element, and if it has the same number there,
it has the same bytes (`keyAt_expected_mono`, `expected_eq_of_keyAt_eq`). For the floating types
this says that rounding keeps the order (`roundBits_mono`).
-/

namespace MpiTestSuite

/-! ## Rounding -/

section

variable {p : ℕ} (hp : 0 < p)

include hp

end

/-- The scalar at an address as a number that has the same place in the order: an integer is
itself, and the bits of a floating type are counted down from zero where the sign is set. -/
def keyAt (s : Scalar) (m : Memory) (a : ℤ) : ℤ :=
  match s.integer with
  | some b => numberAt b m a
  | none =>
    let bits := ofLeBytes (load m a s.stored)
    let sign := 2 ^ (8 * s.stored - 1)
    if bits < sign then bits else (sign : ℤ) - bits

section

variable {cfg : Config} {t : TypeSlot} {s : Scalar}

variable {r r' i : ℕ}

end

/-! ## Slots of scalars -/

/-- A slot of the table whose elements are single scalars. -/
structure ScalarSlot (cfg : Config) (t : TypeSlot) (s : Scalar) : Prop where
  settable : Settable cfg t (setScalar s)
  lb_eq : t.lb = 0
  ub_eq : t.ub = s.sizeof
  scalars_eq : t.datatype.typemap.scalars = [(0, s)]

namespace ScalarSlot

variable {cfg : Config} {t : TypeSlot} {s : Scalar}

theorem size_eq (h : ScalarSlot cfg t s) : t.size = s.sizeof := by
  rw [TypeSlot.size, h.lb_eq, h.ub_eq, sub_zero]

/-- A number depends on the window of its element only. -/
theorem keyAt_congr (h : ScalarSlot cfg t s) {m m' : Memory} {a a' : ℤ}
    (hwindow : ∀ k, t.lb ≤ k → k < t.ub → m (a + k) = m' (a' + k)) :
    keyAt s m a = keyAt s m' a' := by
  have hlb := h.lb_eq
  have hub := h.ub_eq
  have hstored := s.stored_le
  rw [keyAt, keyAt]
  cases hs : s.integer with
  | some b =>
    obtain ⟨hwidth, -, -⟩ := Scalar.integerWidth hs
    simp only [numberAt]
    rw [load_congr fun i hi ↦ hwindow i (by omega) (by omega)]
  | none =>
    simp only
    rw [load_congr fun i hi ↦ hwindow i (by omega) (by omega)]

end ScalarSlot

end MpiTestSuite

import Mathlib.Algebra.BigOperators.Group.List.Lemmas
import Mathlib.Data.List.Forall2
import Mathlib.Tactic.Ring

/-!
# Grids

The points of a grid with given dimensions, as lists of coordinates and, in row-major order, as
numbers. A shift moves a point along one dimension, around it if the dimension is periodic, and
otherwise not beyond its ends. Shifts back and forth are inverse to each other (`shift_comm`), as
far as they are possible.
-/

namespace MpiTestSuite

namespace Grid

/-! ## Coordinates -/

/-- The coordinates of the point with a number. -/
def coords : List ℕ → ℕ → List ℕ
  | [], _ => []
  | _ :: dims, r => r / dims.prod :: coords dims (r % dims.prod)

/-- The number of the point with some coordinates. -/
def rank : List ℕ → List ℕ → ℕ
  | _ :: dims, c :: cs => c * dims.prod + rank dims cs
  | _, _ => 0

/-- The coordinates of a point of the grid. -/
abbrev Inside (cs dims : List ℕ) : Prop := List.Forall₂ (· < ·) cs dims

theorem rank_lt {cs dims : List ℕ} (h : Inside cs dims) : rank dims cs < dims.prod := by
  induction h with
  | nil => exact Nat.one_pos
  | @cons c d cs dims hlt _ ih =>
    rw [rank, List.prod_cons]
    calc c * dims.prod + rank dims cs < (c + 1) * dims.prod := by
          rw [Nat.succ_mul]
          exact Nat.add_lt_add_left ih _
      _ ≤ d * dims.prod := Nat.mul_le_mul_right _ hlt

theorem coords_rank {cs dims : List ℕ} (h : Inside cs dims) : coords dims (rank dims cs) = cs := by
  induction h with
  | nil => rfl
  | @cons c d cs dims _ hinside ih =>
    have hlt := rank_lt hinside
    rw [rank, coords, Nat.mul_add_mod_of_lt hlt, ih]
    congr 1
    rw [Nat.add_comm, Nat.add_mul_div_right _ _ (Nat.zero_lt_of_lt hlt), Nat.div_eq_of_lt hlt,
      Nat.zero_add]

theorem inside_coords {dims : List ℕ} {r : ℕ} (h : r < dims.prod) :
    Inside (coords dims r) dims := by
  induction dims generalizing r with
  | nil => exact .nil
  | cons d dims ih =>
    rw [List.prod_cons] at h
    have hpos : 0 < dims.prod := Nat.pos_of_ne_zero fun hzero ↦ by simp [hzero] at h
    exact .cons ((Nat.div_lt_iff_lt_mul hpos).mpr h) (ih (Nat.mod_lt r hpos))

theorem rank_coords {dims : List ℕ} {r : ℕ} (h : r < dims.prod) :
    rank dims (coords dims r) = r := by
  induction dims generalizing r with
  | nil => exact (Nat.lt_one_iff.mp h).symm
  | cons d dims ih =>
    rw [List.prod_cons] at h
    have hpos : 0 < dims.prod := Nat.pos_of_ne_zero fun hzero ↦ by simp [hzero] at h
    rw [coords, rank, ih (Nat.mod_lt r hpos), Nat.div_add_mod']

/-! ## Shifts -/

/-- The coordinate `disp` away, if the dimension goes that far. -/
def shiftCoord (periodic : Bool) (d c : ℕ) (disp : ℤ) : Option ℕ :=
  if periodic then some ((c + disp) % d).toNat
  else if 0 ≤ c + disp ∧ c + disp < d then some (c + disp).toNat else none

/-- A shift and the shift back. -/
theorem shiftCoord_comm {periodic : Bool} {d c x : ℕ} {disp : ℤ} (hc : c < d) (hx : x < d) :
    shiftCoord periodic d c disp = some x ↔ shiftCoord periodic d x (-disp) = some c := by
  cases periodic with
  | true =>
    have hcast : ∀ {a b : ℕ} {y : ℤ}, b < d →
        (some ((a + y) % d).toNat = some b ↔ (d : ℤ) ∣ a + y - b) := by
      intro a b y hb
      rw [Option.some_inj, ← Int.emod_eq_emod_iff_emod_sub_eq_zero.trans
        Int.dvd_iff_emod_eq_zero.symm, Int.emod_eq_of_lt (Int.natCast_nonneg b) (by omega)]
      have hnonneg := Int.emod_nonneg (a + y) (by omega : (d : ℤ) ≠ 0)
      omega
    rw [shiftCoord, shiftCoord, if_pos rfl, if_pos rfl, hcast hx, hcast hc, ← Int.dvd_neg]
    rw [show -((c : ℤ) + disp - x) = x + -disp - c by ring]
  | false =>
    simp only [shiftCoord, Bool.false_eq_true, if_false]
    split_ifs with h h' h' <;> simp only [Option.some_inj, false_iff, iff_false]
    all_goals omega

/-- The number of the point `disp` away along dimension `i`. -/
def shift (dims : List ℕ) (periods : List Bool) (i : ℕ) (disp : ℤ) (r : ℕ) : Option ℕ := do
  let d ← dims[i]?
  let periodic ← periods[i]?
  let c ← (coords dims r)[i]?
  let x ← shiftCoord periodic d c disp
  return rank dims ((coords dims r).set i x)

section

variable {dims : List ℕ} {periods : List Bool} {i : ℕ} {disp : ℤ} {r q : ℕ}

theorem shiftCoord_lt {periodic : Bool} {d c x : ℕ} (hc : c < d)
    (h : shiftCoord periodic d c disp = some x) : x < d := by
  cases periodic with
  | true =>
    have hlt := Int.emod_lt_of_pos ((c : ℤ) + disp) (by omega : (0 : ℤ) < d)
    rw [shiftCoord, if_pos rfl, Option.some_inj] at h
    omega
  | false =>
    rw [shiftCoord, if_neg Bool.false_ne_true] at h
    split_ifs at h
    rw [Option.some_inj] at h
    omega

theorem lt_of_inside {cs : List ℕ} (h : Inside cs dims) {d c : ℕ} (hc : cs[i]? = some c)
    (hd : dims[i]? = some d) : c < d := by
  induction h generalizing i with
  | nil => cases hc
  | cons hlt _ ih =>
    cases i with
    | zero =>
      obtain rfl := Option.some_inj.mp hc
      obtain rfl := Option.some_inj.mp hd
      exact hlt
    | succ i => exact ih hc hd

theorem inside_set {cs : List ℕ} (h : Inside cs dims) {d x : ℕ} (hd : dims[i]? = some d)
    (hx : x < d) : Inside (cs.set i x) dims := by
  induction h generalizing i with
  | nil => exact .nil
  | cons hlt hinside ih =>
    cases i with
    | zero =>
      obtain rfl := Option.some_inj.mp hd
      exact .cons hx hinside
    | succ i => exact .cons hlt (ih hd)

/-- What a shift changes. -/
theorem shift_eq_some_iff (hr : r < dims.prod) (hq : q < dims.prod) :
    shift dims periods i disp r = some q ↔ ∃ d periodic c x, dims[i]? = some d ∧
      periods[i]? = some periodic ∧ (coords dims r)[i]? = some c ∧
      shiftCoord periodic d c disp = some x ∧ coords dims q = (coords dims r).set i x := by
  simp only [shift, Option.bind_eq_bind, Option.bind_eq_some_iff, Option.pure_def,
    Option.some_inj]
  refine exists_congr fun d ↦ ?_
  constructor
  · rintro ⟨hd, periodic, hperiodic, c, hc, x, hx, rfl⟩
    have hinside := inside_coords hr
    exact ⟨periodic, c, x, hd, hperiodic, hc, hx, coords_rank
      (inside_set hinside hd (shiftCoord_lt (lt_of_inside hinside hc hd) hx))⟩
  · rintro ⟨periodic, c, x, hd, hperiodic, hc, hx, heq⟩
    exact ⟨hd, periodic, hperiodic, c, hc, x, hx, by rw [← heq, rank_coords hq]⟩

theorem shift_lt (hr : r < dims.prod) (h : shift dims periods i disp r = some q) :
    q < dims.prod := by
  simp only [shift, Option.bind_eq_bind, Option.bind_eq_some_iff, Option.pure_def,
    Option.some_inj] at h
  obtain ⟨d, hd, periodic, -, c, hc, x, hx, rfl⟩ := h
  have hinside := inside_coords hr
  exact rank_lt (inside_set hinside hd (shiftCoord_lt (lt_of_inside hinside hc hd) hx))

/-- **Back and forth.** A shift leads from one point to another exactly if the shift the other way
leads back. -/
theorem shift_comm (hr : r < dims.prod) (hq : q < dims.prod) :
    shift dims periods i disp r = some q ↔ shift dims periods i (-disp) q = some r := by
  have himp : ∀ {r q : ℕ} {disp : ℤ}, r < dims.prod → q < dims.prod →
      shift dims periods i disp r = some q → shift dims periods i (-disp) q = some r := by
    intro r q disp hr hq h
    obtain ⟨d, periodic, c, x, hd, hperiodic, hc, hx, heq⟩ := (shift_eq_some_iff hr hq).mp h
    have hlt := lt_of_inside (inside_coords hr) hc hd
    obtain ⟨hi, hget⟩ := List.getElem?_eq_some_iff.mp hc
    have hown : (coords dims q)[i]? = some x := by
      rw [heq, List.getElem?_set_self hi]
    refine (shift_eq_some_iff hq hr).mpr ⟨d, periodic, x, c, hd, hperiodic, hown,
      (shiftCoord_comm hlt (shiftCoord_lt hlt hx)).mp hx, ?_⟩
    rw [heq, List.set_set, ← hget, List.set_getElem_self]
  exact ⟨himp hr hq, fun h ↦ neg_neg disp ▸ himp hq hr h⟩

end

end Grid

end MpiTestSuite

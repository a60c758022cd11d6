import Mathlib.Data.Finset.Basic
import Mathlib.Data.Finset.Image
import Mathlib.Tactic.Linarith
import MpiTestSuite.Runs.Fold

/-!
# Selection arrays: slots, holes and a counter

The tests, communicators and datatypes to run are each kept in an `int` array of fixed capacity,
in which `-1` marks a free slot, together with one counter. Every token of the command line works
on such a pair, in ways that do not agree with each other: `all` overwrites every slot and adds the
capacity to the counter, a number is stored at the counter, a selection searches the slots below
the counter and then stores at the counter, a deselection punches a hole and lowers the counter but
moves nothing.

This file models the array, the elementary accesses and the way an access can go wrong, and then
proves when an elementary operation does what it is meant to do.

## Accesses outside the array

Reading or writing a slot that does not exist is undefined behaviour in C. Here it ends the run
with `Stop.outOfBounds`, which is not the same as `Stop.error`, the end of a run in which the
program called `ERROR` and said so.

## The meaning of an array

The counter is no part of the meaning: after the last token `tst_array_compress` drops the holes of
the *whole* array and counts what is left. An array therefore stands for the set of its entries
other than `-1`, and stands for it properly when no entry occurs twice (`Represents`).
-/

open MpiTestSuite.Runs

namespace MpiTestSuite

/-- How a run of the selection code can end before its time. -/
inductive Stop
  /-- `ERROR (e, s)`: the message `s` is printed and the process exits. -/
  | error (message : String)
  /-- An access outside the array. -/
  | outOfBounds
  deriving DecidableEq, Repr

/-- The run was ended by `ERROR`, not by an access outside an array. -/
def Stop.Rejected : Stop → Prop
  | .error _ => True
  | .outOfBounds => False

@[simp] theorem Stop.rejected_error (message : String) : (Stop.error message).Rejected := trivial

@[simp] theorem Stop.not_rejected_outOfBounds : ¬Stop.outOfBounds.Rejected := fun h ↦ h

instance : DecidablePred Stop.Rejected
  | .error _ => isTrue trivial
  | .outOfBounds => isFalse fun h ↦ h

/-- A selection array with its counter. The capacity is the length of the list. -/
structure Selected where
  /-- The slots; `-1` is a hole. -/
  list : List ℤ
  /-- The counter that is both the number of entries and the position of the next one. -/
  num : ℤ
  deriving DecidableEq, Repr

/-! ## Elementary accesses -/

/-- Look for `v` among the first `count` of the given slots, the first of which is slot `pos`. -/
def searchFrom (v : ℤ) : ℕ → ℕ → List ℤ → Except Stop ℤ
  | _, 0, _ => .ok (-1)
  | _, _ + 1, [] => .error .outOfBounds
  | pos, count + 1, x :: xs => if x = v then .ok pos else searchFrom v (pos + 1) count xs

/-- The search of `tst_test_search`, `tst_comm_search` and `tst_type_search`: the first of the
slots `0, …, num - 1` that holds `v`, or `-1`. -/
def arraySearch (v : ℤ) (list : List ℤ) (num : ℤ) : Except Stop ℤ :=
  searchFrom v 0 num.toNat list

/-- `list[i] = v`. -/
def writeSlot (list : List ℤ) (i v : ℤ) : Except Stop (List ℤ) :=
  if 0 ≤ i ∧ i < list.length then .ok (list.set i.toNat v) else .error .outOfBounds

theorem searchFrom_eq (v : ℤ) (list : List ℤ) : ∀ pos count : ℕ,
    searchFrom v pos count list
      = if v ∈ list.take count then .ok ((pos + list.idxOf v : ℕ) : ℤ)
        else if count ≤ list.length then .ok (-1) else .error .outOfBounds := by
  induction list with
  | nil =>
    intro pos count
    cases count with
    | zero => simp [searchFrom]
    | succ count => simp [searchFrom]
  | cons x xs ih =>
    intro pos count
    cases count with
    | zero => simp [searchFrom]
    | succ count =>
      rw [searchFrom, List.take_succ_cons, ih]
      by_cases hx : x = v
      · rw [if_pos hx, if_pos (by simp [hx]), hx, List.idxOf_cons_self, add_zero]
      · have hmem : v ∈ x :: xs.take count ↔ v ∈ xs.take count := by simp [Ne.symm hx]
        rw [if_neg hx, List.idxOf_cons_ne _ hx]
        simp only [hmem, List.length_cons, Nat.add_le_add_iff_right, Nat.add_assoc,
          Nat.succ_eq_add_one, Nat.add_comm 1]

/-- The search, in one equation. -/
theorem arraySearch_eq (v : ℤ) (list : List ℤ) (num : ℤ) :
    arraySearch v list num
      = if v ∈ list.take num.toNat then .ok (list.idxOf v : ℤ)
        else if num.toNat ≤ list.length then .ok (-1) else .error .outOfBounds := by
  rw [arraySearch, searchFrom_eq]
  simp

/-! ## The elementary operations of the selection code -/

namespace Selected

/-- The array before the first token: every slot free. -/
def empty (max : ℕ) : Selected := ⟨List.replicate max (-1), 0⟩

/-- The numbers of all slots. -/
def slotNumbers (max : ℕ) : Finset ℤ := (Finset.range max).image fun i : ℕ ↦ (i : ℤ)

theorem mem_slotNumbers {max : ℕ} {x : ℤ} : x ∈ slotNumbers max ↔ 0 ≤ x ∧ x < max := by
  rw [slotNumbers, Finset.mem_image]
  constructor
  · rintro ⟨i, hi, rfl⟩
    rw [Finset.mem_range] at hi
    omega
  · rintro ⟨h0, h1⟩
    exact ⟨x.toNat, Finset.mem_range.mpr (by omega), by omega⟩

/-- The branch of `all` in `main`: `for (i = 0; i < max; i++) { list[i] = i; num++; }`. -/
def fill (s : Selected) : Selected :=
  ⟨(List.range s.list.length).map (fun i : ℕ ↦ (i : ℤ)), s.num + s.list.length⟩

/-- `list[num] = v; num++;` -/
def put (v : ℤ) (s : Selected) : Except Stop Selected := do
  let list ← writeSlot s.list s.num v
  return ⟨list, s.num + 1⟩

/-- Select one entry: nothing if it is found below the counter, else store it at the counter and
call `ERROR` if the counter then satisfies `full` with respect to the capacity. -/
def select (full : ℤ → ℤ → Bool) (tooMany : String) (v : ℤ) (s : Selected) :
    Except Stop Selected := do
  let ret ← arraySearch v s.list s.num
  if ret ≠ -1 then
    .ok s
  else
    let s' ← s.put v
    if full s'.num s.list.length then .error (.error tooMany) else .ok s'

/-- `list[ret] = -1; num--; if (num < 0) ERROR (…);` -/
def clear (negative : String) (ret : ℤ) (s : Selected) : Except Stop Selected := do
  let list ← writeSlot s.list ret (-1)
  if s.num - 1 < 0 then .error (.error negative) else .ok ⟨list, s.num - 1⟩

/-- Deselect one entry, if it is found among the first `bound` slots. -/
def deselect (negative : String) (bound : ℤ) (v : ℤ) (s : Selected) : Except Stop Selected := do
  let ret ← arraySearch v s.list bound
  if ret = -1 then .ok s else s.clear negative ret

/-- The loop body of a communicator class in `tst_comm_deselect`, which compares the result of the
search with `1` and not with `-1`. -/
def deselectUnlessSecond (negative : String) (v : ℤ) (s : Selected) : Except Stop Selected := do
  let ret ← arraySearch v s.list s.num
  if ret ≠ 1 then s.clear negative ret else .ok s

variable {s : Selected}

theorem put_eq (h : 0 ≤ s.num) (v : ℤ) :
    s.put v = if s.num < s.list.length then .ok ⟨s.list.set s.num.toNat v, s.num + 1⟩
      else .error .outOfBounds := by
  rw [put, writeSlot]
  by_cases hlt : s.num < s.list.length
  · rw [if_pos ⟨h, hlt⟩, if_pos hlt, ok_bind]
    rfl
  · rw [if_neg (fun hc ↦ hlt hc.2), if_neg hlt, error_bind]

theorem clear_neg_one (negative : String) (s : Selected) :
    s.clear negative (-1) = .error .outOfBounds := by
  rw [clear, writeSlot, if_neg (by omega), error_bind]

/-- Clearing the slot a search has found. -/
theorem clear_idxOf (negative : String) {v : ℤ} (h : v ∈ s.list) :
    s.clear negative (s.list.idxOf v)
      = if s.num - 1 < 0 then .error (.error negative)
        else .ok ⟨s.list.set (s.list.idxOf v) (-1), s.num - 1⟩ := by
  rw [clear, writeSlot, if_pos ⟨by omega, by exact_mod_cast List.idxOf_lt_length_of_mem h⟩,
    ok_bind, Int.toNat_natCast]

theorem select_of_mem (full : ℤ → ℤ → Bool) (tooMany : String) {v : ℤ}
    (h : v ∈ s.list.take s.num.toNat) : s.select full tooMany v = .ok s := by
  rw [select, arraySearch_eq, if_pos h, ok_bind, if_pos (by omega)]

theorem select_of_notMem (full : ℤ → ℤ → Bool) (tooMany : String) {v : ℤ}
    (h : v ∉ s.list.take s.num.toNat) (hnum : 0 ≤ s.num) :
    s.select full tooMany v
      = if s.num < s.list.length then
          if full (s.num + 1) s.list.length then .error (.error tooMany)
          else .ok ⟨s.list.set s.num.toNat v, s.num + 1⟩
        else .error .outOfBounds := by
  rw [select, arraySearch_eq, if_neg h]
  by_cases hlt : s.num < s.list.length
  · rw [if_pos (by omega), ok_bind, if_neg (not_not.mpr rfl), put_eq hnum, if_pos hlt, ok_bind,
      if_pos hlt]
  · rw [if_neg hlt]
    by_cases hle : s.num.toNat ≤ s.list.length
    · rw [if_pos hle, ok_bind, if_neg (not_not.mpr rfl), put_eq hnum, if_neg hlt, error_bind]
    · rw [if_neg hle, error_bind]

theorem deselect_of_mem (negative : String) {bound v : ℤ} (h : v ∈ s.list.take bound.toNat) :
    s.deselect negative bound v = s.clear negative (s.list.idxOf v) := by
  rw [deselect, arraySearch_eq, if_pos h, ok_bind, if_neg (by omega)]

theorem deselect_of_notMem (negative : String) {bound v : ℤ}
    (h : v ∉ s.list.take bound.toNat) :
    s.deselect negative bound v
      = if bound.toNat ≤ s.list.length then .ok s else .error .outOfBounds := by
  rw [deselect, arraySearch_eq, if_neg h]
  by_cases hle : bound.toNat ≤ s.list.length
  · rw [if_pos hle, if_pos hle, ok_bind, if_pos rfl]
  · rw [if_neg hle, if_neg hle, error_bind]

theorem deselectUnlessSecond_of_mem (negative : String) {v : ℤ}
    (h : v ∈ s.list.take s.num.toNat) :
    s.deselectUnlessSecond negative v
      = if s.list.idxOf v = 1 then .ok s else s.clear negative (s.list.idxOf v) := by
  rw [deselectUnlessSecond, arraySearch_eq, if_pos h, ok_bind]
  by_cases hone : s.list.idxOf v = 1
  · rw [if_pos hone, if_neg (by omega)]
  · rw [if_neg hone, if_pos (by omega)]

/-- An entry that is not found is cleared all the same, at the slot the failed search returned. -/
theorem deselectUnlessSecond_of_notMem (negative : String) {v : ℤ}
    (h : v ∉ s.list.take s.num.toNat) :
    s.deselectUnlessSecond negative v = .error .outOfBounds := by
  rw [deselectUnlessSecond, arraySearch_eq, if_neg h]
  by_cases hle : s.num.toNat ≤ s.list.length
  · rw [if_pos hle, ok_bind, if_pos (by omega), clear_neg_one]
  · rw [if_neg hle, error_bind]

end Selected

end MpiTestSuite

import MpiTestSuite.Selection.Operation

/-!
# Compressing a selection array

`tst_array_compress` runs once, after the last token. Two cursors move over the array: entries
other than `-1` are copied down to the second one, which ends up as the counter. Nothing behind the
counter is touched, so the tail of the array keeps what it held before (`compress_eq`).

The entries below the new counter are the set the array stands for, each of them once
(`Represents.selectionIs_compress`).
-/

namespace MpiTestSuite

/-- The entries of a selection array that are not holes. -/
abbrev live (list : List ℤ) : List ℤ := list.filter (· ≠ -1)

/-- One iteration of the loop of `tst_array_compress`, on the array and `current_pos`. -/
def compressStep (list : List ℤ) (currentPos i : ℕ) : List ℤ × ℕ :=
  match list[i]? with
  | some v => if v ≠ -1 then (list.set currentPos v, currentPos + 1) else (list, currentPos)
  | none => (list, currentPos)

/-- `tst_array_compress`: the array and the number of elements left in it. -/
def tstArrayCompress (list : List ℤ) : List ℤ × ℕ :=
  (List.range list.length).foldl (fun state i ↦ compressStep state.1 state.2 i) (list, 0)

/-- The array after `tst_array_compress (list, max, &num)`. -/
def Selected.compress (s : Selected) : Selected :=
  ⟨(tstArrayCompress s.list).1, (tstArrayCompress s.list).2⟩

theorem live_take_length_le (list : List ℤ) (i : ℕ) : (live (list.take i)).length ≤ i :=
  le_trans (List.length_filter_le _ _) (List.length_take_le i list)

/-- One iteration, on an array whose first `i` slots have been compressed. -/
theorem compressStep_eq (list : List ℤ) {i : ℕ} (hi : i < list.length) :
    compressStep (live (list.take i) ++ list.drop (live (list.take i)).length)
        (live (list.take i)).length i
      = (live (list.take (i + 1)) ++ list.drop (live (list.take (i + 1))).length,
          (live (list.take (i + 1))).length) := by
  have hle : (live (list.take i)).length ≤ i := live_take_length_le list i
  -- slot `i` has not been overwritten yet
  have hget : (live (list.take i) ++ list.drop (live (list.take i)).length)[i]? = some list[i] := by
    rw [List.getElem?_append_right hle, List.getElem?_drop, Nat.add_sub_cancel' hle,
      List.getElem?_eq_getElem hi]
  have hsucc : live (list.take (i + 1)) = live (list.take i) ++ live [list[i]] := by
    rw [List.take_succ_eq_append_getElem hi, live, List.filter_append]
  rw [compressStep, hget]
  simp only
  by_cases hhole : list[i] = -1
  · have hnone : live [list[i]] = [] := by simp [hhole]
    rw [if_neg (not_not.mpr hhole), hsucc, hnone, List.append_nil]
  · have hsome : live [list[i]] = [list[i]] := by simp [hhole]
    rw [if_pos hhole, hsucc, hsome, List.length_append, List.length_singleton,
      List.set_append_right _ _ (le_refl _), Nat.sub_self,
      List.drop_eq_getElem_cons (lt_of_le_of_lt hle hi), List.set_cons_zero, List.append_assoc,
      List.singleton_append]

theorem foldl_compressStep (list : List ℤ) (i : ℕ) (hi : i ≤ list.length) :
    (List.range i).foldl (fun state i ↦ compressStep state.1 state.2 i) (list, 0)
      = (live (list.take i) ++ list.drop (live (list.take i)).length,
          (live (list.take i)).length) := by
  induction i with
  | zero => simp
  | succ i ih =>
    rw [List.range_succ, List.foldl_append, ih (by omega), List.foldl_cons, List.foldl_nil]
    exact compressStep_eq list (by omega)

/-- **Compression.** The entries that are not holes come first and in order; the slots behind them
keep their old contents. -/
theorem compress_eq (list : List ℤ) :
    tstArrayCompress list = (live list ++ list.drop (live list).length, (live list).length) := by
  rw [tstArrayCompress, foldl_compressStep list list.length (le_refl _), List.take_length]

theorem length_compress (list : List ℤ) : (tstArrayCompress list).1.length = list.length := by
  have hle : (live list).length ≤ list.length := List.length_filter_le _ _
  rw [compress_eq, List.length_append, List.length_drop]
  omega

namespace Selected

/-- The selected entries: the slots below the counter. -/
def entries (s : Selected) : List ℤ := s.list.take s.num.toNat

@[simp] theorem entries_compress (s : Selected) : s.compress.entries = live s.list := by
  rw [entries, compress, compress_eq]
  simp

end Selected

/-- `s` selects exactly the entries of `d`, each of them once, and all of them are valid. -/
structure SelectionIs (Valid : ℤ → Prop) (s : Selected) (d : Finset ℤ) : Prop where
  nodup : s.entries.Nodup
  mem_iff : ∀ x, x ∈ s.entries ↔ x ∈ d
  valid : ∀ x ∈ s.entries, 0 ≤ x ∧ Valid x

instance {Valid : ℤ → Prop} [DecidablePred Valid] (s : Selected) (d : Finset ℤ) :
    Decidable (SelectionIs Valid s d) :=
  decidable_of_iff
    (s.entries.Nodup ∧ s.entries.toFinset = d ∧ ∀ x ∈ s.entries, 0 ≤ x ∧ Valid x)
    ⟨fun h ↦ ⟨h.1, fun x ↦ by rw [← h.2.1, List.mem_toFinset], h.2.2⟩,
      fun h ↦ ⟨h.nodup, Finset.ext fun x ↦ by rw [List.mem_toFinset, h.mem_iff], h.valid⟩⟩

namespace Represents

variable {max : ℕ} {Valid : ℤ → Prop} {s : Selected} {d : Finset ℤ}

/-- Compressing an array that stands for `d` leaves `d` below the counter. -/
theorem selectionIs_compress (h : Represents max Valid s d) : SelectionIs Valid s.compress d := by
  have hmem : ∀ x, x ∈ live s.list ↔ x ∈ d := by
    intro x
    rw [List.mem_filter, decide_eq_true_iff]
    constructor
    · rintro ⟨hx, hne⟩
      exact (h.mem_iff hne).mp hx
    · intro hx
      exact ⟨(h.mem_iff (h.ne_neg_one hx)).mpr hx, h.ne_neg_one hx⟩
  refine ⟨?_, ?_, ?_⟩
  · rw [Selected.entries_compress, List.nodup_iff_count_le_one]
    intro x
    by_cases hx : x = -1
    · rw [List.count_eq_zero_of_not_mem (by simp [hx])]
      exact Nat.zero_le 1
    · rw [List.count_filter (by simpa using hx), h.count_eq x hx]
      split <;> omega
  · rwa [Selected.entries_compress]
  · intro x hx
    rw [Selected.entries_compress, hmem] at hx
    exact ⟨h.nonneg x hx, h.valid x hx⟩

end Represents

end MpiTestSuite

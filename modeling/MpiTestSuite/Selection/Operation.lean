import Mathlib.Data.List.NodupEquivFin
import MpiTestSuite.Selection.SlotArray

/-!
# Operations on a selection array, and when they do what they are meant to do

Every token of a selection list comes down to a sequence of elementary operations, one for each
entry it concerns. This file names them (`Operation`), says what each does to the array
(`Operation.run`) and what it is meant to do to the selected set (`Operation.effect`), and proves
two exact conditions on the array *before* the operation:

- `Operation.Harmless` is equivalent to the operation keeping the representation
  (`harmless_iff_meets`);
- `Operation.InBounds` is equivalent to all its accesses staying inside the array
  (`bounded_run`).

The conditions are stated through the counter and the entry at the counter. What can go wrong is
always the same: the counter has fallen behind an entry that a deselection left in place, so the
next search does not see the entry and the next store overwrites it; or the counter has run past
the capacity.
-/

open MpiTestSuite.Runs

namespace MpiTestSuite

/-- The elementary operations of the three selection loops. -/
inductive Operation
  /-- `all`. -/
  | fill
  /-- A token read as the number `v`, which stands for the entry `w`. -/
  | put (v w : ℤ)
  /-- A search whose result is not used, for an entry outside the class that is selected or
  deselected. -/
  | look (v : ℤ)
  /-- Select an entry, with the capacity test and the message of the table. -/
  | select (full : ℤ → ℤ → Bool) (tooMany : String) (v : ℤ)
  /-- Deselect an entry that is searched below the counter. -/
  | deselect (negative : String) (v : ℤ)
  /-- Deselect an entry that is searched in the whole array. -/
  | deselectAnywhere (negative : String) (v : ℤ)
  /-- Deselect an entry unless it is found in the second slot. -/
  | deselectUnlessSecond (negative : String) (v : ℤ)
  /-- Call `ERROR`. -/
  | fail (message : String)

namespace Operation

/-- What the operation does. -/
def run (s : Selected) : Operation → Except Stop Selected
  | fill => .ok s.fill
  | put v _ => s.put v
  | look v => do
    let _ ← arraySearch v s.list s.num
    return s
  | select full tooMany v => s.select full tooMany v
  | deselect negative v => s.deselect negative s.num v
  | deselectAnywhere negative v => s.deselect negative s.list.length v
  | deselectUnlessSecond negative v => s.deselectUnlessSecond negative v
  | fail message => .error (.error message)

/-- What the operation is meant to do to the selected set, in an array of capacity `max`. -/
def effect (max : ℕ) (d : Finset ℤ) : Operation → Finset ℤ
  | fill => Selected.slotNumbers max
  | put _ w => insert w d
  | select _ _ v => insert v d
  | deselect _ v => d.erase v
  | deselectAnywhere _ v => d.erase v
  | deselectUnlessSecond _ v => d.erase v
  | look _ => d
  | fail _ => d

/-- The operations the tables produce: entries are not negative, and the capacity test of a
selection agrees with reaching the capacity as long as the counter is within it. -/
def WellFormed : Operation → Prop
  | put v w => 0 ≤ v ∧ 0 ≤ w
  | look v => 0 ≤ v
  | select full _ v => 0 ≤ v ∧ ∀ num max, num ≤ max → (full num max = true ↔ num = max)
  | deselect _ v => 0 ≤ v
  | deselectAnywhere _ v => 0 ≤ v
  | deselectUnlessSecond _ v => 0 ≤ v
  | fill => True
  | fail _ => True

/-- The store of `v` at the counter puts `v` into a hole and nowhere else, or changes nothing. -/
def Free (s : Selected) (v : ℤ) : Prop :=
  s.list[s.num.toNat]? = some v ∨ s.list[s.num.toNat]? = some (-1) ∧ v ∉ s.list

instance (s : Selected) (v : ℤ) : Decidable (Free s v) := by unfold Free; infer_instance

/-- The operation, carried out in `s`, does what it is meant to do or is rejected with `ERROR`.
`Valid` is what every selected entry has to satisfy. -/
def Harmless (Valid : ℤ → Prop) (s : Selected) : Operation → Prop
  | put v w => s.num < s.list.length ∧
      (s.list[s.num.toNat]? = some v ∧ w ∈ s.list ∨
        v = w ∧ Valid v ∧ s.list[s.num.toNat]? = some (-1) ∧ v ∉ s.list)
  | look v => s.num ≤ s.list.length ∨ v ∈ s.list
  | select _ _ v => v ∈ s.list.take s.num.toNat ∨
      s.num < s.list.length ∧ (s.num + 1 = s.list.length ∨ Valid v ∧ Free s v)
  | deselect _ v => v ∈ s.list.take s.num.toNat ∨ v ∉ s.list ∧ s.num ≤ s.list.length
  | deselectUnlessSecond _ v => v ∈ s.list.take s.num.toNat ∧ s.list[1]? ≠ some v
  | fill => True
  | deselectAnywhere _ _ => True
  | fail _ => True

/-- Every access of the operation, carried out in `s`, is to a slot of the array. -/
def InBounds (s : Selected) : Operation → Prop
  | put _ _ => s.num < s.list.length
  | look v => s.num ≤ s.list.length ∨ v ∈ s.list
  | select _ _ v => s.num < s.list.length ∨ v ∈ s.list
  | deselect _ v => s.num ≤ s.list.length ∨ v ∈ s.list
  | deselectUnlessSecond _ v => v ∈ s.list.take s.num.toNat
  | fill => True
  | deselectAnywhere _ _ => True
  | fail _ => True

end Operation

/-! ## The set an array stands for -/

/-- `s` is an array of capacity `max` that stands for the set `d` of valid entries: the entries
other than `-1` are those of `d`, each of them once. -/
structure Represents (max : ℕ) (Valid : ℤ → Prop) (s : Selected) (d : Finset ℤ) : Prop where
  length_eq : s.list.length = max
  num_nonneg : 0 ≤ s.num
  count_eq : ∀ x, x ≠ -1 → s.list.count x = if x ∈ d then 1 else 0
  nonneg : ∀ x ∈ d, 0 ≤ x
  valid : ∀ x ∈ d, Valid x

namespace Represents

variable {max : ℕ} {Valid : ℤ → Prop} {s : Selected} {d : Finset ℤ}

theorem empty (max : ℕ) (Valid : ℤ → Prop) : Represents max Valid (Selected.empty max) ∅ where
  length_eq := List.length_replicate
  num_nonneg := le_refl 0
  count_eq x hx := by
    rw [Selected.empty, List.count_replicate]
    simp [Ne.symm hx]
  nonneg := by simp
  valid := by simp

theorem mem_iff (h : Represents max Valid s d) {x : ℤ} (hx : x ≠ -1) : x ∈ s.list ↔ x ∈ d := by
  rw [← List.count_pos_iff, h.count_eq x hx]
  by_cases hd : x ∈ d <;> simp [hd]

theorem ne_neg_one (h : Represents max Valid s d) {x : ℤ} (hx : x ∈ d) : x ≠ -1 := by
  have := h.nonneg x hx
  omega

theorem lt_toNat (h : Represents max Valid s d) (hnum : s.num < s.list.length) :
    s.num.toNat < s.list.length := by
  have := h.num_nonneg
  omega

end Represents

/-! ## What one store or one hole does to the counts -/

theorem count_set_eq {list : List ℤ} {k : ℕ} {y : ℤ} (hy : list[k]? = some y) (v x : ℤ) :
    (list.set k v).count x
      = list.count x - (if y = x then 1 else 0) + (if v = x then 1 else 0) := by
  obtain ⟨hk, rfl⟩ := List.getElem?_eq_some_iff.mp hy
  rw [List.count_set hk]
  simp only [beq_iff_eq]

/-- An entry that occurs once stands where the search finds it. -/
theorem idxOf_eq_of_count_one {list : List ℤ} {v : ℤ} (hcount : list.count v = 1) {k : ℕ}
    (hk : list[k]? = some v) : list.idxOf v = k := by
  by_contra hne
  have hmem : v ∈ list := List.mem_of_getElem? hk
  obtain ⟨hlt, hget⟩ := List.getElem?_eq_some_iff.mp hk
  have hidx : list.idxOf v < list.length := List.idxOf_lt_length_of_mem hmem
  have hdup : List.Duplicate v list := by
    rw [List.duplicate_iff_exists_distinct_get]
    rcases lt_or_gt_of_ne hne with h | h
    · exact ⟨⟨_, hidx⟩, ⟨k, hlt⟩, h, (List.getElem_idxOf _).symm, hget.symm⟩
    · exact ⟨⟨k, hlt⟩, ⟨_, hidx⟩, h, hget.symm, (List.getElem_idxOf _).symm⟩
  have := List.duplicate_iff_two_le_count.mp hdup
  omega

theorem set_eq_self {list : List ℤ} {k : ℕ} {y : ℤ} (hy : list[k]? = some y) :
    list.set k y = list := by
  obtain ⟨hk, rfl⟩ := List.getElem?_eq_some_iff.mp hy
  exact List.set_getElem_self hk

namespace Represents

variable {max : ℕ} {Valid : ℤ → Prop} {s : Selected} {d : Finset ℤ}

/-- The counter may be moved freely: it is no part of the meaning. -/
theorem with_num (h : Represents max Valid s d) {n : ℤ} (hn : 0 ≤ n) :
    Represents max Valid ⟨s.list, n⟩ d :=
  ⟨h.length_eq, hn, h.count_eq, h.nonneg, h.valid⟩

/-- `all` selects every slot number, once each. -/
theorem fill (h : Represents max Valid s d) (hvalid : ∀ x : ℤ, 0 ≤ x → x < max → Valid x) :
    Represents max Valid s.fill (Selected.slotNumbers max) where
  length_eq := by simpa [Selected.fill] using h.length_eq
  num_nonneg := by
    have := h.num_nonneg
    simp only [Selected.fill]
    omega
  count_eq x _ := by
    have hnodup : ((List.range s.list.length).map fun i : ℕ ↦ (i : ℤ)).Nodup :=
      List.nodup_range.map fun _ _ hij ↦ by simpa using hij
    rw [Selected.fill, hnodup.count, h.length_eq]
    refine if_congr ?_ rfl rfl
    rw [List.mem_map, Selected.mem_slotNumbers]
    constructor
    · rintro ⟨i, hi, rfl⟩
      rw [List.mem_range] at hi
      omega
    · rintro ⟨h0, h1⟩
      exact ⟨x.toNat, List.mem_range.mpr (by omega), by omega⟩
  nonneg x hx := (Selected.mem_slotNumbers.mp hx).1
  valid x hx := hvalid x (Selected.mem_slotNumbers.mp hx).1 (Selected.mem_slotNumbers.mp hx).2

/-- A new value stored in a hole is inserted. -/
theorem plug (h : Represents max Valid s d) {v : ℤ} (hv : 0 ≤ v) (hvalid : Valid v)
    (hmem : v ∉ s.list) {k : ℕ} (hk : s.list[k]? = some (-1)) {n : ℤ} (hn : 0 ≤ n) :
    Represents max Valid ⟨s.list.set k v, n⟩ (insert v d) := by
  have hvd : v ∉ d := fun hvd ↦ hmem ((h.mem_iff (by omega)).mpr hvd)
  refine ⟨by simpa using h.length_eq, hn, fun x hx ↦ ?_, ?_, ?_⟩
  · rw [count_set_eq hk, h.count_eq x hx, if_neg (Ne.symm hx)]
    by_cases hxv : v = x
    · subst hxv
      simp [hvd]
    · simp [hxv, Ne.symm hxv]
  · intro x hx
    rcases Finset.mem_insert.mp hx with rfl | hx
    · exact hv
    · exact h.nonneg x hx
  · intro x hx
    rcases Finset.mem_insert.mp hx with rfl | hx
    · exact hvalid
    · exact h.valid x hx

/-- If a store of `v` over another entry `y` inserts `w`, then `y` was a hole and `v` is `w` and
new. -/
theorem of_store (h : Represents max Valid s d) {v w y : ℤ} (hv : 0 ≤ v) {k : ℕ}
    (hy : s.list[k]? = some y) (hyv : y ≠ v) {n : ℤ}
    (H : Represents max Valid ⟨s.list.set k v, n⟩ (insert w d)) :
    y = -1 ∧ v = w ∧ v ∉ s.list := by
  have hhole : y = -1 := by
    by_contra hne
    -- a live entry that is stored over is lost
    have hyd : y ∈ d := (h.mem_iff hne).mp (List.mem_of_getElem? hy)
    have hcount := H.count_eq y hne
    rw [count_set_eq hy, h.count_eq y hne, if_pos hyd, if_pos rfl, if_neg (Ne.symm hyv),
      if_pos (Finset.mem_insert_of_mem hyd)] at hcount
    exact absurd hcount (by decide)
  have hcount := H.count_eq v (by omega)
  rw [count_set_eq hy, h.count_eq v (by omega), if_neg hyv, if_pos rfl] at hcount
  have hvd : v ∉ d := by
    intro hvd
    rw [if_pos hvd, if_pos (Finset.mem_insert_of_mem hvd)] at hcount
    exact absurd hcount (by decide)
  have hvw : v ∈ insert w d := by
    by_contra hvw
    rw [if_neg hvd, if_neg hvw] at hcount
    exact absurd hcount (by decide)
  exact ⟨hhole, (Finset.mem_insert.mp hvw).resolve_right hvd,
    fun hmem ↦ hvd ((h.mem_iff (by omega)).mp hmem)⟩

/-- A store at the counter, exactly. The entry that was there before must be the stored one or a
hole; a live entry would be lost, and an entry stored a second time would occur twice. -/
theorem store_iff (h : Represents max Valid s d) (hnum : s.num < s.list.length) {v w : ℤ}
    (hv : 0 ≤ v) (hw : 0 ≤ w) :
    Represents max Valid ⟨s.list.set s.num.toNat v, s.num + 1⟩ (insert w d) ↔
      s.list[s.num.toNat]? = some v ∧ w ∈ s.list ∨
        v = w ∧ Valid v ∧ s.list[s.num.toNat]? = some (-1) ∧ v ∉ s.list := by
  have hk : s.num.toNat < s.list.length := h.lt_toNat hnum
  have hnum' : 0 ≤ s.num + 1 := by linarith [h.num_nonneg]
  obtain ⟨y, hy⟩ : ∃ y, s.list[s.num.toNat]? = some y := ⟨_, List.getElem?_eq_getElem hk⟩
  rw [hy, Option.some_inj, Option.some_inj]
  constructor
  · intro H
    by_cases hyv : y = v
    · subst hyv
      refine Or.inl ⟨rfl, (h.mem_iff (by omega)).mpr ?_⟩
      have hcount := H.count_eq w (by omega)
      rw [set_eq_self hy, h.count_eq w (by omega), if_pos (Finset.mem_insert_self w d)] at hcount
      by_contra hwd
      rw [if_neg hwd] at hcount
      exact absurd hcount (by decide)
    · obtain ⟨hhole, rfl, hmem⟩ := h.of_store hv hy hyv H
      exact Or.inr ⟨rfl, H.valid v (Finset.mem_insert_self v d), hhole, hmem⟩
  · rintro (⟨rfl, hmem⟩ | ⟨rfl, hvalid, rfl, hmem⟩)
    · rw [set_eq_self hy, Finset.insert_eq_self.mpr ((h.mem_iff (by omega)).mp hmem)]
      exact h.with_num hnum'
    · exact h.plug hv hvalid hmem hy hnum'

/-- Punching a hole where `v` stands removes `v`. -/
theorem punch (h : Represents max Valid s d) {v : ℤ} (hv : 0 ≤ v) {k : ℕ}
    (hk : s.list[k]? = some v) {n : ℤ} (hn : 0 ≤ n) :
    Represents max Valid ⟨s.list.set k (-1), n⟩ (d.erase v) := by
  have hvd : v ∈ d := (h.mem_iff (by omega)).mp (List.mem_of_getElem? hk)
  refine ⟨by simpa using h.length_eq, hn, fun x hx ↦ ?_, ?_, ?_⟩
  · rw [count_set_eq hk, h.count_eq x hx, if_neg (Ne.symm hx)]
    by_cases hxv : v = x
    · subst hxv
      simp [hvd]
    · simp [hxv, Ne.symm hxv]
  · exact fun x hx ↦ h.nonneg x (Finset.mem_of_mem_erase hx)
  · exact fun x hx ↦ h.valid x (Finset.mem_of_mem_erase hx)

/-- Leaving the array alone removes `v` exactly when `v` was not there. -/
theorem erase_iff (h : Represents max Valid s d) {v : ℤ} (hv : 0 ≤ v) :
    Represents max Valid s (d.erase v) ↔ v ∉ s.list := by
  rw [h.mem_iff (by omega)]
  constructor
  · intro H hvd
    have hcount := H.count_eq v (by omega)
    rw [h.count_eq v (by omega), if_pos hvd, if_neg (Finset.notMem_erase v d)] at hcount
    exact absurd hcount (by decide)
  · intro hvd
    rw [Finset.erase_eq_of_notMem hvd]
    exact h

end Represents

/-! ## The two exact conditions -/

namespace Operation

variable {max : ℕ} {Valid : ℤ → Prop} {s : Selected} {d : Finset ℤ}

theorem look_eq (v : ℤ) (s : Selected) :
    (look v).run s = if v ∈ s.list.take s.num.toNat ∨ s.num.toNat ≤ s.list.length then .ok s
      else .error .outOfBounds := by
  rw [run, arraySearch_eq]
  by_cases hmem : v ∈ s.list.take s.num.toNat
  · rw [if_pos hmem, if_pos (Or.inl hmem), ok_bind]
    rfl
  · by_cases hle : s.num.toNat ≤ s.list.length
    · rw [if_neg hmem, if_pos hle, if_pos (Or.inr hle), ok_bind]
      rfl
    · rw [if_neg hmem, if_neg hle, if_neg (by tauto), error_bind]

/-- Below a counter that has passed the capacity lies the whole array. -/
theorem mem_take_or_le_iff (hnum : 0 ≤ s.num) {v : ℤ} :
    v ∈ s.list.take s.num.toNat ∨ s.num.toNat ≤ s.list.length ↔
      s.num ≤ s.list.length ∨ v ∈ s.list := by
  constructor
  · rintro (hmem | hle)
    · exact Or.inr (List.mem_of_mem_take hmem)
    · exact Or.inl (by omega)
  · rintro (hle | hmem)
    · exact Or.inr (by omega)
    · by_cases hle : s.num.toNat ≤ s.list.length
      · exact Or.inr hle
      · rw [List.take_of_length_le (by omega)]
        exact Or.inl hmem

/-- Clearing a found entry ends represented, or in the `ERROR` of a negative counter. -/
theorem meets_clear (h : Represents max Valid s d) {v : ℤ} (hv : 0 ≤ v) (hmem : v ∈ s.list)
    (negative : String) :
    Meets (Represents max Valid) Stop.Rejected (d.erase v)
      (s.clear negative (s.list.idxOf v)) := by
  rw [Selected.clear_idxOf negative hmem]
  by_cases hneg : s.num - 1 < 0
  · rw [if_pos hneg]
    exact Stop.rejected_error negative
  · rw [if_neg hneg]
    exact h.punch hv (List.getElem?_eq_some_iff.mpr ⟨List.idxOf_lt_length_of_mem hmem,
      List.getElem_idxOf _⟩) (by omega)

theorem harmless_put_iff (h : Represents max Valid s d) {v w : ℤ} (hv : 0 ≤ v) (hw : 0 ≤ w) :
    (put v w).Harmless Valid s ↔
      Meets (Represents max Valid) Stop.Rejected (insert w d) ((put v w).run s) := by
  rw [run, Selected.put_eq h.num_nonneg, Harmless]
  by_cases hlt : s.num < s.list.length
  · rw [if_pos hlt, meets_ok, h.store_iff hlt hv hw]
    exact and_iff_right hlt
  · rw [if_neg hlt, meets_error]
    exact iff_of_false (fun hc ↦ hlt hc.1) Stop.not_rejected_outOfBounds

theorem harmless_look_iff (h : Represents max Valid s d) (v : ℤ) :
    (look v).Harmless Valid s ↔
      Meets (Represents max Valid) Stop.Rejected d ((look v).run s) := by
  rw [look_eq, Harmless, ← mem_take_or_le_iff h.num_nonneg]
  by_cases hc : v ∈ s.list.take s.num.toNat ∨ s.num.toNat ≤ s.list.length
  · rw [if_pos hc]
    exact iff_of_true hc h
  · rw [if_neg hc]
    exact iff_of_false hc Stop.not_rejected_outOfBounds

theorem harmless_select_iff (h : Represents max Valid s d) {full : ℤ → ℤ → Bool}
    {tooMany : String} {v : ℤ} (hv : 0 ≤ v)
    (hfull : ∀ num max, num ≤ max → (full num max = true ↔ num = max)) :
    (select full tooMany v).Harmless Valid s ↔
      Meets (Represents max Valid) Stop.Rejected (insert v d)
        ((select full tooMany v).run s) := by
  rw [run, Harmless]
  by_cases hmem : v ∈ s.list.take s.num.toNat
  · have hvd : v ∈ d := (h.mem_iff (by omega)).mp (List.mem_of_mem_take hmem)
    rw [Selected.select_of_mem _ _ hmem, meets_ok, Finset.insert_eq_self.mpr hvd]
    exact iff_of_true (Or.inl hmem) h
  · rw [Selected.select_of_notMem _ _ hmem h.num_nonneg, or_iff_right hmem]
    by_cases hlt : s.num < s.list.length
    · rw [if_pos hlt, and_iff_right hlt]
      by_cases hcap : s.num + 1 = s.list.length
      · -- the last slot: the entry is stored and the capacity test rejects it
        rw [if_pos ((hfull _ _ (by omega)).mpr hcap)]
        exact iff_of_true (Or.inl hcap) (Stop.rejected_error tooMany)
      · rw [if_neg (fun hc ↦ hcap ((hfull _ _ (by omega)).mp hc)), meets_ok,
          h.store_iff hlt hv hv, or_iff_right hcap, Free]
        constructor
        · rintro ⟨hvalid, hself | hhole⟩
          · exact Or.inl ⟨hself, List.mem_of_getElem? hself⟩
          · exact Or.inr ⟨rfl, hvalid, hhole⟩
        · rintro (⟨hself, hv'⟩ | ⟨-, hvalid, hhole⟩)
          · exact ⟨h.valid v ((h.mem_iff (by omega)).mp hv'), Or.inl hself⟩
          · exact ⟨hvalid, Or.inr hhole⟩
    · rw [if_neg hlt]
      exact iff_of_false (fun hc ↦ hlt hc.1) Stop.not_rejected_outOfBounds

theorem harmless_deselect_iff (h : Represents max Valid s d) {negative : String} {v : ℤ}
    (hv : 0 ≤ v) :
    (deselect negative v).Harmless Valid s ↔
      Meets (Represents max Valid) Stop.Rejected (d.erase v) ((deselect negative v).run s) := by
  rw [run, Harmless]
  by_cases hmem : v ∈ s.list.take s.num.toNat
  · rw [Selected.deselect_of_mem negative hmem]
    exact iff_of_true (Or.inl hmem) (meets_clear h hv (List.mem_of_mem_take hmem) negative)
  · rw [Selected.deselect_of_notMem negative hmem, or_iff_right hmem]
    by_cases hle : s.num ≤ s.list.length
    · rw [if_pos (by omega), meets_ok, h.erase_iff hv]
      exact and_iff_left hle
    · rw [if_neg (by omega)]
      exact iff_of_false (fun hc ↦ hle hc.2) Stop.not_rejected_outOfBounds

theorem meets_deselectAnywhere (h : Represents max Valid s d) {negative : String} {v : ℤ}
    (hv : 0 ≤ v) :
    Meets (Represents max Valid) Stop.Rejected (d.erase v)
      ((deselectAnywhere negative v).run s) := by
  rw [run]
  by_cases hmem : v ∈ s.list
  · rw [Selected.deselect_of_mem negative (by simpa using hmem)]
    exact meets_clear h hv hmem negative
  · rw [Selected.deselect_of_notMem negative (by simpa using hmem), if_pos (by simp)]
    exact (h.erase_iff hv).mpr hmem

theorem harmless_deselectUnlessSecond_iff (h : Represents max Valid s d) {negative : String}
    {v : ℤ} (hv : 0 ≤ v) :
    (deselectUnlessSecond negative v).Harmless Valid s ↔
      Meets (Represents max Valid) Stop.Rejected (d.erase v)
        ((deselectUnlessSecond negative v).run s) := by
  rw [run, Harmless]
  by_cases hmem : v ∈ s.list.take s.num.toNat
  · have hin : v ∈ s.list := List.mem_of_mem_take hmem
    rw [Selected.deselectUnlessSecond_of_mem negative hmem, and_iff_right hmem]
    -- entries occur once, so `v` stands in the second slot exactly when the search stops there
    have hsecond : s.list[1]? = some v ↔ s.list.idxOf v = 1 := by
      constructor
      · intro hone
        have hcount : s.list.count v = 1 := by
          rw [h.count_eq v (by omega), if_pos ((h.mem_iff (by omega)).mp hin)]
        exact idxOf_eq_of_count_one hcount hone
      · intro hone
        rw [← hone]
        exact List.getElem?_eq_some_iff.mpr ⟨List.idxOf_lt_length_of_mem hin, List.getElem_idxOf _⟩
    rw [ne_eq, hsecond]
    by_cases hone : s.list.idxOf v = 1
    · rw [if_pos hone, meets_ok, h.erase_iff hv]
      exact iff_of_false (fun hc ↦ hc hone) (fun hc ↦ hc hin)
    · rw [if_neg hone]
      exact iff_of_true hone (meets_clear h hv hin negative)
  · rw [Selected.deselectUnlessSecond_of_notMem negative hmem]
    exact iff_of_false (fun hc ↦ hmem hc.1) Stop.not_rejected_outOfBounds

/-- **One operation.** From an array that stands for `d`, the operation ends in an array that
stands for the set it is meant to produce, or in a rejection, exactly when it is harmless. -/
theorem harmless_iff_meets (hfill : ∀ x : ℤ, 0 ≤ x → x < max → Valid x) (s : Selected)
    (d : Finset ℤ) (op : Operation) (hop : op.WellFormed) (h : Represents max Valid s d) :
    op.Harmless Valid s ↔
      Meets (Represents max Valid) Stop.Rejected (effect max d op) (op.run s) := by
  cases op with
  | fill => exact iff_of_true trivial (h.fill hfill)
  | put v w => exact harmless_put_iff h hop.1 hop.2
  | look v => exact harmless_look_iff h v
  | select full tooMany v => exact harmless_select_iff h hop.1 hop.2
  | deselect negative v => exact harmless_deselect_iff h hop
  | deselectAnywhere negative v => exact iff_of_true trivial (meets_deselectAnywhere h hop)
  | deselectUnlessSecond negative v => exact harmless_deselectUnlessSecond_iff h hop
  | fail message => exact iff_of_true trivial (Stop.rejected_error message)

/-! ### Bounds -/

/-- The array has capacity `max` and its counter is not negative: all that is known of an array
whose contents are arbitrary. -/
structure Shaped (max : ℕ) (s : Selected) : Prop where
  length_eq : s.list.length = max
  num_nonneg : 0 ≤ s.num

/-- The outcome `r` of an operation that stays inside the array exactly when `c`: it leaves an array
of the same shape or is rejected if `c`, and is an access outside the array if not. -/
structure Bounded (max : ℕ) (c : Prop) (r : Except Stop Selected) : Prop where
  inside : c → ∀ s, r = .ok s → Shaped max s
  rejected : c → ∀ e, r = .error e → e.Rejected
  outside : ¬c → r = .error .outOfBounds

theorem shaped_empty (max : ℕ) : Shaped max (Selected.empty max) :=
  ⟨List.length_replicate, le_refl 0⟩

theorem bounded_ok {c : Prop} (hc : c) (h : Shaped max s) : Bounded max c (.ok s) where
  inside _ s' hs' := by
    cases hs'
    exact h
  rejected _ e he := by cases he
  outside hn := absurd hc hn

theorem bounded_error {c : Prop} (hc : c) (message : String) :
    Bounded max c (.error (.error message)) where
  inside _ s' hs' := by cases hs'
  rejected _ e he := by
    cases he
    exact Stop.rejected_error message
  outside hn := absurd hc hn

theorem bounded_outOfBounds {c : Prop} (hc : ¬c) : Bounded max c (.error .outOfBounds) where
  inside h := absurd h hc
  rejected h := absurd h hc
  outside _ := rfl

theorem bounded_clear (h : Shaped max s) {v : ℤ} (hmem : v ∈ s.list) (negative : String) {c : Prop}
    (hc : c) : Bounded max c (s.clear negative (s.list.idxOf v)) := by
  rw [Selected.clear_idxOf negative hmem]
  by_cases hneg : s.num - 1 < 0
  · rw [if_pos hneg]
    exact bounded_error hc negative
  · rw [if_neg hneg]
    exact bounded_ok hc ⟨by simpa using h.length_eq, by simpa using hneg⟩

theorem bounded_deselect (h : Shaped max s) (negative : String) (bound v : ℤ) :
    Bounded max (v ∈ s.list.take bound.toNat ∨ bound.toNat ≤ s.list.length)
      (s.deselect negative bound v) := by
  by_cases hmem : v ∈ s.list.take bound.toNat
  · rw [Selected.deselect_of_mem negative hmem]
    exact bounded_clear h (List.mem_of_mem_take hmem) negative (Or.inl hmem)
  · rw [Selected.deselect_of_notMem negative hmem]
    by_cases hle : bound.toNat ≤ s.list.length
    · rw [if_pos hle]
      exact bounded_ok (Or.inr hle) h
    · rw [if_neg hle]
      exact bounded_outOfBounds (by tauto)

theorem bounded_select (h : Shaped max s) (full : ℤ → ℤ → Bool) (tooMany : String) (v : ℤ) :
    Bounded max (s.num < s.list.length ∨ v ∈ s.list) (s.select full tooMany v) := by
  by_cases hmem : v ∈ s.list.take s.num.toNat
  · rw [Selected.select_of_mem _ _ hmem]
    exact bounded_ok (Or.inr (List.mem_of_mem_take hmem)) h
  · rw [Selected.select_of_notMem _ _ hmem h.num_nonneg]
    by_cases hlt : s.num < s.list.length
    · rw [if_pos hlt]
      by_cases hfull : full (s.num + 1) s.list.length = true
      · rw [if_pos hfull]
        exact bounded_error (Or.inl hlt) tooMany
      · rw [if_neg hfull]
        refine bounded_ok (Or.inl hlt) ⟨by simpa using h.length_eq, ?_⟩
        have := h.num_nonneg
        simp only
        omega
    · rw [if_neg hlt]
      refine bounded_outOfBounds ?_
      rintro (hlt' | hin)
      · exact hlt hlt'
      · -- a full array is searched as a whole
        rw [List.take_of_length_le (by omega)] at hmem
        exact hmem hin

/-- **One operation, accesses only.** -/
theorem bounded_run (s : Selected) (op : Operation) (h : Shaped max s) :
    Bounded max (op.InBounds s) (op.run s) := by
  have hnum := h.num_nonneg
  cases op with
  | fill =>
    refine bounded_ok trivial ⟨by simpa [Selected.fill] using h.length_eq, ?_⟩
    simp only [Selected.fill]
    omega
  | put v w =>
    rw [InBounds, run, Selected.put_eq hnum]
    by_cases hlt : s.num < s.list.length
    · rw [if_pos hlt]
      exact bounded_ok hlt ⟨by simpa using h.length_eq, by simp only; omega⟩
    · rw [if_neg hlt]
      exact bounded_outOfBounds hlt
  | look v =>
    rw [InBounds, look_eq, ← mem_take_or_le_iff hnum]
    by_cases hc : v ∈ s.list.take s.num.toNat ∨ s.num.toNat ≤ s.list.length
    · rw [if_pos hc]
      exact bounded_ok hc h
    · rw [if_neg hc]
      exact bounded_outOfBounds hc
  | select full tooMany v => exact bounded_select h full tooMany v
  | deselect negative v =>
    rw [InBounds, ← mem_take_or_le_iff hnum]
    exact bounded_deselect h negative s.num v
  | deselectAnywhere negative v =>
    -- all slots are searched, whatever the counter says
    have hb := bounded_deselect h negative s.list.length v
    exact ⟨fun _ ↦ hb.inside (by simp), fun _ ↦ hb.rejected (by simp), fun hn ↦ absurd trivial hn⟩
  | deselectUnlessSecond negative v =>
    rw [InBounds, run]
    by_cases hmem : v ∈ s.list.take s.num.toNat
    · rw [Selected.deselectUnlessSecond_of_mem negative hmem]
      by_cases hone : s.list.idxOf v = 1
      · rw [if_pos hone]
        exact bounded_ok hmem h
      · rw [if_neg hone]
        exact bounded_clear h (List.mem_of_mem_take hmem) negative hmem
    · rw [Selected.deselectUnlessSecond_of_notMem negative hmem]
      exact bounded_outOfBounds hmem
  | fail message => exact bounded_error trivial message

/-- An operation that does not stop keeps the shape of the array. -/
theorem shaped_run (s : Selected) (op : Operation) (s' : Selected) (h : Shaped max s)
    (hrun : op.run s = .ok s') : Shaped max s' := by
  by_cases hc : op.InBounds s
  · exact (bounded_run s op h).inside hc s' hrun
  · rw [(bounded_run s op h).outside hc] at hrun
    cases hrun

/-! ## Runs of operations -/

/-- **A run of operations.** Every operation is harmless in the state it is carried out in if and
only if the array stands for the intended set after every one of them. -/
theorem along_harmless_iff (hfill : ∀ x : ℤ, 0 ≤ x → x < max → Valid x)
    (h : Represents max Valid s d) {ops : List Operation} (hops : ∀ op ∈ ops, op.WellFormed) :
    Along run (Harmless Valid) s ops ↔
      ∀ k, Meets (Represents max Valid) Stop.Rejected ((ops.take k).foldl (effect max) d)
        ((ops.take k).foldlM run s) :=
  along_iff_meets (harmless_iff_meets hfill) h hops

theorem meets_of_along_harmless (hfill : ∀ x : ℤ, 0 ≤ x → x < max → Valid x)
    (h : Represents max Valid s d) {ops : List Operation} (hops : ∀ op ∈ ops, op.WellFormed)
    (halong : Along run (Harmless Valid) s ops) :
    Meets (Represents max Valid) Stop.Rejected (ops.foldl (effect max) d) (ops.foldlM run s) :=
  meets_of_along (harmless_iff_meets hfill) h hops halong

/-- **Accesses of a run.** A run leaves the array at some point if and only if some operation has
an access outside it in the state it is carried out in. -/
theorem along_inBounds_iff (h : Shaped max s) (ops : List Operation) :
    Along run InBounds s ops ↔ ops.foldlM run s ≠ .error .outOfBounds := by
  refine along_iff_ne_error (I := Shaped max) shaped_run (fun s op hs ↦ ?_) h ops
  constructor
  · exact fun hc hout ↦ Stop.not_rejected_outOfBounds ((bounded_run s op hs).rejected hc _ hout)
  · exact fun hne ↦ by_contra fun hc ↦ hne ((bounded_run s op hs).outside hc)

end Operation

end MpiTestSuite

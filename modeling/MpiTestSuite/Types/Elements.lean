import Mathlib.Tactic.Ring
import MpiTestSuite.Types.SetValue

/-!
# Arrays of elements

Loops over the elements of a buffer, whatever each of them is set to. Elements are set in ascending
order and none writes in front of its window, so what an element damages is set again by the next
one: at the end every window holds what was set there (`Settable.setElements_apply`).

A check sets the element that it expects in a buffer of its own and compares. What is left in that
buffer by the previous element makes no difference (`Settable.foldlM_compare`).
-/

namespace MpiTestSuite

section

variable (cfg : Config) (t : TypeSlot) (fields : List FieldStore)

/-- Set elements, given by their indices, one after another. -/
def setElements (xs : List (ℕ × TypeSet × ℤ)) (m : Memory) : Memory :=
  xs.foldl (fun m x ↦ setFields cfg t fields m (x.1 * t.size) x.2.1 x.2.2) m

/-- An element that is set on its own. -/
def elementOf (x : TypeSet × ℤ) : Memory := setFields cfg t fields (fun _ ↦ 0) 0 x.1 x.2

end

/-- Where nothing is stored, an element has the byte it was filled with. -/
theorem elementOf_of_notMem {cfg : Config} {t : TypeSlot} {fields : List FieldStore} {k : ℤ}
    (hfree : ∀ f ∈ fields, ¬(f.offset ≤ k ∧ k < f.offset + f.scalar.stored)) (x : TypeSet × ℤ)
    (hk : 0 ≤ k) (hlt : k < t.size) : elementOf cfg t fields x k = defaultInitByte := by
  have hcover : ¬Covers (fieldPatch fields (effectiveSet cfg t.typeClass x.1 x.2) x.2)
      (k - 0) := by
    rw [covers_fieldPatch, sub_zero]
    rintro ⟨f, hf, hstored⟩
    exact hfree f hf hstored
  rw [elementOf, setFields, patch_frame hcover, memset_of_mem _ (by omega)]

/-- Set the expected element in the buffer of a check, compare it with the element at an address and
count a difference: `tst_type_setvalue`, `tst_type_cmpvalue` and `errors++`. -/
def compareElement (cfg : Config) (t : TypeSlot) (x : TypeSet × ℤ) (buf : Memory) (a : ℤ)
    (state : Memory × ℕ) : Option (Memory × ℕ) := do
  let cmpValue ← tstTypeSetvalue cfg t state.1 0 x.1 x.2
  return (cmpValue, if tstTypeCmpvalue t buf a cmpValue 0 then state.2 + 1 else state.2)

/-- The indices ascend. -/
def Ascending (xs : List (ℕ × TypeSet × ℤ)) : Prop := xs.Pairwise fun x y ↦ x.1 < y.1

/-- The indices of `p` blocks of `n` elements, block by block, are those of one loop. -/
theorem range_blocks (p n : ℕ) :
    (List.range p).flatMap (fun k ↦ (List.range n).map fun j ↦ k * n + j) = List.range (p * n) := by
  induction p with
  | zero => simp
  | succ p ih =>
    rw [List.range_succ, List.flatMap_append, ih, List.flatMap_singleton, Nat.succ_mul,
      List.range_add]

/-- A loop over blocks and, within each block, over its elements. -/
theorem ascending_blocks (p n : ℕ) (f : ℕ → ℕ → TypeSet × ℤ) :
    Ascending ((List.range p).flatMap fun k ↦ (List.range n).map fun j ↦ (k * n + j, f k j)) := by
  rw [Ascending, ← List.pairwise_map (f := Prod.fst), List.map_flatMap]
  simp only [List.map_map, Function.comp_def]
  rw [range_blocks]
  exact List.pairwise_lt_range

namespace Settable

variable {cfg : Config} {t : TypeSlot} {fields : List FieldStore}

/-- Elements that come later do not touch the window of an element. -/
theorem setElements_frame (h : Settable cfg t fields) {xs : List (ℕ × TypeSet × ℤ)} (m : Memory)
    {i : ℕ} (hi : ∀ x ∈ xs, i < x.1) {k : ℤ} (hlo : t.lb ≤ k) (hhi : k < t.ub) :
    setElements cfg t fields xs m (i * t.size + k) = m (i * t.size + k) := by
  induction xs generalizing m with
  | nil => rfl
  | cons x xs ih =>
    have hfit : FieldsFit t fields := h.fit.resolve_right fun hzero ↦ by
      rw [TypeSlot.size] at hzero
      omega
    have hsize : t.size = t.ub - t.lb := rfl
    -- the element begins where the window ends, or later
    have hle : ((i : ℤ) + 1) * t.size ≤ x.1 * t.size := by
      refine mul_le_mul_of_nonneg_right (by exact_mod_cast hi x List.mem_cons_self) ?_
      omega
    have hexpand : ((i : ℤ) + 1) * t.size = i * t.size + t.size := by ring
    rw [setElements, List.foldl_cons, ← setElements,
      ih _ fun y hy ↦ hi y (List.mem_cons_of_mem x hy), setFields_frame hfit _ _ _ (by omega)]

/-- **The windows.** Elements that are set in ascending order hold what was set there, although the
fill of an element reaches into the next one. -/
theorem setElements_apply (h : Settable cfg t fields) {xs : List (ℕ × TypeSet × ℤ)}
    (hxs : Ascending xs) (m : Memory) {x : ℕ × TypeSet × ℤ} (hx : x ∈ xs) {k : ℤ}
    (hlo : t.lb ≤ k) (hhi : k < t.ub) :
    setElements cfg t fields xs m (x.1 * t.size + k) = elementOf cfg t fields x.2 k := by
  induction xs generalizing m with
  | nil => exact absurd hx List.not_mem_nil
  | cons y xs ih =>
    obtain ⟨hlater, hrest⟩ := List.pairwise_cons.mp hxs
    rw [setElements, List.foldl_cons, ← setElements]
    rcases List.mem_cons.mp hx with rfl | hx
    · rw [h.setElements_frame _ hlater hlo hhi]
      have hwindow := h.setFields_window m (fun _ ↦ 0) (x.1 * t.size) 0 x.2.1 x.2.2 hlo hhi
      rwa [zero_add] at hwindow
    · exact ih hrest _ hx

/-- The buffer of a check may hold anything before an element is set in it. -/
theorem cmpvalue_setFields (h : Settable cfg t fields) (m : Memory) (a : ℤ) (cmpValue : Memory)
    (x : TypeSet × ℤ) :
    tstTypeCmpvalue t m a (setFields cfg t fields cmpValue 0 x.1 x.2) 0
      = tstTypeCmpvalue t m a (elementOf cfg t fields x) 0 :=
  h.cmpvalue_congr m a fun _ hlo hhi ↦ h.setFields_window cmpValue (fun _ ↦ 0) 0 0 x.1 x.2 hlo hhi

/-- Comparing with an element of an array is comparing with what it was set to. -/
theorem cmpvalue_setElements (h : Settable cfg t fields) {xs : List (ℕ × TypeSet × ℤ)}
    (hxs : Ascending xs) (m buf : Memory) (a : ℤ) {x : ℕ × TypeSet × ℤ} (hx : x ∈ xs) :
    tstTypeCmpvalue t buf a (setElements cfg t fields xs m) (x.1 * t.size)
      = tstTypeCmpvalue t buf a (elementOf cfg t fields x.2) 0 :=
  h.cmpvalue_congr buf a fun k hlo hhi ↦ by
    rw [h.setElements_apply hxs m hx hlo hhi, zero_add]

/-- Elements of a part of a buffer that begins at an element. -/
theorem setElements_shift (c : ℕ) (xs : List (ℕ × TypeSet × ℤ)) (m : Memory) :
    setElements cfg t fields xs (m.shift (c * t.size))
      = (setElements cfg t fields (xs.map fun x ↦ (c + x.1, x.2)) m).shift (c * t.size) := by
  induction xs generalizing m with
  | nil => rfl
  | cons x xs ih =>
    have haddress : (c : ℤ) * t.size + x.1 * t.size = ((c + x.1 : ℕ) : ℤ) * t.size := by
      push_cast
      ring
    rw [setElements, List.foldl_cons, ← setElements, setFields_shift, haddress, ih]
    rfl

/-- A loop of `tst_type_setvalue`. -/
theorem foldlM_setvalue (h : Settable cfg t fields) (xs : List (ℕ × TypeSet × ℤ)) (m : Memory) :
    xs.foldlM (fun m x ↦ tstTypeSetvalue cfg t m (x.1 * t.size) x.2.1 x.2.2) m
      = some (setElements cfg t fields xs m) := by
  induction xs generalizing m with
  | nil => rfl
  | cons x xs ih =>
    rw [List.foldlM_cons, h.setvalue_eq]
    exact ih _

/-- A loop of comparisons counts the elements that differ from what is expected. -/
theorem foldlM_compare (h : Settable cfg t fields) {ι : Type} (is : List ι)
    (x : ι → TypeSet × ℤ) (buf : ι → Memory) (address : ι → ℤ) (cmpValue : Memory) (errors : ℕ) :
    ∃ cmpValue', is.foldlM (fun state i ↦ compareElement cfg t (x i) (buf i) (address i) state)
        (cmpValue, errors)
      = some (cmpValue', errors + is.countP fun i ↦
          tstTypeCmpvalue t (buf i) (address i) (elementOf cfg t fields (x i)) 0) := by
  induction is generalizing cmpValue errors with
  | nil => exact ⟨cmpValue, rfl⟩
  | cons i is ih =>
    rw [List.foldlM_cons, compareElement, h.setvalue_eq, List.countP_cons]
    simp only [Option.pure_def, Option.bind_eq_bind, Option.bind_some, h.cmpvalue_setFields]
    obtain ⟨cmpValue', hrest⟩ := ih (setFields cfg t fields cmpValue 0 (x i).1 (x i).2)
      (if tstTypeCmpvalue t (buf i) (address i) (elementOf cfg t fields (x i)) 0 then errors + 1
        else errors)
    refine ⟨cmpValue', hrest.trans ?_⟩
    split_ifs <;> simp only [Option.some_inj, Prod.mk.injEq, true_and] <;> omega

/-- What an element of type `long double` is set to is a number. -/
theorem longDoubleNe_elementOf (h : Settable cfg t fields) (hclass : t.typeClass = tstMpiLongDouble)
    {x : TypeSet × ℤ} (hbound : x.2.natAbs < 2 ^ 64) :
    longDoubleNe (load (elementOf cfg t fields x) 0 16) (load (elementOf cfg t fields x) 0 16)
      = false := by
  obtain ⟨hlb, hub, rfl⟩ := h.longDouble hclass
  let typeSet := effectiveSet cfg t.typeClass x.1 x.2
  let bits := scalarBits .longDouble true typeSet x.2
  have hbits := longDoubleValue_scalarBits hbound true typeSet
  -- a store writes the first ten bytes, which are all that is compared
  have htake : (load (elementOf cfg t (setScalar .longDouble) x) 0 16).take 10
      = leBytes 10 bits := by
    have hlen := length_leBytes 10 bits
    refine List.ext_getElem (by simp [load]) fun j hj _ ↦ ?_
    have hj10 : j < 10 := by simpa [load] using hj
    have hstore : elementOf cfg t (setScalar .longDouble) x (0 + j)
        = (leBytes 10 bits).getD j 0 := by
      change store _ (0 + 0) (leBytes 10 bits) (0 + j) = _
      rw [store, if_pos (by omega)]
      congr 1
      omega
    have hj16 : j < (load (elementOf cfg t (setScalar .longDouble) x) 0 16).length := by
      simp only [load, List.length_map, List.length_range]
      omega
    have hload : (load (elementOf cfg t (setScalar .longDouble) x) 0 16)[j]
        = elementOf cfg t (setScalar .longDouble) x (0 + j) := by
      simp [load]
    rw [List.getElem_take, hload, hstore, List.getD_eq_getElem _ _ (by omega)]
  refine longDoubleNe_self ?_
  rw [htake, ofLeBytes_leBytes, longDoubleValue_mod]
  exact hbits

/-- No element differs from itself. -/
theorem cmpvalue_elementOf_self (h : Settable cfg t fields) {x : TypeSet × ℤ}
    (hbound : x.2.natAbs < 2 ^ 64) :
    tstTypeCmpvalue t (elementOf cfg t fields x) 0 (elementOf cfg t fields x) 0 = false := by
  by_cases hclass : t.typeClass = tstMpiLongDouble
  · rw [tstTypeCmpvalue, if_pos hclass]
    exact h.longDoubleNe_elementOf hclass hbound
  · rw [tstTypeCmpvalue, if_neg hclass, bne_self_eq_false]

end Settable

end MpiTestSuite

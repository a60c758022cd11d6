import MpiTestSuite.Coding.CInt
import MpiTestSuite.Types.Elements

/-!
# Standard arrays

`tst_type_setstandardarray` sets element `0` to the smallest value, element `1` to the largest and
element `i` to the number `comm_rank + i`; `tst_type_checkstandardarray` counts the elements that
differ from these values, setting each of them once more in a buffer of its own.

The sizes and offsets of an array are computed in `int`. `tst_type_allocvalues` gets no memory where
the size of the block is none that there can be (`HasBlock`), and the offsets `i * type_size` are
`int`s in each array that has a block; they are taken as exact here, which presupposes the block.

Elements are set in ascending order and none writes in front of its window, so what an element
damages is set again by the next one (`Settable.written_apply`). With a single exception the count
is the number of windows that differ from the array that would be written. The exception is
`MPI_LONG_DOUBLE`, whose elements are compared as numbers: a changed padding byte is no difference
there (`standard_array_check`).
-/

namespace MpiTestSuite

/-- `OVERHEAD`. -/
def overhead : ℕ := 8

/-- What is in a block that has been allocated for an array, as seen from the origin of the first
element. -/
def freshValues (t : TypeSlot) (valuesNum : ℕ) : Memory :=
  memset (fun _ ↦ 0) t.lb defaultInitByte ((valuesNum + overhead) * t.size).toNat

/-- `(values_num+OVERHEAD) * type_size` is an `int`, and the size of a block with room for elements.
There is no memory for a negative size, and in a block without bytes no element has room. -/
def HasBlock (t : TypeSlot) (valuesNum : ℤ) : Prop :=
  0 < (valuesNum + overhead) * t.size ∧ (valuesNum + overhead) * t.size < 2 ^ 31

instance (t : TypeSlot) : DecidablePred (HasBlock t) := fun valuesNum ↦ by
  unfold HasBlock
  infer_instance

/-- `tst_type_allocvalues (type, values_num)`, where it leads to a block that can be used. -/
def tstTypeAllocvalues (t : TypeSlot) (valuesNum : ℤ) : Option Memory :=
  if HasBlock t valuesNum then
    some (memset (fun _ ↦ 0) t.lb defaultInitByte ((valuesNum + overhead) * t.size).toNat)
  else none

/-- A number of values, as the number of elements that an MPI call transfers. A negative one is an
error. -/
def elementCount (valuesNum : ℤ) : Option ℕ :=
  if 0 ≤ valuesNum then some valuesNum.toNat else none

/-- A number of values that the arrays of a test can have. -/
structure ArrayFits (t : TypeSlot) (valuesNum : ℤ) : Prop where
  /-- MPI takes no negative count. -/
  count : 0 ≤ valuesNum
  /-- The table of the program has bytes for an element. -/
  size : 0 < t.size
  /-- The size of the block is an `int`. -/
  bytes : (valuesNum + overhead) * t.size < 2 ^ 31

/-- `tst_type_setstandardarray (type, values_num, buffer, comm_rank)`. The buffer has room for the
array, so the offsets are less than its size, which is of type `int`. -/
def tstTypeSetstandardarray (cfg : Config) (t : TypeSlot) (valuesNum : ℕ) (m : Memory)
    (commRank : ℤ) : Option Memory := do
  let m ← if 0 < valuesNum then tstTypeSetvalue cfg t m (0 * t.size) .min 0 else some m
  let m ← if 1 < valuesNum then tstTypeSetvalue cfg t m (1 * t.size) .max 0 else some m
  (List.range' 2 (valuesNum - 2)).foldlM
    (fun m (i : ℕ) ↦ tstTypeSetvalue cfg t m (i * t.size) .value (commRank + i)) m

/-- `tst_type_checkstandardarray (type, values_num, buffer, comm_rank)`, on a buffer that has room
for the array. -/
def tstTypeCheckstandardarray (cfg : Config) (t : TypeSlot) (valuesNum : ℕ) (m : Memory)
    (commRank : ℤ) : Option ℕ := do
  let cmpValue ← tstTypeSetvalue cfg t (freshValues t 1) 0 .min 0
  let errors := if 0 < valuesNum ∧ tstTypeCmpvalue t m (0 * t.size) cmpValue 0 then 1 else 0
  let cmpValue ← tstTypeSetvalue cfg t cmpValue 0 .max 0
  let errors :=
    if 1 < valuesNum ∧ tstTypeCmpvalue t m (1 * t.size) cmpValue 0 then errors + 1 else errors
  let state ← (List.range' 2 (valuesNum - 2)).foldlM
    (fun (state : Memory × ℕ) (i : ℕ) ↦ do
      let cmpValue ← tstTypeSetvalue cfg t state.1 0 .value (commRank + i)
      return (cmpValue,
        if tstTypeCmpvalue t cmpValue 0 m (i * t.size) then state.2 + 1 else state.2))
    (cmpValue, errors)
  return state.2

/-! ## The block -/

theorem hasBlock_of_allocvalues {t : TypeSlot} {valuesNum : ℤ} {m : Memory}
    (h : tstTypeAllocvalues t valuesNum = some m) : HasBlock t valuesNum := by
  by_contra hblock
  rw [tstTypeAllocvalues, if_neg hblock] at h
  cases h

theorem elementCount_natCast (n : ℕ) : elementCount n = some n := by
  rw [elementCount, if_pos (Int.natCast_nonneg n), Int.toNat_natCast]

theorem elementCount_eq_some_iff {valuesNum : ℤ} {n : ℕ} :
    elementCount valuesNum = some n ↔ valuesNum = n := by
  by_cases hnonneg : 0 ≤ valuesNum
  · rw [elementCount, if_pos hnonneg, Option.some_inj]
    omega
  · rw [elementCount, if_neg hnonneg]
    exact iff_of_false nofun (by omega)

theorem elementCount_of_nonneg {valuesNum : ℤ} (h : 0 ≤ valuesNum) :
    elementCount valuesNum = some valuesNum.toNat := if_pos h

theorem elementCount_eq_none {valuesNum : ℤ} (h : ¬0 ≤ valuesNum) : elementCount valuesNum = none :=
  if_neg h

/-- A block for a number of values that is a count. -/
theorem arrayFits_iff {t : TypeSlot} {valuesNum : ℤ} :
    ArrayFits t valuesNum ↔ 0 ≤ valuesNum ∧ HasBlock t valuesNum := by
  have hcount : 0 ≤ valuesNum → 0 < valuesNum + overhead := fun h ↦ by
    rw [overhead]
    omega
  constructor
  · rintro ⟨hnonneg, hsize, hbytes⟩
    exact ⟨hnonneg, mul_pos (hcount hnonneg) hsize, hbytes⟩
  · rintro ⟨hnonneg, hblock, hbytes⟩
    exact ⟨hnonneg, pos_of_mul_pos_right hblock (hcount hnonneg).le, hbytes⟩

/-- A single element always has a block if it has bytes. -/
theorem hasBlock_one (cfg : Config) {t : TypeSlot} (ht : t ∈ initTypes cfg) (hsize : 0 < t.size) :
    HasBlock t 1 :=
  Config.forall_slot (P := fun _ t ↦ 0 < t.size → HasBlock t 1) (by decide +kernel) cfg ht hsize

namespace ArrayFits

variable {t : TypeSlot} {valuesNum : ℤ}

instance : Decidable (ArrayFits t valuesNum) := decidable_of_iff _ arrayFits_iff.symm

theorem hasBlock (h : ArrayFits t valuesNum) : HasBlock t valuesNum := (arrayFits_iff.mp h).2

theorem allocvalues_eq (h : ArrayFits t valuesNum) :
    tstTypeAllocvalues t valuesNum = some (freshValues t valuesNum.toNat) := by
  rw [tstTypeAllocvalues, if_pos h.hasBlock, freshValues, Int.toNat_of_nonneg h.count]

/-- The array itself is smaller than its block. -/
theorem mul_size_lt (h : ArrayFits t valuesNum) : valuesNum * t.size < 2 ^ 31 := by
  have hbytes := h.bytes
  have hspare : 0 ≤ (overhead : ℤ) * t.size := mul_nonneg (Int.natCast_nonneg _) h.size.le
  rw [add_mul] at hbytes
  omega

theorem fitsInt (h : ArrayFits t valuesNum) : FitsInt valuesNum := by
  have hle : valuesNum ≤ valuesNum * t.size := le_mul_of_one_le_right h.count h.size
  have hlt := h.mul_size_lt
  have hnonneg := h.count
  exact ⟨by omega, by omega⟩

end ArrayFits

/-! ## What an element is set to -/

/-- The way element `i` is set. -/
def elementSet : ℕ → TypeSet
  | 0 => .min
  | 1 => .max
  | _ => .value

/-- The number element `i` is set to, where it is set to a number. -/
def elementValue (commRank : ℤ) : ℕ → ℤ
  | 0 => 0
  | 1 => 0
  | i => commRank + i

theorem elementSet_of_two_le {i : ℕ} (h : 2 ≤ i) : elementSet i = .value := by
  obtain ⟨j, rfl⟩ := Nat.exists_eq_add_of_le' h
  rfl

theorem elementValue_of_two_le (commRank : ℤ) {i : ℕ} (h : 2 ≤ i) :
    elementValue commRank i = commRank + i := by
  obtain ⟨j, rfl⟩ := Nat.exists_eq_add_of_le' h
  rfl

section

variable (cfg : Config) (t : TypeSlot) (fields : List FieldStore) (commRank : ℤ)

/-- Element `i` of a standard array, set at address `a`. -/
def setElement (m : Memory) (a : ℤ) (i : ℕ) : Memory :=
  setFields cfg t fields m a (elementSet i) (elementValue commRank i)

/-- The first `n` elements of a standard array. -/
def written (n : ℕ) (m : Memory) : Memory :=
  (List.range n).foldl (fun m (i : ℕ) ↦ setElement cfg t fields commRank m (i * t.size) i) m

/-- The element that the check compares element `i` with. -/
def expected (i : ℕ) : Memory := setElement cfg t fields commRank (fun _ ↦ 0) 0 i

end

/-- The buffer holds the standard array of a rank. -/
def IsStandardArray (cfg : Config) (t : TypeSlot) (valuesNum commRank : ℕ) (buf : Memory) : Prop :=
  ∃ w, tstTypeSetstandardarray cfg t valuesNum (freshValues t valuesNum) commRank = some w ∧
    ∀ i < valuesNum, window t buf i = window t w i

theorem expected_eq_elementOf (cfg : Config) (t : TypeSlot) (fields : List FieldStore)
    (commRank : ℤ) (i : ℕ) : expected cfg t fields commRank i
      = elementOf cfg t fields (elementSet i, elementValue commRank i) := rfl

theorem range_eq_cons_cons (n : ℕ) : List.range (n + 2) = 0 :: 1 :: List.range' 2 n := by
  rw [List.range_eq_range', List.range'_succ, List.range'_succ]

namespace Settable

variable {cfg : Config} {t : TypeSlot} {fields : List FieldStore}

/-- A standard array is an array of elements. -/
theorem written_eq (commRank : ℤ) (n : ℕ) (m : Memory) :
    written cfg t fields commRank n m = setElements cfg t fields
      ((List.range n).map fun i ↦ (i, elementSet i, elementValue commRank i)) m := by
  rw [setElements, List.foldl_map]
  rfl

theorem ascending_range (commRank : ℤ) (n : ℕ) :
    Ascending ((List.range n).map fun i ↦ (i, elementSet i, elementValue commRank i)) := by
  rw [Ascending, List.pairwise_map]
  exact List.pairwise_lt_range

/-- The loop over the elements that are set to a value. -/
theorem foldlM_set (h : Settable cfg t fields) (commRank : ℤ) (is : List ℕ)
    (his : ∀ i ∈ is, 2 ≤ i) (m : Memory) :
    is.foldlM (fun m (i : ℕ) ↦ tstTypeSetvalue cfg t m (i * t.size) .value (commRank + i)) m
      = some (is.foldl (fun m (i : ℕ) ↦ setElement cfg t fields commRank m (i * t.size) i) m) := by
  have hmap : is.map (fun i : ℕ ↦ (i, TypeSet.value, commRank + (i : ℤ)))
      = is.map fun i : ℕ ↦ (i, elementSet i, elementValue commRank i) :=
    List.map_congr_left fun i hi ↦ by
      rw [elementSet_of_two_le (his i hi), elementValue_of_two_le commRank (his i hi)]
  have hloop := h.foldlM_setvalue (is.map fun i : ℕ ↦ (i, TypeSet.value, commRank + (i : ℤ))) m
  rw [List.foldlM_map, hmap, setElements, List.foldl_map] at hloop
  exact hloop

/-- The function that sets an array sets its elements in ascending order. -/
theorem setstandardarray_eq (h : Settable cfg t fields) (n : ℕ) (m : Memory) (commRank : ℤ) :
    tstTypeSetstandardarray cfg t n m commRank = some (written cfg t fields commRank n m) := by
  rw [tstTypeSetstandardarray]
  rcases n with - | - | n
  · rfl
  · rw [if_pos (by omega), h.setvalue_eq]
    rfl
  · rw [if_pos (by omega), h.setvalue_eq]
    simp only [Option.bind_eq_bind, Option.bind_some]
    rw [if_pos (by omega), h.setvalue_eq, Option.bind_some,
      h.foldlM_set commRank _ fun i hi ↦ (List.mem_range'_1.mp hi).1, written, range_eq_cons_cons]
    rfl

/-- The windows of elements that have been set hold what was set there, although the fill of an
element reaches into the next one. -/
theorem written_apply (h : Settable cfg t fields) (commRank : ℤ) (m : Memory) (n : ℕ) {i : ℕ}
    (hi : i < n) {k : ℤ} (hlo : t.lb ≤ k) (hhi : k < t.ub) :
    written cfg t fields commRank n m (i * t.size + k) = expected cfg t fields commRank i k := by
  rw [written_eq]
  exact h.setElements_apply (ascending_range commRank n) m
    (List.mem_map_of_mem (List.mem_range.mpr hi)) hlo hhi

/-- The buffer of the check may hold anything before an element is set in it. -/
theorem cmpvalue_setElement (h : Settable cfg t fields) (m : Memory) (a : ℤ) (cmpValue : Memory)
    (commRank : ℤ) (i : ℕ) :
    tstTypeCmpvalue t m a (setElement cfg t fields commRank cmpValue 0 i) 0
      = tstTypeCmpvalue t m a (expected cfg t fields commRank i) 0 :=
  h.cmpvalue_setFields m a cmpValue (elementSet i, elementValue commRank i)

/-- The loop over the elements that should hold a value. -/
theorem foldlM_check (h : Settable cfg t fields) (m : Memory) (commRank : ℤ) (is : List ℕ)
    (his : ∀ i ∈ is, 2 ≤ i) (cmpValue : Memory) (errors : ℕ) :
    ∃ cmpValue', is.foldlM (fun (state : Memory × ℕ) (i : ℕ) ↦ do
      let cmpValue ← tstTypeSetvalue cfg t state.1 0 .value (commRank + i)
      return (cmpValue,
        if tstTypeCmpvalue t cmpValue 0 m (i * t.size) then state.2 + 1 else state.2))
      (cmpValue, errors) = some (cmpValue', errors + is.countP fun i : ℕ ↦
        tstTypeCmpvalue t m (i * t.size) (expected cfg t fields commRank i) 0) := by
  obtain ⟨cmpValue', hloop⟩ := h.foldlM_compare is (fun i ↦ (.value, commRank + i)) (fun _ ↦ m)
    (fun i ↦ i * t.size) cmpValue errors
  have hcount : (is.countP fun i : ℕ ↦ tstTypeCmpvalue t m (i * t.size)
      (elementOf cfg t fields (.value, commRank + i)) 0)
      = is.countP fun i : ℕ ↦
        tstTypeCmpvalue t m (i * t.size) (expected cfg t fields commRank i) 0 := by
    refine List.countP_congr fun i hi ↦ ?_
    rw [expected, setElement, elementSet_of_two_le (his i hi),
      elementValue_of_two_le commRank (his i hi)]
    rfl
  rw [hcount] at hloop
  simp only [cmpvalue_comm t _ 0 m]
  exact ⟨cmpValue', hloop⟩

/-- The check compares every element with what it would be set to. -/
theorem checkstandardarray_eq (h : Settable cfg t fields) (n : ℕ) (m : Memory) (commRank : ℤ) :
    tstTypeCheckstandardarray cfg t n m commRank
      = some ((List.range n).countP fun i : ℕ ↦
          tstTypeCmpvalue t m (i * t.size) (expected cfg t fields commRank i) 0) := by
  let differs : ℕ → Bool := fun i ↦
    tstTypeCmpvalue t m (i * t.size) (expected cfg t fields commRank i) 0
  have hfirst : ∀ cmpValue, tstTypeCmpvalue t m (0 * t.size)
      (setFields cfg t fields cmpValue 0 .min 0) 0 = differs 0 :=
    fun cmpValue ↦ h.cmpvalue_setElement m _ cmpValue commRank 0
  have hsecond : ∀ cmpValue, tstTypeCmpvalue t m (1 * t.size)
      (setFields cfg t fields cmpValue 0 .max 0) 0 = differs 1 :=
    fun cmpValue ↦ h.cmpvalue_setElement m _ cmpValue commRank 1
  have hloop := h.foldlM_check m commRank
  rw [tstTypeCheckstandardarray, h.setvalue_eq]
  simp only [Option.pure_def, Option.bind_eq_bind, Option.bind_some, h.setvalue_eq, hfirst,
    hsecond] at hloop ⊢
  rcases n with - | - | n
  · simp
  · simp [differs]
  · obtain ⟨cmpValue', hrest⟩ := hloop (List.range' 2 (n + 2 - 2))
      (fun i hi ↦ (List.mem_range'_1.mp hi).1)
      (setFields cfg t fields (setFields cfg t fields (freshValues t 1) 0 .min 0) 0 .max 0)
      (if 1 < n + 2 ∧ differs 1 then (if 0 < n + 2 ∧ differs 0 then 1 else 0) + 1
        else if 0 < n + 2 ∧ differs 0 then 1 else 0)
    rw [hrest, Option.bind_some, range_eq_cons_cons, Nat.add_sub_cancel]
    change some (_ + List.countP differs _) = some (List.countP differs (0 :: 1 :: _))
    rw [List.countP_cons, List.countP_cons]
    cases differs 0 <;> cases differs 1 <;> simp <;> omega

/-- What a standard array is, byte by byte. -/
theorem isStandardArray_iff (h : Settable cfg t fields) (n r : ℕ) (buf : Memory) :
    IsStandardArray cfg t n r buf ↔ ∀ i < n, ∀ k, t.lb ≤ k → k < t.ub →
      buf (i * t.size + k) = expected cfg t fields r i k := by
  have hsize : t.size = t.ub - t.lb := rfl
  simp only [IsStandardArray, h.setstandardarray_eq, Option.some_inj, exists_eq_left']
  refine forall₂_congr fun i hi ↦ ?_
  rw [window, window, load, load, List.map_inj_left]
  constructor
  · intro hall k hlo hhi
    have hbyte := hall (k - t.lb).toNat (List.mem_range.mpr (by omega))
    rw [Int.toNat_of_nonneg (by omega), add_assoc, add_sub_cancel] at hbyte
    rw [hbyte]
    exact h.written_apply r _ n hi hlo hhi
  · intro hall j hj
    have hlt := List.mem_range.mp hj
    rw [add_assoc, hall _ (by omega) (by omega)]
    exact (h.written_apply r _ n hi (by omega) (by omega)).symm

/-- What an element of type `long double` is set to is a number. -/
theorem longDoubleNe_expected (h : Settable cfg t fields) (hclass : t.typeClass = tstMpiLongDouble)
    {commRank : ℤ} {i : ℕ} (hbound : (commRank + i).natAbs < 2 ^ 64) :
    longDoubleNe (load (expected cfg t fields commRank i) 0 16)
      (load (expected cfg t fields commRank i) 0 16) = false := by
  refine h.longDoubleNe_elementOf hclass (x := (elementSet i, elementValue commRank i)) ?_
  rcases i with - | - | i
  · exact Nat.two_pow_pos 64
  · exact Nat.two_pow_pos 64
  · exact hbound

end Settable

/-! ## The check -/

/-- Element `i` of a buffer is not what it is in the array `w`: its numbers differ for
`MPI_LONG_DOUBLE`, a byte of its window for any other datatype. -/
def elementDiffers (t : TypeSlot) (m w : Memory) (i : ℕ) : Bool :=
  if t.typeClass = tstMpiLongDouble then
    longDoubleNe (load m (i * t.size) 16) (load w (i * t.size) 16)
  else window t m i != window t w i

variable {cfg : Config} {t : TypeSlot} {fields : List FieldStore}

/-- What an element is compared with is what is in the array at that place. -/
theorem Settable.cmpvalue_written (h : Settable cfg t fields) (commRank : ℤ) (m buf : Memory)
    {n i : ℕ} (hi : i < n) :
    tstTypeCmpvalue t buf (i * t.size) (expected cfg t fields commRank i) 0
      = elementDiffers t buf (written cfg t fields commRank n m) i := by
  have hcongr : tstTypeCmpvalue t buf (i * t.size) (expected cfg t fields commRank i) 0
      = tstTypeCmpvalue t buf (i * t.size) (written cfg t fields commRank n m) (i * t.size) := by
    refine h.cmpvalue_congr buf (i * t.size) fun k hlo hhi ↦ ?_
    rw [zero_add, h.written_apply commRank m n hi hlo hhi]
  exact hcongr

/-- No element of an array differs from itself. -/
theorem Settable.elementDiffers_written_self (h : Settable cfg t fields) {commRank : ℤ}
    (m : Memory) {n i : ℕ} (hi : i < n) (hbound : (commRank + i).natAbs < 2 ^ 64) :
    elementDiffers t (written cfg t fields commRank n m) (written cfg t fields commRank n m) i
      = false := by
  by_cases hclass : t.typeClass = tstMpiLongDouble
  · obtain ⟨hlb, hub, -⟩ := h.longDouble hclass
    have hload : load (written cfg t fields commRank n m) (i * t.size) 16
        = load (expected cfg t fields commRank i) 0 16 := load_congr fun j hj ↦ by
      rw [zero_add, h.written_apply commRank m n hi (by omega) (by omega)]
    rw [elementDiffers, if_pos hclass, hload]
    exact h.longDoubleNe_expected hclass hbound
  · rw [elementDiffers, if_neg hclass, bne_self_eq_false]

/-- **The check.** Setting an array succeeds; checking any buffer counts the elements in which it
differs from the array that is set, whatever was in memory before; and the array itself passes. -/
theorem standard_array_check (cfg : Config) (t : TypeSlot) (ht : t ∈ initTypes cfg)
    (hnull : t.datatype ≠ .null) (n : ℕ) (commRank : ℤ) (hlow : -2 ^ 31 ≤ commRank)
    (hhigh : commRank + n ≤ 2 ^ 31) (m : Memory) :
    ∃ w, tstTypeSetstandardarray cfg t n m commRank = some w ∧
      tstTypeCheckstandardarray cfg t n w commRank = some 0 ∧
      ∀ buf, tstTypeCheckstandardarray cfg t n buf commRank
        = some ((List.range n).countP (elementDiffers t buf w)) := by
  obtain ⟨fields, h⟩ := exists_settable cfg ht hnull
  have hcount : ∀ buf, tstTypeCheckstandardarray cfg t n buf commRank
      = some ((List.range n).countP
          (elementDiffers t buf (written cfg t fields commRank n m))) := by
    intro buf
    rw [h.checkstandardarray_eq]
    refine congrArg some (List.countP_congr fun i hi ↦ ?_)
    rw [h.cmpvalue_written commRank m buf (List.mem_range.mp hi)]
  refine ⟨written cfg t fields commRank n m, h.setstandardarray_eq n m commRank, ?_, hcount⟩
  rw [hcount, List.countP_eq_zero.mpr]
  intro i hi
  have hin : i < n := List.mem_range.mp hi
  rw [h.elementDiffers_written_self m hin (by omega)]
  exact Bool.false_ne_true

/-- A slot of the table under MPI 2, with everything compiled in. -/
def slotMpi2 (i : ℕ) : TypeSlot :=
  (initTypes ⟨2, true, true, true, true, true, true, true, true⟩).getD i (absentSlot "")

/-- Three elements of `MPI_TYPE_MIX_LB_UB`, whose lower bound is negative. -/
theorem standard_array_check_mixLbUb :
    (slotMpi2 28).lb = -17 ∧
      ∃ w, tstTypeSetstandardarray ⟨2, true, true, true, true, true, true, true, true⟩
          (slotMpi2 28) 3 (fun _ ↦ 0) 1 = some w ∧
        tstTypeCheckstandardarray ⟨2, true, true, true, true, true, true, true, true⟩
          (slotMpi2 28) 3 w 1 = some 0 ∧
        ∀ buf, tstTypeCheckstandardarray ⟨2, true, true, true, true, true, true, true, true⟩
          (slotMpi2 28) 3 buf 1
            = some ((List.range 3).countP (elementDiffers (slotMpi2 28) buf w)) :=
  ⟨by decide +kernel,
    standard_array_check ⟨2, true, true, true, true, true, true, true, true⟩ (slotMpi2 28)
      (by decide +kernel) (by decide +kernel) 3 1 (by decide) (by decide) (fun _ ↦ 0)⟩

/-- The check does not see a padding byte of a `long double`. -/
theorem standard_array_check_misses_padding :
    ¬∀ (cfg : Config) (t : TypeSlot), t ∈ initTypes cfg → t.datatype ≠ .null →
      ∀ (n : ℕ) (commRank : ℤ), -2 ^ 31 ≤ commRank → commRank + n ≤ 2 ^ 31 →
        ∀ m w buf, tstTypeSetstandardarray cfg t n m commRank = some w →
          tstTypeCheckstandardarray cfg t n buf commRank
            = some ((List.range n).countP fun i ↦ window t buf i != window t w i) := by
  intro h
  let cfg : Config := ⟨2, true, true, true, true, true, true, true, true⟩
  let w : Memory := written cfg (slotMpi2 12) (setScalar .longDouble) 0 1 (fun _ ↦ 0)
  have hset : tstTypeSetstandardarray cfg (slotMpi2 12) 1 (fun _ ↦ 0) 0 = some w := by
    have hsettable : Settable cfg (slotMpi2 12) (setScalar .longDouble) :=
      ⟨by decide +kernel, by decide +kernel, by decide +kernel⟩
    exact hsettable.setstandardarray_eq 1 (fun _ ↦ 0) 0
  have hcheck := h cfg (slotMpi2 12) (by decide +kernel) (by decide +kernel) 1 0 (by decide)
    (by decide) (fun _ ↦ 0) w (store w 10 [0]) hset
  revert hcheck
  decide +kernel

end MpiTestSuite

import MpiTestSuite.Coding.CInt
import MpiTestSuite.Coding.CString
import MpiTestSuite.Types.StandardArray

/-!
# The size of a buffer

`tst_type_allocvalues` asks `malloc` for `(values_num+OVERHEAD) * type_size` bytes, computed in
`int`, and returns an address such that the block begins at the lower bound of the first element.
The eight spare elements are what the elements of the negative lower bound need at the end: setting
the last of them writes up to its origin plus the size, which lies behind its upper bound.

As long as the product is an `int`, everything that setting and checking an array touches lies in
the block (`Settable.bufferFits`); a negative one becomes a size for which there is no memory. The
number of values comes from the command line unchecked, and a product that is no `int` may well come
out small and positive.
-/

open MpiTestSuite.CString

namespace MpiTestSuite

/-- `(values_num+OVERHEAD) * type_size`, as `int` arithmetic leaves it. -/
def blockSize (t : TypeSlot) (valuesNum : ℤ) : ℤ :=
  wrapInt (wrapInt (valuesNum + overhead) * t.size)

/-- The block that `tst_type_allocvalues` gets from `malloc`: the address that is returned and the
number of bytes of the block; `none` where it calls `ERROR`. -/
def allocBlock (malloc : ℕ → Option ℤ) (t : TypeSlot) (valuesNum : ℤ) : Option (ℤ × ℕ) :=
  (malloc (sizeT (blockSize t valuesNum))).map fun a ↦ (a - t.lb, sizeT (blockSize t valuesNum))

/-- `tst_type_getstandardarray_size`. -/
def tstTypeGetstandardarraySize (t : TypeSlot) (valuesNum : ℤ) : ℤ := blockSize t valuesNum

/-- The address, relative to the one that was returned, is one of the block. -/
def InBlock (t : TypeSlot) (n : ℕ) (p : ℤ) : Prop := t.lb ≤ p ∧ p < t.lb + n

/-- A buffer for `valuesNum` values does its work: no product overflows, and if there is memory for
the block, its size is the one that is reported, setting a standard array writes nothing outside of
it, and the check of one depends on nothing outside of it. -/
structure BufferFits (malloc : ℕ → Option ℤ) (cfg : Config) (t : TypeSlot) (valuesNum : ℤ) :
    Prop where
  count : FitsInt (valuesNum + overhead)
  size : FitsInt ((valuesNum + overhead) * t.size)
  offset : ∀ i : ℕ, i < valuesNum → FitsInt (i * t.size)
  reported : ∀ a n, allocBlock malloc t valuesNum = some (a, n) →
    tstTypeGetstandardarraySize t valuesNum = n
  written : ∀ a n, allocBlock malloc t valuesNum = some (a, n) → ∀ commRank m m',
    tstTypeSetstandardarray cfg t valuesNum.toNat m commRank = some m' →
      ∀ p, ¬InBlock t n p → m' p = m p
  checked : ∀ a n, allocBlock malloc t valuesNum = some (a, n) → ∀ commRank m m',
    (∀ p, InBlock t n p → m p = m' p) →
      tstTypeCheckstandardarray cfg t valuesNum.toNat m commRank
        = tstTypeCheckstandardarray cfg t valuesNum.toNat m' commRank

/-! ## The block -/

theorem blockSize_eq {t : TypeSlot} {valuesNum : ℤ} (hcount : FitsInt (valuesNum + overhead))
    (hsize : FitsInt ((valuesNum + overhead) * t.size)) :
    blockSize t valuesNum = (valuesNum + overhead) * t.size := by
  rw [blockSize, wrapInt_of_fitsInt hcount, wrapInt_of_fitsInt hsize]

/-- A block that was allocated has the size that was asked for. -/
theorem length_allocBlock {malloc : ℕ → Option ℤ} (hmalloc : ∀ n, 2 ^ 63 ≤ n → malloc n = none)
    {t : TypeSlot} {valuesNum : ℤ} (hcount : FitsInt (valuesNum + overhead))
    (hsize : FitsInt ((valuesNum + overhead) * t.size)) {a : ℤ} {n : ℕ}
    (hsome : allocBlock malloc t valuesNum = some (a, n)) :
    (n : ℤ) = (valuesNum + overhead) * t.size := by
  obtain ⟨b, hb, heq⟩ := Option.map_eq_some_iff.mp hsome
  rw [blockSize_eq hcount hsize] at hb heq
  have hnonneg : 0 ≤ (valuesNum + overhead) * t.size := by
    by_contra hneg
    rw [hmalloc _ (le_sizeT_of_neg hsize (not_le.mp hneg))] at hb
    cases hb
  rw [← (Prod.mk.inj heq).2, sizeT_of_nonneg hsize hnonneg]

/-- The size of a block, in elements and spare ones. -/
theorem mul_size_eq (t : TypeSlot) (valuesNum : ℤ) :
    (valuesNum + overhead) * t.size = valuesNum * t.size + 8 * t.size := by
  rw [overhead]
  push_cast
  ring

/-- An element lies in front of the end of the elements. -/
theorem element_bounds {t : TypeSlot} (hpos : 0 < t.size) {valuesNum : ℤ} {i : ℕ}
    (hi : i < valuesNum) : 0 ≤ i * t.size ∧ i * t.size + t.size ≤ valuesNum * t.size := by
  have hle : ((i : ℤ) + 1) * t.size ≤ valuesNum * t.size := mul_le_mul_of_nonneg_right hi hpos.le
  rw [add_mul, one_mul] at hle
  exact ⟨mul_nonneg (Int.natCast_nonneg i) hpos.le, hle⟩

/-! ## What is written -/

/-- Every slot with a layout that is set up can be set. -/
theorem exists_settable_of_size (cfg : Config) {t : TypeSlot} (ht : t ∈ initTypes cfg)
    (hsize : 0 < t.size) : ∃ fields, Settable cfg t fields ∧ FieldsFit t fields := by
  obtain ⟨fields, hfields, hfit, hlong⟩ := Config.forall_slot
    (P := fun cfg t ↦ 0 < t.size → ∃ fields ∈ fieldStores cfg t.typeClass,
      FieldsFit t fields ∧ (t.typeClass = tstMpiLongDouble →
        t.lb = 0 ∧ t.ub = 16 ∧ fields = setScalar .longDouble))
    (by decide +kernel) cfg ht hsize
  exact ⟨fields, ⟨hfields, Or.inl hfit, hlong⟩, hfit⟩

/-- Setting an element writes nothing behind its origin plus the size. -/
theorem setFields_frame_above {cfg : Config} {t : TypeSlot} {fields : List FieldStore}
    (h : FieldsFit t fields) (m : Memory) {a p : ℤ} (typeSet : TypeSet) (v : ℤ)
    (hp : a + t.size ≤ p) : setFields cfg t fields m a typeSet v p = m p := by
  obtain ⟨hlb, hub, hin, -⟩ := h
  have hsize : t.size = t.ub - t.lb := rfl
  have hcover : ¬Covers (fieldPatch fields (effectiveSet cfg t.typeClass typeSet v) v) (p - a) := by
    rw [covers_fieldPatch]
    rintro ⟨f, hf, -, hhi⟩
    have := (hin f hf).2
    omega
  rw [setFields, patch_frame hcover, memset_of_notMem _ (by omega)]

namespace Settable

variable {cfg : Config} {t : TypeSlot} {fields : List FieldStore}

/-- An array of `n` elements is written between the lower bound of the first and the origin of the
element behind the last. -/
theorem written_frame (hfit : FieldsFit t fields) (commRank : ℤ) (n : ℕ) (m : Memory) {p : ℤ}
    (hp : p < t.lb ∨ n * t.size ≤ p) : written cfg t fields commRank n m p = m p := by
  have hsize : t.size = t.ub - t.lb := rfl
  obtain ⟨hlb, hub, -⟩ := id hfit
  induction n with
  | zero => rfl
  | succ n ih =>
    have hnonneg : 0 ≤ (n : ℤ) * t.size := mul_nonneg (Int.natCast_nonneg n) (by omega)
    have hexpand : ((n + 1 : ℕ) : ℤ) * t.size = n * t.size + t.size := by
      push_cast
      ring
    rw [written, List.range_succ, List.foldl_append, List.foldl_cons, List.foldl_nil, ← written,
      setElement]
    rcases hp with hlow | hhigh
    · rw [setFields_frame hfit _ _ _ (by omega), ih (Or.inl hlow)]
    · rw [setFields_frame_above hfit _ _ _ (by omega), ih (Or.inr (by omega))]

/-- The check depends on the windows of the elements only. -/
theorem check_congr (h : Settable cfg t fields) (commRank : ℤ) (n : ℕ) {m m' : Memory}
    (hwindows : ∀ i : ℕ, i < n → ∀ k, t.lb ≤ k → k < t.ub →
      m (i * t.size + k) = m' (i * t.size + k)) :
    tstTypeCheckstandardarray cfg t n m commRank
      = tstTypeCheckstandardarray cfg t n m' commRank := by
  rw [h.checkstandardarray_eq, h.checkstandardarray_eq]
  refine congrArg some (List.countP_congr fun i hi ↦ ?_)
  rw [cmpvalue_comm, cmpvalue_comm t m',
    h.cmpvalue_congr _ 0 (hwindows i (List.mem_range.mp hi))]

/-- **Enough.** If the size of the block is an `int`, the buffer does its work. -/
theorem bufferFits {malloc : ℕ → Option ℤ} (hmalloc : ∀ n, 2 ^ 63 ≤ n → malloc n = none)
    (h : Settable cfg t fields) (hfit : FieldsFit t fields) (hpos : 0 < t.size) {valuesNum : ℤ}
    (hcount : FitsInt (valuesNum + overhead)) (hsize : FitsInt ((valuesNum + overhead) * t.size)) :
    BufferFits malloc cfg t valuesNum := by
  have hdef : t.size = t.ub - t.lb := rfl
  obtain ⟨hlb, hub, -⟩ := id hfit
  have halloc : ∀ a n, allocBlock malloc t valuesNum = some (a, n) →
      (n : ℤ) = valuesNum * t.size + 8 * t.size := fun a n hsome ↦
    (length_allocBlock hmalloc hcount hsize hsome).trans (mul_size_eq t valuesNum)
  have hfits := hsize.2
  rw [mul_size_eq] at hfits
  refine ⟨hcount, hsize, fun i hi ↦ ?_, fun a n hsome ↦ ?_, fun a n hsome commRank m m' hset p hp ↦
    ?_, fun a n hsome commRank m m' hagree ↦ ?_⟩
  · obtain ⟨hnonneg, hle⟩ := element_bounds hpos hi
    exact ⟨by omega, by omega⟩
  · rw [halloc a n hsome, tstTypeGetstandardarraySize, blockSize_eq hcount hsize, mul_size_eq]
  · rw [h.setstandardarray_eq, Option.some_inj] at hset
    rw [← hset]
    rcases lt_or_ge 0 valuesNum with hvalues | hnone
    · refine written_frame hfit commRank _ m ?_
      have hcast : (valuesNum.toNat : ℤ) = valuesNum := Int.toNat_of_nonneg hvalues.le
      rw [InBlock, not_and_or, not_le, not_lt, halloc a n hsome] at hp
      rw [hcast]
      omega
    · rw [Int.toNat_of_nonpos hnone]
      rfl
  · refine h.check_congr commRank _ fun i hi k hlo hhi ↦ hagree _ ?_
    obtain ⟨hnonneg, hle⟩ := element_bounds hpos (show (i : ℤ) < valuesNum by omega)
    rw [InBlock, halloc a n hsome]
    omega

end Settable

/-- What an array needs is enough for its buffer: nothing is written outside of the block, and no
offset leaves `int`. -/
theorem ArrayFits.bufferFits {malloc : ℕ → Option ℤ} (hmalloc : ∀ n, 2 ^ 63 ≤ n → malloc n = none)
    {cfg : Config} {t : TypeSlot} (ht : t ∈ initTypes cfg) {valuesNum : ℤ}
    (h : ArrayFits t valuesNum) : BufferFits malloc cfg t valuesNum := by
  obtain ⟨fields, hset, hfit⟩ := exists_settable_of_size cfg ht h.size
  have hblock := h.hasBlock
  have hcount : 0 < valuesNum + overhead := pos_of_mul_pos_left hblock.1 h.size.le
  have hle : valuesNum + overhead ≤ (valuesNum + overhead) * t.size :=
    le_mul_of_one_le_right hcount.le h.size
  have hbytes := h.bytes
  exact hset.bufferFits hmalloc hfit h.size ⟨by omega, by omega⟩ ⟨by omega, by omega⟩

/-- **Buffers.** For every slot whose layout is set up and every number that the command line may
give: the buffer does its work exactly if the number of values, with the spare ones, is at most what
an `int` divided by the size of the datatype can be, in either direction. All that is assumed of
`malloc` is that it has no block of 2^63 bytes. -/
theorem bufferFits_iff (malloc : ℕ → Option ℤ) (hmalloc : ∀ n, 2 ^ 63 ≤ n → malloc n = none)
    (cfg : Config) (t : TypeSlot) (ht : t ∈ initTypes cfg) (hsize : 0 < t.size) (str : CString) :
    BufferFits malloc cfg t (atoi str) ↔
      -(2 ^ 31 / t.size) ≤ atoi str + overhead ∧
        atoi str + overhead ≤ (2 ^ 31 - 1) / t.size := by
  obtain ⟨fields, h, hfit⟩ := exists_settable_of_size cfg ht hsize
  have hatoi : FitsInt (atoi str) := fitsInt_wrapInt (strtol str)
  have hproduct : FitsInt ((atoi str + overhead) * t.size) ↔
      -(2 ^ 31 / t.size) ≤ atoi str + overhead ∧
        atoi str + overhead ≤ (2 ^ 31 - 1) / t.size := by
    rw [Int.le_ediv_iff_mul_le hsize, neg_le, Int.le_ediv_iff_mul_le hsize, neg_mul, FitsInt]
    omega
  constructor
  · intro hbuffer
    exact hproduct.mp hbuffer.size
  · intro hbound
    have hlow := hatoi.1
    have hquotient : (2 ^ 31 - 1) / t.size ≤ 2 ^ 31 - 1 := Int.ediv_le_self _ (by norm_num)
    refine h.bufferFits hmalloc hfit hsize ⟨?_, ?_⟩ (hproduct.mpr hbound)
    · rw [overhead]
      omega
    · have hhigh := hbound.2.trans hquotient
      omega

/-- A thousand values of `MPI_TYPE_MIX_LB_UB`, whose lower bound is negative, with memory for all
that may be asked for. -/
theorem bufferFits_iff_mixLbUb :
    BufferFits (fun n ↦ if n < 2 ^ 63 then some 4096 else none)
        ⟨2, true, true, true, true, true, true, true, true⟩ (slotMpi2 28) (atoi (lit "1000")) ↔
      -(2 ^ 31 / (slotMpi2 28).size) ≤ atoi (lit "1000") + overhead ∧
        atoi (lit "1000") + overhead ≤ (2 ^ 31 - 1) / (slotMpi2 28).size :=
  bufferFits_iff (fun n ↦ if n < 2 ^ 63 then some 4096 else none)
    (fun _ hn ↦ if_neg (not_lt.mpr hn)) ⟨2, true, true, true, true, true, true, true, true⟩
    (slotMpi2 28) (by decide +kernel) (by decide +kernel) (lit "1000")

/-- 2^29 values of `MPI_DOUBLE` get a block of 64 bytes. -/
theorem bufferFits_fails :
    (¬∀ (malloc : ℕ → Option ℤ), (∀ n, 2 ^ 63 ≤ n → malloc n = none) →
      ∀ (cfg : Config) (t : TypeSlot), t ∈ initTypes cfg → 0 < t.size → ∀ str,
        BufferFits malloc cfg t (atoi str)) ∧
      sizeT (blockSize (slotMpi2 11) (atoi (lit "536870912"))) = 64 := by
  refine ⟨fun h ↦ ?_, by decide +kernel⟩
  have hbuffer := h (fun n ↦ if n < 2 ^ 63 then some 4096 else none)
    (fun _ hn ↦ if_neg (not_lt.mpr hn)) ⟨2, true, true, true, true, true, true, true, true⟩
    (slotMpi2 11) (by decide +kernel) (by decide +kernel) (lit "536870912")
  exact absurd hbuffer.size (by decide +kernel)

end MpiTestSuite

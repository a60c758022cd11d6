import MpiTestSuite.Coding.FileView
import MpiTestSuite.Tables.Tests
import MpiTestSuite.Types.Agreement

/-!
# The two layouts of the test files

The tests of file access share two functions, `tst_file_alloc` and `tst_file_check`, in which the
root writes or reads the standard arrays of all ranks, one after another, through the view that a
file is opened with. There a byte follows another. The tests themselves set a view of the datatype
under test, in which elements lie at the distance of the extent, and each rank goes to the place of
its own elements.

For a datatype with padding these are different places: what is written in one way is found in the
other only as long as no gap has been passed. And there must be memory for the arrays, which all
functions ask for by the same size.
-/

namespace MpiTestSuite

/-- `MPI_BYTE`, which the view of a file that has just been opened is made of. -/
def byteView : Typemap := .basic .char

/-- `comm_rank*env->values_num`, as an offset in a file. There is no telling what an `int` is that
overflows, and a negative offset is an error. -/
def elementOffset (commRank : ℕ) (valuesNum : ℤ) : Option ℕ :=
  if 0 ≤ commRank * valuesNum ∧ commRank * valuesNum < 2 ^ 31 then
    some (commRank * valuesNum).toNat
  else none

section

variable (cfg : Config) (t : TypeSlot)

/-! ## The root -/

/-- The write buffer, the file and its pointer in `tst_file_alloc`. -/
structure AllocState where
  writeBuffer : Memory
  file : File
  pointer : ℕ

/-- `tst_type_setstandardarray` and `MPI_File_write`. -/
def AllocState.step (count : ℕ) (state : AllocState) (i : ℕ) : Option AllocState := do
  let writeBuffer ← tstTypeSetstandardarray cfg t count state.writeBuffer i
  return {
    writeBuffer := writeBuffer
    file := state.file.write
      (fileWrites byteView state.pointer t.datatype.typemap count writeBuffer)
    pointer := state.pointer + count * t.datatype.typemap.size }

/-- `tst_file_alloc`, on the root. -/
def tstFileAlloc (valuesNum : ℤ) (commSize : ℕ) (file : File) : Option File := do
  let writeBuffer ← tstTypeAllocvalues t valuesNum
  let count ← elementCount valuesNum
  let state ← (List.range commSize).foldlM (AllocState.step cfg t count) ⟨writeBuffer, file, 0⟩
  return state.file

/-- The buffer, the pointer of the file, and what was compared so far in `tst_file_check`. -/
structure CheckState where
  cmpBuffer : Memory
  pointer : ℕ
  compared : List Memory

/-- `MPI_File_read`. What `tst_type_checkstandardarray` says of the buffer is not used. -/
def CheckState.step (count : ℕ) (file : File) (state : CheckState) : CheckState :=
  let cmpBuffer := file.read byteView state.pointer t.datatype.typemap count state.cmpBuffer
  { cmpBuffer := cmpBuffer
    pointer := state.pointer + count * t.datatype.typemap.size
    compared := state.compared ++ [cmpBuffer] }

/-- The loop of `tst_file_check`: the buffers that are compared with the standard arrays of the
ranks. -/
def comparedBuffers (count commSize : ℕ) (file : File) (cmpBuffer : Memory) : List Memory :=
  ((List.range commSize).foldl (fun state _ ↦ CheckState.step t count file state)
    ⟨cmpBuffer, 0, []⟩).compared

/-- `tst_file_check`, on the root. -/
def tstFileCheck (valuesNum : ℤ) (commSize : ℕ) (file : File) : Option (List Memory) := do
  let cmpBuffer ← tstTypeAllocvalues t valuesNum
  let count ← elementCount valuesNum
  return comparedBuffers t count commSize file cmpBuffer

/-! ## All ranks -/

/-- `tst_file_read_at_init` and `tst_file_read_at_run`: the buffer that is checked. -/
def tstFileReadAtRun (valuesNum : ℤ) (commRank : ℕ) (file : File) : Option Memory := do
  let readBuffer ← tstTypeAllocvalues t valuesNum
  let count ← elementCount valuesNum
  let offset ← elementOffset commRank valuesNum
  return file.read t.datatype.typemap (offset * t.datatype.typemap.size) t.datatype.typemap count
    readBuffer

/-- `tst_file_write_at_init` and `tst_file_write_at_run`: the bytes that are written. -/
def tstFileWriteAtRun (valuesNum : ℤ) (commRank : ℕ) : Option (List (ℤ × UInt8)) := do
  let writeBuffer ← tstTypeAllocvalues t valuesNum
  let writeBuffer ← tstTypeSetstandardarray cfg t valuesNum.toNat writeBuffer commRank
  let count ← elementCount valuesNum
  let offset ← elementOffset commRank valuesNum
  return fileWrites t.datatype.typemap (offset * t.datatype.typemap.size) t.datatype.typemap count
    writeBuffer

/-! ## Agreement -/

/-- What the root writes is what every rank reads. -/
def ReadsBack (valuesNum : ℤ) (gap : Memory) (commSize : ℕ) : Prop :=
  ∃ file, tstFileAlloc cfg t valuesNum commSize (.new gap) = some file ∧
    ∀ r < commSize, ∃ buf, tstFileReadAtRun t valuesNum r file = some buf ∧
      IsStandardArray cfg t valuesNum.toNat r buf

/-- What the ranks write, in whatever order the bytes arrive, is what the root compares. -/
def ChecksBack (valuesNum : ℤ) (gap : Memory) (commSize : ℕ) : Prop :=
  ∃ ws : ℕ → List (ℤ × UInt8),
    (∀ r < commSize, tstFileWriteAtRun cfg t valuesNum r = some (ws r)) ∧
    ∀ order, order.Perm ((List.range commSize).flatMap ws) → ∃ compared,
      tstFileCheck t valuesNum commSize ((File.new gap).write order) = some compared ∧
        ∀ r < commSize, ∃ buf, compared[r]? = some buf ∧
          IsStandardArray cfg t valuesNum.toNat r buf

end

/-! ## Buffers and counts -/

theorem elementOffset_eq_some_iff {r n o : ℕ} :
    elementOffset r n = some o ↔ r * n < 2 ^ 31 ∧ r * n = o := by
  have hproduct : (r : ℤ) * n = (r * n : ℕ) := (Nat.cast_mul r n).symm
  rw [elementOffset, hproduct]
  split_ifs with hfits
  · rw [Option.some_inj]
    omega
  · exact iff_of_false nofun (by omega)

theorem bind_elementOffset_eq_some_iff {α : Type*} {r n : ℕ} {rest : ℕ → α} {a : α} :
    ((elementOffset r n).bind fun offset ↦ some (rest offset)) = some a ↔
      r * n < 2 ^ 31 ∧ rest (r * n) = a := by
  simp only [Option.bind_eq_some_iff, elementOffset_eq_some_iff, Option.some_inj]
  constructor
  · rintro ⟨_, ⟨hfits, rfl⟩, hrest⟩
    exact ⟨hfits, hrest⟩
  · rintro ⟨hfits, hrest⟩
    exact ⟨_, ⟨hfits, rfl⟩, hrest⟩

/-- A function that allocates its buffer and goes on to an MPI call gets there exactly if the array
fits. -/
theorem bind_allocvalues_eq_some_iff {α : Type*} {t : TypeSlot} {valuesNum : ℤ}
    {rest : Memory → ℕ → Option α} {a : α} :
    ((tstTypeAllocvalues t valuesNum).bind fun m ↦ (elementCount valuesNum).bind (rest m)) = some a
      ↔ ∃ n : ℕ, valuesNum = n ∧ ArrayFits t n ∧ rest (freshValues t n) n = some a := by
  simp only [Option.bind_eq_some_iff, elementCount_eq_some_iff]
  constructor
  · rintro ⟨m, hm, n, rfl, hrest⟩
    have hfits : ArrayFits t n :=
      arrayFits_iff.mpr ⟨Int.natCast_nonneg n, hasBlock_of_allocvalues hm⟩
    rw [hfits.allocvalues_eq, Option.some_inj, Int.toNat_natCast] at hm
    exact ⟨n, rfl, hfits, hm ▸ hrest⟩
  · rintro ⟨n, rfl, hfits, hrest⟩
    exact ⟨_, hfits.allocvalues_eq, n, rfl, by rwa [Int.toNat_natCast]⟩

/-! ## The datatypes -/

/-- In element `e` of a file, the two layouts have different data at the same place. -/
def Clash (T : Typemap) (element : Memory) (e : ℕ) : Prop :=
  ∃ k < T.size, ∃ j : ℕ, j < T.size ∧ e * T.extent + T.position k = e * T.size + j ∧
    element (T.position j) ≠ element (T.position k)

/-- What is needed of a datatype of the tests. -/
structure Transferable (cfg : Config) (t : TypeSlot) (fields : List FieldStore) : Prop where
  settable : Settable cfg t fields
  lb_eq : t.lb = 0
  ub_eq : t.ub = t.datatype.typemap.extent
  ordered : t.datatype.typemap.Ordered
  size_pos : 0 < t.datatype.typemap.size
  inside : ∀ f ∈ fields, ∀ i < f.scalar.stored, f.offset + (i : ℤ) ∈ t.datatype.typemap.bytes

instance (T : Typemap) (element : Memory) (e : ℕ) : Decidable (Clash T element e) :=
  decidable_of_iff (∃ k < T.size,
      0 ≤ e * T.extent + T.position k - e * T.size ∧
      (e * T.extent + T.position k - e * T.size).toNat < T.size ∧
      element (T.position (e * T.extent + T.position k - e * T.size).toNat)
        ≠ element (T.position k)) <| by
    constructor
    · rintro ⟨k, hk, hnonneg, hlt, hne⟩
      exact ⟨k, hk, _, hlt, by omega, hne⟩
    · rintro ⟨k, hk, j, hj, heq, hne⟩
      have hto : (e * T.extent + T.position k - e * T.size).toNat = j := by omega
      exact ⟨k, hk, by omega, by omega, by rw [hto]; exact hne⟩

/-- The datatypes that the tests of file access run with. -/
def ioTypes (cfg : Config) : TypeFlags := tstMpiAllCTypes cfg &&& ~~~tstMpiTypeMixLbUb

theorem runWithType_ioTests (cfg : Config) :
    ∀ row ∈ ioTests cfg, row.runWithType = ioTypes cfg := by
  have hmap : (ioTests cfg).map Test.runWithType
      = List.replicate (ioTests cfg).length (ioTypes cfg) := rfl
  intro row hrow
  have hmem : row.runWithType ∈ (ioTests cfg).map Test.runWithType := List.mem_map_of_mem hrow
  rw [hmap] at hmem
  exact List.eq_of_mem_replicate hmem

/-- Either a datatype has no padding, or its padding is behind the data and the layouts clash in the
second element of a file, be it a smallest or a largest value, or they clash in the first one. -/
def PaddingClashes (cfg : Config) (t : TypeSlot) (fields : List FieldStore) : Prop :=
  t.datatype.typemap.Gapless ∧
      (t.datatype.typemap.extent = t.datatype.typemap.size ∨
        ∀ i ≤ 1, Clash t.datatype.typemap (expected cfg t fields 0 i) 1) ∨
    Clash t.datatype.typemap (expected cfg t fields 0 0) 0

instance (cfg : Config) (t : TypeSlot) (fields : List FieldStore) :
    Decidable (PaddingClashes cfg t fields) := by
  unfold PaddingClashes
  infer_instance

/-- What can be read off a row about the transfer of its datatype. -/
def TypeSlot.Transfers (cfg : Config) (t : TypeSlot) : Prop :=
  ∃ fields ∈ fieldStores cfg t.typeClass,
    ((t.lb = 0 ∧ t.ub = t.datatype.typemap.extent) ∧ t.datatype.typemap.Ordered ∧
      0 < t.datatype.typemap.size ∧
      ∀ f ∈ fields, (f.offset, f.scalar) ∈ t.datatype.typemap.scalars) ∧
    PaddingClashes cfg t fields

instance (cfg : Config) (t : TypeSlot) : Decidable (t.Transfers cfg) := by
  unfold TypeSlot.Transfers
  infer_instance

/-- The datatypes of the tests can be transferred, and what padding they have makes the layouts
clash. -/
theorem exists_transferable (cfg : Config) {t : TypeSlot} (ht : t ∈ initTypes cfg)
    (hnull : t.datatype ≠ .null) (hclass : t.typeClass &&& ioTypes cfg ≠ 0) :
    ∃ fields, Transferable cfg t fields ∧ PaddingClashes cfg t fields := by
  obtain ⟨fields, hfields, ⟨⟨hlb, hub⟩, hordered, hsize, hscalars⟩, hplaces⟩ := Config.forall_slot
    (P := fun cfg t ↦ t.datatype ≠ .null → t.typeClass &&& ioTypes cfg ≠ 0 → t.Transfers cfg)
    (by decide +kernel) cfg ht hnull hclass
  obtain ⟨fields', h⟩ := exists_settable cfg ht hnull
  obtain rfl : fields = fields' := Option.some_inj.mp (hfields.symm.trans h.fields_eq)
  refine ⟨fields, ⟨h, hlb, hub, hordered, hsize, fun f hf i hi ↦ ?_⟩, hplaces⟩
  exact Typemap.mem_bytes (hscalars f hf) (hi.trans_le f.scalar.stored_le)

/-! ## Standard arrays, byte by byte -/

/-- Byte `g` of the data of all ranks, one rank after another. -/
def datum (cfg : Config) (t : TypeSlot) (fields : List FieldStore) (n g : ℕ) : UInt8 :=
  expected cfg t fields (g / t.datatype.typemap.size / n : ℕ) (g / t.datatype.typemap.size % n)
    (t.datatype.typemap.position (g % t.datatype.typemap.size))

/-- The byte of an element of a rank. -/
theorem datum_eq (cfg : Config) (t : TypeSlot) (fields : List FieldStore) {n r e k : ℕ}
    (he : e < n) (hk : k < t.datatype.typemap.size) :
    datum cfg t fields n ((r * n + e) * t.datatype.typemap.size + k)
      = expected cfg t fields r e (t.datatype.typemap.position k) := by
  have hsize : 0 < t.datatype.typemap.size := by omega
  have hn : 0 < n := by omega
  rw [datum, Nat.mul_add_mod', Nat.mod_eq_of_lt hk, mul_comm (r * n + e), Nat.mul_add_div hsize,
    Nat.div_eq_of_lt hk, add_zero, mul_comm r, Nat.mul_add_div hn, Nat.div_eq_of_lt he, add_zero,
    Nat.mul_add_mod, Nat.mod_eq_of_lt he]

theorem exists_element {n s k : ℕ} (hk : k < n * s) : ∃ e < n, ∃ j < s, k = e * s + j := by
  have hs : 0 < s := Nat.pos_of_mul_pos_left (Nat.zero_lt_of_lt hk)
  exact ⟨k / s, Nat.div_lt_of_lt_mul (by rwa [mul_comm]), k % s, Nat.mod_lt k hs,
    (Nat.div_add_mod' k s).symm⟩

/-! ## The buffer of the root -/

/-- The places of a buffer that no data is read to are as they were allocated. -/
def Untouched (t : TypeSlot) (n : ℕ) (buf : Memory) : Prop :=
  ∀ p, (∀ k < n * t.datatype.typemap.size, t.datatype.typemap.position k ≠ p) →
    buf p = freshValues t n p

/-- `tst_file_check` after `p` turns. -/
structure CheckState.Done (t : TypeSlot) (n : ℕ) (file : File) (p : ℕ) (state : CheckState) :
    Prop where
  pointer_eq : state.pointer = p * (n * t.datatype.typemap.size)
  length_eq : state.compared.length = p
  untouched : Untouched t n state.cmpBuffer
  compared : ∀ r < p, ∃ buf, state.compared[r]? = some (file.read byteView
      (r * (n * t.datatype.typemap.size)) t.datatype.typemap n buf) ∧ Untouched t n buf

theorem CheckState.Done.step {t : TypeSlot} {n p : ℕ} {file : File} {state : CheckState}
    (h : state.Done t n file p) : (state.step t n file).Done t n file (p + 1) where
  pointer_eq := by rw [CheckState.step, h.pointer_eq, Nat.succ_mul]
  length_eq := by rw [CheckState.step, List.length_append, h.length_eq, List.length_singleton]
  untouched q hq := (File.read_frame hq).trans (h.untouched q hq)
  compared r hr := by
    rw [CheckState.step]
    rcases Nat.lt_succ_iff_lt_or_eq.mp hr with hlt | rfl
    · obtain ⟨buf, hbuf, huntouched⟩ := h.compared r hlt
      exact ⟨buf, by rw [List.getElem?_append_left (h.length_eq.symm ▸ hlt), hbuf], huntouched⟩
    · refine ⟨state.cmpBuffer, ?_, h.untouched⟩
      rw [List.getElem?_append_right h.length_eq.le, h.length_eq, Nat.sub_self,
        List.getElem?_cons_zero, h.pointer_eq]

/-- The root reads the data of all ranks without gaps, into a buffer of which the rest is still as
it was allocated. -/
theorem comparedBuffers_getElem? (t : TypeSlot) (n p : ℕ) (file : File) {r : ℕ} (hr : r < p) :
    ∃ buf, (comparedBuffers t n p file (freshValues t n))[r]? = some (file.read byteView
        (r * (n * t.datatype.typemap.size)) t.datatype.typemap n buf) ∧ Untouched t n buf := by
  have hdone : ∀ p, ((List.range p).foldl (fun state _ ↦ CheckState.step t n file state)
      ⟨freshValues t n, 0, []⟩).Done t n file p := by
    intro p
    induction p with
    | zero =>
      exact ⟨(zero_mul _).symm, rfl, fun _ _ ↦ rfl, fun _ hr ↦ absurd hr (Nat.not_lt_zero _)⟩
    | succ p ih =>
      rw [List.range_succ, List.foldl_append, List.foldl_cons, List.foldl_nil]
      exact ih.step
  exact (hdone p).compared r hr

theorem fileCheck_eq_some_iff {t : TypeSlot} {valuesNum : ℤ} {p : ℕ} {file : File}
    {compared : List Memory} : tstFileCheck t valuesNum p file = some compared ↔
      ∃ n : ℕ, valuesNum = n ∧ ArrayFits t n ∧
        comparedBuffers t n p file (freshValues t n) = compared := by
  simp only [tstFileCheck, Option.bind_eq_bind, Option.pure_def, bind_allocvalues_eq_some_iff,
    Option.some_inj]

/-! ## Elements and their data -/

namespace Transferable

variable {cfg : Config} {t : TypeSlot} {fields : List FieldStore}

theorem size_eq (h : Transferable cfg t fields) : t.size = t.datatype.typemap.extent := by
  rw [TypeSlot.size, h.lb_eq, h.ub_eq, sub_zero]

theorem position_nonneg (h : Transferable cfg t fields) {k : ℕ}
    (hk : k < t.datatype.typemap.size) : 0 ≤ t.datatype.typemap.position k :=
  h.ordered.nonneg _ (Typemap.position_mem hk)

theorem position_lt (h : Transferable cfg t fields) {k : ℕ}
    (hk : k < t.datatype.typemap.size) :
    t.datatype.typemap.position k < t.datatype.typemap.extent :=
  h.ordered.lt_extent _ (Typemap.position_mem hk)

/-- Where there is no data, an element has the byte it was filled with. -/
theorem expected_padding (h : Transferable cfg t fields) (commRank : ℤ) (e : ℕ) {k : ℤ}
    (hk : 0 ≤ k) (hlt : k < t.datatype.typemap.extent) (hmem : k ∉ t.datatype.typemap.bytes) :
    expected cfg t fields commRank e k = defaultInitByte := by
  rw [expected_eq_elementOf]
  refine elementOf_of_notMem (fun f hf hstored ↦ hmem ?_) _ hk (h.size_eq ▸ hlt)
  have hin := h.inside f hf (k - f.offset).toNat (by omega)
  rwa [Int.toNat_of_nonneg (by omega), add_sub_cancel] at hin

/-- What a standard array is, element by element. -/
theorem isStandardArray_iff (h : Transferable cfg t fields) (n r : ℕ) (buf : Memory) :
    IsStandardArray cfg t n r buf ↔ ∀ e < n, ∀ k : ℤ, 0 ≤ k → k < t.datatype.typemap.extent →
      buf (e * t.datatype.typemap.extent + k) = expected cfg t fields r e k := by
  rw [h.settable.isStandardArray_iff, h.lb_eq, h.ub_eq, h.size_eq]

/-- A buffer that has been filled, and then received the data of a standard array, holds it. -/
theorem isStandardArray_of_data (h : Transferable cfg t fields) {n r : ℕ} {buf : Memory}
    (hdata : ∀ e < n, ∀ k < t.datatype.typemap.size,
      buf (t.datatype.typemap.position (e * t.datatype.typemap.size + k))
        = expected cfg t fields r e (t.datatype.typemap.position k))
    (huntouched : Untouched t n buf) : IsStandardArray cfg t n r buf := by
  refine (h.isStandardArray_iff n r buf).mpr fun e he k hk hlt ↦ ?_
  by_cases hmem : k ∈ t.datatype.typemap.bytes
  · obtain ⟨j, hj, rfl⟩ := Typemap.exists_position hmem
    rw [← hdata e he j hj, Typemap.position_add h.size_pos]
  · have hfree : ∀ j < n * t.datatype.typemap.size,
        t.datatype.typemap.position j ≠ e * t.datatype.typemap.extent + k :=
      fun j _ heq ↦ hmem (h.ordered.mem_of_position_eq h.size_pos hk hlt heq)
    have hend : ((e + 1 : ℕ) : ℤ) * t.size ≤ ((n + overhead : ℕ) : ℤ) * t.size := by
      refine mul_le_mul_of_nonneg_right (by rw [overhead]; omega) ?_
      rw [h.size_eq]
      omega
    rw [huntouched _ hfree, h.expected_padding r e hk hlt hmem, freshValues, h.lb_eq]
    have hnonneg : 0 ≤ (e : ℤ) * t.datatype.typemap.extent := mul_nonneg (by omega) (by omega)
    rw [h.size_eq, Nat.cast_succ, add_mul, one_mul] at hend
    rw [Nat.cast_add] at hend
    refine memset_of_mem _ ⟨hnonneg.trans (by omega), ?_⟩
    rw [h.size_eq]
    omega

/-- The data of a standard array, in the order of a transfer. -/
theorem written_position (h : Transferable cfg t fields) {n r k : ℕ} (m : Memory)
    (hk : k < n * t.datatype.typemap.size) :
    written cfg t fields r n m (t.datatype.typemap.position k)
      = datum cfg t fields n (r * (n * t.datatype.typemap.size) + k) := by
  obtain ⟨e, he, j, hj, rfl⟩ := exists_element hk
  have hindex : r * (n * t.datatype.typemap.size) + (e * t.datatype.typemap.size + j)
      = (r * n + e) * t.datatype.typemap.size + j := by ring
  have hlb := h.lb_eq
  have hub := h.ub_eq
  have hlt := h.position_lt hj
  rw [hindex, datum_eq cfg t fields he hj, Typemap.position_add h.size_pos, ← h.size_eq]
  exact h.settable.written_apply r m n he (hlb ▸ h.position_nonneg hj) (hub ▸ hlt)

/-- What a rank writes of its standard array. -/
theorem fileWrites_written (h : Transferable cfg t fields) (view : Typemap) (n r : ℕ) (m : Memory) :
    fileWrites view (r * (n * t.datatype.typemap.size)) t.datatype.typemap n
        (written cfg t fields r n m)
      = (List.range (n * t.datatype.typemap.size)).map fun k ↦
        (view.position (r * (n * t.datatype.typemap.size) + k),
          datum cfg t fields n (r * (n * t.datatype.typemap.size) + k)) :=
  List.map_congr_left fun k hk ↦ by rw [h.written_position m (List.mem_range.mp hk)]

/-! ## Files -/

theorem byteView_position (k : ℕ) : byteView.position k = k :=
  Typemap.Gapless.position_eq (by decide) (by decide) (by decide) k

/-- The root writes the data of all ranks without gaps. -/
theorem fileAlloc_eq_some_iff (h : Transferable cfg t fields) {valuesNum : ℤ} {p : ℕ}
    {file contents : File} : tstFileAlloc cfg t valuesNum p file = some contents ↔
      ∃ n : ℕ, valuesNum = n ∧ ArrayFits t n ∧
        file.write ((List.range (p * (n * t.datatype.typemap.size))).map fun g : ℕ ↦
          ((g : ℤ), datum cfg t fields n g)) = contents := by
  have hloop : ∀ n : ℕ, ∃ buf, (List.range p).foldlM (AllocState.step cfg t n)
      ⟨freshValues t n, file, 0⟩
      = some ⟨buf, file.write ((List.range (p * (n * t.datatype.typemap.size))).map fun g : ℕ ↦
          ((g : ℤ), datum cfg t fields n g)), p * (n * t.datatype.typemap.size)⟩ := by
    intro n
    induction p with
    | zero => exact ⟨_, by rw [zero_mul]; rfl⟩
    | succ p ih =>
      obtain ⟨buf, hrun⟩ := ih
      refine ⟨written cfg t fields p n buf, ?_⟩
      rw [List.range_succ, List.foldlM_append, hrun, Nat.succ_mul, List.range_add, List.map_append,
        List.map_map, File.write_append]
      simp only [Option.bind_eq_bind, Option.bind_some, List.foldlM_cons, List.foldlM_nil,
        AllocState.step, h.settable.setstandardarray_eq, h.fileWrites_written, byteView_position,
        Option.pure_def, Function.comp_def]
  simp only [tstFileAlloc, Option.bind_eq_bind, Option.pure_def, bind_allocvalues_eq_some_iff]
  refine exists_congr fun n ↦ and_congr_right fun _ ↦ and_congr_right fun _ ↦ ?_
  obtain ⟨buf, hrun⟩ := hloop n
  rw [hrun, Option.bind_some, Option.some_inj]

/-- Data that has been written to different places is read where its place is. -/
theorem read_layout (h : Transferable cfg t fields) {place : ℕ → ℤ}
    (hplace : Function.Injective place) (file : File) {total : ℕ} {ws : List (ℤ × UInt8)} {n : ℕ}
    (hws : ws.Perm ((List.range total).map fun g ↦ (place g, datum cfg t fields n g)))
    {view : Typemap} {start k g : ℕ} (hk : k < n * t.datatype.typemap.size) (hg : g < total)
    (hview : view.position (start + k) = place g) (buf : Memory) :
    (file.write ws).read view start t.datatype.typemap n buf (t.datatype.typemap.position k)
      = datum cfg t fields n g := by
  have hnodup : (ws.map Prod.fst).Nodup := by
    refine (hws.map Prod.fst).nodup_iff.mpr ?_
    rw [List.map_map]
    exact List.nodup_range.map hplace
  have hmem : (place g, datum cfg t fields n g) ∈ ws :=
    hws.mem_iff.mpr (List.mem_map_of_mem (List.mem_range.mpr hg))
  obtain ⟨hbyte, hlength⟩ := File.write_apply hnodup hmem file
  rw [File.read_apply (h.ordered.position_injective h.size_pos) hk (hview ▸ hlength), hview]
  exact hbyte

/-! ## Where the layouts agree, and where they do not -/

/-- The number of a byte among the data of all ranks. -/
theorem index_eq (n s r e k : ℕ) : r * (n * s) + (e * s + k) = (r * n + e) * s + k := by ring

theorem index_lt {p n s r e k : ℕ} (hr : r < p) (he : e < n) (hk : k < s) :
    (r * n + e) * s + k < p * (n * s) := by
  have hbyte : e * s + k < n * s := by
    calc e * s + k < (e + 1) * s := by rw [Nat.succ_mul]; omega
      _ ≤ n * s := Nat.mul_le_mul_right s he
  calc (r * n + e) * s + k = r * (n * s) + (e * s + k) := (index_eq n s r e k).symm
    _ < (r + 1) * (n * s) := by rw [Nat.succ_mul]; omega
    _ ≤ p * (n * s) := Nat.mul_le_mul_right _ hr

theorem fileReadAt_eq_some_iff {valuesNum : ℤ} {r : ℕ} {file : File} {buf : Memory} :
    tstFileReadAtRun t valuesNum r file = some buf ↔
      ∃ n : ℕ, valuesNum = n ∧ ArrayFits t n ∧ r * n < 2 ^ 31 ∧
        file.read t.datatype.typemap (r * (n * t.datatype.typemap.size)) t.datatype.typemap n
          (freshValues t n) = buf := by
  simp only [tstFileReadAtRun, Option.bind_eq_bind, Option.pure_def, bind_allocvalues_eq_some_iff]
  refine exists_congr fun n ↦ and_congr_right fun hn ↦ ?_
  rw [hn, bind_elementOffset_eq_some_iff, mul_assoc]

theorem fileWriteAt_eq_some_iff (h : Transferable cfg t fields) {valuesNum : ℤ} {r : ℕ}
    {ws : List (ℤ × UInt8)} :
    tstFileWriteAtRun cfg t valuesNum r = some ws ↔
      ∃ n : ℕ, valuesNum = n ∧ ArrayFits t n ∧ r * n < 2 ^ 31 ∧
        (List.range (n * t.datatype.typemap.size)).map (fun k ↦
          (t.datatype.typemap.position (r * (n * t.datatype.typemap.size) + k),
            datum cfg t fields n (r * (n * t.datatype.typemap.size) + k))) = ws := by
  simp only [tstFileWriteAtRun, h.settable.setstandardarray_eq, Option.bind_eq_bind,
    Option.bind_some, Option.pure_def, bind_allocvalues_eq_some_iff]
  refine exists_congr fun n ↦ and_congr_right fun hn ↦ ?_
  rw [hn, bind_elementOffset_eq_some_iff, Int.toNat_natCast, mul_assoc, h.fileWrites_written]

/-- The writes of all ranks. -/
theorem flatMap_blocks {α : Type*} (p c : ℕ) (f : ℕ → α) :
    ((List.range p).flatMap fun r ↦ (List.range c).map fun k ↦ f (r * c + k))
      = (List.range (p * c)).map f := by
  rw [← range_blocks, List.map_flatMap]
  simp only [List.map_map, Function.comp_def]

variable {gap : Memory} {n p : ℕ}

theorem readsBack_of_position (h : Transferable cfg t fields) (harray : ArrayFits t n)
    (hfits : ∀ r < p, r * n < 2 ^ 31)
    (hplace : ∀ g < p * (n * t.datatype.typemap.size), t.datatype.typemap.position g = g) :
    ReadsBack cfg t n gap p := by
  refine ⟨_, h.fileAlloc_eq_some_iff.mpr ⟨n, rfl, harray, rfl⟩, fun r hr ↦
    ⟨_, fileReadAt_eq_some_iff.mpr ⟨n, rfl, harray, hfits r hr, rfl⟩,
      h.isStandardArray_of_data (fun e he k hk ↦ ?_) fun q hq ↦ File.read_frame hq⟩⟩
  have he : e < n := he
  have hg := index_lt hr he hk
  have hbyte : e * t.datatype.typemap.size + k < n * t.datatype.typemap.size := by
    simpa using index_lt Nat.one_pos he hk
  rw [h.read_layout Nat.cast_injective _ (.refl _) hbyte hg (by rw [index_eq]; exact hplace _ hg),
    datum_eq cfg t fields he hk]

theorem checksBack_of_position (h : Transferable cfg t fields) (harray : ArrayFits t n)
    (hfits : ∀ r < p, r * n < 2 ^ 31)
    (hplace : ∀ g < p * (n * t.datatype.typemap.size), t.datatype.typemap.position g = g) :
    ChecksBack cfg t n gap p := by
  refine ⟨_, fun r hr ↦ h.fileWriteAt_eq_some_iff.mpr ⟨n, rfl, harray, hfits r hr, rfl⟩,
    fun order horder ↦ ⟨_, fileCheck_eq_some_iff.mpr ⟨n, rfl, harray, rfl⟩, fun r hr ↦ ?_⟩⟩
  rw [flatMap_blocks p _ fun g ↦ (t.datatype.typemap.position g, datum cfg t fields n g)] at horder
  obtain ⟨buf, hbuf, huntouched⟩ :=
    comparedBuffers_getElem? t n p ((File.new gap).write order) hr
  refine ⟨_, hbuf, h.isStandardArray_of_data (fun e he k hk ↦ ?_) fun q hq ↦
    (File.read_frame hq).trans (huntouched q hq)⟩
  have he : e < n := he
  have hg := index_lt hr he hk
  have hbyte : e * t.datatype.typemap.size + k < n * t.datatype.typemap.size := by
    simpa using index_lt Nat.one_pos he hk
  rw [h.read_layout (h.ordered.position_injective h.size_pos) _ horder hbyte hg
    (by rw [index_eq, byteView_position, hplace _ hg]), datum_eq cfg t fields he hk]

/-- The rank and the number of an element among those of all ranks. -/
theorem exists_rank {e : ℕ} (he : e < p * n) :
    ∃ r < p, ∃ i < n, e = r * n + i ∧ e / n = r ∧ e % n = i := by
  have hn : 0 < n := Nat.pos_of_mul_pos_left (Nat.zero_lt_of_lt he)
  exact ⟨e / n, Nat.div_lt_of_lt_mul (by rwa [mul_comm]), e % n, Nat.mod_lt e hn,
    (Nat.div_add_mod' e n).symm, rfl, rfl⟩

/-- Where a byte of an element of a rank clashes with another one. -/
theorem position_of_clash (h : Transferable cfg t fields) {r i k j : ℕ}
    (hplace : ((r * n + i : ℕ) : ℤ) * t.datatype.typemap.extent + t.datatype.typemap.position k
      = ((r * n + i : ℕ) : ℤ) * t.datatype.typemap.size + j) :
    t.datatype.typemap.position ((r * n + i) * t.datatype.typemap.size + k)
      = ((r * n + i) * t.datatype.typemap.size + j : ℕ) := by
  rw [Typemap.position_add h.size_pos, hplace]
  push_cast
  rfl

theorem not_readsBack_of_clash (h : Transferable cfg t fields) {e : ℕ} (he : e < p * n)
    (hclash : Clash t.datatype.typemap (expected cfg t fields (e / n : ℕ) (e % n)) e) :
    ¬ReadsBack cfg t n gap p := by
  rintro ⟨file, hfile, hranks⟩
  obtain ⟨r, hr, i, hi, rfl, hdiv, hmod⟩ := exists_rank he
  obtain ⟨k, hk, j, hj, hplace, hne⟩ := hclash
  rw [hdiv, hmod] at hne
  obtain ⟨m, hm, -, hfile⟩ := h.fileAlloc_eq_some_iff.mp hfile
  obtain rfl := Int.ofNat_inj.mp hm
  obtain ⟨buf, hbuf, hstandard⟩ := hranks r hr
  obtain ⟨m, hm, -, -, rfl⟩ := fileReadAt_eq_some_iff.mp hbuf
  obtain rfl := Int.ofNat_inj.mp hm
  have hexpected := (h.isStandardArray_iff n r _).mp hstandard i hi _ (h.position_nonneg hk)
    (h.position_lt hk)
  have hbyte : i * t.datatype.typemap.size + k < n * t.datatype.typemap.size := by
    simpa using index_lt Nat.one_pos hi hk
  have hview : t.datatype.typemap.position
      (r * (n * t.datatype.typemap.size) + (i * t.datatype.typemap.size + k))
      = ((r * n + i) * t.datatype.typemap.size + j : ℕ) := by
    rw [index_eq, h.position_of_clash hplace]
  rw [← Typemap.position_add h.size_pos, ← hfile, h.read_layout Nat.cast_injective _ (.refl _)
    hbyte (index_lt hr hi hj) hview, datum_eq cfg t fields hi hj] at hexpected
  exact hne hexpected

theorem not_checksBack_of_clash (h : Transferable cfg t fields) {e : ℕ} (he : e < p * n)
    (hclash : Clash t.datatype.typemap (expected cfg t fields (e / n : ℕ) (e % n)) e) :
    ¬ChecksBack cfg t n gap p := by
  rintro ⟨ws, hws, horders⟩
  obtain ⟨r, hr, i, hi, rfl, hdiv, hmod⟩ := exists_rank he
  obtain ⟨k, hk, j, hj, hplace, hne⟩ := hclash
  rw [hdiv, hmod] at hne
  have hall : (List.range p).flatMap ws = (List.range (p * (n * t.datatype.typemap.size))).map
      fun g ↦ (t.datatype.typemap.position g, datum cfg t fields n g) := by
    rw [← flatMap_blocks p _ fun g ↦ (t.datatype.typemap.position g, datum cfg t fields n g)]
    refine List.flatMap_congr fun q hq ↦ ?_
    obtain ⟨m, hm, -, -, hwrites⟩ := h.fileWriteAt_eq_some_iff.mp (hws q (List.mem_range.mp hq))
    obtain rfl := Int.ofNat_inj.mp hm
    exact hwrites.symm
  obtain ⟨compared, hcompared, hbuffers⟩ := horders _ (.refl _)
  obtain ⟨m, hm, -, rfl⟩ := fileCheck_eq_some_iff.mp hcompared
  obtain rfl := Int.ofNat_inj.mp hm
  obtain ⟨buf, hbuf, hstandard⟩ := hbuffers r hr
  obtain ⟨buf', hread, -⟩ := comparedBuffers_getElem? t n p ((File.new gap).write _) hr
  obtain rfl := Option.some_inj.mp (hbuf.symm.trans hread)
  have hexpected := (h.isStandardArray_iff n r _).mp hstandard i hi _ (h.position_nonneg hj)
    (h.position_lt hj)
  have hbyte : i * t.datatype.typemap.size + j < n * t.datatype.typemap.size := by
    simpa using index_lt Nat.one_pos hi hj
  have hview : byteView.position
      (r * (n * t.datatype.typemap.size) + (i * t.datatype.typemap.size + j))
      = t.datatype.typemap.position ((r * n + i) * t.datatype.typemap.size + k) := by
    rw [index_eq, byteView_position, h.position_of_clash hplace]
  rw [← Typemap.position_add h.size_pos, hall, h.read_layout
    (h.ordered.position_injective h.size_pos) _ (.refl _) hbyte (index_lt hr hi hk) hview,
    datum_eq cfg t fields hi hk] at hexpected
  exact hne hexpected.symm

end Transferable

/-! ## The exact condition -/

/-- No padding is passed on the way to a value, and no offset overflows: there are no values; or the
data of an element has no gaps, and there is one value in all or no padding behind it either. -/
def NoPaddingPassed (T : Typemap) (commSize n : ℕ) : Prop :=
  commSize * n = 0 ∨ T.Gapless ∧ (commSize * n ≤ 1 ∨
    T.extent = T.size ∧ ∀ r < commSize, r * n < 2 ^ 31)

/-- Then the places of the bytes are the same, and they are in order. -/
theorem NoPaddingPassed.position_eq {T : Typemap} {commSize n : ℕ}
    (h : NoPaddingPassed T commSize n) (hsize : 0 < T.size) :
    (∀ r < commSize, r * n < 2 ^ 31) ∧ ∀ g < commSize * (n * T.size), T.position g = g := by
  have hfew : commSize * n ≤ 1 → ∀ r < commSize, r * n < 2 ^ 31 := fun hle r hr ↦ by
    have hmul : r * n ≤ commSize * n := Nat.mul_le_mul_right n hr.le
    exact (hmul.trans hle).trans_lt (by norm_num)
  rcases h with hnone | ⟨hgapless, hone | ⟨hextent, hfits⟩⟩
  · refine ⟨hfew (by omega), fun g hg ↦ ?_⟩
    rw [← mul_assoc, hnone, zero_mul] at hg
    exact absurd hg (Nat.not_lt_zero g)
  · refine ⟨hfew hone, fun g hg ↦ hgapless.position_of_lt ?_⟩
    rw [← mul_assoc] at hg
    exact hg.trans_le ((Nat.mul_le_mul_right T.size hone).trans_eq (one_mul T.size))
  · exact ⟨hfits, fun g _ ↦ hgapless.position_eq hextent hsize g⟩

/-- The first two elements are the smallest and the largest value, whatever the rank. -/
theorem clash_of_first {cfg : Config} {t : TypeSlot} {fields : List FieldStore} {n e : ℕ}
    (hclash : ∀ i ≤ e, Clash t.datatype.typemap (expected cfg t fields 0 i) e) (he : e ≤ 1) :
    Clash t.datatype.typemap (expected cfg t fields (e / n : ℕ) (e % n)) e := by
  have hmod : e % n ≤ e := Nat.mod_le e n
  have hexpected : ∀ i ≤ 1, ∀ r : ℤ, expected cfg t fields r i = expected cfg t fields 0 i := by
    intro i hi r
    rcases Nat.le_one_iff_eq_zero_or_eq_one.mp hi with rfl | rfl <;> rfl
  rw [hexpected _ (hmod.trans he)]
  exact hclash _ hmod

section

variable {cfg : Config} {t : TypeSlot} {n commSize : ℕ}

/-- Without a clash among the elements that are there, no padding is passed. -/
theorem noPaddingPassed_of_not_clash {fields : List FieldStore}
    (hplaces : PaddingClashes cfg t fields)
    (hfits : ∀ r < commSize, r * n < 2 ^ 31)
    (hclash : ∀ e < commSize * n,
      ¬Clash t.datatype.typemap (expected cfg t fields (e / n : ℕ) (e % n)) e) :
    NoPaddingPassed t.datatype.typemap commSize n := by
  refine or_iff_not_imp_left.mpr fun hsome ↦ ?_
  rcases hplaces with ⟨hgapless, hextent | hsecond⟩ | hfirst
  · exact ⟨hgapless, Or.inr ⟨hextent, hfits⟩⟩
  · refine ⟨hgapless, Or.inl (not_lt.mp fun hlt ↦ hclash 1 hlt ?_)⟩
    exact clash_of_first hsecond le_rfl
  · refine absurd (clash_of_first (fun i hi ↦ ?_) zero_le_one)
      (hclash 0 (Nat.pos_of_ne_zero hsome))
    rwa [Nat.le_zero.mp hi]

variable {valuesNum : ℤ} (ht : t ∈ initTypes cfg) (hnull : t.datatype ≠ .null)
  (hclass : t.typeClass &&& ioTypes cfg ≠ 0) (gap : Memory)

include ht hnull hclass

theorem readsBack_iff : ReadsBack cfg t valuesNum gap commSize ↔
    ArrayFits t valuesNum ∧ NoPaddingPassed t.datatype.typemap commSize valuesNum.toNat := by
  obtain ⟨fields, h, hplaces⟩ := exists_transferable cfg ht hnull hclass
  constructor
  · intro hreads
    obtain ⟨file, hfile, hranks⟩ := id hreads
    obtain ⟨n, rfl, harray, -⟩ := h.fileAlloc_eq_some_iff.mp hfile
    refine ⟨harray, noPaddingPassed_of_not_clash hplaces (fun r hr ↦ ?_)
      fun e he hclash ↦ h.not_readsBack_of_clash he hclash hreads⟩
    obtain ⟨buf, hbuf, -⟩ := hranks r hr
    obtain ⟨m, hm, -, hfits, -⟩ := Transferable.fileReadAt_eq_some_iff.mp hbuf
    rwa [hm]
  · rintro ⟨harray, hpassed⟩
    obtain ⟨n, rfl⟩ := Int.eq_ofNat_of_zero_le harray.count
    obtain ⟨hfits, hposition⟩ := hpassed.position_eq h.size_pos
    exact h.readsBack_of_position harray hfits hposition

theorem checksBack_iff : ChecksBack cfg t valuesNum gap commSize ↔
    ArrayFits t valuesNum ∧ NoPaddingPassed t.datatype.typemap commSize valuesNum.toNat := by
  obtain ⟨fields, h, hplaces⟩ := exists_transferable cfg ht hnull hclass
  constructor
  · intro hchecks
    obtain ⟨ws, hws, horders⟩ := id hchecks
    obtain ⟨compared, hcompared, -⟩ := horders _ (.refl _)
    obtain ⟨n, rfl, harray, -⟩ := fileCheck_eq_some_iff.mp hcompared
    refine ⟨harray, noPaddingPassed_of_not_clash hplaces (fun r hr ↦ ?_)
      fun e he hclash ↦ h.not_checksBack_of_clash he hclash hchecks⟩
    obtain ⟨m, hm, -, hfits, -⟩ := h.fileWriteAt_eq_some_iff.mp (hws r hr)
    rwa [hm]
  · rintro ⟨harray, hpassed⟩
    obtain ⟨n, rfl⟩ := Int.eq_ofNat_of_zero_le harray.count
    obtain ⟨hfits, hposition⟩ := hpassed.position_eq h.size_pos
    exact h.checksBack_of_position harray hfits hposition

end

/-- **The layouts.** For every datatype that the tests of file access run with, every number of
ranks and every `values_num`: what is written in one layout is read in the other, and the other way
round, exactly if the arrays fit, no padding is passed and no offset overflows. -/
theorem file_layouts_agree_iff (cfg : Config) (t : TypeSlot) (ht : t ∈ initTypes cfg)
    (hnull : t.datatype ≠ .null) (row : Test) (hrow : row ∈ ioTests cfg)
    (hadmitted : t.typeClass &&& row.runWithType ≠ 0) (gap : Memory) (commSize : ℕ)
    (valuesNum : ℤ) :
    ReadsBack cfg t valuesNum gap commSize ∧ ChecksBack cfg t valuesNum gap commSize ↔
      ArrayFits t valuesNum ∧ NoPaddingPassed t.datatype.typemap commSize valuesNum.toNat := by
  rw [runWithType_ioTests cfg row hrow] at hadmitted
  rw [readsBack_iff ht hnull hadmitted gap, checksBack_iff ht hnull hadmitted gap, and_self]

/-- Two ranks with three values of `MPI_INT` each. -/
theorem file_layouts_agree_iff_int :
    ReadsBack ⟨2, true, true, true, true, true, true, true, true⟩ (slotMpi2 6) 3 (fun _ ↦ 0) 2 ∧
        ChecksBack ⟨2, true, true, true, true, true, true, true, true⟩ (slotMpi2 6) 3 (fun _ ↦ 0) 2
      ↔ ArrayFits (slotMpi2 6) 3 ∧ NoPaddingPassed (slotMpi2 6).datatype.typemap 2 3 :=
  file_layouts_agree_iff ⟨2, true, true, true, true, true, true, true, true⟩ (slotMpi2 6)
    (by decide +kernel) (by decide +kernel)
    ((ioTests ⟨2, true, true, true, true, true, true, true, true⟩).getD 1 noTest)
    (by decide +kernel) (by decide +kernel) (fun _ ↦ 0) 2 3

/-- The data of `MPI_SHORT_INT` has a gap between its two members, so that not even a single value
is read back. -/
theorem file_layouts_disagree :
    ¬∀ (cfg : Config) (t : TypeSlot), t ∈ initTypes cfg → t.datatype ≠ .null →
      ∀ row ∈ ioTests cfg, t.typeClass &&& row.runWithType ≠ 0 →
        ∀ (gap : Memory) (commSize n : ℕ), ArrayFits t n →
          ReadsBack cfg t n gap commSize ∧ ChecksBack cfg t n gap commSize := by
  intro h
  let cfg : Config := ⟨2, true, true, true, true, true, true, true, true⟩
  have hmem : slotMpi2 17 ∈ initTypes cfg := by decide +kernel
  have hnull : (slotMpi2 17).datatype ≠ .null := by decide +kernel
  have hclass : (slotMpi2 17).typeClass &&& ioTypes cfg ≠ 0 := by decide +kernel
  have hagree := h cfg (slotMpi2 17) hmem hnull ((ioTests cfg).getD 1 noTest) (by decide +kernel)
    (by decide +kernel) (fun _ ↦ 0) 1 1 (by decide +kernel)
  have hgap : ¬NoPaddingPassed (slotMpi2 17).datatype.typemap 1 1 := by
    rintro (hnone | ⟨hgapless, -⟩)
    · cases hnone
    · exact absurd hgapless (by decide +kernel)
  exact hgap ((readsBack_iff hmem hnull hclass _).mp hagree.1).2

end MpiTestSuite

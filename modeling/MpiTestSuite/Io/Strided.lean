import MpiTestSuite.Coding.OpenFile
import MpiTestSuite.Io.FileLayout
import MpiTestSuite.Types.Compare

/-!
# Files with strides

Three tests leave room between the elements of a rank. `io_with_hole2` moves the file pointer by two
elements after each one it writes, `io_with_hole` has a view of elements of twice the extent, and in
`io_with_arrange` the ranks take turns, by a view of elements of `comm_size` times the extent. Each
of them writes the standard arrays in `init` and reads them in `run`, which has code of its own.

Every element lies at a multiple of the extent, and no two at the same one. So every rank reads its
own array, as long as there is memory for it and the offsets can be computed. `io_with_hole` sets
its view to `comm_rank*filetype_extent*env->values_num`, which is an `MPI_Aint`, and compares it
with `comm_rank*env->values_num*filetype_extent`, where the first product is an `int`.
`io_with_hole2` computes all its offsets as `int`.
-/

namespace MpiTestSuite

/-! ## The tests -/

/-- What a computation with the type `MPI_Aint` or `MPI_Offset` gives; there is no telling what it
is on overflow. -/
def checkedOffset (x : ℤ) : Option ℤ := if -2 ^ 63 ≤ x ∧ x < 2 ^ 63 then some x else none

/-- The two phases of a test, and what is to be known of them. The numbers are `env->values_num`,
the sizes of the communicator and of `MPI_COMM_WORLD`, and the rank. A list of comparisons that lead
to `ERROR` comes with their messages. -/
structure StridedTest where
  functions : String
  filetype : Typemap → ℕ → Option Typemap
  /-- What `off_position` and `off_view` are compared with. -/
  asserted : Typemap → ℤ → ℕ → ℕ → Option (ℤ × ℤ)
  /-- The bytes that are written. -/
  init : Config → TypeSlot → ℤ → ℕ → ℕ → ℕ → Option (List (ℤ × UInt8) × List (Bool × String))
  /-- The buffer that is checked. -/
  run : TypeSlot → ℤ → ℕ → ℕ → ℕ → File → Option (Memory × List (Bool × String))
  /-- Where an element of a rank lies in the file. -/
  place : Typemap → ℕ → ℕ → ℕ → ℕ → ℤ

/-- Comparisons of the position and the view of a file. -/
def positionErrors (o : OpenFile) (asserted : ℤ × ℤ) (message : String) : List (Bool × String) :=
  [(o.pointer != asserted.1, message), (o.disp != asserted.2, "Error in view point")]

/-- `tst_type_compare (datatype_check, type)`. -/
def datatypeErrors (check type : Typemap) (message : String) : List (Bool × String) :=
  [(tstTypeCompare check.bounds type.bounds != tstSucess, message)]

/-! ### `io_with_hole2` -/

/-- `3*comm_rank*env->values_num`, as an offset in a file. -/
def hole2Offset (valuesNum : ℤ) (r : ℕ) : Option ℕ := do
  let offset ← checkedSigned ((← checkedSigned (3 * r)) * valuesNum)
  if 0 ≤ offset then some offset.toNat else none

/-- `(comm_rank + 1) * env->values_num * 3`. -/
def hole2Position (valuesNum : ℤ) (r : ℕ) : Option ℤ := do
  checkedSigned ((← checkedSigned ((← checkedSigned (r + 1)) * valuesNum)) * 3)

/-- Write element `i`, and pass two more. -/
def hole2Write (type : Typemap) (writeBuffer : Memory) (x : List (ℤ × UInt8) × OpenFile) (i : ℕ) :
    List (ℤ × UInt8) × OpenFile :=
  let w := x.2.write type 1 (writeBuffer.shift (i * type.extent))
  (x.1 ++ w.1, w.2.seekCur 2)

/-- Read element `i`, and pass two more. -/
def hole2Read (file : File) (type : Typemap) (x : Memory × OpenFile) (i : ℕ) : Memory × OpenFile :=
  let w := x.2.read file type 1 (x.1.shift (i * type.extent))
  (w.1.shift (-(i * type.extent)), w.2.seekCur 2)

/-- The comparisons of both phases. -/
def hole2Errors (o : OpenFile) (type : Typemap) (asserted : ℤ × ℤ) (message : String) :
    List (Bool × String) :=
  positionErrors o asserted message ++ datatypeErrors o.etype type "Error in datatype"
    ++ datatypeErrors o.filetype type "Error in filetype"

def hole2Asserted (valuesNum : ℤ) (r : ℕ) : Option (ℤ × ℤ) :=
  (hole2Position valuesNum r).map fun position ↦ (position, 0)

def tstFileIoWithHole2 : StridedTest where
  functions := "tst_file_io_with_hole2"
  filetype type _ := some type
  asserted _ valuesNum _ r := hole2Asserted valuesNum r
  init cfg t valuesNum _ _ r := do
    let type := t.datatype.typemap
    let writeBuffer ← tstTypeAllocvalues t valuesNum
    let offset ← hole2Offset valuesNum r
    let writeBuffer ← tstTypeSetstandardarray cfg t valuesNum.toNat writeBuffer r
    let x := (List.range valuesNum.toNat).foldl (hole2Write type writeBuffer)
      ([], (OpenFile.setView 0 type type).seekSet offset)
    let asserted ← hole2Asserted valuesNum r
    return (x.1, hole2Errors x.2 type asserted "Error in position by init")
  run t valuesNum _ _ r file := do
    let type := t.datatype.typemap
    let readBuffer ← tstTypeAllocvalues t valuesNum
    let offset ← hole2Offset valuesNum r
    let x := (List.range valuesNum.toNat).foldl (hole2Read file type)
      (readBuffer, (OpenFile.setView 0 type type).seekSet offset)
    let asserted ← hole2Asserted valuesNum r
    return (x.1, hole2Errors x.2 type asserted "Error in position ")
  place type n _ r i := (3 * r * n + 3 * i) * type.extent

/-! ### `io_with_hole` -/

/-- `MPI_Type_create_resized (type, 0, 2 * extent, ..)`. -/
def holeFiletype (type : Typemap) : Option Typemap :=
  (checkedOffset (2 * type.extent)).map (type.resized 0)

/-- `comm_rank*filetype_extent*env->values_num`. -/
def holeDisp (filetype : Typemap) (valuesNum : ℤ) (r : ℕ) : Option ℤ := do
  checkedOffset ((← checkedOffset (r * filetype.extent)) * valuesNum)

/-- `comm_rank*env->values_num*filetype_extent`. -/
def holeViewPoint (filetype : Typemap) (valuesNum : ℤ) (r : ℕ) : Option ℤ := do
  checkedOffset ((← checkedSigned (r * valuesNum)) * filetype.extent)

def holeAsserted (filetype : Typemap) (valuesNum : ℤ) (r : ℕ) : Option (ℤ × ℤ) :=
  (holeViewPoint filetype valuesNum r).map fun viewPoint ↦ (valuesNum, viewPoint)

/-- The comparisons of both phases. -/
def holeErrors (o : OpenFile) (type : Typemap) (asserted : ℤ × ℤ) : List (Bool × String) :=
  positionErrors o asserted "Error in position" ++ datatypeErrors o.etype type "Error in datatype"

def tstFileIoWithHole : StridedTest where
  functions := "tst_file_io_with_hole"
  filetype type _ := holeFiletype type
  asserted type valuesNum _ r :=
    (holeFiletype type).bind fun filetype ↦ holeAsserted filetype valuesNum r
  init cfg t valuesNum _ _ r := do
    let type := t.datatype.typemap
    let writeBuffer ← tstTypeAllocvalues t valuesNum
    let filetype ← holeFiletype type
    let disp ← holeDisp filetype valuesNum r
    let writeBuffer ← tstTypeSetstandardarray cfg t valuesNum.toNat writeBuffer r
    let count ← elementCount valuesNum
    let w := (OpenFile.setView disp type filetype).write type count writeBuffer
    let asserted ← holeAsserted filetype valuesNum r
    return (w.1, holeErrors w.2 type asserted)
  run t valuesNum _ _ r file := do
    let type := t.datatype.typemap
    let readBuffer ← tstTypeAllocvalues t valuesNum
    let filetype ← holeFiletype type
    let disp ← holeDisp filetype valuesNum r
    let count ← elementCount valuesNum
    let w := (OpenFile.setView disp type filetype).read file type count readBuffer
    let asserted ← holeAsserted filetype valuesNum r
    return (w.1, holeErrors w.2 type asserted)
  place type n _ r i := r * (2 * type.extent) * n + i * (2 * type.extent)

/-! ### `io_with_arrange` -/

/-- `MPI_Type_create_resized (type, 0, comm_size * extent, ..)`. -/
def arrangeFiletype (type : Typemap) (p : ℕ) : Option Typemap :=
  (checkedOffset (p * type.extent)).map (type.resized 0)

/-- `comm_rank*extent`. -/
def arrangeDisp (type : Typemap) (r : ℕ) : Option ℤ := checkedOffset (r * type.extent)

def arrangeAsserted (type : Typemap) (valuesNum : ℤ) (r : ℕ) : Option (ℤ × ℤ) :=
  (arrangeDisp type r).map fun viewPoint ↦ (valuesNum, viewPoint)

/-- The comparisons of both phases, of which the first one makes them only if the number of all
processes is even. -/
def arrangeErrors (o : OpenFile) (type : Typemap) (asserted : ℤ × ℤ) : List (Bool × String) :=
  positionErrors o asserted "Error in position by init"
    ++ datatypeErrors o.etype type "Error in datatype"

def tstFileIoWithArrange : StridedTest where
  functions := "tst_file_io_with_arrange"
  filetype type p := arrangeFiletype type p
  asserted type valuesNum _ r := arrangeAsserted type valuesNum r
  init cfg t valuesNum p globalSize r := do
    let type := t.datatype.typemap
    let writeBuffer ← tstTypeAllocvalues t valuesNum
    let filetype ← arrangeFiletype type p
    let disp ← arrangeDisp type r
    let writeBuffer ← tstTypeSetstandardarray cfg t valuesNum.toNat writeBuffer r
    let count ← elementCount valuesNum
    let w := (OpenFile.setView disp type filetype).write type count writeBuffer
    if globalSize % 2 = 0 then
      return (w.1, arrangeErrors w.2 type (← arrangeAsserted type valuesNum r))
    else return (w.1, [])
  run t valuesNum p _ r file := do
    let type := t.datatype.typemap
    let readBuffer ← tstTypeAllocvalues t valuesNum
    let filetype ← arrangeFiletype type p
    let disp ← arrangeDisp type r
    let count ← elementCount valuesNum
    let w := (OpenFile.setView disp type filetype).read file type count readBuffer
    return (w.1, arrangeErrors w.2 type (← arrangeAsserted type valuesNum r))
  place type _ p r i := r * type.extent + i * (p * type.extent)

/-! ## What is expected of them -/

/-- For `p` ranks with `n` elements each, where the test goes by `valuesNum`: the elements have
places of their own, they are written there and read from there without an `ERROR`, positions that
are compared are where the next element would be, and every rank reads its own array, whatever the
order in which the bytes of all ranks were written and whatever was in the file before. -/
structure StridedTest.Stores (w : StridedTest) (cfg : Config) (t : TypeSlot) (n : ℕ)
    (valuesNum : ℤ) (p globalSize : ℕ) : Prop where
  injective : ∀ r < p, ∀ i < n, ∀ r' < p, ∀ i' < n,
    w.place t.datatype.typemap n p r i = w.place t.datatype.typemap n p r' i' → r = r' ∧ i = i'
  writes : ∀ r < p, ∃ value errors,
    w.init cfg t valuesNum p globalSize r = some
        (elementWrites t.datatype.typemap (w.place t.datatype.typemap n p r) n value, errors) ∧
      ∀ e ∈ errors, e.1 = false
  reads : ∀ r < p, ∀ file, ∃ buf errors,
    w.run t valuesNum p globalSize r file = some (buf, errors) ∧ (∀ e ∈ errors, e.1 = false) ∧
      ∀ i < n, ∀ k < t.datatype.typemap.size,
        w.place t.datatype.typemap n p r i + t.datatype.typemap.position k < file.length →
          buf (t.datatype.typemap.position (i * t.datatype.typemap.size + k))
            = file.bytes (w.place t.datatype.typemap n p r i + t.datatype.typemap.position k)
  asserts : ∀ r < p, ∃ filetype position viewPoint,
    w.filetype t.datatype.typemap p = some filetype ∧
      w.asserted t.datatype.typemap valuesNum p r = some (position, viewPoint) ∧
      viewPoint + position * filetype.extent = w.place t.datatype.typemap n p r n
  readsBack : ∀ ws : ℕ → List (ℤ × UInt8),
    (∀ r < p, ∃ errors, w.init cfg t valuesNum p globalSize r = some (ws r, errors)) →
      ∀ (file : File) (order : List (ℤ × UInt8)), order.Perm ((List.range p).flatMap ws) →
        ∀ r < p, ∃ buf errors,
          w.run t valuesNum p globalSize r (file.write order) = some (buf, errors) ∧
            IsStandardArray cfg t n r buf

/-- A test works if there are `valuesNum` elements. -/
abbrev StridedTest.Works (w : StridedTest) (cfg : Config) (t : TypeSlot) (valuesNum : ℤ)
    (p globalSize : ℕ) : Prop := w.Stores cfg t valuesNum.toNat valuesNum p globalSize

/-! ## From places to arrays -/

namespace Transferable

variable {cfg : Config} {t : TypeSlot} {fields : List FieldStore} {n p g : ℕ}

theorem extent_pos (h : Transferable cfg t fields) : 0 < t.datatype.typemap.extent :=
  (h.position_nonneg h.size_pos).trans_lt (h.position_lt h.size_pos)

/-- The data of an element of a standard array. -/
theorem written_element (h : Transferable cfg t fields) {r i k : ℕ} (m : Memory) (hi : i < n)
    (hk : k < t.datatype.typemap.size) :
    written cfg t fields r n m (t.datatype.typemap.position (i * t.datatype.typemap.size + k))
      = expected cfg t fields r i (t.datatype.typemap.position k) := by
  have hlt : i * t.datatype.typemap.size + k < n * t.datatype.typemap.size := by
    simpa using index_lt Nat.one_pos hi hk
  rw [h.written_position m hlt, index_eq, datum_eq cfg t fields hi hk]

/-- If the elements lie in slots, are written there and read from there, a test works. -/
theorem stores (h : Transferable cfg t fields) {w : StridedTest} (slot : ℕ → ℕ → ℕ)
    (hplace : ∀ r < p, ∀ i < n, w.place t.datatype.typemap n p r i
      = slot r i * t.datatype.typemap.extent)
    (hslot : ∀ r < p, ∀ i < n, ∀ r' < p, ∀ i' < n, slot r i = slot r' i' → r = r' ∧ i = i')
    (hwrites : ∀ r < p, ∃ errors, w.init cfg t n p g r = some (elementWrites t.datatype.typemap
        (w.place t.datatype.typemap n p r) n fun i k ↦
          expected cfg t fields r i (t.datatype.typemap.position k), errors) ∧
        ∀ e ∈ errors, e.1 = false)
    (hreads : ∀ r < p, ∀ file, ∃ buf errors, w.run t n p g r file = some (buf, errors) ∧
      (∀ e ∈ errors, e.1 = false) ∧ Untouched t n buf ∧
      ∀ i < n, ∀ k < t.datatype.typemap.size,
        w.place t.datatype.typemap n p r i + t.datatype.typemap.position k < file.length →
          buf (t.datatype.typemap.position (i * t.datatype.typemap.size + k))
            = file.bytes (w.place t.datatype.typemap n p r i + t.datatype.typemap.position k))
    (hasserts : ∀ r < p, ∃ filetype position viewPoint,
      w.filetype t.datatype.typemap p = some filetype ∧
        w.asserted t.datatype.typemap n p r = some (position, viewPoint) ∧
        viewPoint + position * filetype.extent = w.place t.datatype.typemap n p r n) :
    w.Stores cfg t n n p g where
  injective r hr i hi r' hr' i' hi' heq := by
    rw [hplace r hr i hi, hplace r' hr' i' hi'] at heq
    have hsame := mul_right_cancel₀ h.extent_pos.ne' heq
    exact hslot r hr i hi r' hr' i' hi' (by exact_mod_cast hsame)
  writes r hr := ⟨_, hwrites r hr⟩
  reads r hr file := by
    obtain ⟨buf, errors, hrun, herrors, -, hdata⟩ := hreads r hr file
    exact ⟨buf, errors, hrun, herrors, hdata⟩
  asserts := hasserts
  readsBack ws hws file order horder r hr := by
    obtain ⟨buf, errors, hrun, -, huntouched, hdata⟩ := hreads r hr (file.write order)
    have hall : (List.range p).flatMap ws = (List.range p).flatMap fun r ↦
        elementWrites t.datatype.typemap (w.place t.datatype.typemap n p r) n fun i k ↦
          expected cfg t fields r i (t.datatype.typemap.position k) := by
      refine List.flatMap_congr fun q hq ↦ ?_
      obtain ⟨e, he⟩ := hws q (List.mem_range.mp hq)
      obtain ⟨e', he', -⟩ := hwrites q (List.mem_range.mp hq)
      exact congrArg Prod.fst (Option.some_inj.mp (he.symm.trans he'))
    rw [hall] at horder
    refine ⟨buf, errors, hrun, h.isStandardArray_of_data (fun i hi k hk ↦ ?_) huntouched⟩
    obtain ⟨hbyte, hlength⟩ := File.write_elements h.ordered h.size_pos hplace hslot horder file hr
      hi hk
    rw [hdata i hi k hk hlength, hbyte]

end Transferable

/-! ## Views with a stride -/

section

variable {T : Typemap} {disp e : ℤ} {n : ℕ} {buf : Memory} {file : File}

/-- The file pointer behind `n` elements of a view. -/
theorem advance_setView {filetype : Typemap} (h : 0 < T.size) :
    (OpenFile.setView disp T filetype).advance T n = ⟨disp, T, filetype, n⟩ := by
  have hadvance := OpenFile.advance_eq (o := .setView disp T filetype) h n
  rwa [OpenFile.setView, Nat.zero_add] at hadvance

/-- Writing elements through a resized view. -/
theorem write_resized (h : 0 < T.size) :
    (OpenFile.setView disp T (T.resized 0 e)).write T n buf
      = (elementWrites T (fun i ↦ disp + i * e) n fun i k ↦ buf (T.position (i * T.size + k)),
        ⟨disp, T, T.resized 0 e, n⟩) := by
  have hview : ∀ i < n, ∀ k < T.size,
      (OpenFile.setView disp T (T.resized 0 e)).view.position (0 * T.size + (i * T.size + k))
        = disp + i * e + T.position k := by
    intro i _ k hk
    rw [zero_mul, zero_add]
    exact Typemap.position_shift_resized h disp 0 e i hk
  exact Prod.ext (fileWrites_eq_elementWrites hview) (advance_setView h)

/-- Reading elements through a resized view. -/
theorem read_resized (hT : T.Ordered) (h : 0 < T.size) {i k : ℕ} (hi : i < n) (hk : k < T.size)
    (hlength : disp + i * e + T.position k < file.length) :
    ((OpenFile.setView disp T (T.resized 0 e)).read file T n buf).1
        (T.position (i * T.size + k)) = file.bytes (disp + i * e + T.position k) := by
  have hview : (OpenFile.setView disp T (T.resized 0 e)).view.position
      (0 * T.size + (i * T.size + k)) = disp + i * e + T.position k := by
    rw [zero_mul, zero_add]
    exact Typemap.position_shift_resized h disp 0 e i hk
  have hlt : i * T.size + k < n * T.size := by
    simpa using Transferable.index_lt Nat.one_pos hi hk
  rw [← hview] at hlength ⊢
  exact File.read_apply (hT.position_injective h) hlt hlength

end

/-! ## Moving the pointer -/

section

variable {T : Typemap}

/-- One element, and the pointer behind the two after it. -/
theorem hole2Write_eq (h : 0 < T.size) (buf : Memory) (ws : List (ℤ × UInt8)) (m i : ℕ) :
    hole2Write T buf (ws, ⟨0, T, T, m⟩) i
      = (ws ++ (List.range T.size).map fun k ↦
          ((m : ℤ) * T.extent + T.position k, buf (i * T.extent + T.position k)),
        ⟨0, T, T, m + 3⟩) := by
  have hadvance := OpenFile.advance_eq (o := ⟨0, T, T, m⟩) h 1
  rw [hole2Write, OpenFile.write, hadvance, OpenFile.view, Typemap.shift_zero, fileWrites, one_mul]
  refine congrArg (fun l ↦ (ws ++ l, _)) (List.map_congr_left fun k _ ↦ ?_)
  rw [Typemap.position_add h, Memory.shift]

/-- Writing elements with two more in between. -/
theorem hole2_write_loop (h : 0 < T.size) (start : ℕ) (buf : Memory) (n : ℕ) :
    (List.range n).foldl (hole2Write T buf) ([], ⟨0, T, T, start⟩)
      = (elementWrites T (fun i ↦ (start + 3 * i : ℕ) * T.extent) n
          fun i k ↦ buf (i * T.extent + T.position k), ⟨0, T, T, start + 3 * n⟩) := by
  induction n with
  | zero => rfl
  | succ n ih =>
    rw [List.range_succ, List.foldl_append, ih, List.foldl_cons, List.foldl_nil, hole2Write_eq h,
      elementWrites_succ]
    rfl

/-- Reading elements with two more in between. -/
theorem hole2_read_loop (hT : T.Ordered) (h : 0 < T.size) (file : File) (start : ℕ) (buf : Memory)
    (n : ℕ) :
    ∃ m, (List.range n).foldl (hole2Read file T) (buf, ⟨0, T, T, start⟩)
        = (m, ⟨0, T, T, start + 3 * n⟩) ∧
      (∀ i < n, ∀ k < T.size, (start + 3 * i : ℕ) * T.extent + T.position k < file.length →
        m (T.position (i * T.size + k))
          = file.bytes ((start + 3 * i : ℕ) * T.extent + T.position k)) ∧
      ∀ q, (∀ j < n * T.size, T.position j ≠ q) → m q = buf q := by
  induction n with
  | zero => exact ⟨buf, rfl, fun i hi ↦ absurd hi (Nat.not_lt_zero i), fun _ _ ↦ rfl⟩
  | succ n ih =>
    obtain ⟨m, hm, hdata, hframe⟩ := ih
    have hadvance := OpenFile.advance_eq (o := ⟨0, T, T, start + 3 * n⟩) h 1
    -- Reading element `n` changes nothing but its bytes.
    have hother : ∀ q, (∀ k < T.size, T.position (n * T.size + k) ≠ q) →
        ((file.read T ((start + 3 * n) * T.size) T 1 (m.shift (n * T.extent))).shift
          (-(n * T.extent))) q = m q := by
      intro q hq
      rw [Memory.shift, File.read_frame fun k hk heq ↦ ?_, Memory.shift]
      · congr 1
        ring
      · rw [one_mul] at hk
        refine hq k hk ?_
        rw [Typemap.position_add h, heq]
        ring
    refine ⟨(file.read T ((start + 3 * n) * T.size) T 1 (m.shift (n * T.extent))).shift
      (-(n * T.extent)), ?_, fun i hi k hk hlength ↦ ?_, fun q hq ↦ ?_⟩
    · rw [List.range_succ, List.foldl_append, hm, List.foldl_cons, List.foldl_nil, hole2Read,
        OpenFile.read, hadvance, OpenFile.view, Typemap.shift_zero]
      rfl
    · rcases Nat.lt_succ_iff_lt_or_eq.mp hi with hlt | rfl
      · rw [hother, hdata i hlt k hk hlength]
        intro j hj heq
        have hsame := hT.position_injective h heq
        have hmul : (i + 1) * T.size ≤ n * T.size := Nat.mul_le_mul_right _ hlt
        rw [Nat.succ_mul] at hmul
        omega
      · have hplace : T.position ((start + 3 * i) * T.size + k)
            = (start + 3 * i : ℕ) * T.extent + T.position k := Typemap.position_add h _ k
        rw [← hplace] at hlength ⊢
        rw [Typemap.position_add h, Memory.shift, neg_add_cancel_left,
          File.read_apply (hT.position_injective h) (by rwa [one_mul]) hlength]
    · rw [hother, hframe]
      · exact fun j hj ↦ hq j (hj.trans_le (Nat.mul_le_mul_right _ n.le_succ))
      · intro k hk
        refine hq _ ?_
        rw [Nat.succ_mul]
        omega

end

/-! ## The conditions -/

/-- No `int` of `io_with_hole2` overflows. -/
def Hole2Fits (n p : ℕ) : Prop := ∀ r < p, 3 * r < 2 ^ 31 ∧ (r + 1) * n * 3 < 2 ^ 31

/-- No `int` of `io_with_hole` overflows. -/
def HoleFits (n p : ℕ) : Prop := ∀ r < p, r * n < 2 ^ 31

theorem hole2Offset_eq_some_iff {n r o : ℕ} :
    hole2Offset n r = some o ↔ 3 * r < 2 ^ 31 ∧ 3 * r * n < 2 ^ 31 ∧ 3 * r * n = o := by
  have hproduct : 3 * (r : ℤ) * n = (3 * r * n : ℕ) := by push_cast; rfl
  simp only [hole2Offset, Option.bind_eq_bind, Option.bind_eq_some_iff, checkedSigned_eq_some_iff,
    FitsInt, Option.ite_none_right_eq_some, Option.some_inj]
  constructor
  · rintro ⟨_, ⟨htriple, rfl⟩, _, ⟨hfits, rfl⟩, -, rfl⟩
    rw [hproduct] at hfits ⊢
    exact ⟨by omega, by omega, by omega⟩
  · rintro ⟨htriple, hfits, rfl⟩
    refine ⟨_, ⟨by omega, rfl⟩, _, ⟨?_, rfl⟩, ?_⟩
    all_goals
      rw [hproduct]
      omega

theorem hole2Position_eq_some_iff {valuesNum : ℤ} {r : ℕ} {o : ℤ} :
    hole2Position valuesNum r = some o ↔ FitsInt ((r : ℤ) + 1) ∧ FitsInt ((r + 1) * valuesNum) ∧
      FitsInt ((r + 1) * valuesNum * 3) ∧ (r + 1) * valuesNum * 3 = o := by
  simp only [hole2Position, Option.bind_eq_bind, Option.bind_eq_some_iff,
    checkedSigned_eq_some_iff]
  constructor
  · rintro ⟨_, ⟨hsucc, rfl⟩, _, ⟨hproduct, rfl⟩, hposition⟩
    exact ⟨hsucc, hproduct, hposition⟩
  · rintro ⟨hsucc, hproduct, hposition⟩
    exact ⟨_, ⟨hsucc, rfl⟩, _, ⟨hproduct, rfl⟩, hposition⟩

/-- What the comparisons of a rank ask for. -/
theorem hole2_fits_iff {n r : ℕ} :
    (∃ o position, hole2Offset n r = some o ∧ hole2Position n r = some position) ↔
      3 * r < 2 ^ 31 ∧ (r + 1) * n * 3 < 2 ^ 31 := by
  have hproduct : ((r : ℤ) + 1) * n = ((r + 1) * n : ℕ) := by push_cast; rfl
  simp only [hole2Offset_eq_some_iff, hole2Position_eq_some_iff, hproduct, FitsInt]
  constructor
  · rintro ⟨_, _, ⟨htriple, -⟩, -, -, hposition, -⟩
    exact ⟨htriple, by omega⟩
  · rintro ⟨htriple, hposition⟩
    have hsplit : (r + 1) * n * 3 = 3 * r * n + 3 * n := by ring
    exact ⟨_, _, ⟨htriple, by omega, rfl⟩, by omega, by omega, by omega, rfl⟩

/-- A product that an `MPI_Aint` has room for. -/
theorem checkedOffset_mul {a : ℕ} {b : ℤ} (ha : a < 2 ^ 31) (hb : 0 ≤ b) (hlt : b < 2 ^ 32) :
    checkedOffset (a * b) = some (a * b) := by
  have hprod : (a : ℤ) * b < 2 ^ 31 * 2 ^ 32 :=
    mul_lt_mul'' (by exact_mod_cast ha) hlt (Int.natCast_nonneg a) hb
  have hnonneg : 0 ≤ (a : ℤ) * b := mul_nonneg (Int.natCast_nonneg a) hb
  exact if_pos ⟨by omega, by omega⟩

section

variable {T : Typemap} (hpos : 0 < T.extent) (hextent : T.extent < 2 ^ 31)

include hpos hextent

theorem holeFiletype_eq : holeFiletype T = some (T.resized 0 (2 * T.extent)) := by
  have htwo := checkedOffset_mul (a := 2) (by norm_num) hpos.le (by omega)
  rw [Nat.cast_ofNat] at htwo
  rw [holeFiletype, htwo, Option.map_some]

/-- The displacement only leaves `MPI_Aint` if the number of the first element leaves `int`. -/
theorem holeDisp_eq {n r : ℕ} (hr : r < 2 ^ 31) (hfits : r * n < 2 ^ 31) :
    holeDisp (T.resized 0 (2 * T.extent)) n r = some (r * (2 * T.extent) * n) := by
  have hswap : (r : ℤ) * (2 * T.extent) * n = (r * n : ℕ) * (2 * T.extent) := by
    push_cast
    ring
  rw [holeDisp, Typemap.extent_resized, checkedOffset_mul hr (by omega) (by omega),
    Option.bind_eq_bind, Option.bind_some, hswap, checkedOffset_mul hfits (by omega) (by omega)]

theorem holeAsserted_eq {n r : ℕ} (hfits : r * n < 2 ^ 31) :
    holeAsserted (T.resized 0 (2 * T.extent)) n r = some ((n : ℤ), r * (2 * T.extent) * n) := by
  have hproduct : checkedSigned (r * n) = some ((r * n : ℕ) : ℤ) := by
    rw [← Nat.cast_mul]
    exact checkedSigned_eq_some_iff.mpr ⟨⟨by omega, by omega⟩, rfl⟩
  have hswap : ((r * n : ℕ) : ℤ) * (2 * T.extent) = r * (2 * T.extent) * n := by
    push_cast
    ring
  rw [holeAsserted, holeViewPoint, hproduct, Option.bind_eq_bind, Option.bind_some,
    Typemap.extent_resized, checkedOffset_mul hfits (by omega) (by omega), Option.map_some, hswap]

end

theorem no_positionErrors {o : OpenFile} {asserted : ℤ × ℤ} (hpointer : o.pointer = asserted.1)
    (hdisp : o.disp = asserted.2) (message : String) :
    ∀ e ∈ positionErrors o asserted message, e.1 = false := by
  simp [positionErrors, hpointer, hdisp]

theorem no_datatypeErrors (type : Typemap) (message : String) :
    ∀ e ∈ datatypeErrors type type message, e.1 = false := by
  simp [datatypeErrors, tstTypeCompare_eq_sucess_iff, SameBounds]

namespace Transferable

variable {cfg : Config} {t : TypeSlot} {fields : List FieldStore} {n p g : ℕ}

/-- Slots at three times the number of an element among all of them. -/
theorem slot_injective {r i r' i' : ℕ} (hi : i < n) (hi' : i' < n)
    (h : r * n + i = r' * n + i') : r = r' ∧ i = i' := by
  have hdiv := congrArg (· / n) h
  have hn : 0 < n := by omega
  simp only [mul_comm _ n, Nat.mul_add_div hn, Nat.div_eq_of_lt hi, Nat.div_eq_of_lt hi',
    add_zero] at hdiv
  subst hdiv
  exact ⟨rfl, Nat.add_left_cancel h⟩

theorem hole2_stores (h : Transferable cfg t fields) (harray : ArrayFits t n)
    (hfits : Hole2Fits n p) : tstFileIoWithHole2.Stores cfg t n n p g := by
  have hoffset : ∀ r < p, hole2Offset n r = some (3 * r * n) ∧
      hole2Position n r = some (((r : ℤ) + 1) * n * 3) := by
    intro r hr
    obtain ⟨o, position, ho, hposition⟩ := hole2_fits_iff.mpr (hfits r hr)
    rw [ho, hposition, (hole2Offset_eq_some_iff.mp ho).2.2,
      (hole2Position_eq_some_iff.mp hposition).2.2.2]
    exact ⟨rfl, rfl⟩
  have herrors : ∀ (r : ℕ) message, ∀ e ∈ hole2Errors
      ⟨0, t.datatype.typemap, t.datatype.typemap, 3 * r * n + 3 * n⟩ t.datatype.typemap
      (((r : ℤ) + 1) * n * 3, 0) message, e.1 = false := by
    intro r message e he
    rw [hole2Errors, List.mem_append, List.mem_append] at he
    obtain (he | he) | he := he
    · refine no_positionErrors ?_ rfl message e he
      push_cast
      ring
    · exact no_datatypeErrors _ _ e he
    · exact no_datatypeErrors _ _ e he
  have hplace : ∀ r i, tstFileIoWithHole2.place t.datatype.typemap n p r i
      = ((3 * r * n + 3 * i : ℕ) : ℤ) * t.datatype.typemap.extent := fun r i ↦ by
    rw [tstFileIoWithHole2]
    push_cast
    rfl
  refine h.stores (fun r i ↦ 3 * r * n + 3 * i) (fun r _ i _ ↦ hplace r i)
    (fun r _ i hi r' _ i' hi' heq ↦ slot_injective hi hi' (by linarith)) (fun r hr ↦ ?_)
    (fun r hr file ↦ ?_) fun r hr ↦ ?_
  · obtain ⟨ho, hposition⟩ := hoffset r hr
    refine ⟨_, ?_, herrors r "Error in position by init"⟩
    have hloop := hole2_write_loop h.size_pos (3 * r * n)
      (written cfg t fields r n (freshValues t n)) n
    simp only [tstFileIoWithHole2, ho, hole2Asserted, hposition, harray.allocvalues_eq,
      Int.toNat_natCast, h.settable.setstandardarray_eq, Option.bind_eq_bind, Option.bind_some,
      Option.map_some, Option.pure_def, OpenFile.setView, OpenFile.seekSet, hloop]
    refine congrArg (fun ws ↦ some (ws, _)) (elementWrites_congr (fun i _ ↦ ?_)
      fun i hi k hk ↦ ?_)
    · push_cast
      rfl
    · rw [← Typemap.position_add h.size_pos, h.written_element _ hi hk]
  · obtain ⟨ho, hposition⟩ := hoffset r hr
    obtain ⟨buf, hloop, hdata, hframe⟩ := hole2_read_loop h.ordered h.size_pos file (3 * r * n)
      (freshValues t n) n
    refine ⟨buf, _, ?_, herrors r "Error in position ", hframe, fun i hi k hk hlength ↦ ?_⟩
    · simp only [tstFileIoWithHole2, ho, hole2Asserted, hposition, harray.allocvalues_eq,
        Int.toNat_natCast, Option.bind_eq_bind, Option.bind_some, Option.map_some,
        Option.pure_def, OpenFile.setView, OpenFile.seekSet, hloop]
    · rw [hplace] at hlength ⊢
      exact hdata i hi k hk hlength
  · obtain ⟨-, hposition⟩ := hoffset r hr
    refine ⟨_, (r + 1) * n * 3, 0, rfl, ?_, ?_⟩
    · simp only [tstFileIoWithHole2, hole2Asserted, hposition, Option.map_some]
    · rw [hplace]
      push_cast
      ring

theorem hole2_works_iff (h : Transferable cfg t fields) (hp : 0 < p) {valuesNum : ℤ} :
    tstFileIoWithHole2.Works cfg t valuesNum p g ↔
      ArrayFits t valuesNum ∧ Hole2Fits valuesNum.toNat p := by
  constructor
  · intro hworks
    have hrank : ∀ r < p, ∃ o position, hole2Offset valuesNum r = some o ∧
        hole2Position valuesNum r = some position ∧ 0 ≤ position ∧ HasBlock t valuesNum := by
      intro r hr
      obtain ⟨value, errors, hinit, herrors⟩ := hworks.writes r hr
      simp only [tstFileIoWithHole2, Option.bind_eq_bind, Option.bind_eq_some_iff, hole2Asserted,
        Option.map_eq_some_iff, Option.pure_def, Option.some_inj, Prod.mk.injEq] at hinit
      obtain ⟨m, hm, o, ho, _, -, _, ⟨position, hposition, rfl⟩, -, rfl⟩ := hinit
      -- the pointer is never negative
      have hpointer := bne_eq_false_iff_eq.mp
        (herrors _ (List.mem_append_left _ (List.mem_append_left _ List.mem_cons_self)))
      exact ⟨o, position, ho, hposition, le_of_le_of_eq (Int.natCast_nonneg _) hpointer,
        hasBlock_of_allocvalues hm⟩
    obtain ⟨-, position, -, hposition, hnonneg, hblock⟩ := hrank 0 hp
    have hvalues : 0 ≤ valuesNum := by
      have heq := (hole2Position_eq_some_iff.mp hposition).2.2.2
      simp only [Nat.cast_zero, zero_add, one_mul] at heq
      omega
    obtain ⟨n, rfl⟩ := Int.eq_ofNat_of_zero_le hvalues
    refine ⟨arrayFits_iff.mpr ⟨hvalues, hblock⟩, fun r hr ↦ ?_⟩
    obtain ⟨o, position, ho, hposition, -⟩ := hrank r hr
    exact hole2_fits_iff.mp ⟨o, position, ho, hposition⟩
  · rintro ⟨harray, hfits⟩
    obtain ⟨n, rfl⟩ := Int.eq_ofNat_of_zero_le harray.count
    exact h.hole2_stores harray hfits

/-- What a rank writes through a resized view, and where the pointer is afterwards. -/
theorem write_standardArray (h : Transferable cfg t fields) (disp e : ℤ) (r : ℕ) (m : Memory) :
    (OpenFile.setView disp t.datatype.typemap (t.datatype.typemap.resized 0 e)).write
        t.datatype.typemap n (written cfg t fields r n m)
      = (elementWrites t.datatype.typemap (fun i ↦ disp + i * e) n fun i k ↦
          expected cfg t fields r i (t.datatype.typemap.position k),
        ⟨disp, t.datatype.typemap, t.datatype.typemap.resized 0 e, n⟩) := by
  rw [write_resized h.size_pos]
  exact Prod.ext (elementWrites_congr (fun _ _ ↦ rfl) fun i hi k hk ↦ h.written_element m hi hk) rfl

/-- What a rank reads through a resized view. -/
theorem read_standardArray (h : Transferable cfg t fields) (disp e : ℤ) (file : File) :
    ∃ buf, (OpenFile.setView disp t.datatype.typemap (t.datatype.typemap.resized 0 e)).read file
        t.datatype.typemap n (freshValues t n)
        = (buf, ⟨disp, t.datatype.typemap, t.datatype.typemap.resized 0 e, n⟩) ∧
      Untouched t n buf ∧ ∀ i < n, ∀ k < t.datatype.typemap.size,
        disp + i * e + t.datatype.typemap.position k < file.length →
          buf (t.datatype.typemap.position (i * t.datatype.typemap.size + k))
            = file.bytes (disp + i * e + t.datatype.typemap.position k) :=
  ⟨_, Prod.ext rfl (advance_setView h.size_pos), fun _ hq ↦ File.read_frame hq,
    fun _ hi _ hk hlength ↦ read_resized h.ordered h.size_pos hi hk hlength⟩

/-- The comparisons of a file with a resized view. -/
theorem no_errors_resized (disp e : ℤ) (n : ℕ) (type : Typemap) (message message' : String) :
    ∀ x ∈ positionErrors ⟨disp, type, type.resized 0 e, n⟩ (n, disp) message
      ++ datatypeErrors type type message', x.1 = false := by
  intro x hx
  obtain hx | hx := List.mem_append.mp hx
  · exact no_positionErrors rfl rfl message x hx
  · exact no_datatypeErrors _ _ x hx

theorem hole_stores (h : Transferable cfg t fields) (hp : p < 2 ^ 31)
    (hextent : t.datatype.typemap.extent < 2 ^ 31) (harray : ArrayFits t n) (hfits : HoleFits n p) :
    tstFileIoWithHole.Stores cfg t n n p g := by
  have hpos := h.extent_pos
  have hfiletype := holeFiletype_eq hpos hextent
  have hdisp := fun r (hr : r < p) ↦ holeDisp_eq hpos hextent (hr.trans hp) (hfits r hr)
  have hviewPoint := fun r (hr : r < p) ↦ holeAsserted_eq hpos hextent (hfits r hr)
  have hplace : ∀ r i, tstFileIoWithHole.place t.datatype.typemap n p r i
      = ((2 * (r * n + i) : ℕ) : ℤ) * t.datatype.typemap.extent := fun r i ↦ by
    rw [tstFileIoWithHole]
    push_cast
    ring
  have herrors := fun r : ℕ ↦ no_errors_resized (r * (2 * t.datatype.typemap.extent) * n)
    (2 * t.datatype.typemap.extent) n t.datatype.typemap "Error in position" "Error in datatype"
  refine h.stores (fun r i ↦ 2 * (r * n + i)) (fun r _ i _ ↦ hplace r i)
    (fun r _ i hi r' _ i' hi' heq ↦ slot_injective hi hi' (by omega)) (fun r hr ↦ ?_)
    (fun r hr file ↦ ?_) fun r hr ↦ ?_
  · refine ⟨_, ?_, herrors r⟩
    refine Option.bind_eq_some_iff.mpr ⟨_, harray.allocvalues_eq, ?_⟩
    refine Option.bind_eq_some_iff.mpr ⟨_, hfiletype, ?_⟩
    refine Option.bind_eq_some_iff.mpr ⟨_, hdisp r hr, ?_⟩
    refine Option.bind_eq_some_iff.mpr ⟨_, h.settable.setstandardarray_eq n _ r, ?_⟩
    refine Option.bind_eq_some_iff.mpr ⟨_, elementCount_natCast n, ?_⟩
    refine Option.bind_eq_some_iff.mpr ⟨_, hviewPoint r hr, ?_⟩
    rw [h.write_standardArray]
    rfl
  · obtain ⟨buf, hread, huntouched, hdata⟩ := h.read_standardArray (n := n)
      (r * (2 * t.datatype.typemap.extent) * n) (2 * t.datatype.typemap.extent) file
    refine ⟨buf, _, ?_, herrors r, huntouched, hdata⟩
    refine Option.bind_eq_some_iff.mpr ⟨_, harray.allocvalues_eq, ?_⟩
    refine Option.bind_eq_some_iff.mpr ⟨_, hfiletype, ?_⟩
    refine Option.bind_eq_some_iff.mpr ⟨_, hdisp r hr, ?_⟩
    refine Option.bind_eq_some_iff.mpr ⟨_, elementCount_natCast n, ?_⟩
    refine Option.bind_eq_some_iff.mpr ⟨_, hviewPoint r hr, ?_⟩
    rw [Int.toNat_natCast, hread]
    rfl
  · refine ⟨_, n, r * (2 * t.datatype.typemap.extent) * n, hfiletype, ?_, ?_⟩
    · exact Option.bind_eq_some_iff.mpr ⟨_, hfiletype, hviewPoint r hr⟩
    · rw [Typemap.extent_resized]
      rfl

theorem hole_works_iff (h : Transferable cfg t fields) (hpos : 0 < p) (hp : p < 2 ^ 31)
    (hextent : t.datatype.typemap.extent < 2 ^ 31) {valuesNum : ℤ} :
    tstFileIoWithHole.Works cfg t valuesNum p g ↔
      ArrayFits t valuesNum ∧ HoleFits valuesNum.toNat p := by
  constructor
  · intro hworks
    have hrank : ∀ r < p, HasBlock t valuesNum ∧ 0 ≤ valuesNum ∧ FitsInt (r * valuesNum) := by
      intro r hr
      obtain ⟨value, errors, hinit, -⟩ := hworks.writes r hr
      simp only [tstFileIoWithHole, Option.bind_eq_bind, Option.bind_eq_some_iff, holeAsserted,
        holeViewPoint, Option.map_eq_some_iff, elementCount_eq_some_iff,
        checkedSigned_eq_some_iff] at hinit
      obtain ⟨m, hm, -, -, -, -, -, -, count, hcount, -, ⟨-, ⟨-, ⟨hproduct, -⟩, -⟩, -⟩, -⟩ := hinit
      exact ⟨hasBlock_of_allocvalues hm, by omega, hproduct⟩
    obtain ⟨hblock, hvalues, -⟩ := hrank 0 hpos
    refine ⟨arrayFits_iff.mpr ⟨hvalues, hblock⟩, fun r hr ↦ ?_⟩
    have hlt := (hrank r hr).2.2.2
    rw [← Int.toNat_of_nonneg hvalues] at hlt
    exact_mod_cast hlt
  · rintro ⟨harray, hfits⟩
    obtain ⟨n, rfl⟩ := Int.eq_ofNat_of_zero_le harray.count
    exact h.hole_stores hp hextent harray hfits

theorem arrange_stores (h : Transferable cfg t fields) (hp : p < 2 ^ 31)
    (hextent : t.datatype.typemap.extent < 2 ^ 31) (harray : ArrayFits t n) :
    tstFileIoWithArrange.Stores cfg t n n p g := by
  have hpos := h.extent_pos
  have hfiletype : arrangeFiletype t.datatype.typemap p
      = some (t.datatype.typemap.resized 0 (p * t.datatype.typemap.extent)) := by
    rw [arrangeFiletype, checkedOffset_mul hp hpos.le (by omega), Option.map_some]
  have hdisp : ∀ r < p, arrangeDisp t.datatype.typemap r
      = some (r * t.datatype.typemap.extent) :=
    fun r hr ↦ checkedOffset_mul (hr.trans hp) hpos.le (by omega)
  have hplace : ∀ r i, tstFileIoWithArrange.place t.datatype.typemap n p r i
      = ((i * p + r : ℕ) : ℤ) * t.datatype.typemap.extent := fun r i ↦ by
    rw [tstFileIoWithArrange]
    push_cast
    ring
  have herrors := fun r : ℕ ↦ no_errors_resized (r * t.datatype.typemap.extent)
    (p * t.datatype.typemap.extent) n t.datatype.typemap "Error in position by init"
    "Error in datatype"
  refine h.stores (fun r i ↦ i * p + r) (fun r _ i _ ↦ hplace r i)
    (fun r hr i _ r' hr' i' _ heq ↦ (slot_injective hr hr' heq).symm) (fun r hr ↦ ?_)
    (fun r hr file ↦ ?_) fun r hr ↦ ?_
  · by_cases heven : g % 2 = 0
    · refine ⟨_, ?_, herrors r⟩
      simp only [tstFileIoWithArrange, hfiletype, hdisp r hr, arrangeAsserted, Option.map_some,
        harray.allocvalues_eq, Int.toNat_natCast, h.settable.setstandardarray_eq,
        elementCount_natCast, Option.bind_eq_bind, Option.bind_some, Option.pure_def,
        h.write_standardArray, if_pos heven]
      rfl
    · refine ⟨[], ?_, fun x hx ↦ absurd hx List.not_mem_nil⟩
      simp only [tstFileIoWithArrange, hfiletype, hdisp r hr, harray.allocvalues_eq,
        Int.toNat_natCast, h.settable.setstandardarray_eq, elementCount_natCast,
        Option.bind_eq_bind, Option.bind_some, Option.pure_def, h.write_standardArray,
        if_neg heven]
  · obtain ⟨buf, hread, huntouched, hdata⟩ := h.read_standardArray (n := n)
      (r * t.datatype.typemap.extent) (p * t.datatype.typemap.extent) file
    refine ⟨buf, _, ?_, herrors r, huntouched, hdata⟩
    simp only [tstFileIoWithArrange, hfiletype, hdisp r hr, arrangeAsserted, Option.map_some,
      harray.allocvalues_eq, Int.toNat_natCast, elementCount_natCast, Option.bind_eq_bind,
      Option.bind_some, Option.pure_def, hread]
    rfl
  · refine ⟨_, n, r * t.datatype.typemap.extent, hfiletype, ?_, ?_⟩
    · simp only [tstFileIoWithArrange, arrangeAsserted, hdisp r hr, Option.map_some]
    · rw [Typemap.extent_resized]
      rfl

theorem arrange_works_iff (h : Transferable cfg t fields) (hpos : 0 < p) (hp : p < 2 ^ 31)
    (hextent : t.datatype.typemap.extent < 2 ^ 31) {valuesNum : ℤ} :
    tstFileIoWithArrange.Works cfg t valuesNum p g ↔ ArrayFits t valuesNum := by
  constructor
  · intro hworks
    obtain ⟨buf, errors, hrun, -⟩ := hworks.reads 0 hpos (.new fun _ ↦ 0)
    simp only [tstFileIoWithArrange, Option.bind_eq_bind, Option.bind_eq_some_iff,
      elementCount_eq_some_iff] at hrun
    obtain ⟨m, hm, -, -, -, -, count, hcount, -⟩ := hrun
    exact arrayFits_iff.mpr ⟨by omega, hasBlock_of_allocvalues hm⟩
  · intro harray
    obtain ⟨n, rfl⟩ := Int.eq_ofNat_of_zero_le harray.count
    exact h.arrange_stores hp hextent harray

end Transferable

/-! ## The datatypes of the tests -/

/-- Offsets are computed from extents that are far below the bounds of an `int`. -/
theorem extent_lt (cfg : Config) {t : TypeSlot} (ht : t ∈ initTypes cfg)
    (hnull : t.datatype ≠ .null) : t.datatype.typemap.extent < 2 ^ 31 :=
  Config.forall_slot (P := fun _ t ↦ t.datatype ≠ .null → t.datatype.typemap.extent < 2 ^ 31)
    (by decide +kernel) cfg ht hnull

/-- **Files with strides.** For every datatype that the tests of file access run with, every number
of ranks and every `values_num`: the tests work exactly if the arrays fit and, in two of them, no
`int` overflows from which an offset is computed. -/
theorem strided_layouts_iff (cfg : Config) (t : TypeSlot) (ht : t ∈ initTypes cfg)
    (hnull : t.datatype ≠ .null) (row : Test) (hrow : row ∈ ioTests cfg)
    (hadmitted : t.typeClass &&& row.runWithType ≠ 0) (valuesNum : ℤ) (p globalSize : ℕ)
    (hpos : 0 < p) (hp : p < 2 ^ 31) :
    (tstFileIoWithHole2.Works cfg t valuesNum p globalSize ↔
        ArrayFits t valuesNum ∧ Hole2Fits valuesNum.toNat p) ∧
      (tstFileIoWithHole.Works cfg t valuesNum p globalSize ↔
        ArrayFits t valuesNum ∧ HoleFits valuesNum.toNat p) ∧
      (tstFileIoWithArrange.Works cfg t valuesNum p globalSize ↔ ArrayFits t valuesNum) := by
  rw [runWithType_ioTests cfg row hrow] at hadmitted
  obtain ⟨fields, h, -⟩ := exists_transferable cfg ht hnull hadmitted
  have hextent := extent_lt cfg ht hnull
  exact ⟨h.hole2_works_iff hpos, h.hole_works_iff hpos hp hextent,
    h.arrange_works_iff hpos hp hextent⟩

/-- Two ranks with three values of `MPI_INT` each. -/
theorem strided_layouts_iff_int :
    (tstFileIoWithHole2.Works ⟨2, true, true, true, true, true, true, true, true⟩ (slotMpi2 6)
        3 2 2 ↔ ArrayFits (slotMpi2 6) 3 ∧ Hole2Fits 3 2) ∧
      (tstFileIoWithHole.Works ⟨2, true, true, true, true, true, true, true, true⟩ (slotMpi2 6)
        3 2 2 ↔ ArrayFits (slotMpi2 6) 3 ∧ HoleFits 3 2) ∧
      (tstFileIoWithArrange.Works ⟨2, true, true, true, true, true, true, true, true⟩ (slotMpi2 6)
        3 2 2 ↔ ArrayFits (slotMpi2 6) 3) :=
  strided_layouts_iff ⟨2, true, true, true, true, true, true, true, true⟩ (slotMpi2 6)
    (by decide +kernel) (by decide +kernel)
    ((ioTests ⟨2, true, true, true, true, true, true, true, true⟩).getD 1 noTest)
    (by decide +kernel) (by decide +kernel) 3 2 2 (by norm_num) (by norm_num)

/-- With 536870912 values the second of two ranks has its position at 3221225472, which is more than
an `int` holds. -/
theorem strided_layouts_overflow :
    ¬∀ (cfg : Config) (t : TypeSlot), t ∈ initTypes cfg → t.datatype ≠ .null →
      t.datatype.typemap.Gapless → t.datatype.typemap.extent = t.datatype.typemap.size →
        ∀ row ∈ ioTests cfg, t.typeClass &&& row.runWithType ≠ 0 →
          ∀ n p globalSize : ℕ, ArrayFits t n → 0 < p → p < 2 ^ 31 →
            tstFileIoWithHole2.Works cfg t n p globalSize ∧
              tstFileIoWithHole.Works cfg t n p globalSize ∧
              tstFileIoWithArrange.Works cfg t n p globalSize := by
  intro h
  let cfg : Config := ⟨2, true, true, true, true, true, true, true, true⟩
  have hmem : slotMpi2 0 ∈ initTypes cfg := by decide +kernel
  have hnull : (slotMpi2 0).datatype ≠ .null := by decide +kernel
  have hclass : (slotMpi2 0).typeClass &&& ioTypes cfg ≠ 0 := by decide +kernel
  obtain ⟨fields, htransferable, -⟩ := exists_transferable cfg hmem hnull hclass
  obtain ⟨hworks, -, -⟩ := h cfg (slotMpi2 0) hmem hnull (by decide +kernel) (by decide +kernel)
    ((ioTests cfg).getD 1 noTest) (by decide +kernel) (by decide +kernel) 536870912 2 2
    (by decide +kernel) (by norm_num) (by norm_num)
  obtain ⟨-, hfits⟩ := (htransferable.hole2_works_iff Nat.two_pos).mp hworks
  exact absurd (hfits 1 (by norm_num)).2 (by decide +kernel)

end MpiTestSuite

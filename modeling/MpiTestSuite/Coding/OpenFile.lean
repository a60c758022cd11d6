import Mathlib.Data.List.ProdSigma
import Mathlib.Tactic.Ring
import MpiTestSuite.Coding.FileView
import MpiTestSuite.Coding.Resized

/-!
# Open files

A process that has opened a file sees it through a view: a displacement, an elementary datatype and
a datatype that is repeated from the displacement on. The file pointer counts elementary datatypes
of the view.

## Elements in slots

If all elements that are written lie at multiples of the extent of their datatype, and no two of
them at the same one, they do not touch each other, and each is found where it was written, in
whatever order the bytes arrive (`File.write_elements`). How a view leads to these places, by a
stride of its own or because the pointer is moved, is another matter
(`fileWrites_eq_elementWrites`).
-/

namespace MpiTestSuite

/-! ## Displacements -/

namespace Typemap

variable (T : Typemap) (d : ℤ)

@[simp] theorem shift_zero : T.shift 0 = T := by
  simp [shift]

@[simp] theorem scalars_shift : (T.shift d).scalars = T.scalars.map fun p ↦ (d + p.1, p.2) := by
  rw [scalars, scalars, shift, List.filterMap_map, List.map_filterMap]
  refine List.filterMap_congr fun p _ ↦ ?_
  obtain ⟨q, e⟩ := p
  cases e <;> rfl

@[simp] theorem size_shift : (T.shift d).size = T.size := by
  rw [size, size, scalars_shift, List.map_map]
  rfl

@[simp] theorem bytes_shift : (T.shift d).bytes = T.bytes.map (d + ·) := by
  rw [bytes, bytes, scalars_shift, List.flatMap_map, List.map_flatMap]
  refine List.flatMap_congr fun p _ ↦ ?_
  simp only [List.map_map, Function.comp_def, add_assoc]

/-! Bounds that have been moved. -/

theorem markers_shift (e : TypemapEntry) : (T.shift d).markers e = (T.markers e).map (d + ·) := by
  rw [markers, markers, shift, List.filter_map, List.map_map, List.map_map]
  rfl

theorem align_shift : (T.shift d).align = T.align := by
  rw [align, align, scalars_shift, List.map_map]
  rfl

theorem min?_map_add (l : List ℤ) : (l.map (d + ·)).min? = l.min?.map (d + ·) := by
  cases l with
  | nil => rfl
  | cons a l =>
    rw [List.map_cons, List.min?_cons', List.min?_cons', Option.map_some, List.foldl_map]
    exact congrArg some (List.foldl_hom (d + ·) fun x y ↦ min_add_add_left d x y)

theorem max?_map_add (l : List ℤ) : (l.map (d + ·)).max? = l.max?.map (d + ·) := by
  cases l with
  | nil => rfl
  | cons a l =>
    rw [List.map_cons, List.max?_cons', List.max?_cons', Option.map_some, List.foldl_map]
    exact congrArg some (List.foldl_hom (d + ·) fun x y ↦ max_add_add_left d x y)

theorem getD_map_add (o : Option ℤ) (b : ℤ) : (o.map (d + ·)).getD (d + b) = d + o.getD b := by
  cases o <;> rfl

variable {T} in
theorem lb_shift (h : T.scalars ≠ []) : (T.shift d).lb = d + T.lb := by
  obtain ⟨b, hb⟩ := Option.isSome_iff_exists.mp
    (List.isSome_min?_of_ne_nil (l := T.scalars.map Prod.fst) (by simpa using h))
  have hmoved : ((T.shift d).scalars.map Prod.fst).min? = some (d + b) := by
    have hmap := min?_map_add d (T.scalars.map Prod.fst)
    rw [hb, List.map_map] at hmap
    simpa [Function.comp_def] using hmap
  rw [lb, lb, markers_shift, min?_map_add, hmoved, hb]
  exact getD_map_add d _ _

variable {T} in
/-- Elements at a displacement are as far from each other. -/
theorem extent_shift (h : T.scalars ≠ []) : (T.shift d).extent = T.extent := by
  have hends : (T.scalars.map fun p ↦ p.1 + (p.2.sizeof : ℤ)) ≠ [] := by simpa using h
  obtain ⟨b, hb⟩ := Option.isSome_iff_exists.mp (List.isSome_max?_of_ne_nil hends)
  have hmoved : ((T.shift d).scalars.map fun p ↦ p.1 + (p.2.sizeof : ℤ)).max? = some (d + b) := by
    have hmap := max?_map_add d (T.scalars.map fun p ↦ p.1 + (p.2.sizeof : ℤ))
    rw [hb, List.map_map] at hmap
    simpa [Function.comp_def, add_assoc] using hmap
  have hub : (T.shift d).ub = d + T.ub := by
    rw [ub, ub, hmoved, hb, lb_shift d h, markers_shift, max?_map_add, align_shift,
      Option.getD_some, Option.getD_some, add_sub_add_left_eq_sub, add_assoc]
    exact getD_map_add d _ _
  rw [extent, extent, hub, lb_shift d h, add_sub_add_left_eq_sub]

variable {T} in
theorem struct_singleton : struct [(1, d, T)] = T.shift d := by
  simp [struct, block, shift]

theorem shift_resized (lb extent : ℤ) :
    (T.resized lb extent).shift d = (T.shift d).resized (d + lb) extent := by
  rw [resized, resized, scalars_shift, shift]
  simp [add_assoc, Function.comp_def]

/-- The elements of a view that is a resized datatype at a displacement. -/
theorem position_shift_resized {T : Typemap} (h : 0 < T.size) (d lb extent : ℤ) (i : ℕ) {k : ℕ}
    (hk : k < T.size) :
    ((T.resized lb extent).shift d).position (i * T.size + k)
      = d + i * extent + T.position k := by
  have hposition := resized_position (d + lb) extent (T := T.shift d) (by rwa [size_shift]) i k
    (by rwa [size_shift])
  have hbytes : k < T.bytes.length := hk.trans_eq T.length_bytes.symm
  rw [size_shift, ← shift_resized] at hposition
  rw [hposition, position_of_lt (by rwa [size_shift]), position_of_lt hk, bytes_shift,
    List.getD_eq_getElem _ _ (by rwa [List.length_map]), List.getElem_map,
    List.getD_eq_getElem _ _ hbytes]
  ring

end Typemap

/-! ## Open files -/

/-- An open file, as one process sees it. -/
structure OpenFile where
  disp : ℤ
  etype : Typemap
  filetype : Typemap
  /-- The file pointer, in elementary datatypes. -/
  pointer : ℕ

namespace OpenFile

/-- `MPI_File_set_view`. -/
def setView (disp : ℤ) (etype filetype : Typemap) : OpenFile := ⟨disp, etype, filetype, 0⟩

/-- What the view is made of. -/
def view (o : OpenFile) : Typemap := o.filetype.shift o.disp

/-- `MPI_File_seek` with `MPI_SEEK_SET`. -/
def seekSet (o : OpenFile) (offset : ℕ) : OpenFile := { o with pointer := offset }

/-- `MPI_File_seek` with `MPI_SEEK_CUR`. -/
def seekCur (o : OpenFile) (offset : ℕ) : OpenFile := { o with pointer := o.pointer + offset }

/-- The pointer behind `n` elements. -/
def advance (o : OpenFile) (type : Typemap) (n : ℕ) : OpenFile :=
  { o with pointer := o.pointer + n * type.size / o.etype.size }

/-- `MPI_File_write`: the bytes that are written. -/
def write (o : OpenFile) (type : Typemap) (n : ℕ) (buf : Memory) :
    List (ℤ × UInt8) × OpenFile :=
  (fileWrites o.view (o.pointer * o.etype.size) type n buf, o.advance type n)

/-- `MPI_File_read`. -/
def read (o : OpenFile) (file : File) (type : Typemap) (n : ℕ) (buf : Memory) :
    Memory × OpenFile :=
  (file.read o.view (o.pointer * o.etype.size) type n buf, o.advance type n)

/-- The pointer counts elements if they are elementary. -/
theorem advance_eq {o : OpenFile} (h : 0 < o.etype.size) (n : ℕ) :
    o.advance o.etype n = { o with pointer := o.pointer + n } := by
  rw [advance, Nat.mul_div_cancel _ h]

end OpenFile

/-! ## Elements -/

/-- The bytes of `n` elements with their places in a file. -/
def elementWrites (T : Typemap) (place : ℕ → ℤ) (n : ℕ) (value : ℕ → ℕ → UInt8) :
    List (ℤ × UInt8) :=
  (List.range n).flatMap fun i ↦ (List.range T.size).map fun k ↦
    (place i + T.position k, value i k)

theorem elementWrites_succ (T : Typemap) (place : ℕ → ℤ) (n : ℕ) (value : ℕ → ℕ → UInt8) :
    elementWrites T place (n + 1) value = elementWrites T place n value
      ++ (List.range T.size).map fun k ↦ (place n + T.position k, value n k) := by
  rw [elementWrites, List.range_succ, List.flatMap_append, List.flatMap_singleton]
  rfl

theorem elementWrites_congr {T : Typemap} {place place' : ℕ → ℤ} {n : ℕ}
    {value value' : ℕ → ℕ → UInt8} (hplace : ∀ i < n, place i = place' i)
    (hvalue : ∀ i < n, ∀ k < T.size, value i k = value' i k) :
    elementWrites T place n value = elementWrites T place' n value' := by
  refine List.flatMap_congr fun i hi ↦ List.map_congr_left fun k hk ↦ ?_
  rw [List.mem_range] at hi hk
  rw [hplace i hi, hvalue i hi k hk]

/-- Elements that are written through a view at a distance of its own. -/
theorem fileWrites_eq_elementWrites {view T : Typemap} {place : ℕ → ℤ} {start n : ℕ} {buf : Memory}
    (hview : ∀ i < n, ∀ k < T.size,
      view.position (start + (i * T.size + k)) = place i + T.position k) :
    fileWrites view start T n buf
      = elementWrites T place n fun i k ↦ buf (T.position (i * T.size + k)) := by
  have hblocks : List.range (n * T.size)
      = (List.range n).flatMap fun i ↦ (List.range T.size).map fun k ↦ i * T.size + k := by
    induction n with
    | zero => rw [zero_mul]; rfl
    | succ n ih =>
      rw [List.range_succ, List.flatMap_append, List.flatMap_singleton, Nat.succ_mul,
        List.range_add, ih fun i hi ↦ hview i (hi.trans n.lt_succ_self)]
  rw [fileWrites, hblocks, List.map_flatMap]
  refine List.flatMap_congr fun i hi ↦ ?_
  rw [List.map_map]
  refine List.map_congr_left fun k hk ↦ ?_
  rw [List.mem_range] at hi hk
  rw [Function.comp_apply, hview i hi k hk]

namespace File

variable {T : Typemap} {p n : ℕ} {place : ℕ → ℕ → ℤ} {slot : ℕ → ℕ → ℕ}
  {value : ℕ → ℕ → ℕ → UInt8}

/-- The places of the bytes of all elements are different. -/
theorem nodup_elementWrites (hT : T.Ordered) (hsize : 0 < T.size)
    (hplace : ∀ r < p, ∀ i < n, place r i = slot r i * T.extent)
    (hslot : ∀ r < p, ∀ i < n, ∀ r' < p, ∀ i' < n, slot r i = slot r' i' → r = r' ∧ i = i') :
    (((List.range p).flatMap fun r ↦ elementWrites T (place r) n (value r)).map
      Prod.fst).Nodup := by
  have hall : (List.range p).flatMap (fun r ↦ elementWrites T (place r) n (value r))
      = ((List.range p) ×ˢ (List.range n) ×ˢ (List.range T.size)).map fun x ↦
        (place x.1 x.2.1 + T.position x.2.2, value x.1 x.2.1 x.2.2) := by
    simp only [SProd.sprod, List.product, elementWrites, List.map_flatMap, List.map_map,
      Function.comp_def]
  rw [hall, List.map_map]
  refine List.Nodup.map_on ?_ ((List.nodup_range).product ((List.nodup_range).product
    List.nodup_range))
  rintro ⟨r, i, k⟩ hx ⟨r', i', k'⟩ hx' heq
  simp only [List.mem_product, List.mem_range] at hx hx'
  obtain ⟨hr, hi, hk⟩ := hx
  obtain ⟨hr', hi', hk'⟩ := hx'
  simp only [Function.comp_apply, hplace r hr i hi, hplace r' hr' i' hi',
    ← Typemap.position_add hsize] at heq
  have hbyte := hT.position_injective hsize heq
  have hdiv := congrArg (· / T.size) hbyte
  simp only [mul_comm (slot _ _), Nat.mul_add_div hsize, Nat.div_eq_of_lt hk, Nat.div_eq_of_lt hk',
    add_zero] at hdiv
  obtain ⟨rfl, rfl⟩ := hslot r hr i hi r' hr' i' hi' hdiv
  rw [Nat.add_left_cancel hbyte]

/-- **Elements in slots.** In whatever order the bytes of all elements are written, each of them is
found at its place. -/
theorem write_elements (hT : T.Ordered) (hsize : 0 < T.size)
    (hplace : ∀ r < p, ∀ i < n, place r i = slot r i * T.extent)
    (hslot : ∀ r < p, ∀ i < n, ∀ r' < p, ∀ i' < n, slot r i = slot r' i' → r = r' ∧ i = i')
    {order : List (ℤ × UInt8)}
    (horder : order.Perm ((List.range p).flatMap fun r ↦ elementWrites T (place r) n (value r)))
    (f : File) {r i k : ℕ} (hr : r < p) (hi : i < n) (hk : k < T.size) :
    (f.write order).bytes (place r i + T.position k) = value r i k ∧
      place r i + T.position k < (f.write order).length := by
  have hnodup : (order.map Prod.fst).Nodup :=
    (horder.map Prod.fst).nodup_iff.mpr (nodup_elementWrites hT hsize hplace hslot)
  refine write_apply (w := (place r i + T.position k, value r i k)) hnodup (horder.mem_iff.mpr ?_) f
  refine List.mem_flatMap.mpr ⟨r, List.mem_range.mpr hr, List.mem_flatMap.mpr
    ⟨i, List.mem_range.mpr hi, List.mem_map.mpr ⟨k, List.mem_range.mpr hk, rfl⟩⟩⟩

end File

end MpiTestSuite

import Mathlib.Algebra.Order.Ring.Int
import Mathlib.Data.List.GetD
import Mathlib.Data.List.Nodup
import MpiTestSuite.Coding.Layout

/-!
# Type maps

An MPI datatype stands for its *type map*: a list of basic types with their displacements. The type
map gives the bounds of the datatype, and their distance, the *extent*, at which consecutive
elements lie. It also gives the order in which the bytes of the elements are transferred
(`Typemap.position`), for a buffer in memory as for a view of a file.

Only the bytes of basic types are transferred, so what is transferred is shorter than what it is
taken from if there is padding in an element, or behind it.
-/

namespace MpiTestSuite

/-- What stands in a type map: a basic type, or one of the two bounds that MPI 2 has as types. -/
inductive TypemapEntry
  | scalar (s : Scalar)
  /-- `MPI_LB`. -/
  | lb
  /-- `MPI_UB`. -/
  | ub
  deriving DecidableEq, Repr

/-- A type map. -/
structure Typemap where
  entries : List (ℤ × TypemapEntry)
  deriving DecidableEq, Repr

namespace Typemap

/-! ## Bounds -/

/-- The basic types with their displacements. -/
def scalars (T : Typemap) : List (ℤ × Scalar) :=
  T.entries.filterMap fun
    | (d, .scalar s) => some (d, s)
    | _ => none

/-- The displacements of an explicit bound. -/
def markers (T : Typemap) (e : TypemapEntry) : List ℤ :=
  (T.entries.filter fun p ↦ p.2 = e).map Prod.fst

/-- `MPI_Type_size`. -/
def size (T : Typemap) : ℕ := (T.scalars.map fun p ↦ p.2.sizeof).sum

/-- The strictest alignment. -/
def align (T : Typemap) : ℕ := (T.scalars.map fun p ↦ p.2.sizeof).foldl max 1

/-- The lower bound: the least of the explicit ones, else the least displacement. -/
def lb (T : Typemap) : ℤ :=
  (T.markers .lb).min?.getD ((T.scalars.map Prod.fst).min?.getD 0)

/-- The upper bound: the greatest of the explicit ones, else the end of the data, increased to make
the extent a multiple of the strictest alignment. -/
def ub (T : Typemap) : ℤ :=
  (T.markers .ub).max?.getD
    (T.lb + roundUp
      ((T.scalars.map fun p ↦ p.1 + (p.2.sizeof : ℤ)).max?.getD 0 - T.lb).toNat T.align)

/-- The extent. -/
def extent (T : Typemap) : ℤ := T.ub - T.lb

/-! ## Constructors -/

/-- A basic type. -/
def basic (s : Scalar) : Typemap := ⟨[(0, .scalar s)]⟩

/-- The type map at a displacement. -/
def shift (T : Typemap) (d : ℤ) : Typemap := ⟨T.entries.map fun p ↦ (d + p.1, p.2)⟩

/-- Elements one after another, as in a buffer. -/
def block (T : Typemap) (n : ℕ) : Typemap :=
  ⟨(List.range n).flatMap fun i : ℕ ↦ (T.shift (i * T.extent)).entries⟩

/-- `MPI_Type_create_struct`: for each member the number of elements, the displacement and the
type. -/
def struct (members : List (ℕ × ℤ × Typemap)) : Typemap :=
  ⟨members.flatMap fun p ↦ ((p.2.2.block p.1).shift p.2.1).entries⟩

/-- `MPI_Type_create_hindexed`: blocks of elements at displacements in bytes. -/
def hindexed (blocks : List (ℕ × ℤ)) (T : Typemap) : Typemap :=
  struct (blocks.map fun p ↦ (p.1, p.2, T))

/-- `MPI_Type_indexed`: the displacements are in elements. -/
def indexed (blocks : List (ℕ × ℤ)) (T : Typemap) : Typemap :=
  hindexed (blocks.map fun p ↦ (p.1, p.2 * T.extent)) T

/-- `MPI_Type_create_hvector`: blocks of equal length at equal distances. -/
def hvector (count blocklength : ℕ) (stride : ℤ) (T : Typemap) : Typemap :=
  hindexed ((List.range count).map fun i : ℕ ↦ (blocklength, i * stride)) T

/-- `MPI_Type_vector`: the distance is in elements. -/
def vector (count blocklength : ℕ) (stride : ℤ) (T : Typemap) : Typemap :=
  hvector count blocklength (stride * T.extent) T

/-- `MPI_Type_contiguous`. -/
def contiguous (count : ℕ) (T : Typemap) : Typemap := T.block count

/-- The type map of an object in memory. -/
def ofLayout (l : Layout) : Typemap := ⟨l.scalars.map fun p ↦ (p.1, .scalar p.2)⟩

/-! ## The order of the bytes -/

/-- The displacements of the bytes of data. -/
def bytes (T : Typemap) : List ℤ :=
  T.scalars.flatMap fun p ↦ (List.range p.2.sizeof).map fun i : ℕ ↦ p.1 + i

/-- Where byte `k` of the data is, in elements at the distance of the extent. -/
def position (T : Typemap) (k : ℕ) : ℤ :=
  (k / T.size : ℕ) * T.extent + T.bytes.getD (k % T.size) 0

theorem length_bytes (T : Typemap) : T.bytes.length = T.size := by
  simp [bytes, size, List.length_flatMap]

theorem mem_bytes {T : Typemap} {d : ℤ} {s : Scalar} (h : (d, s) ∈ T.scalars) {i : ℕ}
    (hi : i < s.sizeof) : d + i ∈ T.bytes :=
  List.mem_flatMap.mpr ⟨(d, s), h, List.mem_map_of_mem (List.mem_range.mpr hi)⟩

/-- After whole elements the order starts again. -/
theorem position_add {T : Typemap} (h : 0 < T.size) (n k : ℕ) :
    T.position (n * T.size + k) = n * T.extent + T.position k := by
  rw [position, position, Nat.mul_comm n, Nat.mul_add_div h, Nat.mul_add_mod, Nat.cast_add,
    add_mul, add_assoc]

theorem position_of_lt {T : Typemap} {k : ℕ} (h : k < T.size) :
    T.position k = T.bytes.getD k 0 := by
  rw [position, Nat.div_eq_of_lt h, Nat.mod_eq_of_lt h, Nat.cast_zero, zero_mul, zero_add]

theorem position_mem {T : Typemap} {k : ℕ} (h : k < T.size) : T.position k ∈ T.bytes := by
  have hlt : k < T.bytes.length := h.trans_eq T.length_bytes.symm
  rw [position_of_lt h, List.getD_eq_getElem _ _ hlt]
  exact List.getElem_mem hlt

/-- Every byte of an element is transferred at some point. -/
theorem exists_position {T : Typemap} {b : ℤ} (h : b ∈ T.bytes) :
    ∃ k < T.size, T.position k = b := by
  obtain ⟨k, hk, rfl⟩ := List.getElem_of_mem h
  have hsize : k < T.size := hk.trans_eq T.length_bytes
  exact ⟨k, hsize, by rw [position_of_lt hsize, List.getD_eq_getElem _ _ hk]⟩

/-- What MPI asks of the type that a view is made of: the data of an element is in order and within
the element. Then no two bytes are at the same place. -/
structure Ordered (T : Typemap) : Prop where
  ascending : T.bytes.IsChain (· < ·)
  nonneg : ∀ b ∈ T.bytes, 0 ≤ b
  lt_extent : ∀ b ∈ T.bytes, b < T.extent

instance (T : Typemap) : Decidable T.Ordered :=
  decidable_of_iff
    (T.bytes.IsChain (· < ·) ∧ (∀ b ∈ T.bytes, 0 ≤ b) ∧ ∀ b ∈ T.bytes, b < T.extent)
    ⟨fun h ↦ ⟨h.1, h.2.1, h.2.2⟩, fun h ↦ ⟨h.ascending, h.nonneg, h.lt_extent⟩⟩

namespace Ordered

variable {T : Typemap}

theorem nodup (h : T.Ordered) : T.bytes.Nodup :=
  (List.isChain_iff_pairwise.mp h.ascending).imp fun hlt ↦ hlt.ne

/-- The element that a byte belongs to, and where in the element it is. -/
theorem divMod_position (h : T.Ordered) (hsize : 0 < T.size) (k : ℕ) :
    T.position k / T.extent = (k / T.size : ℕ) ∧
      T.position k % T.extent = T.position (k % T.size) := by
  have hmem := position_mem (Nat.mod_lt k hsize)
  have hlow := h.nonneg _ hmem
  have hhigh := h.lt_extent _ hmem
  have hsplit := position_add hsize (k / T.size) (k % T.size)
  rw [Nat.div_add_mod'] at hsplit
  rw [hsplit, add_comm, Int.add_mul_ediv_right _ _ (by omega), Int.add_mul_emod_self_right,
    Int.ediv_eq_zero_of_lt hlow hhigh, Int.emod_eq_of_lt hlow hhigh, zero_add]
  exact ⟨rfl, rfl⟩

theorem position_injective (h : T.Ordered) (hsize : 0 < T.size) :
    Function.Injective T.position := by
  intro a b heq
  obtain ⟨hdiva, hmoda⟩ := h.divMod_position hsize a
  obtain ⟨hdivb, hmodb⟩ := h.divMod_position hsize b
  have hlt : ∀ k, k % T.size < T.bytes.length := fun k ↦
    (Nat.mod_lt k hsize).trans_eq T.length_bytes.symm
  have helement : a / T.size = b / T.size := by
    rw [heq] at hdiva
    exact_mod_cast hdiva.symm.trans hdivb
  have hbyte : a % T.size = b % T.size := by
    rw [heq, hmodb, position_of_lt (Nat.mod_lt a hsize), position_of_lt (Nat.mod_lt b hsize),
      List.getD_eq_getElem _ _ (hlt a), List.getD_eq_getElem _ _ (hlt b)] at hmoda
    exact ((List.Nodup.getElem_inj_iff h.nodup).mp hmoda).symm
  rw [← Nat.div_add_mod a T.size, ← Nat.div_add_mod b T.size, helement, hbyte]

/-- A place in an element at which there is data is that of some byte. -/
theorem mem_of_position_eq (h : T.Ordered) (hsize : 0 < T.size) {j e : ℕ} {k : ℤ} (hk : 0 ≤ k)
    (hlt : k < T.extent) (heq : T.position j = e * T.extent + k) : k ∈ T.bytes := by
  have hmod := (h.divMod_position hsize j).2
  rw [heq, add_comm, Int.add_mul_emod_self_right, Int.emod_eq_of_lt hk hlt] at hmod
  rw [hmod]
  exact position_mem (Nat.mod_lt j hsize)

end Ordered

/-! ## Padding -/

/-- The data of an element has no gaps and begins at its origin. -/
def Gapless (T : Typemap) : Prop := T.bytes = (List.range T.size).map fun k : ℕ ↦ (k : ℤ)

instance (T : Typemap) : Decidable T.Gapless := by
  unfold Gapless
  infer_instance

theorem Gapless.position_of_lt {T : Typemap} (h : T.Gapless) {k : ℕ} (hk : k < T.size) :
    T.position k = k := by
  rw [Typemap.position_of_lt hk, h, List.getD_eq_getElem _ _ (by simpa using hk)]
  simp

/-- Without padding behind the data of an element either, elements are transferred as they are. -/
theorem Gapless.position_eq {T : Typemap} (h : T.Gapless) (hextent : T.extent = T.size)
    (hsize : 0 < T.size) (k : ℕ) : T.position k = k := by
  have hsplit := position_add hsize (k / T.size) (k % T.size)
  rw [Nat.div_add_mod', h.position_of_lt (Nat.mod_lt k hsize), hextent] at hsplit
  rw [hsplit]
  exact_mod_cast Nat.div_add_mod' k T.size

end Typemap

/-! ## Members of C structs -/

/-- The offsets of the members of a struct, whose first members are `l`. -/
def Layout.offsetsFrom (l : Layout) : List Layout → List ℕ
  | [] => []
  | member :: members => roundUp l.size member.align :: (l.append member).offsetsFrom members

/-- The offsets of the members of a struct. -/
def Layout.offsets (members : List Layout) : List ℕ := Layout.empty.offsetsFrom members

end MpiTestSuite

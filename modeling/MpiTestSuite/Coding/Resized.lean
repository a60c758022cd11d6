import MpiTestSuite.Coding.Typemap

/-!
# Datatypes with other bounds

`MPI_Type_create_resized` gives a datatype other bounds and leaves its data alone. The elements of
the new datatype lie at the distance of the new extent, while each of them has the bytes that it had
before (`Typemap.resized_position`). MPI can be asked for both: for the bounds, and for the *true*
ones, which are those of the data.
-/

namespace MpiTestSuite

/-- What MPI reports of a datatype: its lower bound and its extent, and the true ones. -/
structure TypeBounds where
  lb : ℤ
  extent : ℤ
  trueLb : ℤ
  trueExtent : ℤ
  deriving DecidableEq, Repr

namespace Typemap

/-- `MPI_Type_create_resized`. -/
def resized (T : Typemap) (lb extent : ℤ) : Typemap :=
  ⟨(lb, .lb) :: (lb + extent, .ub) :: T.scalars.map fun p ↦ (p.1, .scalar p.2)⟩

/-- Where the data begins. -/
def trueLb (T : Typemap) : ℤ := (T.scalars.map Prod.fst).min?.getD 0

/-- Where the data ends. -/
def trueUb (T : Typemap) : ℤ := (T.scalars.map fun p ↦ p.1 + (p.2.sizeof : ℤ)).max?.getD 0

/-- What MPI reports. -/
def bounds (T : Typemap) : TypeBounds := ⟨T.lb, T.extent, T.trueLb, T.trueUb - T.trueLb⟩

variable (T : Typemap) (lb extent : ℤ)

@[simp] theorem scalars_resized : (T.resized lb extent).scalars = T.scalars := by
  rw [resized, scalars]
  simp [List.filterMap_map]

@[simp] theorem bytes_resized : (T.resized lb extent).bytes = T.bytes := by
  rw [bytes, bytes, scalars_resized]

@[simp] theorem size_resized : (T.resized lb extent).size = T.size := by
  rw [size, size, scalars_resized]

theorem markers_resized (e : TypemapEntry) : (T.resized lb extent).markers e
    = if e = .lb then [lb] else if e = .ub then [lb + extent] else
      (T.scalars.filter fun p ↦ .scalar p.2 = e).map Prod.fst := by
  rw [resized, markers]
  cases e <;> simp [List.filter_map, Function.comp_def]

@[simp] theorem lb_resized : (T.resized lb extent).lb = lb := by
  rw [Typemap.lb, markers_resized, if_pos rfl]
  rfl

@[simp] theorem extent_resized : (T.resized lb extent).extent = extent := by
  rw [Typemap.extent, lb_resized, ub, markers_resized, if_neg nofun, if_pos rfl]
  exact add_sub_cancel_left lb extent

/-- **Resizing.** The bytes of an element stay what they are, and the elements lie at the new
distance. -/
theorem resized_position {T : Typemap} (h : 0 < T.size) (n k : ℕ) (hk : k < T.size) :
    (T.resized lb extent).position (n * T.size + k) = n * extent + T.position k := by
  have hsplit := position_add (T := T.resized lb extent) (by rwa [size_resized]) n k
  rw [size_resized, extent_resized] at hsplit
  rw [hsplit, position_of_lt (by rwa [size_resized]), position_of_lt hk, bytes_resized]

end Typemap

end MpiTestSuite

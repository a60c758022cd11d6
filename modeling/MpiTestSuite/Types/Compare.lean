import MpiTestSuite.Coding.Resized
import MpiTestSuite.Selection.SlotArray

/-!
# Comparing datatypes

The tests of file views ask MPI for the two datatypes of a view and compare them with the ones that
the view was set to. `tst_type_compare` means to compare the bounds and the true bounds, but asks
for the true bounds of its first argument twice. So it tells apart what differs in its bounds, and
nothing else. A datatype that has been resized to the bounds of another one passes for that.
-/

namespace MpiTestSuite

/-! ## The comparison -/

/-- `MPI_Type_get_extent`. -/
def mpiTypeGetExtent (t : TypeBounds) : ℤ × ℤ := (t.lb, t.extent)

/-- `MPI_Type_get_true_extent`. -/
def mpiTypeGetTrueExtent (t : TypeBounds) : ℤ × ℤ := (t.trueLb, t.trueExtent)

/-- `TST_SUCESS`. -/
def tstSucess : ℤ := 0

/-- `TST_ERROR`. -/
def tstError : ℤ := -1

/-- `tst_type_compare`. -/
def tstTypeCompare (type1 type2 : TypeBounds) : ℤ :=
  let (lb1, extent1) := mpiTypeGetExtent type1
  let (lb2, extent2) := mpiTypeGetExtent type2
  let (trueLb1, trueExtent1) := mpiTypeGetTrueExtent type1
  -- the fourth query is for `type1` again
  let (trueLb2, trueExtent2) := mpiTypeGetTrueExtent type1
  if lb1 = lb2 ∧ extent1 = extent2 ∧ trueLb1 = trueLb2 ∧ trueExtent1 = trueExtent2 then tstSucess
  else tstError

/-- The comparisons of the datatypes of a view, as in `tst_file_io_with_hole2_run`. -/
def viewTypesCheck (datatypeCheck filetypeCheck type : TypeBounds) : Except Stop Unit :=
  if tstTypeCompare datatypeCheck type ≠ tstSucess then .error (.error "Error in datatype")
  else if tstTypeCompare filetypeCheck type ≠ tstSucess then .error (.error "Error in filetype")
  else .ok ()

/-! ## What it tells apart -/

/-- The bounds of two datatypes agree. -/
def SameBounds (a b : TypeBounds) : Prop := a.lb = b.lb ∧ a.extent = b.extent

/-- The true bounds of two datatypes agree. -/
def SameTrueBounds (a b : TypeBounds) : Prop := a.trueLb = b.trueLb ∧ a.trueExtent = b.trueExtent

instance (a b : TypeBounds) : Decidable (SameBounds a b) := inferInstanceAs (Decidable (_ ∧ _))

instance (a b : TypeBounds) : Decidable (SameTrueBounds a b) := inferInstanceAs (Decidable (_ ∧ _))

/-- Comparing a datatype's true bounds with themselves decides nothing. -/
theorem tstTypeCompare_eq_sucess_iff {a b : TypeBounds} :
    tstTypeCompare a b = tstSucess ↔ SameBounds a b := by
  have hne : tstError ≠ tstSucess := by decide
  simp only [tstTypeCompare, mpiTypeGetExtent, mpiTypeGetTrueExtent, and_self, and_true]
  rw [ite_eq_left_iff, imp_iff_not hne, not_not, SameBounds]

/-- Datatypes with the same bounds are one kind of datatype to the comparison. -/
theorem equivalence_compare : Equivalence fun a b ↦ tstTypeCompare a b = tstSucess where
  refl a := tstTypeCompare_eq_sucess_iff.mpr ⟨rfl, rfl⟩
  symm h := by
    obtain ⟨hlb, hextent⟩ := tstTypeCompare_eq_sucess_iff.mp h
    exact tstTypeCompare_eq_sucess_iff.mpr ⟨hlb.symm, hextent.symm⟩
  trans h h' := by
    obtain ⟨hlb, hextent⟩ := tstTypeCompare_eq_sucess_iff.mp h
    obtain ⟨hlb', hextent'⟩ := tstTypeCompare_eq_sucess_iff.mp h'
    exact tstTypeCompare_eq_sucess_iff.mpr ⟨hlb.trans hlb', hextent.trans hextent'⟩

theorem viewTypesCheck_eq_ok_iff {d f t : TypeBounds} :
    viewTypesCheck d f t = .ok () ↔ SameBounds d t ∧ SameBounds f t := by
  rw [← tstTypeCompare_eq_sucess_iff, ← tstTypeCompare_eq_sucess_iff, viewTypesCheck]
  split_ifs with hd hf
  · exact iff_of_false nofun fun h ↦ hd h.1
  · exact iff_of_false nofun fun h ↦ hf h.2
  · exact iff_of_true rfl ⟨not_not.mp hd, not_not.mp hf⟩

/-- **Comparing.** The comparison is right about two datatypes exactly if it is not so that they
have the same bounds and different true ones, and a test accepts a view of the wrong datatypes
exactly if each of them has the bounds of the right one. For datatypes that are told apart only by
their true bounds it is wrong, though it is an equivalence. -/
theorem type_compare_iff (a b d f t : TypeBounds) :
    ((tstTypeCompare a b = tstSucess ↔ SameBounds a b ∧ SameTrueBounds a b) ↔
      (SameBounds a b → SameTrueBounds a b)) ∧
    Equivalence (fun a b ↦ tstTypeCompare a b = tstSucess) ∧
    ((¬SameTrueBounds d t ∨ ¬SameTrueBounds f t → viewTypesCheck d f t ≠ .ok ()) ↔
      (SameBounds d t → SameBounds f t → SameTrueBounds d t ∧ SameTrueBounds f t)) := by
  refine ⟨?_, equivalence_compare, ?_⟩
  · rw [tstTypeCompare_eq_sucess_iff, iff_self_and]
  · rw [ne_eq, viewTypesCheck_eq_ok_iff]
    tauto

/-- `MPI_INT` resized to the extent of `MPI_DOUBLE` passes for `MPI_DOUBLE`. -/
theorem type_compare_resized : ¬∀ a b : TypeBounds,
    tstTypeCompare a b = tstSucess ↔ SameBounds a b ∧ SameTrueBounds a b := by
  intro h
  have hsame := h ((Typemap.basic .int).resized 0 8).bounds (Typemap.basic .double).bounds
  revert hsame
  decide +kernel

end MpiTestSuite

import MpiTestSuite.Selection.Token
import MpiTestSuite.Tables.Types

/-!
# Selecting datatypes

`tst_type_select` and `tst_type_deselect`, and what the tokens of `-d` amount to.

The array has one slot for each datatype that `tst_type_init` has counted, but both functions go
through all 32 slots of the table. What lies behind the counted ones still has a description and,
under MPI 3, class bits: a class token then selects slots that have no datatype.
-/

open MpiTestSuite.Runs MpiTestSuite.CString

namespace MpiTestSuite

/-- `TST_TYPES_NUM`. -/
def tstTypesNum : ℕ := 32

/-- `types[j].type_class & tst_types_class_strings[i].class`. -/
def inTypeClass (cfg : Config) (i j : ℕ) : Bool :=
  ((initTypes cfg)[j]?.map TypeSlot.typeClass).getD 0
    &&& ((tstTypesClassStrings cfg)[i]?.map Prod.snd).getD 0 != 0

/-- The descriptions of all slots. -/
def typeNames (cfg : Config) : List CString := (initTypes cfg).map TypeSlot.description

/-- The strings of `tst_types_class_strings`. -/
def typeClassNames (cfg : Config) : List CString := (tstTypesClassStrings cfg).map Prod.fst

/-- The message of a datatype array that is full. -/
def tooManyTypes : String := "Too many user selected types"

/-- The message of a negative counter after a class was deselected. -/
def negativeTypeClass : String := "Negative selected tests: This should not happen"

/-- The message of a negative counter after a datatype was deselected. -/
def negativeType : String := "Negative selected types: This should not happen"

/-- `tst_type_select`. -/
def tstTypeSelect (cfg : Config) : CString → Selected → Except Stop Selected :=
  resolve (typeClassNames cfg) (typeNames cfg) "Datatype"
    (fun i ↦ forEach tstTypesNum fun j s ↦
      s.selectMember exactlyFull tooManyTypes (inTypeClass cfg i j) j)
    (fun j s ↦ s.select exactlyFull tooManyTypes j)
    (fun message _ ↦ .error (.error message))

/-- `tst_type_deselect`. -/
def tstTypeDeselect (cfg : Config) : CString → Selected → Except Stop Selected :=
  resolve (typeClassNames cfg) (typeNames cfg) "Datatype"
    (fun i ↦ forEach tstTypesNum fun j s ↦
      s.deselectMember negativeTypeClass s.num (inTypeClass cfg i j) j)
    (fun j s ↦ s.deselect negativeType s.num j)
    (fun message _ ↦ .error (.error message))

/-- The selection of datatypes in `main`. -/
def typeSelector (cfg : Config) : Selector where
  max := numTypes cfg
  tooLong := "Name of type too long for negation"
  outOfRange := "Specified type number out of range"
  select := tstTypeSelect cfg
  deselect := tstTypeDeselect cfg

/-- The tokens of `-d`: a name denotes the slot or the slots of the class, a number itself. -/
def typeSpec (cfg : Config) : (typeSelector cfg).Spec where
  denotes := denotes (typeClassNames cfg) (typeNames cfg) tstTypesNum (inTypeClass cfg)
  number := atoi
  selectOps := resolve (typeClassNames cfg) (typeNames cfg) "Datatype"
    (fun i ↦ classOps tstTypesNum (inTypeClass cfg i)
      (fun j ↦ [.select exactlyFull tooManyTypes j]) (fun j ↦ [.look j]))
    (fun j ↦ [.select exactlyFull tooManyTypes j]) (fun message ↦ [.fail message])
  deselectOps := resolve (typeClassNames cfg) (typeNames cfg) "Datatype"
    (fun i ↦ classOps tstTypesNum (inTypeClass cfg i) (fun j ↦ [.deselect negativeTypeClass j])
      (fun j ↦ [.look j]))
    (fun j ↦ [.deselect negativeType j]) (fun message ↦ [.fail message])
  number_nonneg _ h := h
  select_eq := resolve_eq
    (fun i ↦ forEach_eq
      (fun j s hj ↦ by rw [hj, foldlM_singleton, Selected.selectMember_true])
      (fun j s hj ↦ by rw [hj, foldlM_singleton, Selected.selectMember_false]))
    (fun j s ↦ (foldlM_singleton (.select exactlyFull tooManyTypes j) s).symm)
  deselect_eq := resolve_eq
    (fun i ↦ forEach_eq
      (fun j s hj ↦ by rw [hj, foldlM_singleton, Selected.deselectMember_true]; rfl)
      (fun j s hj ↦ by rw [hj, foldlM_singleton, Selected.deselectMember_false]))
    (fun j s ↦ (foldlM_singleton (.deselect negativeType j) s).symm)
  select_wellFormed := by
    have hselect : ∀ j : ℕ, ∀ op ∈ [Operation.select exactlyFull tooManyTypes j],
        op.WellFormed := by
      intro j op hop
      rw [List.mem_singleton.mp hop]
      exact ⟨Int.natCast_nonneg j, exactlyFull_iff⟩
    refine resolve_induction (P := fun ops ↦ ∀ op ∈ ops, Operation.WellFormed op)
      (fun i ↦ classOps_wellFormed hselect ?_) hselect ?_ <;> simp [Operation.WellFormed]
  deselect_wellFormed := by
    refine resolve_induction (P := fun ops ↦ ∀ op ∈ ops, Operation.WellFormed op)
      (fun i ↦ classOps_wellFormed ?_ ?_) ?_ ?_ <;> simp [Operation.WellFormed]
  select_effect := resolve_insert (fun _ _ ↦ rfl) (fun _ _ ↦ rfl) (fun _ _ ↦ rfl)
  deselect_effect := resolve_erase (fun _ _ ↦ rfl) (fun _ _ ↦ rfl) (fun _ _ ↦ rfl)

/-- The slot of the table has a datatype if it belongs to any class. -/
def Usable (cfg : Config) (x : ℤ) : Prop :=
  ∀ slot ∈ (initTypes cfg)[x.toNat]?, slot.typeClass ≠ 0 → slot.datatype ≠ .null

instance (cfg : Config) : DecidablePred (Usable cfg) := fun x ↦ by
  unfold Usable
  infer_instance

/-- Indices of counted datatypes; those that belong to a class have a datatype. -/
def ValidType (cfg : Config) (x : ℤ) : Prop := x < numTypes cfg ∧ Usable cfg x

instance (cfg : Config) : DecidablePred (ValidType cfg) := fun x ↦ by
  unfold ValidType
  infer_instance

theorem validType_of_lt (cfg : Config) (x : ℤ) (h0 : 0 ≤ x) (h : x < numTypes cfg) :
    ValidType cfg x := by
  refine ⟨h, fun slot hslot hclass ↦ ?_⟩
  exact datatype_ne_null cfg (i := x.toNat) (by omega) hslot hclass

/-- **Selection of datatypes.** If every elementary operation of the tokens is harmless, the
datatypes left in the array are those the command line says, each once, and none of them is
missing. The condition is exact: it says that the array is right after each of the operations. -/
theorem type_selection (cfg : Config) (tokens : List CString) :
    ((typeSpec cfg).StepsHarmless (ValidType cfg) tokens →
        (typeSpec cfg).Right (ValidType cfg) tokens) ∧
      ((typeSpec cfg).StepsHarmless (ValidType cfg) tokens ↔
        (typeSpec cfg).StepsRight (ValidType cfg) tokens) :=
  ⟨(typeSpec cfg).right_of_stepsHarmless (validType_of_lt cfg),
    (typeSpec cfg).stepsHarmless_iff_stepsRight (validType_of_lt cfg) tokens⟩

/-- Under MPI 3, `-d STANDARD_C_TYPES` selects slot 29, which has no datatype. -/
theorem type_selection_selects_null :
    ¬∀ (cfg : Config) (tokens : List CString), (typeSpec cfg).Right (ValidType cfg) tokens := by
  intro h
  exact absurd (h ⟨3, true, true, true, true, true, true, true, true⟩ [lit "STANDARD_C_TYPES"])
    (by decide +kernel)

end MpiTestSuite

import MpiTestSuite.Tables.Types
import MpiTestSuite.Types.Scalars

/-!
# Setting and comparing one element

`tst_type_setvalue` fills the bytes of an element with `0xa5` and then stores into its scalars,
which are found by a switch on the class of the datatype. `tst_type_cmpvalue` compares two elements.

The two do not agree about where an element is. `memset` covers as many bytes as the datatype has,
but from the *origin* of the element on; the comparison looks at the bytes from the *lower bound*
on. For the datatype with explicit bounds the origin lies 17 bytes behind the lower bound, so the
fill covers none of these bytes and reaches 17 bytes into the next element.

What makes the pair work nevertheless is `FieldsFit`: every byte of the window that the fill misses
belongs to some scalar. Setting an element therefore determines its whole window, whatever was in
memory before (`Settable.setFields_window`), and changes nothing in front of it
(`Settable.setFields_frame`).
-/

namespace MpiTestSuite

/-- A store of `tst_type_setvalue`: the scalar at an offset from the origin of the element, and
whether the number stored there is compared with the bounds of the scalar first. -/
structure FieldStore where
  offset : ℤ
  scalar : Scalar
  clamped : Bool
  deriving DecidableEq, Repr

/-- `TST_TYPE_SET` and `TST_TYPE_SET_UNSIGNED`. -/
def setScalar (s : Scalar) : List FieldStore := [⟨0, s, true⟩]

/-- The scalars of a layout, stored in order. -/
def setLayout (l : Layout) (clamped : Bool) : List FieldStore :=
  l.scalars.map fun p ↦ ⟨p.1, p.2, clamped⟩

/-- `TST_TYPE_SET_STRUCT`. -/
def setPair (a : Scalar) : List FieldStore := setLayout (pairLayout a) true

/-- `TST_TYPE_SET_STRUCT_MIX_ARRAY`: one element of each of the six arrays in turn. -/
def setMixArray : List FieldStore :=
  (List.range tstMpiTypeMixArrayNum).flatMap fun i ↦ (List.range 6).filterMap fun q ↦
    mixArrayLayout.scalars[tstMpiTypeMixArrayNum * q + i]?.map fun p ↦ ⟨p.1, p.2, false⟩

/-- `TST_TYPE_SET_STRUCT_MIX_LB_UB`. -/
def setMixLbUb : List FieldStore :=
  [(1, Scalar.char), (2, .short), (3, .int), (4, .long), (5, .float), (6, .double)].map fun p ↦
    ⟨mixLbUbDisplacements.getD p.1 0, p.2, false⟩

/-- The switch of `tst_type_setvalue` on the class; `none` is its `default`, an `ERROR`. -/
def fieldStores (cfg : Config) (c : TypeFlags) : Option (List FieldStore) :=
  if c = tstMpiChar then some (setScalar .char)
  else if c = tstMpiUnsignedChar then some (setScalar .unsignedChar)
  else if c = tstMpiSignedChar ∧ cfg.haveMpi2 then some (setScalar .signedChar)
  else if c = tstMpiByte then some (setScalar .char)
  else if c = tstMpiShort then some (setScalar .short)
  else if c = tstMpiUnsignedShort then some (setScalar .unsignedShort)
  else if c = tstMpiInt then some (setScalar .int)
  else if c = tstMpiUnsigned then some (setScalar .unsigned)
  else if c = tstMpiLong then some (setScalar .long)
  else if c = tstMpiUnsignedLong then some (setScalar .unsignedLong)
  else if c = tstMpiFloat then some (setScalar .float)
  else if c = tstMpiDouble then some (setScalar .double)
  else if c = tstMpiLongDouble ∧ cfg.haveLongDouble then some (setScalar .longDouble)
  else if c = tstMpiLongLong ∧ cfg.haveLongLong then some (setScalar .longLong)
  else if c = tstMpiPacked then some (setScalar .char)
  else if c = tstMpiFloatInt then some (setPair .float)
  else if c = tstMpiDoubleInt then some (setPair .double)
  else if c = tstMpiLongInt then some (setPair .long)
  else if c = tstMpiShortInt then some (setPair .short)
  else if c = tstMpi2Int then some (setPair .int)
  else if c = tstMpiLongDoubleInt ∧ cfg.haveLongDouble then some (setPair .longDouble)
  else if c ∈ [tstMpiIntConti, tstMpiIntVector, tstMpiIntHvector, tstMpiIntIndexed,
      tstMpiIntHindexed, tstMpiIntStruct] then some (setLayout intsLayout false)
  else if c = tstMpiTypeMix then some (setLayout mixLayout false)
  else if c = tstMpiTypeMixArray then some setMixArray
  else if c = tstMpiTypeMixLbUb then some setMixLbUb
  else none

/-! ## Slots that can be set -/

/-- `tst_type_gettypesize`. -/
def TypeSlot.size (t : TypeSlot) : ℤ := t.ub - t.lb

/-- The stores stay between the lower bound and the end of the fill, and the fill together with the
stores covers the window from the lower to the upper bound. -/
def FieldsFit (t : TypeSlot) (fields : List FieldStore) : Prop :=
  t.lb ≤ 0 ∧ 0 ≤ t.ub ∧
    (∀ f ∈ fields, t.lb ≤ f.offset ∧ f.offset + f.scalar.stored ≤ t.size) ∧
    ∀ i < t.lb.natAbs, ∃ f ∈ fields, f.offset ≤ t.lb + i ∧ t.lb + i < f.offset + f.scalar.stored

instance (t : TypeSlot) (fields : List FieldStore) : Decidable (FieldsFit t fields) := by
  unfold FieldsFit
  infer_instance

/-- What is known of a slot and the stores that set its elements. A `long double` has its origin at
its lower bound. -/
structure Settable (cfg : Config) (t : TypeSlot) (fields : List FieldStore) : Prop where
  fields_eq : fieldStores cfg t.typeClass = some fields
  fit : FieldsFit t fields ∨ t.size = 0
  longDouble : t.typeClass = tstMpiLongDouble →
    t.lb = 0 ∧ t.ub = 16 ∧ fields = setScalar .longDouble

/-- Every slot that has a datatype can be set. The slot that holds the duplicate of `MPI_CHAR` under
MPI 3 is among them; both its bounds are zero. -/
theorem exists_settable (cfg : Config) {t : TypeSlot} (ht : t ∈ initTypes cfg)
    (hnull : t.datatype ≠ .null) : ∃ fields, Settable cfg t fields := by
  obtain ⟨fields, hfields, hfit, hlong⟩ := Config.forall_slot
    (P := fun cfg t ↦ t.datatype ≠ .null → ∃ fields ∈ fieldStores cfg t.typeClass,
      (FieldsFit t fields ∨ t.size = 0) ∧ (t.typeClass = tstMpiLongDouble →
        t.lb = 0 ∧ t.ub = 16 ∧ fields = setScalar .longDouble))
    (by decide +kernel) cfg ht hnull
  exact ⟨fields, hfields, hfit, hlong⟩

/-! ## Setting an element -/

/-- `DEFAULT_INIT_BYTE`. -/
def defaultInitByte : UInt8 := 0xa5

/-- A single `float`, `double` or `long double` that is set to the number zero is set to zero, not
to the smallest positive value that the comparison with the bounds would lead to. -/
def effectiveSet (cfg : Config) (c : TypeFlags) (typeSet : TypeSet) (v : ℤ) : TypeSet :=
  if typeSet = .value ∧ v = 0 ∧
      (c = tstMpiFloat ∨ c = tstMpiDouble ∨ c = tstMpiLongDouble ∧ cfg.haveLongDouble) then .zero
  else typeSet

/-- The bytes that are stored in the scalars of an element. -/
def fieldPatch (fields : List FieldStore) (typeSet : TypeSet) (v : ℤ) : Patch :=
  fields.map fun f ↦ (f.offset, scalarBytes f.scalar f.clamped typeSet v)

/-- Fill the element at `a`, then store into its scalars. -/
def setFields (cfg : Config) (t : TypeSlot) (fields : List FieldStore) (m : Memory) (a : ℤ)
    (typeSet : TypeSet) (v : ℤ) : Memory :=
  patch (memset m a defaultInitByte t.size.toNat) a
    (fieldPatch fields (effectiveSet cfg t.typeClass typeSet v) v)

/-- `tst_type_setvalue (type, buffer + a, type_set, v)`; `none` where it calls `ERROR`. -/
def tstTypeSetvalue (cfg : Config) (t : TypeSlot) (m : Memory) (a : ℤ) (typeSet : TypeSet)
    (v : ℤ) : Option Memory :=
  (fieldStores cfg t.typeClass).map fun fields ↦ setFields cfg t fields m a typeSet v

/-- Setting an element of a part of a buffer sets one of the buffer. -/
theorem setFields_shift (cfg : Config) (t : TypeSlot) (fields : List FieldStore) (m : Memory)
    (c a : ℤ) (typeSet : TypeSet) (v : ℤ) :
    setFields cfg t fields (m.shift c) a typeSet v
      = (setFields cfg t fields m (c + a) typeSet v).shift c := by
  rw [setFields, memset_shift, patch_shift, setFields]

/-- The offsets that are covered do not depend on the values. -/
theorem covers_fieldPatch {fields : List FieldStore} {typeSet : TypeSet} {v k : ℤ} :
    Covers (fieldPatch fields typeSet v) k ↔
      ∃ f ∈ fields, f.offset ≤ k ∧ k < f.offset + f.scalar.stored := by
  simp [Covers, fieldPatch, scalarBytes]

namespace Settable

variable {cfg : Config} {t : TypeSlot} {fields : List FieldStore}

/-- **The window.** What is in the window of an element after it has been set depends on the values
only, not on the memory before nor on the address. -/
theorem setFields_window (h : Settable cfg t fields) (m m' : Memory) (a b : ℤ) (typeSet : TypeSet)
    (v : ℤ) {k : ℤ} (hlo : t.lb ≤ k) (hhi : k < t.ub) :
    setFields cfg t fields m a typeSet v (a + k)
      = setFields cfg t fields m' b typeSet v (b + k) := by
  have hsize : t.size = t.ub - t.lb := rfl
  rcases h.fit with ⟨hlb, hub, -, hcover⟩ | hzero
  · refine patch_congr ?_
    by_cases hk : 0 ≤ k
    · right
      rw [memset_of_mem _ (by omega), memset_of_mem _ (by omega)]
    · -- in front of the origin the fill leaves old bytes, but the scalars cover them
      left
      obtain ⟨f, hf, hin⟩ := hcover (k - t.lb).toNat (by omega)
      exact covers_fieldPatch.mpr ⟨f, hf, by omega⟩
  · omega

/-- **The frame.** Setting an element writes nothing in front of its window. -/
theorem setFields_frame (h : FieldsFit t fields) (m : Memory) {a p : ℤ} (typeSet : TypeSet) (v : ℤ)
    (hp : p < a + t.lb) : setFields cfg t fields m a typeSet v p = m p := by
  obtain ⟨hlb, hub, hin, -⟩ := h
  have hcover : ¬Covers (fieldPatch fields (effectiveSet cfg t.typeClass typeSet v) v) (p - a) := by
    rw [covers_fieldPatch]
    rintro ⟨f, hf, hlo, -⟩
    have := (hin f hf).1
    omega
  rw [setFields, patch_frame hcover, memset_of_notMem _ (by omega)]

theorem setvalue_eq (h : Settable cfg t fields) (m : Memory) (a : ℤ) (typeSet : TypeSet) (v : ℤ) :
    tstTypeSetvalue cfg t m a typeSet v = some (setFields cfg t fields m a typeSet v) := by
  rw [tstTypeSetvalue, h.fields_eq, Option.map_some]

end Settable

/-! ## Comparing elements -/

/-- The bytes of element `i` of an array, from its lower to its upper bound. -/
def window (t : TypeSlot) (m : Memory) (i : ℕ) : List UInt8 :=
  load m (i * t.size + t.lb) t.size.toNat

/-- `tst_type_cmpvalue (type, buffer1 + a, buffer2 + b) != 0`. -/
def tstTypeCmpvalue (t : TypeSlot) (m : Memory) (a : ℤ) (m' : Memory) (b : ℤ) : Bool :=
  if t.typeClass = tstMpiLongDouble then longDoubleNe (load m a 16) (load m' b 16)
  else load m (a + t.lb) t.size.toNat != load m' (b + t.lb) t.size.toNat

theorem longDoubleNe_comm (a b : List UInt8) : longDoubleNe a b = longDoubleNe b a := by
  unfold longDoubleNe
  cases longDoubleValue (ofLeBytes (a.take 10)) <;>
    cases longDoubleValue (ofLeBytes (b.take 10)) <;> simp [bne_comm]

theorem cmpvalue_comm (t : TypeSlot) (m : Memory) (a : ℤ) (m' : Memory) (b : ℤ) :
    tstTypeCmpvalue t m a m' b = tstTypeCmpvalue t m' b m a := by
  rw [tstTypeCmpvalue, tstTypeCmpvalue, longDoubleNe_comm, bne_comm]

/-- The comparison looks at the window only. -/
theorem Settable.cmpvalue_congr {cfg : Config} {t : TypeSlot} {fields : List FieldStore}
    (h : Settable cfg t fields) (m : Memory) (a : ℤ) {m₁ m₂ : Memory} {b c : ℤ}
    (hwindow : ∀ k, t.lb ≤ k → k < t.ub → m₁ (b + k) = m₂ (c + k)) :
    tstTypeCmpvalue t m a m₁ b = tstTypeCmpvalue t m a m₂ c := by
  have hsize : t.size = t.ub - t.lb := rfl
  unfold tstTypeCmpvalue
  split
  · rename_i hclass
    obtain ⟨hlb, hub, -⟩ := h.longDouble hclass
    rw [load_congr fun i hi ↦ hwindow i (by omega) (by omega)]
  · have hload : load m₁ (b + t.lb) t.size.toNat = load m₂ (c + t.lb) t.size.toNat := by
      refine load_congr fun i hi ↦ ?_
      have hk := hwindow (t.lb + i) (by omega) (by omega)
      rwa [← add_assoc, ← add_assoc] at hk
    rw [hload]

end MpiTestSuite

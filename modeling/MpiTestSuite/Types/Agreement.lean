import MpiTestSuite.Coding.Typemap
import MpiTestSuite.Types.Buffers

/-!
# Table, datatype and layout

A row of the table of datatypes says four times what its datatype is: by its description, by its
class, by its bounds and, through the class, by the scalars that `tst_type_setvalue` stores. The
datatype itself is created elsewhere, by a block of `tst_type_init` that knows its row by the number
of blocks before it only.

Rows and blocks are compiled under conditions of their own. Under MPI 3 the block of
`MPI_TYPE_MIX_LB_UB` is missing and the row is not, so with MPI 2 functions present the next block,
the duplicate of `MPI_CHAR`, fills in that row (`dup_in_mixLbUb`). It is the only row with a
datatype that is not its own (`agrees_iff`).
-/

open MpiTestSuite.CString

namespace MpiTestSuite

/-! ## What the datatypes are -/

/-- What MPI says of the predefined datatypes of the table, and the class that is named after each.
-/
def predefinedTypes : List (String × TypeFlags × Typemap) :=
  [("MPI_CHAR", tstMpiChar, .basic .char),
    ("MPI_UNSIGNED_CHAR", tstMpiUnsignedChar, .basic .unsignedChar),
    ("MPI_SIGNED_CHAR", tstMpiSignedChar, .basic .signedChar),
    ("MPI_BYTE", tstMpiByte, .basic .char),
    ("MPI_SHORT", tstMpiShort, .basic .short),
    ("MPI_UNSIGNED_SHORT", tstMpiUnsignedShort, .basic .unsignedShort),
    ("MPI_INT", tstMpiInt, .basic .int),
    ("MPI_UNSIGNED", tstMpiUnsigned, .basic .unsigned),
    ("MPI_LONG", tstMpiLong, .basic .long),
    ("MPI_UNSIGNED_LONG", tstMpiUnsignedLong, .basic .unsignedLong),
    ("MPI_FLOAT", tstMpiFloat, .basic .float),
    ("MPI_DOUBLE", tstMpiDouble, .basic .double),
    ("MPI_LONG_DOUBLE", tstMpiLongDouble, .basic .longDouble),
    ("MPI_LONG_LONG", tstMpiLongLong, .basic .longLong),
    ("MPI_FLOAT_INT", tstMpiFloatInt, .ofLayout (pairLayout .float)),
    ("MPI_DOUBLE_INT", tstMpiDoubleInt, .ofLayout (pairLayout .double)),
    ("MPI_LONG_INT", tstMpiLongInt, .ofLayout (pairLayout .long)),
    ("MPI_SHORT_INT", tstMpiShortInt, .ofLayout (pairLayout .short)),
    ("MPI_2INT", tstMpi2Int, .ofLayout (pairLayout .int)),
    ("MPI_LONG_DOUBLE_INT", tstMpiLongDoubleInt, .ofLayout (pairLayout .longDouble))]

/-- The type map of a predefined datatype. -/
def predefinedTypemap (name : String) : Typemap :=
  ((predefinedTypes.lookup name).map Prod.snd).getD ⟨[]⟩

/-- `TYPES_NUM_REPEAT`. -/
def typesNumRepeat : ℕ := 7

/-- The members of `struct tst_mpi_type_mix`. -/
def mixMembers : List Layout :=
  [.scalar .char, .scalar .short, .scalar .int, .scalar .long, .scalar .float, .scalar .double,
    pairLayout .float, pairLayout .double, pairLayout .long, pairLayout .short, pairLayout .int]

/-- `mix_type` of `MPI_TYPE_MIX`. -/
def mixTypes : List Typemap :=
  ["MPI_CHAR", "MPI_SHORT", "MPI_INT", "MPI_LONG", "MPI_FLOAT", "MPI_DOUBLE", "MPI_FLOAT_INT",
    "MPI_DOUBLE_INT", "MPI_LONG_INT", "MPI_SHORT_INT", "MPI_2INT"].map predefinedTypemap

/-- The members of `struct tst_mpi_type_mix_array`. -/
def mixArrayMembers : List Layout :=
  [Scalar.char, .short, .int, .long, .float, .double].map fun s ↦
    .array tstMpiTypeMixArrayNum (.scalar s)

/-- `mix_type` of `MPI_TYPE_MIX_ARRAY`. -/
def mixArrayTypes : List Typemap :=
  ["MPI_CHAR", "MPI_SHORT", "MPI_INT", "MPI_LONG", "MPI_FLOAT", "MPI_DOUBLE"].map fun name ↦
    .contiguous tstMpiTypeMixArrayNum (predefinedTypemap name)

/-- `mix_type` of `MPI_TYPE_MIX_LB_UB`. -/
def mixLbUbTypes : List Typemap :=
  [⟨[(0, .lb)]⟩, .basic .char, .basic .short, .basic .int, .basic .long, .basic .float,
    .basic .double, ⟨[(0, .ub)]⟩]

/-- `MPI_Type_create_struct` with blocks of one element. -/
def structOf (displacements : List ℤ) (types : List Typemap) : Typemap :=
  .struct ((displacements.zip types).map fun p ↦ (1, p.1, p.2))

/-- The type map of a datatype, with the arguments of the call that made it. -/
def Datatype.typemap : Datatype → Typemap
  | null => ⟨[]⟩
  | predefined name => predefinedTypemap name
  | contiguous => .contiguous typesNumRepeat (.basic .int)
  | vector => .vector typesNumRepeat 1 1 (.basic .int)
  | hvector => .hvector typesNumRepeat 1 Scalar.int.sizeof (.basic .int)
  | indexed => .indexed ((List.range typesNumRepeat).map fun i : ℕ ↦ (1, (i : ℤ))) (.basic .int)
  | hindexed =>
    .hindexed ((List.range typesNumRepeat).map fun i : ℕ ↦ (1, (i * Scalar.int.sizeof : ℤ)))
      (.basic .int)
  | struct => .struct [(typesNumRepeat, 0, .basic .int)]
  | structMix => structOf ((Layout.offsets mixMembers).map fun d : ℕ ↦ (d : ℤ)) mixTypes
  | structMixArray =>
    structOf ((Layout.offsets mixArrayMembers).map fun d : ℕ ↦ (d : ℤ)) mixArrayTypes
  | structMixLbUb => structOf mixLbUbDisplacements mixLbUbTypes
  | dup of => of.typemap

/-- The description that names a datatype. -/
def Datatype.description : Datatype → String
  | null => ""
  | predefined name => name
  | contiguous => "MPI_CONTIGUOUS_INT"
  | vector => "MPI_VECTOR_INT"
  | hvector => "MPI_HVECTOR_INT"
  | indexed => "MPI_INDEXED_INT"
  | hindexed => "MPI_HINDEXED_INT"
  | struct => "MPI_STRUCT_INT"
  | structMix => "MPI_TYPE_MIX"
  | structMixArray => "MPI_TYPE_MIX_ARRAY"
  | structMixLbUb => "MPI_TYPE_MIX_LB_UB"
  | dup of => "Dup " ++ of.description

/-- The class that names a datatype. -/
def Datatype.typeClass : Datatype → TypeFlags
  | null => 0
  | predefined name => ((predefinedTypes.lookup name).map Prod.fst).getD 0
  | contiguous => tstMpiIntConti
  | vector => tstMpiIntVector
  | hvector => tstMpiIntHvector
  | indexed => tstMpiIntIndexed
  | hindexed => tstMpiIntHindexed
  | struct => tstMpiIntStruct
  | structMix => tstMpiTypeMix
  | structMixArray => tstMpiTypeMixArray
  | structMixLbUb => tstMpiTypeMixLbUb
  | dup of => of.typeClass

/-! ## Rows and datatypes -/

/-- The row says of its datatype what the datatype is. -/
structure TypeSlot.Agrees (cfg : Config) (t : TypeSlot) : Prop where
  description : t.description = lit t.datatype.description
  typeClass : t.typeClass = t.datatype.typeClass
  extent : t.datatype.typemap.extent = t.ub - t.lb
  lb : t.datatype.typemap.lb = t.lb
  /-- What setting an element changes is between the bounds, or filled before. -/
  written : ∀ m a typeSet v m', tstTypeSetvalue cfg t m a typeSet v = some m' → ∀ p, m' p ≠ m p →
    a + t.lb ≤ p ∧ p < a + t.ub ∨ a ≤ p ∧ p < a + t.size

/-- What can be read off the row, the scalars that its class stores into included. -/
def TypeSlot.Matches (cfg : Config) (t : TypeSlot) : Prop :=
  (t.description = lit t.datatype.description ∧ t.typeClass = t.datatype.typeClass) ∧
    (t.datatype.typemap.extent = t.ub - t.lb ∧ t.datatype.typemap.lb = t.lb) ∧
    ∃ fields ∈ fieldStores cfg t.typeClass, FieldsFit t fields ∧
      (fields.map fun f ↦ (f.offset, f.scalar)).Perm t.datatype.typemap.scalars

instance (cfg : Config) (t : TypeSlot) : Decidable (t.Matches cfg) := by
  unfold TypeSlot.Matches
  infer_instance

/-- The row that the duplicate of `MPI_CHAR` is created in. -/
def DupRow (cfg : Config) (i : ℕ) : Prop := 3 ≤ cfg.mpiVersion ∧ cfg.haveMpi2 = true ∧ i = 28

instance (cfg : Config) (i : ℕ) : Decidable (DupRow cfg i) := by
  unfold DupRow
  infer_instance

theorem dupRow_core (cfg : Config) (i : ℕ) : DupRow cfg.core i ↔ DupRow cfg i := by
  have hversion : 3 ≤ cfg.core.mpiVersion ↔ 3 ≤ cfg.mpiVersion := by
    simpa only [not_lt] using not_congr cfg.core_mpiVersion_lt
  rw [DupRow, DupRow, hversion]
  rfl

/-- Every other row that has a datatype matches it. -/
theorem row_matches (cfg : Config) {i : ℕ} (hi : i < numTypes cfg) {t : TypeSlot}
    (ht : (initTypes cfg)[i]? = some t) (hnull : t.datatype ≠ .null) (hrow : ¬DupRow cfg i) :
    t.Matches cfg := by
  have hrow' : ¬DupRow cfg.core i := mt (dupRow_core cfg i).mp hrow
  exact Config.forall_counted
    (P := fun cfg i t ↦ t.datatype ≠ .null → ¬DupRow cfg i → t.Matches cfg)
    (by decide +kernel) cfg hi ht hnull hrow'

/-- **What happens instead.** The duplicate of `MPI_CHAR` is created in the row of the mixed
datatype with explicit bounds, which are still zero. -/
theorem dup_in_mixLbUb (cfg : Config) {i : ℕ} (hrow : DupRow cfg i) :
    (initTypes cfg)[i]? = some ⟨.dup (.predefined "MPI_CHAR"), lit "MPI_TYPE_MIX_LB_UB", 0, 0,
      tstMpiTypeMixLbUb⟩ := by
  have htable : DupRow cfg.core 28 → (initTypes cfg.core)[28]? =
      some ⟨.dup (.predefined "MPI_CHAR"), lit "MPI_TYPE_MIX_LB_UB", 0, 0, tstMpiTypeMixLbUb⟩ := by
    refine Config.core_induction (P := fun cfg ↦ DupRow cfg 28 → (initTypes cfg)[28]? =
      some ⟨.dup (.predefined "MPI_CHAR"), lit "MPI_TYPE_MIX_LB_UB", 0, 0, tstMpiTypeMixLbUb⟩)
      ?_ cfg
    decide +kernel
  rw [initTypes_core, dupRow_core] at htable
  obtain ⟨-, -, rfl⟩ := id hrow
  exact htable hrow

/-- What setting an element changes, for stores that fit. -/
theorem setvalue_written {cfg : Config} {t : TypeSlot} {fields : List FieldStore}
    (hfields : fieldStores cfg t.typeClass = some fields) (hfit : FieldsFit t fields)
    {m m' : Memory} {a : ℤ} {typeSet : TypeSet} {v : ℤ}
    (hset : tstTypeSetvalue cfg t m a typeSet v = some m') {p : ℤ} (hp : m' p ≠ m p) :
    a + t.lb ≤ p ∧ p < a + t.ub ∨ a ≤ p ∧ p < a + t.size := by
  rw [tstTypeSetvalue, hfields, Option.map_some, Option.some_inj] at hset
  subst hset
  have hlow : a + t.lb ≤ p := by
    by_contra hlt
    exact hp (Settable.setFields_frame hfit m typeSet v (not_le.mp hlt))
  have hhigh : p < a + t.size := by
    by_contra hle
    exact hp (setFields_frame_above hfit m typeSet v (not_lt.mp hle))
  have hub := hfit.2.1
  rcases lt_or_ge p a with hbefore | hbehind
  · exact Or.inl ⟨hlow, by omega⟩
  · exact Or.inr ⟨hbehind, hhigh⟩

/-- **Agreement.** Of the rows below `num_types` with a datatype, all but one agree with it: the row
of the mixed datatype with explicit bounds, under MPI 3 and with the functions of MPI 2. -/
theorem agrees_iff (cfg : Config) {i : ℕ} (hi : i < numTypes cfg) {t : TypeSlot}
    (ht : (initTypes cfg)[i]? = some t) (hnull : t.datatype ≠ .null) :
    t.Agrees cfg ↔ ¬(3 ≤ cfg.mpiVersion ∧ cfg.haveMpi2 = true ∧ i = 28) := by
  constructor
  · intro h hrow
    rw [dup_in_mixLbUb cfg hrow, Option.some_inj] at ht
    subst ht
    exact absurd h.description (by decide)
  · intro hrow
    obtain ⟨⟨hdescription, hclass⟩, ⟨hextent, hlb⟩, fields, hfields, hfit, -⟩ :=
      row_matches cfg hi ht hnull hrow
    exact ⟨hdescription, hclass, hextent, hlb,
      fun m a typeSet v m' hset p hp ↦ setvalue_written hfields hfit hset hp⟩

/-- The mixed datatype with explicit bounds, under MPI 2. -/
theorem agrees_iff_mixLbUb :
    (slotMpi2 28).Agrees ⟨2, true, true, true, true, true, true, true, true⟩ ↔
      ¬((3 ≤ 2) ∧ true = true ∧ 28 = 28) :=
  agrees_iff ⟨2, true, true, true, true, true, true, true, true⟩ (by decide +kernel)
    (by decide +kernel) (by decide +kernel)

/-- Under MPI 3 the row of the mixed datatype holds a single byte, of which its bounds have none. -/
theorem mixLbUb_disagrees :
    ¬∀ (cfg : Config) (i : ℕ), i < numTypes cfg → ∀ t, (initTypes cfg)[i]? = some t →
      t.datatype ≠ .null → t.Agrees cfg := by
  intro h
  have hagrees := h ⟨3, true, true, true, true, true, true, true, true⟩ 28 (by decide +kernel) _
    (dup_in_mixLbUb _ (by decide)) (by decide)
  exact absurd hagrees.extent (by decide +kernel)

end MpiTestSuite

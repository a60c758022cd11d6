import MpiTestSuite.Coding.Layout
import MpiTestSuite.Tables.Config

/-!
# The table of datatypes

`types` has 32 slots in every configuration. The first twenty are predefined datatypes; the others
are filled in by `tst_type_init`, in order, and how many of them it fills in depends on the
configuration: MPI 3 has no `MPI_LB` and `MPI_UB`, so the mixed datatype with explicit bounds is
left out there, and with it goes one slot number (`tstTypeInit`).

Skipping that block does not skip its slot. Under MPI 3 with `HAVE_MPI2` the duplicate of `MPI_CHAR`
lands in the slot described as `"MPI_TYPE_MIX_LB_UB"`, whose bounds are still both zero, and the two
slots after it keep their class bits without ever getting a datatype.
-/

open MpiTestSuite.CString

namespace MpiTestSuite

/-- An MPI datatype handle, by the call that made it. -/
inductive Datatype
  /-- `MPI_DATATYPE_NULL`. -/
  | null
  | predefined (name : String)
  | contiguous
  | vector
  | hvector
  | indexed
  | hindexed
  | struct
  | structMix
  | structMixArray
  | structMixLbUb
  /-- `MPI_Type_dup`. -/
  | dup (of : Datatype)
  deriving DecidableEq, Repr

/-- `struct type`, without the list of basic types in it. -/
structure TypeSlot where
  /-- `mpi_datatype`. -/
  datatype : Datatype
  description : CString
  lb : ℤ
  ub : ℤ
  /-- `type_class`. -/
  typeClass : TypeFlags
  deriving DecidableEq, Repr

/-! ## Layouts of the composed types -/

/-- `struct { T a; int b; }`. -/
def pairLayout (a : Scalar) : Layout := .struct [.scalar a, .scalar .int]

/-- `int[7]`. -/
def intsLayout : Layout := .array 7 (.scalar .int)

/-- `struct tst_mpi_type_mix`. -/
def mixLayout : Layout :=
  .struct [.scalar .char, .scalar .short, .scalar .int, .scalar .long, .scalar .float,
    .scalar .double, pairLayout .float, pairLayout .double, pairLayout .long, pairLayout .short,
    pairLayout .int]

/-- `TST_MPI_TYPE_MIX_ARRAY_NUM`. -/
def tstMpiTypeMixArrayNum : ℕ := 10

/-- `struct tst_mpi_type_mix_array`. -/
def mixArrayLayout : Layout :=
  .struct ([.char, .short, .int, .long, .float, .double].map fun s ↦
    .array tstMpiTypeMixArrayNum (.scalar s))

/-- The displacements of `MPI_TYPE_MIX_LB_UB`: the lower bound, `char`, `short`, `int`, `long`,
`float`, `double`, the upper bound. -/
def mixLbUbDisplacements : List ℤ :=
  [-(1 + 8 + 8), -1, 0, 2, -(1 + 8), 2 + 4, -(1 + 8 + 8), 2 + 4 + 4]

/-! ## The table before initialisation -/

/-- A predefined datatype of one scalar. -/
def scalarSlot (name : String) (s : Scalar) (c : TypeFlags) : TypeSlot :=
  ⟨.predefined name, lit name, 0, s.sizeof, c⟩

/-- A predefined pair. -/
def pairSlot (name : String) (a : Scalar) (c : TypeFlags) : TypeSlot :=
  ⟨.predefined name, lit name, 0, (pairLayout a).size, c⟩

/-- A slot for a datatype that the configuration does not have. -/
def absentSlot (description : String) : TypeSlot := ⟨.null, lit description, 0, 0, 0⟩

/-- A slot that `tst_type_init` fills in. -/
def derivedSlot (description : String) (ub : ℤ) (c : TypeFlags) : TypeSlot :=
  ⟨.null, lit description, 0, ub, c⟩

/-- `types`, as the program starts. The last slot has an empty description. -/
def types (cfg : Config) : List TypeSlot :=
  [scalarSlot "MPI_CHAR" .char tstMpiChar,
    scalarSlot "MPI_UNSIGNED_CHAR" .unsignedChar tstMpiUnsignedChar,
    if cfg.haveMpi2 then scalarSlot "MPI_SIGNED_CHAR" .signedChar tstMpiSignedChar
      else absentSlot "MPI_SIGNED_CHAR n/a",
    scalarSlot "MPI_BYTE" .char tstMpiByte,
    scalarSlot "MPI_SHORT" .short tstMpiShort,
    scalarSlot "MPI_UNSIGNED_SHORT" .unsignedShort tstMpiUnsignedShort,
    scalarSlot "MPI_INT" .int tstMpiInt,
    scalarSlot "MPI_UNSIGNED" .unsigned tstMpiUnsigned,
    scalarSlot "MPI_LONG" .long tstMpiLong,
    scalarSlot "MPI_UNSIGNED_LONG" .unsignedLong tstMpiUnsignedLong,
    scalarSlot "MPI_FLOAT" .float tstMpiFloat,
    scalarSlot "MPI_DOUBLE" .double tstMpiDouble,
    if cfg.haveLongDouble then scalarSlot "MPI_LONG_DOUBLE" .longDouble tstMpiLongDouble
      else absentSlot "MPI_LONG_DOUBLE n/a",
    if cfg.haveLongLong then scalarSlot "MPI_LONG_LONG" .longLong tstMpiLongLong
      else absentSlot "MPI_LONG_LONG n/a",
    pairSlot "MPI_FLOAT_INT" .float tstMpiFloatInt,
    pairSlot "MPI_DOUBLE_INT" .double tstMpiDoubleInt,
    pairSlot "MPI_LONG_INT" .long tstMpiLongInt,
    pairSlot "MPI_SHORT_INT" .short tstMpiShortInt,
    pairSlot "MPI_2INT" .int tstMpi2Int,
    if cfg.haveLongDouble then pairSlot "MPI_LONG_DOUBLE_INT" .longDouble tstMpiLongDoubleInt
      else absentSlot "MPI_LONG_DOUBLE_INT n/a",
    derivedSlot "MPI_CONTIGUOUS_INT" intsLayout.size tstMpiIntConti,
    derivedSlot "MPI_VECTOR_INT" intsLayout.size tstMpiIntVector,
    derivedSlot "MPI_HVECTOR_INT" intsLayout.size tstMpiIntHvector,
    derivedSlot "MPI_INDEXED_INT" intsLayout.size tstMpiIntIndexed,
    derivedSlot "MPI_HINDEXED_INT" intsLayout.size tstMpiIntHindexed,
    derivedSlot "MPI_STRUCT_INT" intsLayout.size tstMpiIntStruct,
    derivedSlot "MPI_TYPE_MIX" mixLayout.size tstMpiTypeMix,
    derivedSlot "MPI_TYPE_MIX_ARRAY" mixArrayLayout.size tstMpiTypeMixArray,
    derivedSlot "MPI_TYPE_MIX_LB_UB" 0 tstMpiTypeMixLbUb,
    if cfg.haveMpi2 then derivedSlot "Dup MPI_CHAR" 1 tstMpiChar
      else absentSlot "function MPI_Type_dup() n/a",
    if cfg.haveMpi2 then derivedSlot "Dup MPI_TYPE_MIX_LB_UB" 0 tstMpiTypeMixLbUb
      else absentSlot "function MPI_Type_dup() n/a",
    absentSlot ""]

/-! ## Initialisation -/

/-- The next slot gets its datatype; `bounds` are `MPI_Type_lb` and `MPI_Type_ub` where the code
asks for them. -/
def commitType (datatype : Datatype) (bounds : Option (ℤ × ℤ))
    (state : List TypeSlot × ℕ) : List TypeSlot × ℕ :=
  (state.1.modify state.2 fun slot ↦
    { slot with
      datatype := datatype
      lb := (bounds.map Prod.fst).getD slot.lb
      ub := (bounds.map Prod.snd).getD slot.ub },
    state.2 + 1)

/-- `PREDEFINED_DATATYPES`. -/
def predefinedDatatypes : ℕ := 20

/-- The bounds MPI reports for the datatype with explicit bounds. -/
def mixLbUbBounds : ℤ × ℤ := (mixLbUbDisplacements.headD 0, mixLbUbDisplacements.getLastD 0)

/-- `tst_type_init`: the table with the created datatypes, and `num_types`. -/
def tstTypeInit (cfg : Config) : List TypeSlot × ℕ :=
  let state := (types cfg, predefinedDatatypes)
  let state := commitType .contiguous none state
  let state := commitType .vector none state
  let state := commitType .hvector none state
  let state := commitType .indexed none state
  let state := commitType .hindexed none state
  let state := commitType .struct none state
  let state := commitType .structMix none state
  let state := commitType .structMixArray none state
  let state :=
    if cfg.mpiVersion < 3 then commitType .structMixLbUb (some mixLbUbBounds) state else state
  let state := if cfg.haveMpi2 then commitType (.dup (.predefined "MPI_CHAR")) none state else state
  if cfg.haveMpi2 ∧ cfg.mpiVersion < 3 then
    commitType (.dup .structMixLbUb) (some mixLbUbBounds) state
  else state

/-- `types` after `tst_type_init`. -/
def initTypes (cfg : Config) : List TypeSlot := (tstTypeInit cfg).1

/-- `num_types`. -/
def numTypes (cfg : Config) : ℕ := (tstTypeInit cfg).2

/-- `tst_types_class_strings`. -/
def tstTypesClassStrings (cfg : Config) : List (CString × TypeFlags) :=
  [(lit "STANDARD_C_INT_TYPES", tstMpiStandardCIntTypes cfg),
    (lit "STANDARD_C_FLOAT_TYPES", tstMpiStandardCFloatTypes),
    (lit "STANDARD_C_TYPES", tstMpiStandardCTypes cfg),
    (lit "STRUCT_C_TYPES", tstMpiStructCTypes),
    (lit "ALL_C_TYPES", tstMpiAllCTypes cfg)]

/-- `tst_type_gettypeclass`. The slots are 32 and the indices come from a selection. -/
def tstTypeGettypeclass (cfg : Config) (i : ℤ) : TypeFlags :=
  if i < 0 then -1 else ((initTypes cfg)[i.toNat]?.map TypeSlot.typeClass).getD 0

/-! ## What the initialisation leaves behind -/

theorem length_commitType (datatype : Datatype) (bounds : Option (ℤ × ℤ))
    (state : List TypeSlot × ℕ) : (commitType datatype bounds state).1.length = state.1.length :=
  List.length_modify _ _ _

theorem length_initTypes (cfg : Config) : (initTypes cfg).length = 32 := by
  unfold initTypes tstTypeInit
  simp only
  split_ifs <;> simp only [length_commitType] <;> rfl

/-- The number of types in each configuration. -/
theorem numTypes_eq (cfg : Config) :
    numTypes cfg = 28 + (if cfg.mpiVersion < 3 then 1 else 0) + (if cfg.haveMpi2 then 1 else 0)
      + (if cfg.haveMpi2 ∧ cfg.mpiVersion < 3 then 1 else 0) := by
  unfold numTypes tstTypeInit commitType predefinedDatatypes
  simp only
  split_ifs <;> simp_all

/-- The part of a configuration that the table of datatypes depends on. -/
def Config.core (cfg : Config) : Config where
  mpiVersion := if cfg.mpiVersion < 3 then 2 else 3
  haveMpi2 := cfg.haveMpi2
  haveMpi2Dynamic := false
  haveMpi2OneSided := false
  haveMpi2Io := false
  haveMpi2Threads := false
  haveMpi4PartitionedP2p := false
  haveLongDouble := cfg.haveLongDouble
  haveLongLong := cfg.haveLongLong

theorem Config.core_mpiVersion_lt (cfg : Config) :
    cfg.core.mpiVersion < 3 ↔ cfg.mpiVersion < 3 := by
  rw [Config.core]
  split_ifs with h <;> simp [h]

theorem tstTypeInit_core (cfg : Config) : tstTypeInit cfg.core = tstTypeInit cfg := by
  unfold tstTypeInit
  simp only [Config.core_mpiVersion_lt]
  rfl

/-- What holds in the sixteen configurations that the table depends on holds in all of them. -/
theorem Config.core_induction {P : Config → Prop}
    (h : ∀ v ∈ [2, 3], ∀ a b c : Bool, P ⟨v, a, false, false, false, false, false, b, c⟩)
    (cfg : Config) : P cfg.core := by
  refine h cfg.core.mpiVersion ?_ cfg.haveMpi2 cfg.haveLongDouble cfg.haveLongLong
  rw [Config.core]
  split_ifs <;> simp

theorem initTypes_core (cfg : Config) : initTypes cfg.core = initTypes cfg :=
  congrArg Prod.fst (tstTypeInit_core cfg)

theorem numTypes_core (cfg : Config) : numTypes cfg.core = numTypes cfg :=
  congrArg Prod.snd (tstTypeInit_core cfg)

/-- What the slots have in these configurations they have in all. -/
theorem Config.forall_slot {P : Config → TypeSlot → Prop}
    (h : ∀ v ∈ [2, 3], ∀ a b c : Bool,
      ∀ slot ∈ initTypes ⟨v, a, false, false, false, false, false, b, c⟩,
        P ⟨v, a, false, false, false, false, false, b, c⟩ slot)
    (cfg : Config) {slot : TypeSlot} (hslot : slot ∈ initTypes cfg) : P cfg.core slot := by
  have htable := Config.core_induction (P := fun cfg ↦ ∀ slot ∈ initTypes cfg, P cfg slot) h cfg
  rw [initTypes_core] at htable
  exact htable slot hslot

/-- The same for the slots that are counted, with their numbers. -/
theorem Config.forall_counted {P : Config → ℕ → TypeSlot → Prop}
    (h : ∀ v ∈ [2, 3], ∀ a b c : Bool,
      ∀ i < numTypes ⟨v, a, false, false, false, false, false, b, c⟩,
        ∀ slot ∈ (initTypes ⟨v, a, false, false, false, false, false, b, c⟩)[i]?,
          P ⟨v, a, false, false, false, false, false, b, c⟩ i slot)
    (cfg : Config) {i : ℕ} (hi : i < numTypes cfg) {slot : TypeSlot}
    (hslot : (initTypes cfg)[i]? = some slot) : P cfg.core i slot := by
  have htable := Config.core_induction
    (P := fun cfg ↦ ∀ i < numTypes cfg, ∀ slot ∈ (initTypes cfg)[i]?, P cfg i slot) h cfg
  rw [initTypes_core, numTypes_core] at htable
  exact htable i hi slot hslot

/-- A slot that has been counted has a datatype, unless the configuration lacks it; then it belongs
to no class. -/
theorem datatype_ne_null (cfg : Config) {i : ℕ} (hi : i < numTypes cfg) {slot : TypeSlot}
    (hslot : (initTypes cfg)[i]? = some slot) (hclass : slot.typeClass ≠ 0) :
    slot.datatype ≠ .null :=
  Config.forall_counted (P := fun _ _ slot ↦ slot.typeClass ≠ 0 → slot.datatype ≠ .null)
    (by decide +kernel) cfg hi hslot hclass

end MpiTestSuite

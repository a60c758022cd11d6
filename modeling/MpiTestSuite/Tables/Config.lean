import MpiTestSuite.Coding.CString

/-!
# Configuration and flag words

The tables of tests, communicators and datatypes depend on what `configure` found out about the MPI
library and the C compiler (`Config`), and describe what fits together by flag words: an `int` for
the classes of communicators and tests, a 64-bit `tst_uint64` for the classes of datatypes.

The macros that name a vendor (`HAVE_MPI_LAM`, `HAVE_MPI_MPICH2`, `HAVE_MPI_NECSX`,
`HAVE_MPI_OPENMPI`, `HAVE_MPI_INTEL10`, `HAVE_MPI_INTEL20`) are set by no configure check, so the
tables are those in which all of them are undefined.
-/

namespace MpiTestSuite

/-- The preprocessor configuration the tables depend on. -/
structure Config where
  /-- `MPI_VERSION`. -/
  mpiVersion : ℕ
  /-- `HAVE_MPI2`. -/
  haveMpi2 : Bool
  /-- `HAVE_MPI2_DYNAMIC`. -/
  haveMpi2Dynamic : Bool
  /-- `HAVE_MPI2_ONE_SIDED`. -/
  haveMpi2OneSided : Bool
  /-- `HAVE_MPI2_IO`. -/
  haveMpi2Io : Bool
  /-- `HAVE_MPI2_THREADS`. -/
  haveMpi2Threads : Bool
  /-- `HAVE_MPI4_PARTITIONED_P2P`. -/
  haveMpi4PartitionedP2p : Bool
  /-- `HAVE_LONG_DOUBLE`; `LDBL_MAX` comes with `float.h`. -/
  haveLongDouble : Bool
  /-- `HAVE_C_MPI_LONG_LONG_INT`. -/
  haveLongLong : Bool
  deriving DecidableEq, Repr

/-- `TST_DESCRIPTION_LEN`. -/
def tstDescriptionLen : ℕ := 48

/-- An `int` of flags. -/
abbrev Flags := BitVec 32

/-- A `tst_uint64` of flags. -/
abbrev TypeFlags := BitVec 64

/-! ## Classes of communicators -/

def tstMpiCommSelf : Flags := 1
def tstMpiCommNull : Flags := 2
def tstMpiIntraComm : Flags := 4
def tstMpiInterComm : Flags := 8
def tstMpiCartComm : Flags := 16
def tstMpiTopoComm : Flags := 32
def tstMpiSharedComm : Flags := 64

/-! ## Classes of tests -/

def tstClassUnspec : Flags := 0
def tstClassEnv : Flags := 1
def tstClassP2p : Flags := 2
def tstClassColl : Flags := 4
def tstClassOneSided : Flags := 8
def tstClassDynamic : Flags := 16
def tstClassIo : Flags := 32
def tstClassThreaded : Flags := 64

/-! ## Classes of datatypes -/

/-- `(tst_uint64)0x1 << i`. -/
def typeFlag (i : ℕ) : TypeFlags := 1#64 <<< i

def tstMpiChar : TypeFlags := typeFlag 0
def tstMpiUnsignedChar : TypeFlags := typeFlag 1
def tstMpiSignedChar : TypeFlags := typeFlag 2
def tstMpiByte : TypeFlags := typeFlag 3
def tstMpiShort : TypeFlags := typeFlag 4
def tstMpiUnsignedShort : TypeFlags := typeFlag 5
def tstMpiInt : TypeFlags := typeFlag 6
def tstMpiUnsigned : TypeFlags := typeFlag 7
def tstMpiLong : TypeFlags := typeFlag 8
def tstMpiUnsignedLong : TypeFlags := typeFlag 9
def tstMpiFloat : TypeFlags := typeFlag 10
def tstMpiDouble : TypeFlags := typeFlag 11
def tstMpiLongDouble : TypeFlags := typeFlag 12
def tstMpiLongLong : TypeFlags := typeFlag 13
def tstMpiPacked : TypeFlags := typeFlag 14
def tstMpiFloatInt : TypeFlags := typeFlag 15
def tstMpiDoubleInt : TypeFlags := typeFlag 16
def tstMpiLongInt : TypeFlags := typeFlag 17
def tstMpiShortInt : TypeFlags := typeFlag 18
def tstMpi2Int : TypeFlags := typeFlag 19
def tstMpiLongDoubleInt : TypeFlags := typeFlag 20
def tstMpiComplex : TypeFlags := typeFlag 21
def tstMpiDoubleComplex : TypeFlags := typeFlag 22
def tstMpiReal : TypeFlags := typeFlag 24
def tstMpiDoublePrecision : TypeFlags := typeFlag 25
def tstMpiInteger : TypeFlags := typeFlag 26
def tstMpiIntConti : TypeFlags := typeFlag 33
def tstMpiIntVector : TypeFlags := typeFlag 34
def tstMpiIntHvector : TypeFlags := typeFlag 35
def tstMpiIntIndexed : TypeFlags := typeFlag 36
def tstMpiIntHindexed : TypeFlags := typeFlag 37
def tstMpiIntStruct : TypeFlags := typeFlag 38
def tstMpiTypeMix : TypeFlags := typeFlag 39
def tstMpiTypeMixArray : TypeFlags := typeFlag 40
def tstMpiTypeMixLbUb : TypeFlags := typeFlag 41

/-- `TST_MPI_STANDARD_C_INT_TYPES`, with `MPI_SIGNED_CHAR` under MPI-2 only. -/
def tstMpiStandardCIntTypes (cfg : Config) : TypeFlags :=
  if cfg.haveMpi2 then
    tstMpiChar ||| tstMpiUnsignedChar ||| tstMpiSignedChar ||| tstMpiByte ||| tstMpiShort |||
      tstMpiUnsignedShort ||| tstMpiInt ||| tstMpiUnsigned ||| tstMpiLong ||| tstMpiUnsignedLong |||
      tstMpiLongLong
  else
    tstMpiChar ||| tstMpiUnsignedChar ||| tstMpiByte ||| tstMpiShort ||| tstMpiUnsignedShort |||
      tstMpiInt ||| tstMpiUnsigned ||| tstMpiLong ||| tstMpiUnsignedLong ||| tstMpiLongLong

def tstMpiStandardCFloatTypes : TypeFlags := tstMpiFloat ||| tstMpiDouble ||| tstMpiLongDouble

def tstMpiStandardCTypes (cfg : Config) : TypeFlags :=
  tstMpiStandardCIntTypes cfg ||| tstMpiStandardCFloatTypes

def tstMpiStructCTypes : TypeFlags :=
  tstMpiFloatInt ||| tstMpiDoubleInt ||| tstMpiLongInt ||| tstMpiShortInt ||| tstMpi2Int |||
    tstMpiLongDoubleInt

def tstMpiDerivedCIntTypes : TypeFlags :=
  tstMpiIntConti ||| tstMpiIntVector ||| tstMpiIntHvector ||| tstMpiIntIndexed |||
    tstMpiIntHindexed ||| tstMpiIntStruct

def tstMpiDerivedMixedTypes : TypeFlags :=
  tstMpiTypeMix ||| tstMpiTypeMixArray ||| tstMpiTypeMixLbUb

def tstMpiAllCTypes (cfg : Config) : TypeFlags :=
  tstMpiStandardCTypes cfg ||| tstMpiStructCTypes ||| tstMpiDerivedCIntTypes |||
    tstMpiDerivedMixedTypes

def tstMpiStandardFortranIntTypes : TypeFlags := tstMpiInteger

def tstMpiStandardFortranFloatTypes : TypeFlags := tstMpiReal ||| tstMpiDoublePrecision

def tstMpiStandardFortranComplexTypes : TypeFlags := tstMpiComplex ||| tstMpiDoubleComplex

/-! ## Modes -/

/-- `tst_mode_types`. The mode of a test and the mode the program runs in are compared as `int`s. -/
inductive TstMode
  | disabled
  | strict
  | relaxed
  /-- `TST_MODE_MAX`, where the search for an unknown mode string ends. -/
  | max
  deriving DecidableEq, Repr

def TstMode.toInt : TstMode → ℤ
  | disabled => 0
  | strict => 1
  | relaxed => 2
  | max => 3

end MpiTestSuite

import MpiTestSuite.Tables.Config

/-!
# The table of communicators

`comms` has `COMM_NUM = 32` slots, of which `tst_comms_register` fills the first few, depending on
the number of processes and on the version of MPI. The slots behind them are zero: they have an
empty description and belong to no class.

A description is kept in a field of 48 bytes that `strncpy` need not terminate. The one description
that has 49 bytes is therefore read past the end of its field, into the bytes of the class that
follows it (`Comm.descriptionString`), and no command line can match it.
-/

open MpiTestSuite.CString

namespace MpiTestSuite

/-- `COMM_NUM`. -/
def commNum : ℕ := 32

/-- The parts of `struct comm` that selection and scheduling read. -/
structure Comm where
  /-- The bytes of the field `description`. -/
  description : List Char
  /-- `class`. -/
  commClass : Flags
  /-- `mpi_comm` is `MPI_COMM_NULL`. -/
  isNull : Bool
  deriving DecidableEq, Repr

/-- A slot that was never registered. -/
def Comm.zero : Comm := ⟨List.replicate tstDescriptionLen (Char.ofNat 0), 0, false⟩

/-- The bytes of an `int` in memory, lowest first. -/
def flagsBytes (c : Flags) : List Char :=
  (List.range 4).map fun i ↦ Char.ofNat ((c >>> (8 * i)).toNat % 256)

/-- `comms[i].description`, used as a C string. -/
def Comm.descriptionString (c : Comm) : CString := read (c.description ++ flagsBytes c.commClass)

/-- `tst_comms_class_strings`. -/
def tstCommsClassStrings (cfg : Config) : List CString :=
  [lit "COMM_SELF", lit "COMM_NULL", lit "INTRA_COMM", lit "INTER_COMM", lit "CART_COMM",
    lit "TOPO_COMM"]
    ++ if 3 ≤ cfg.mpiVersion then [lit "SHARED_COMM"] else []

/-- The registered communicators, which fit into the table. -/
structure CommTable where
  registered : List Comm
  length_le : registered.length ≤ commNum

namespace CommTable

/-- `num_registered_comms`. -/
def num (t : CommTable) : ℕ := t.registered.length

/-- `comms[i]`, for any slot. -/
def slot (t : CommTable) (i : ℕ) : Comm := t.registered[i]?.getD Comm.zero

end CommTable

/-! ## Registration -/

/-- `tst_comm_register`, whose assertion keeps the number of communicators within the table. -/
def tstCommRegister (description : String) (c : Flags) (isNull : Bool) (t : CommTable) :
    CommTable :=
  if h : t.registered.length < commNum then
    ⟨t.registered ++ [⟨strncpy tstDescriptionLen (lit description), c, isNull⟩], by
      rw [List.length_append]
      exact h⟩
  else t

/-- Register only if there is more than one process. -/
def registerIfSeveral (worldSize : ℕ) (description : String) (c : Flags) (t : CommTable) :
    CommTable :=
  if 1 < worldSize then tstCommRegister description c false t else t

/-- `tst_comms_register`. -/
def tstCommsRegister (cfg : Config) (worldSize : ℕ) : CommTable :=
  let t : CommTable := ⟨[], Nat.zero_le _⟩
  let t := tstCommRegister "MPI_COMM_WORLD" tstMpiIntraComm false t
  let t := tstCommRegister "MPI_COMM_NULL" tstMpiCommNull true t
  let t := tstCommRegister "MPI_COMM_SELF" tstMpiCommSelf false t
  let t := tstCommRegister "Duplicated MPI_COMM_WORLD" tstMpiIntraComm false t
  let t := tstCommRegister "Reversed MPI_COMM_WORLD" tstMpiIntraComm false t
  let t := tstCommRegister "Halved MPI_COMM_WORLD" tstMpiIntraComm false t
  let t := registerIfSeveral worldSize "2D Cart_comm" tstMpiCartComm t
  let t := registerIfSeveral worldSize "3D Cart_comm" tstMpiCartComm t
  let t := tstCommRegister "Odd/Even split MPI_COMM_WORLD" tstMpiIntraComm false t
  let t := tstCommRegister "Full-connected Topology" tstMpiTopoComm false t
  let t := registerIfSeveral worldSize "Halved Inter_communicator" tstMpiInterComm t
  let t := registerIfSeveral worldSize "Intracomm merged of the Halved Inter_communicator"
    tstMpiIntraComm t
  if 3 ≤ cfg.mpiVersion then
    tstCommRegister "MPI_COMM_TYPE_SHARED comm" (tstMpiSharedComm ||| tstMpiIntraComm) false t
  else t

/-! ## Readers -/

/-- `tst_comm_getcommclass`. -/
def tstCommGetcommclass (t : CommTable) (i : ℤ) : Flags :=
  if i < 0 then -1 else (t.slot i.toNat).commClass

/-- `tst_comm_getcommsize`, where `mpiCommSize` is what `MPI_Comm_size` says of each slot. -/
def tstCommGetcommsize (t : CommTable) (mpiCommSize : ℕ → ℤ) (i : ℤ) : ℤ :=
  if i < 0 then -1 else if (t.slot i.toNat).isNull then 0 else mpiCommSize i.toNat

theorem slot_of_num_le {t : CommTable} {i : ℕ} (h : t.num ≤ i) : t.slot i = Comm.zero := by
  rw [CommTable.slot, List.getElem?_eq_none h, Option.getD_none]

example (t : CommTable) (i : ℕ) (h : t.num ≤ i) : (t.slot i).descriptionString = [] := by
  rw [slot_of_num_le h]
  decide

example : ((tstCommsRegister ⟨3, true, true, true, true, true, true, true, true⟩ 4).registered.map
    Comm.descriptionString)[11]?
    = some (lit "Intracomm merged of the Halved Inter_communicato\x04") := by decide

end MpiTestSuite

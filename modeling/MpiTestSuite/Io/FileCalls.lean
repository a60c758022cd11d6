import MpiTestSuite.Coding.OpenFile
import MpiTestSuite.Io.FileCheck
import MpiTestSuite.Runs.Turns
import MpiTestSuite.Types.Compare

/-!
# The calls of the tests in which ranks take turns

In four tests of file access every rank goes through a loop over all ranks, and makes its own access
to the file in its own round. Two of them use the shared file pointer, one appends to the file and
one opens it with `MPI_COMM_SELF`. The rounds end in a barrier, or the file is opened and closed by
all ranks in every round, and the tests that write end in `tst_file_check`.

The calls are numbered by rounds and within them, in the same way for all ranks, so that those that
all ranks make together lie between those that only one of them makes
(`TurnTest.Placed.takesTurns`).
-/

namespace MpiTestSuite

open Runs Turns

/-! ## Calls -/

/-- The access modes that the tests open files with. -/
inductive Amode
  | rdonly
  | rdwr
  /-- `MPI_MODE_CREATE |MPI_MODE_WRONLY`. -/
  | createWronly
  /-- `MPI_MODE_CREATE |MPI_MODE_WRONLY |MPI_MODE_APPEND`. -/
  | createWronlyAppend
  deriving DecidableEq, Repr

/-- The MPI calls of the tests. Files are opened and closed by all ranks of the communicator, or by
one rank with `MPI_COMM_SELF`. -/
inductive FileCall
  | barrier
  | openComm (amode : Amode)
  | closeComm
  | openSelf (amode : Amode)
  | closeSelf
  | setView
  | setAtomicity
  | seek
  | readShared
  | writeShared
  | write
  | getPositionShared
  | getPosition
  | getView
  | getAmode
  | getAtomicity
  /-- The reads and comparisons of `tst_file_check`. -/
  | check
  deriving DecidableEq, Repr

/-- The calls that no rank returns from before all have made them. -/
def FileCall.isCollective : FileCall → Bool
  | barrier | openComm _ | closeComm => true
  | _ => false

/-- A call, with the round of the loop it is made in and a number within the round. The first round
is round `1`. -/
structure Call where
  round : ℕ
  line : ℕ
  call : FileCall
  deriving DecidableEq, Repr

/-! ## Variables -/

/-- A file, with its shared file pointers. Opening a file and setting a view are calls that all
ranks make together; each of them begins with a pointer of its own, at zero. -/
structure SharedFile where
  file : File
  pointers : ℕ → ℕ

/-- `file`, an open file. -/
structure FileHandle where
  file : OpenFile
  amode : Amode
  atomicity : Bool

/-- The variables of one rank. -/
structure FileVars where
  /-- `none` is `MPI_FILE_NULL`. -/
  handle : Option FileHandle
  /-- How often a file has been opened or a view been set. -/
  views : ℕ
  /-- `read_buffer` or `write_buffer`. -/
  buffer : Memory
  offPosition : ℤ
  offView : ℤ
  datatypeCheck : Typemap
  filetypeCheck : Typemap
  amodeCheck : Amode
  atomicCheck : Bool
  /-- What `tst_file_check` compares. -/
  compared : List Memory

/-- Before `run`, no file is open. -/
structure FileVars.Fresh (x : FileVars) : Prop where
  handle_eq : x.handle = none
  views_eq : x.views = 0

/-- A file that has just been opened, with its individual pointer. -/
def FileHandle.opened (amode : Amode) (file : File) : FileHandle :=
  ⟨⟨0, byteView, byteView, if amode = .createWronlyAppend then file.length else 0⟩, amode, false⟩

/-- The open file as it is seen through the shared pointer. -/
def FileHandle.atPointer (h : FileHandle) (pointer : ℕ) : OpenFile :=
  { h.file with pointer := pointer }

section

variable (t : TypeSlot) (valuesNum : ℤ) (p : ℕ)

/-- What a call does, with the datatype `t`, `valuesNum` values and `p` ranks; `none` if no file is
open, or if there is an error. -/
def FileCall.exec (commRank : ℕ) (call : FileCall) (g : SharedFile) (x : FileVars) :
    Option (SharedFile × FileVars) :=
  match call with
  | barrier => some (g, x)
  | openComm amode | openSelf amode =>
    some (g, { x with handle := some (.opened amode g.file), views := x.views + 1 })
  | closeComm | closeSelf => x.handle.map fun _ ↦ (g, { x with handle := none })
  | setView => x.handle.map fun h ↦
    (g, { x with
      handle := some { h with file := .setView 0 t.datatype.typemap t.datatype.typemap }
      views := x.views + 1 })
  | setAtomicity => x.handle.map fun h ↦ (g, { x with handle := some { h with atomicity := true } })
  | seek => do
    let h ← x.handle
    let offset ← elementOffset commRank valuesNum
    return (g, { x with handle := some { h with file := h.file.seekSet offset } })
  | readShared => do
    let h ← x.handle
    let count ← elementCount valuesNum
    let w := (h.atPointer (g.pointers x.views)).read g.file t.datatype.typemap count x.buffer
    return ({ g with pointers := Function.update g.pointers x.views w.2.pointer },
      { x with buffer := w.1 })
  | writeShared => do
    let h ← x.handle
    let count ← elementCount valuesNum
    let w := (h.atPointer (g.pointers x.views)).write t.datatype.typemap count x.buffer
    return (⟨g.file.write w.1, Function.update g.pointers x.views w.2.pointer⟩, x)
  | write => do
    let h ← x.handle
    let count ← elementCount valuesNum
    let w := h.file.write t.datatype.typemap count x.buffer
    return ({ g with file := g.file.write w.1 }, { x with handle := some { h with file := w.2 } })
  | getPositionShared => x.handle.map fun _ ↦ (g, { x with offPosition := g.pointers x.views })
  | getPosition => x.handle.map fun h ↦ (g, { x with offPosition := h.file.pointer })
  | getView => x.handle.map fun h ↦
    (g, { x with
      offView := h.file.disp
      datatypeCheck := h.file.etype
      filetypeCheck := h.file.filetype })
  | getAmode => x.handle.map fun h ↦ (g, { x with amodeCheck := h.amode })
  | getAtomicity => x.handle.map fun h ↦ (g, { x with atomicCheck := h.atomicity })
  | check => do
    let _ ← x.handle
    let compared ← tstFileCheck t valuesNum p g.file
    return (g, { x with compared := compared })

section

variable {t p} {n commRank : ℕ} {g : SharedFile} {x : FileVars} {h : FileHandle}
  (hhandle : x.handle = some h)

include hhandle

/-! What the calls do with an open file. -/

theorem exec_closeComm : FileCall.closeComm.exec t n p commRank g x
    = some (g, { x with handle := none }) := by
  rw [FileCall.exec, hhandle, Option.map_some]

theorem exec_closeSelf : FileCall.closeSelf.exec t n p commRank g x
    = some (g, { x with handle := none }) := by
  rw [FileCall.exec, hhandle, Option.map_some]

theorem exec_setView : FileCall.setView.exec t n p commRank g x
    = some (g, { x with
        handle := some { h with file := .setView 0 t.datatype.typemap t.datatype.typemap }
        views := x.views + 1 }) := by
  rw [FileCall.exec, hhandle, Option.map_some]

theorem exec_setAtomicity : FileCall.setAtomicity.exec t n p commRank g x
    = some (g, { x with handle := some { h with atomicity := true } }) := by
  rw [FileCall.exec, hhandle, Option.map_some]

theorem exec_seek (hfits : commRank * n < 2 ^ 31) : FileCall.seek.exec t n p commRank g x
    = some (g, { x with handle := some { h with file := h.file.seekSet (commRank * n) } }) := by
  rw [FileCall.exec, hhandle, elementOffset_eq_some_iff.mpr ⟨hfits, rfl⟩]
  rfl

theorem exec_readShared {buffer : Memory} {file : OpenFile}
    (hread : (h.atPointer (g.pointers x.views)).read g.file t.datatype.typemap n x.buffer
      = (buffer, file)) :
    FileCall.readShared.exec t n p commRank g x
      = some ({ g with pointers := Function.update g.pointers x.views file.pointer },
        { x with buffer := buffer }) := by
  simp only [FileCall.exec, hhandle, elementCount_natCast, Option.bind_eq_bind, Option.bind_some,
    hread, Option.pure_def]

theorem exec_writeShared {writes : List (ℤ × UInt8)} {file : OpenFile}
    (hwrite : (h.atPointer (g.pointers x.views)).write t.datatype.typemap n x.buffer
      = (writes, file)) :
    FileCall.writeShared.exec t n p commRank g x
      = some (⟨g.file.write writes, Function.update g.pointers x.views file.pointer⟩, x) := by
  simp only [FileCall.exec, hhandle, elementCount_natCast, Option.bind_eq_bind, Option.bind_some,
    hwrite, Option.pure_def]

theorem exec_write {writes : List (ℤ × UInt8)} {file : OpenFile}
    (hwrite : h.file.write t.datatype.typemap n x.buffer = (writes, file)) :
    FileCall.write.exec t n p commRank g x
      = some ({ g with file := g.file.write writes },
        { x with handle := some { h with file := file } }) := by
  simp only [FileCall.exec, hhandle, elementCount_natCast, Option.bind_eq_bind, Option.bind_some,
    hwrite, Option.pure_def]

theorem exec_getPositionShared : FileCall.getPositionShared.exec t n p commRank g x
    = some (g, { x with offPosition := g.pointers x.views }) := by
  rw [FileCall.exec, hhandle, Option.map_some]

theorem exec_getPosition : FileCall.getPosition.exec t n p commRank g x
    = some (g, { x with offPosition := h.file.pointer }) := by
  rw [FileCall.exec, hhandle, Option.map_some]

theorem exec_getView : FileCall.getView.exec t n p commRank g x
    = some (g, { x with
        offView := h.file.disp
        datatypeCheck := h.file.etype
        filetypeCheck := h.file.filetype }) := by
  rw [FileCall.exec, hhandle, Option.map_some]

theorem exec_getAmode : FileCall.getAmode.exec t n p commRank g x
    = some (g, { x with amodeCheck := h.amode }) := by
  rw [FileCall.exec, hhandle, Option.map_some]

theorem exec_getAtomicity : FileCall.getAtomicity.exec t n p commRank g x
    = some (g, { x with atomicCheck := h.atomicity }) := by
  rw [FileCall.exec, hhandle, Option.map_some]

theorem exec_check (hfits : ArrayFits t n) : FileCall.check.exec t n p commRank g x
    = some (g, { x with compared := comparedBuffers t n p g.file (freshValues t n) }) := by
  have hcheck : tstFileCheck t n p g.file = some _ := fileCheck_eq_some_iff.mpr ⟨n, rfl, hfits, rfl⟩
  simp only [FileCall.exec, hhandle, hcheck, Option.bind_eq_bind, Option.bind_some, Option.pure_def]

end

/-- The position at which a call accesses the file. -/
def FileCall.position (call : FileCall) (g : SharedFile) (x : FileVars) : Option ℕ :=
  match call with
  | readShared | writeShared => some (g.pointers x.views)
  | write => x.handle.map fun h ↦ h.file.pointer
  | _ => none

theorem position_write {g : SharedFile} {x : FileVars} {h : FileHandle}
    (hhandle : x.handle = some h) : FileCall.write.position g x = some h.file.pointer := by
  rw [FileCall.position, hhandle, Option.map_some]

end

/-- What a rank compares after its calls. No test that takes turns asks for the size of the file. -/
def FileVars.answers (type : Typemap) (tstAtomic : Bool) (x : FileVars) : FileAnswers where
  offPosition := x.offPosition
  offView := x.offView
  sameDatatype := tstTypeCompare x.datatypeCheck.bounds type.bounds == tstSucess
  sameFiletype := tstTypeCompare x.filetypeCheck.bounds type.bounds == tstSucess
  fileSizeBefore := 0
  fileSizeAfter := 0
  sameAmode := x.amodeCheck == .createWronlyAppend
  atomicCheck := x.atomicCheck
  tstAtomic := tstAtomic

/-! ## The tests -/

/-- A test in which the ranks take turns. -/
structure TurnTest where
  functions : String
  /-- The comparisons that lead to `ERROR`, with their messages. -/
  errors : TypeSlot → Env → ℕ → ℕ → FileAnswers → List (Bool × String)
  /-- The file and the buffer of a rank after `init`. -/
  file : Config → TypeSlot → ℤ → ℕ → File → Option File
  buffer : Config → TypeSlot → ℤ → ℕ → Option Memory
  /-- The check of the buffer at the end. -/
  checkBuffer : Config → TypeSlot → Env → Memory → ℕ → Option (List Env)
  /-- The calls before the loop, if `tst_atomic` is set or not, in a round of a rank, and after it.
  -/
  before : Bool → List Call
  round : Bool → ℕ → ℕ → List Call
  after : ℕ → ℕ → List Call
  /-- The access to the file that a rank makes in its own round, and its number there. -/
  turn : ℕ × FileCall
  /-- How many units of the file pointer an element has. -/
  unit : Typemap → ℕ

namespace TurnTest

/-- The calls of a rank in `run`. -/
def run (w : TurnTest) (tstAtomic : Bool) (commSize commRank : ℕ) : List Call :=
  w.before tstAtomic ++ (List.range commSize).flatMap (w.round tstAtomic commRank)
    ++ w.after commSize commRank

/-- The access of a rank. -/
def access (w : TurnTest) (commRank : ℕ) : Call := ⟨commRank + 1, w.turn.1, w.turn.2⟩

end TurnTest

/-- The calls of `tst_file_check`. -/
def tstFileCheckCalls (commSize commRank : ℕ) : List Call :=
  [⟨commSize + 2, 0, .openComm .rdwr⟩]
    ++ (if commRank = 0 then [⟨commSize + 2, 1, .check⟩] else []) ++ [⟨commSize + 2, 2, .closeComm⟩]

/-- The write buffer of the tests that write. -/
def writeBuffer (cfg : Config) (t : TypeSlot) (valuesNum : ℤ) (commRank : ℕ) : Option Memory := do
  let writeBuffer ← tstTypeAllocvalues t valuesNum
  tstTypeSetstandardarray cfg t valuesNum.toNat writeBuffer commRank

def tstFileReadSharedTurns : TurnTest where
  functions := "tst_file_read_shared"
  errors _ env commRank _ := viewErrors (endPosition env commRank)
    ("Error in position after MPI_File_read_shared",
      "Error in view position after MPI_File_read_shared", "Error in datatype",
      "Error in filetype")
  file := tstFileAlloc
  buffer _ t valuesNum _ := tstTypeAllocvalues t valuesNum
  checkBuffer cfg t env buffer commRank := tstTestCheckstandardarray cfg t env buffer commRank
  before _ := [⟨0, 0, .openComm .rdonly⟩, ⟨0, 1, .setView⟩]
  round _ commRank i :=
    (if commRank = i then
      [⟨i + 1, 1, .readShared⟩, ⟨i + 1, 2, .getPositionShared⟩, ⟨i + 1, 3, .getView⟩]
    else []) ++ [⟨i + 1, 9, .barrier⟩]
  after commSize _ := [⟨commSize + 1, 0, .closeComm⟩]
  turn := (1, .readShared)
  unit _ := 1

def tstFileWriteSharedTurns : TurnTest where
  functions := tstFileWriteShared.functions
  errors := tstFileWriteShared.errors
  file _ _ _ _ file := some file
  buffer := writeBuffer
  checkBuffer _ _ _ _ _ := some []
  before tstAtomic := [⟨0, 0, .openComm .createWronly⟩, ⟨0, 1, .setView⟩]
    ++ if tstAtomic then [⟨0, 2, .setAtomicity⟩] else []
  round _ commRank i := [⟨i + 1, 0, .barrier⟩]
    ++ (if commRank = i then
      [⟨i + 1, 1, .writeShared⟩, ⟨i + 1, 2, .getPositionShared⟩, ⟨i + 1, 3, .getView⟩]
    else []) ++ [⟨i + 1, 9, .barrier⟩]
  after commSize commRank :=
    [⟨commSize + 1, 0, .closeComm⟩] ++ tstFileCheckCalls commSize commRank
  turn := (1, .writeShared)
  unit _ := 1

def tstFileAppendModeTurns : TurnTest where
  functions := tstFileAppendMode.functions
  errors := tstFileAppendMode.errors
  file _ _ _ _ file := some file
  buffer := writeBuffer
  checkBuffer _ _ _ _ _ := some []
  before _ := []
  round tstAtomic commRank i := [⟨i + 1, 0, .openComm .createWronlyAppend⟩]
    ++ (if tstAtomic then [⟨i + 1, 1, .setAtomicity⟩] else [])
    ++ (if i = commRank then [⟨i + 1, 2, .write⟩, ⟨i + 1, 3, .getPosition⟩] else [])
    ++ [⟨i + 1, 4, .getAmode⟩, ⟨i + 1, 5, .getAtomicity⟩, ⟨i + 1, 9, .closeComm⟩]
  after commSize commRank := tstFileCheckCalls commSize commRank
  turn := (2, .write)
  unit type := type.size

def tstFileIoCommselfTurns : TurnTest where
  functions := tstFileIoCommself.functions
  errors := tstFileIoCommself.errors
  file _ _ _ _ file := some file
  buffer := writeBuffer
  checkBuffer _ _ _ _ _ := some []
  before _ := []
  round tstAtomic commRank i :=
    (if i = commRank then
      [⟨i + 1, 1, .openSelf .createWronly⟩]
        ++ (if tstAtomic then [⟨i + 1, 2, .setAtomicity⟩] else [])
        ++ [⟨i + 1, 3, .setView⟩, ⟨i + 1, 4, .seek⟩, ⟨i + 1, 5, .write⟩, ⟨i + 1, 6, .getPosition⟩,
          ⟨i + 1, 7, .getView⟩, ⟨i + 1, 8, .closeSelf⟩]
    else []) ++ [⟨i + 1, 9, .barrier⟩]
  after commSize commRank := tstFileCheckCalls commSize commRank
  turn := (5, .write)
  unit _ := 1

/-- The tests in which the ranks take turns. -/
def turnTests : List TurnTest :=
  [tstFileReadSharedTurns, tstFileWriteSharedTurns, tstFileAppendModeTurns, tstFileIoCommselfTurns]

/-! ## The order of the calls -/

/-- The number of a call in the whole program. -/
def Call.level (c : Call) : ℕ := 10 * c.round + c.line

def Call.isCollective (c : Call) : Bool := c.call.isCollective

/-- The calls that all ranks make together. -/
def Call.Collective (c : Call) : Prop := c.isCollective = true

/-- The number of a call does not depend on the rank. -/
def callLevel {p : ℕ} (_ : Fin p) (c : Call) : ℕ := c.level

/-- Calls in order, all of them in rounds from `low` to `high`. -/
structure Between (low high : ℕ) (calls : List Call) : Prop where
  sorted : calls.Pairwise fun a b ↦ a.level < b.level
  low_le : ∀ c ∈ calls, low ≤ c.round
  le_high : ∀ c ∈ calls, c.round ≤ high
  line_lt : ∀ c ∈ calls, c.line < 10

namespace Between

variable {low mid high : ℕ} {l l' : List Call}

theorem nil : Between low high [] := ⟨.nil, nofun, nofun, nofun⟩

theorem append (h : Between low mid l) (h' : Between (mid + 1) high l') (hlow : low ≤ mid + 1)
    (hhigh : mid ≤ high) : Between low high (l ++ l') where
  sorted := by
    refine List.pairwise_append.mpr ⟨h.sorted, h'.sorted, fun a ha b hb ↦ ?_⟩
    have hround := h.le_high a ha
    have hround' := h'.low_le b hb
    have hline := h.line_lt a ha
    rw [Call.level, Call.level]
    omega
  low_le c hc := (List.mem_append.mp hc).elim (h.low_le c) fun hc ↦ hlow.trans (h'.low_le c hc)
  le_high c hc :=
    (List.mem_append.mp hc).elim (fun hc ↦ (h.le_high c hc).trans hhigh) (h'.le_high c)
  line_lt c hc := (List.mem_append.mp hc).elim (h.line_lt c) (h'.line_lt c)

theorem mono (h : Between mid high l) (hlow : low ≤ mid) : Between low high l where
  sorted := h.sorted
  low_le c hc := hlow.trans (h.low_le c hc)
  le_high := h.le_high
  line_lt := h.line_lt

/-- The rounds of a loop. -/
theorem loop {body : ℕ → List Call} (h : ∀ i, Between (i + 1) (i + 1) (body i)) (n : ℕ) :
    Between 1 n ((List.range n).flatMap body) := by
  induction n with
  | zero => exact nil
  | succ n ih =>
    rw [List.range_succ, List.flatMap_append, List.flatMap_singleton]
    exact ih.append (h n) (by omega) (by omega)

end Between

namespace TurnTest

/-- The calls of a test are in order. All ranks make the same collective calls, and each round ends
with one. -/
structure Placed (w : TurnTest) : Prop where
  before : ∀ tstAtomic, Between 0 0 (w.before tstAtomic)
  round : ∀ tstAtomic r i, Between (i + 1) (i + 1) (w.round tstAtomic r i)
  after : ∀ p r, Between (p + 1) (p + 2) (w.after p r)
  round_collective : ∀ tstAtomic r r' i, (w.round tstAtomic r i).filter Call.isCollective
    = (w.round tstAtomic r' i).filter Call.isCollective
  after_collective : ∀ p r r', (w.after p r).filter Call.isCollective
    = (w.after p r').filter Call.isCollective
  ends : ∀ tstAtomic r i, ∃ c ∈ w.round tstAtomic r i, c.isCollective = true ∧ c.line = 9
  access_mem : ∀ tstAtomic r, w.access r ∈ w.round tstAtomic r r
  access_line : w.turn.1 < 9

namespace Placed

variable {w : TurnTest} {tstAtomic : Bool} {p : ℕ}

theorem between (h : w.Placed) (tstAtomic : Bool) (p r : ℕ) :
    Between 0 (p + 2) (w.run tstAtomic p r) := by
  have hloop := (h.before tstAtomic).append (Between.loop (h.round tstAtomic r) p) (by omega)
    (Nat.zero_le p)
  exact hloop.append (h.after p r) (by omega) (by omega)

theorem filter_run (h : w.Placed) (tstAtomic : Bool) (p r r' : ℕ) :
    (w.run tstAtomic p r).filter Call.isCollective
      = (w.run tstAtomic p r').filter Call.isCollective := by
  simp only [run, List.filter_append, List.filter_flatMap, h.after_collective p r r',
    h.round_collective tstAtomic r r']

theorem mem_run {r i : ℕ} (hi : i < p) {c : Call}
    (hc : c ∈ w.round tstAtomic r i) : c ∈ w.run tstAtomic p r :=
  List.mem_append_left _ (List.mem_append_right _
    (List.mem_flatMap.mpr ⟨i, List.mem_range.mpr hi, hc⟩))

/-- A call up to a round is made before all calls of later rounds. -/
theorem precedes (h : w.Placed) {q r : Fin p} {a b : Call} {i : ℕ} (hi : i < p)
    (ha : a.round ≤ i + 1) (hline : a.line < 9) (hb : i + 1 < b.round) :
    Precedes Call.Collective callLevel
      (fun r : Fin p ↦ w.run tstAtomic p r) q a r b := by
  obtain ⟨c, hc, hcollective, hend⟩ := h.ends tstAtomic r i
  have hlow := (h.round tstAtomic r i).low_le c hc
  have hhigh := (h.round tstAtomic r i).le_high c hc
  refine .inr ⟨c, mem_run hi hc, hcollective, ?_, ?_⟩
  · change 10 * a.round + a.line < 10 * c.round + c.line
    omega
  · change 10 * c.round + c.line < 10 * b.round + b.line
    omega

/-- **Turns.** The ranks access the file one after another. -/
theorem takesTurns (h : w.Placed) (tstAtomic : Bool) (p : ℕ) :
    TakesTurns Call.Collective callLevel
      (fun r : Fin p ↦ w.run tstAtomic p r) fun r ↦ w.access r where
  ordered r := (h.between tstAtomic p r).sorted
  matched q r c hc hcollective := by
    have hmem := List.mem_filter.mpr ⟨hc, hcollective⟩
    rw [h.filter_run tstAtomic p q r] at hmem
    exact ⟨(List.mem_filter.mp hmem).1, rfl⟩
  mem r := mem_run r.isLt (h.access_mem tstAtomic r)
  apart q r hlt := h.precedes q.isLt le_rfl h.access_line (Nat.succ_lt_succ hlt)

section

variable {r : Fin p} {a : Call} {m : ℕ}

/-- What a rank does in its own round after its access. -/
theorem eq_succ_of_allowed (h : w.Placed) (hround : a.round = r + 1) (hlow : w.turn.1 < a.line)
    (hhigh : a.line < 9)
    (hm : Allowed Call.Collective callLevel (fun r : Fin p ↦ w.run tstAtomic p r)
      (fun r ↦ w.access r) r a m) : m = r + 1 := by
  have hlevel : (w.access r).level < a.level := by
    change 10 * (r + 1) + w.turn.1 < 10 * a.round + a.line
    omega
  have hown := hm.lt_of_precedes r (.inl ⟨rfl, hlevel⟩)
  have hle := hm.le
  by_cases hlast : r + 1 < p
  · have hnext := hm.le_of_precedes ⟨r + 1, hlast⟩
      (h.precedes r.isLt hround.le hhigh (Nat.lt_succ_self _))
    exact Nat.le_antisymm hnext hown
  · omega

/-- What a rank does in its own round before its access. -/
theorem eq_of_allowed (h : w.Placed) (hround : a.round = r + 1) (hlow : a.line < w.turn.1)
    (hm : Allowed Call.Collective callLevel (fun r : Fin p ↦ w.run tstAtomic p r)
      (fun r ↦ w.access r) r a m) : m = r := by
  have hlevel : a.level < (w.access r).level := by
    change 10 * a.round + a.line < 10 * (r + 1) + w.turn.1
    omega
  have hown := hm.le_of_precedes r (.inl ⟨rfl, hlevel⟩)
  rcases Nat.eq_zero_or_pos (r : ℕ) with hzero | hpos
  · omega
  · have hprevious := hm.lt_of_precedes ⟨r - 1, by omega⟩
      (h.precedes (i := r - 1) (by omega) le_rfl h.access_line (by omega))
    simp only at hprevious
    omega

/-- What is done after the loop. -/
theorem eq_size_of_allowed (h : w.Placed) (hround : p < a.round)
    (hm : Allowed Call.Collective callLevel (fun r : Fin p ↦ w.run tstAtomic p r)
      (fun r ↦ w.access r) r a m) : m = p := by
  have hpos := r.pos
  have hlast := hm.lt_of_precedes ⟨p - 1, by omega⟩
    (h.precedes (i := p - 1) (by omega) le_rfl h.access_line (by omega))
  have hle := hm.le
  simp only at hlast
  omega

end

end Placed

end TurnTest

theorem between_fileCheckCalls (p r : ℕ) : Between (p + 2) (p + 2) (tstFileCheckCalls p r) := by
  rw [tstFileCheckCalls]
  constructor <;> split_ifs <;> simp [Call.level]

theorem filter_fileCheckCalls (p r r' : ℕ) :
    (tstFileCheckCalls p r).filter Call.isCollective
      = (tstFileCheckCalls p r').filter Call.isCollective := by
  rw [tstFileCheckCalls, tstFileCheckCalls]
  split_ifs <;> rfl

theorem placed_readShared : tstFileReadSharedTurns.Placed where
  before _ := by constructor <;> simp [tstFileReadSharedTurns, Call.level]
  round _ r i := by
    constructor <;> simp only [tstFileReadSharedTurns] <;> split_ifs <;> simp [Call.level]
  after _ _ := by constructor <;> simp [tstFileReadSharedTurns]
  round_collective _ r r' i := by
    simp only [tstFileReadSharedTurns]
    split_ifs <;> rfl
  after_collective _ _ _ := rfl
  ends _ r i := ⟨⟨i + 1, 9, .barrier⟩, by simp [tstFileReadSharedTurns], rfl, rfl⟩
  access_mem _ r := by simp [tstFileReadSharedTurns, TurnTest.access]
  access_line := by decide

theorem placed_writeShared : tstFileWriteSharedTurns.Placed where
  before tstAtomic := by
    constructor <;> simp only [tstFileWriteSharedTurns] <;> split_ifs <;> simp [Call.level]
  round _ r i := by
    constructor <;> simp only [tstFileWriteSharedTurns] <;> split_ifs <;> simp [Call.level]
  after p r :=
    have hclose : Between (p + 1) (p + 1) [⟨p + 1, 0, .closeComm⟩] := by constructor <;> simp
    hclose.append (between_fileCheckCalls p r) (by omega) (by omega)
  round_collective _ r r' i := by
    simp only [tstFileWriteSharedTurns]
    split_ifs <;> rfl
  after_collective p r r' := by
    simp only [tstFileWriteSharedTurns, List.filter_append, filter_fileCheckCalls p r r']
  ends _ r i := ⟨⟨i + 1, 9, .barrier⟩, by simp [tstFileWriteSharedTurns], rfl, rfl⟩
  access_mem _ r := by simp [tstFileWriteSharedTurns, TurnTest.access]
  access_line := by decide

theorem placed_appendMode : tstFileAppendModeTurns.Placed where
  before _ := Between.nil
  round tstAtomic r i := by
    constructor <;> simp only [tstFileAppendModeTurns] <;> split_ifs <;> simp [Call.level]
  after p r := (between_fileCheckCalls p r).mono (by omega)
  round_collective tstAtomic r r' i := by
    simp only [tstFileAppendModeTurns]
    split_ifs <;> rfl
  after_collective p r r' := filter_fileCheckCalls p r r'
  ends _ r i := ⟨⟨i + 1, 9, .closeComm⟩, by simp [tstFileAppendModeTurns], rfl, rfl⟩
  access_mem _ r := by simp [tstFileAppendModeTurns, TurnTest.access]
  access_line := by decide

theorem placed_ioCommself : tstFileIoCommselfTurns.Placed where
  before _ := Between.nil
  round tstAtomic r i := by
    constructor <;> simp only [tstFileIoCommselfTurns] <;> split_ifs <;> simp [Call.level]
  after p r := (between_fileCheckCalls p r).mono (by omega)
  round_collective tstAtomic r r' i := by
    simp only [tstFileIoCommselfTurns]
    split_ifs <;> rfl
  after_collective p r r' := filter_fileCheckCalls p r r'
  ends _ r i := ⟨⟨i + 1, 9, .barrier⟩, by simp [tstFileIoCommselfTurns], rfl, rfl⟩
  access_mem _ r := by simp [tstFileIoCommselfTurns, TurnTest.access]
  access_line := by decide

end MpiTestSuite

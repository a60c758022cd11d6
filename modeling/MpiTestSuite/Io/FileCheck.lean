import MpiTestSuite.Io.FileLayout
import MpiTestSuite.Report.Oracle

/-!
# What becomes of a file that is wrong

Nineteen tests write a file with all ranks and end in `tst_file_check`, where the root reads the
file chunk by chunk and compares chunk `r` with the standard array of rank `r`. Before that they ask
MPI for positions and views, and end with `ERROR` if these are not what they should be.

The wrong elements of a chunk are counted, but `tst_file_check` drops the counts and returns zero,
and no writer looks at what it returns. A file with wrong contents is never recorded.
-/

namespace MpiTestSuite

/-- What MPI says about the file after the last write. -/
structure FileAnswers where
  /-- `off_position`. -/
  offPosition : ℤ
  /-- `off_view`. -/
  offView : ℤ
  /-- `tst_type_compare (datatype_check, type) == TST_SUCESS`. -/
  sameDatatype : Bool
  /-- `tst_type_compare (filetype_check, type) == TST_SUCESS`. -/
  sameFiletype : Bool
  /-- `check_file_size_before` and `check_file_size_after`. -/
  fileSizeBefore : ℤ
  fileSizeAfter : ℤ
  /-- `amode_check` is `MPI_MODE_CREATE |MPI_MODE_WRONLY |MPI_MODE_APPEND`. -/
  sameAmode : Bool
  /-- `atomic_check`, and whether `tst_atomic` is `TST_ATOM_TRUE`. -/
  atomicCheck : Bool
  tstAtomic : Bool

/-- A test that ends in `tst_file_check`: the prefix of the names of its functions, and the
comparisons in front of the check that lead to `ERROR`, with their messages. -/
structure FileWriter where
  functions : String
  errors : TypeSlot → Env → ℕ → ℕ → FileAnswers → List (Bool × String)

/-! ## The writers -/

/-- The comparisons most writers make: the position, the view and the two datatypes. -/
def viewErrors (position : ℤ) (messages : String × String × String × String) (a : FileAnswers) :
    List (Bool × String) :=
  [(a.offPosition != position, messages.1), (a.offView != 0, messages.2.1),
    (!a.sameDatatype, messages.2.2.1), (!a.sameFiletype, messages.2.2.2)]

/-- `env->values_num * (comm_rank+1)`, in `int`. -/
def endPosition (env : Env) (commRank : ℕ) : ℤ := wrapInt (env.valuesNum * (commRank + 1))

/-- The comparisons of a size that was set in advance. -/
def sizeErrors (t : TypeSlot) (env : Env) (commSize : ℕ) (a : FileAnswers) : List (Bool × String) :=
  let fileSize := wrapInt (wrapInt (commSize * env.valuesNum) * t.size)
  [(a.fileSizeBefore != fileSize, "Error in MPI_File_set_size"),
    (a.fileSizeAfter != fileSize, "Error in filesize after Operation")]

def tstFileWriteAt : FileWriter where
  functions := "tst_file_write_at"
  errors _ _ _ _ := viewErrors 0 ("Error in position after MPI_File_write_at",
    "Error in view position after MPI_File_write_at", "Error in datatype", "Error in filetype")

def tstFileWriteAtAll : FileWriter where
  functions := "tst_file_write_at_all"
  errors _ _ _ _ := viewErrors 0 ("Error in position after MPI_File_write_at_all",
    "Error in view position after MPI_File_write_at_all", "Error in datatype", "Error in filetype")

def tstFileIwriteAt : FileWriter where
  functions := "tst_file_iwrite_at"
  errors _ _ _ _ := viewErrors 0 ("Error in position", "Error in view point",
    "Error in datatype after MPI_File_iread_shared",
    "Error in filetype after MPI_File_iread_shared")

def tstFileWriteAtAllBegin : FileWriter where
  functions := "tst_file_write_at_all_begin"
  errors _ _ _ _ := viewErrors 0 ("Error in position after MPI_File_write_at_all_begin",
    "Error in view position after MPI_File_write_at_all_begin", "Error in datatype",
    "Error in filetype")

def tstFileWrite : FileWriter where
  functions := "tst_file_write"
  errors _ env commRank _ := viewErrors (endPosition env commRank)
    ("Error in position after MPI_File_write", "Error in view position after MPI_File_write",
      "Error in datatype", "Error in filetype")

def tstFileWriteAll : FileWriter where
  functions := "tst_file_write_all"
  errors _ env commRank _ := viewErrors (endPosition env commRank)
    ("Error in position after MPI_File_write_all",
      "Error in view position after MPI_File_write_all", "Error in datatype", "Error in filetype")

def tstFileIwrite : FileWriter where
  functions := "tst_file_iwrite"
  errors _ env commRank _ := viewErrors (endPosition env commRank)
    ("Error in position after MPI_File_iwrite", "Error in view position after MPI_File_iwrite",
      "Error in datatype after MPI_File_iread_shared",
      "Error in filetype after MPI_File_iread_shared")

def tstFileWriteAllBegin : FileWriter where
  functions := "tst_file_write_all_begin"
  errors _ env commRank _ := viewErrors (endPosition env commRank)
    ("Error in position after MPI_File_write_all_begin",
      "Error in view position after MPI_File_write_all_begin", "Error in datatype",
      "Error in filetype")

def tstFileWriteShared : FileWriter where
  functions := "tst_file_write_shared"
  errors _ env commRank _ := viewErrors (endPosition env commRank)
    ("Error in position after MPI_File_write_shared",
      "Error in view position after MPI_File_write_shared", "Error in datatype",
      "Error in filetype")

def tstFileWriteOrdered : FileWriter where
  functions := "tst_file_write_ordered"
  errors _ _ _ _ := viewErrors 0 ("Error in position after MPI_File_write_ordered",
    "Error in view position after MPI_File_write_ordered", "Error in datatype",
    "Error in filetype")

def tstFileIwriteShared : FileWriter where
  functions := "tst_file_iwrite_shared"
  errors _ env commRank _ := viewErrors (endPosition env commRank)
    ("Error in position after MPI_File_iwrite_shared",
      "Error in view position after MPI_File_iwrite_shared",
      "Error in datatype after MPI_File_iread_shared",
      "Error in filetype after MPI_File_iread_shared")

def tstFileWriteOrderedBegin : FileWriter where
  functions := "tst_file_write_ordered_begin"
  errors _ _ _ _ := viewErrors 0 ("Error in position after MPI_File_write_ordered_begin",
    "Error in view position after MPI_File_write_ordered_begin", "Error in datatype",
    "Error in filetype")

/-- The view of this test has a datatype of its own, with which `filetype_check` is compared. -/
def tstFileWriteDarray : FileWriter where
  functions := "tst_file_write_darray"
  errors _ env _ _ := viewErrors env.valuesNum
    ("Error in position after MPI_File_write with the darray",
      "Error in view position after MPI_File_write with the darray", "Error in datatype",
      "Error in filetype")

/-- This one does not compare the datatype of its view. -/
def tstFileWriteSubarray : FileWriter where
  functions := "tst_file_write_subarray"
  errors _ env _ _ a :=
    [(a.offPosition != env.valuesNum, "Error in position after MPI_File_write in subarray"),
      (a.offView != 0, "Error in view position after MPI_File_write in subarray"),
      (!a.sameDatatype, "Error in datatype")]

/-- The position is in bytes of data, of which there is no more than `MPI_Type_size` counts. -/
def tstFileAppendMode : FileWriter where
  functions := "tst_file_append_mode"
  errors t env commRank _ a :=
    [(a.offPosition !=
        wrapInt (wrapInt (t.datatype.typemap.size * env.valuesNum) * (commRank + 1)),
        "Error in position after MPI_File_write"),
      (!a.sameAmode, "Error in view amode_check"),
      (a.tstAtomic && !a.atomicCheck, "Error in atomicity_check")]

def tstFileIoCommself : FileWriter where
  functions := "tst_file_io_commself"
  errors _ env commRank _ := viewErrors (endPosition env commRank)
    ("Error in offset position", "Error in view point", "Error in datatype", "Error in filetype ")

/-- This one compares nothing. -/
def tstFileSequentialMode : FileWriter where
  functions := "tst_file_sequential_mode"
  errors _ _ _ _ _ := []

def tstFileSetSize : FileWriter where
  functions := "tst_file_set_size"
  errors t env commRank commSize a := viewErrors (endPosition env commRank)
      ("Error in position after MPI_File_write", "Error in view position after MPI_File_write",
        "Error in datatype", "Error in filetype") a
    ++ sizeErrors t env commSize a

def tstFilePreallocate : FileWriter where
  functions := "tst_file_preallocate"
  errors t env commRank commSize a := viewErrors (endPosition env commRank)
      ("Error in position", "Error in view point", "Error in datatype", "Error in filetype") a
    ++ sizeErrors t env commSize a

/-- The tests that end in `tst_file_check`. -/
def fileWriters : List FileWriter :=
  [tstFileWriteAt, tstFileWriteAtAll, tstFileIwriteAt, tstFileWriteAtAllBegin, tstFileWrite,
    tstFileWriteAll, tstFileIwrite, tstFileWriteAllBegin, tstFileWriteShared, tstFileWriteOrdered,
    tstFileIwriteShared, tstFileWriteOrderedBegin, tstFileWriteDarray, tstFileWriteSubarray,
    tstFileAppendMode, tstFileIoCommself, tstFileSequentialMode, tstFileSetSize,
    tstFilePreallocate]

/-! ## The check -/

section

variable (cfg : Config) (t : TypeSlot)

/-- The value that `tst_file_check` returns. Only the root compares anything, and the counts are
dropped. The buffer is as large as the one that the writer has allocated in `init`, so a writer that
gets here has memory for it. -/
def tstFileCheckReturned (n commRank commSize : ℕ) (file : File) : Option ℤ := do
  if commRank = 0 then
    forM (comparedBuffers t n commSize file (freshValues t n)).zipIdx fun x ↦ do
      let _ ← tstTypeCheckstandardarray cfg t n x.1 x.2
      return ()
  return 0

/-- The run of a writer from the last write on: the environments that `tst_test_recordfailure` is
called with. Nothing is made of what `tst_file_check` returns. -/
def FileWriter.finish (w : FileWriter) (env : Env) (commRank commSize : ℕ) (a : FileAnswers)
    (file : File) : Except Stop (List Env) :=
  match (w.errors t env commRank commSize a).find? Prod.fst with
  | some e => .error (.error e.2)
  | none =>
    match tstFileCheckReturned cfg t env.valuesNum.toNat commRank commSize file with
    | some _ => .ok []
    | none => .error (.error "Unknown type in tst_type_setvalue")

/-- Chunk `r` of a file is there, and it is the standard array of rank `r`. -/
def ChunkArrived (n : ℕ) (file : File) (r : ℕ) : Prop :=
  (r + 1) * (n * t.datatype.typemap.size) ≤ file.length ∧
    HoldsStandardArray cfg t n r (file.read byteView (r * (n * t.datatype.typemap.size))
      t.datatype.typemap n (freshValues t n))

end

/-- No count leaves `tst_file_check`. -/
theorem Settable.fileCheckReturned_eq {cfg : Config} {t : TypeSlot} {fields : List FieldStore}
    (h : Settable cfg t fields) (n commRank commSize : ℕ) (file : File) :
    tstFileCheckReturned cfg t n commRank commSize file = some 0 := by
  have hloop := h.forM_drop n (comparedBuffers t n commSize file (freshValues t n)).zipIdx Prod.fst
    fun x ↦ x.2
  rw [tstFileCheckReturned]
  split_ifs
  · rw [hloop]
    rfl
  · rfl

/-- **Wrong files.** For every writer that gets as far as the check, on the root, and for every
content of the file: a wrong chunk leads to a recorded failure, and nothing is recorded without one,
under the condition that no chunk is wrong. Whatever is in the file, the run returns and the table
of failures is what it was. -/
theorem file_check_records_iff (cfg : Config) (t : TypeSlot) (ht : t ∈ initTypes cfg)
    (hnull : t.datatype ≠ .null) (env : Env) (commSize : ℕ) (file : File)
    (contents : Vector Failure tstTestsNumFailedMax) :
    ∀ w ∈ fileWriters, ∀ a : FileAnswers, (∀ e ∈ w.errors t env 0 commSize a, e.1 = false) →
      ∃ calls failed, w.finish cfg t env 0 commSize a file = .ok calls ∧
        recordfailures calls (tstTestInit contents) = .ok failed ∧
        (((∃ r < commSize, ¬ChunkArrived cfg t env.valuesNum.toNat file r) → 0 < failed.num) ∧
            ((∀ r < commSize, ChunkArrived cfg t env.valuesNum.toNat file r) → calls = []) ↔
          ∀ r < commSize, ChunkArrived cfg t env.valuesNum.toNat file r) := by
  intro w _ a hnoError
  obtain ⟨fields, h⟩ := exists_settable cfg ht hnull
  have hfind : (w.errors t env 0 commSize a).find? Prod.fst = none :=
    List.find?_eq_none.mpr fun e he ↦ by rw [hnoError e he]; exact Bool.false_ne_true
  refine ⟨[], tstTestInit contents, ?_, rfl, ?_⟩
  · rw [FileWriter.finish, hfind, h.fileCheckReturned_eq]
  · simp [tstTestInit]

/-- Three values of `MPI_INT` on two processes, and an empty file. -/
theorem file_check_records_iff_int :
    let cfg : Config := ⟨2, true, true, true, true, true, true, true, true⟩
    let env : Env := ⟨65, 0, 6, 3, 0⟩
    let file : File := .new fun _ ↦ 0
    ∃ calls failed, tstFileWriteAt.finish cfg (slotMpi2 6) env 0 2
          ⟨0, 0, true, true, 0, 0, true, true, true⟩ file = .ok calls ∧
        recordfailures calls (tstTestInit (.replicate tstTestsNumFailedMax ⟨0, 0, 0, 0⟩))
          = .ok failed ∧
        (((∃ r < 2, ¬ChunkArrived cfg (slotMpi2 6) 3 file r) → 0 < failed.num) ∧
            ((∀ r < 2, ChunkArrived cfg (slotMpi2 6) 3 file r) → calls = []) ↔
          ∀ r < 2, ChunkArrived cfg (slotMpi2 6) 3 file r) :=
  file_check_records_iff ⟨2, true, true, true, true, true, true, true, true⟩ (slotMpi2 6)
    (by decide +kernel) (by decide +kernel) ⟨65, 0, 6, 3, 0⟩ 2 (.new fun _ ↦ 0)
    (.replicate tstTestsNumFailedMax ⟨0, 0, 0, 0⟩) tstFileWriteAt List.mem_cons_self
    ⟨0, 0, true, true, 0, 0, true, true, true⟩ (by decide)

/-- An empty file passes. -/
theorem file_check_records_nothing :
    ¬∀ (cfg : Config) (t : TypeSlot), t ∈ initTypes cfg → t.datatype ≠ .null →
      ∀ (env : Env) (commSize : ℕ) (file : File)
        (contents : Vector Failure tstTestsNumFailedMax), ∀ w ∈ fileWriters, ∀ a : FileAnswers,
        ∀ calls failed, w.finish cfg t env 0 commSize a file = .ok calls →
          recordfailures calls (tstTestInit contents) = .ok failed →
          (∃ r < commSize, ¬ChunkArrived cfg t env.valuesNum.toNat file r) → 0 < failed.num := by
  intro h
  have hpositive := h ⟨2, true, true, true, true, true, true, true, true⟩ (slotMpi2 6)
    (by decide +kernel) (by decide +kernel) ⟨100, 0, 6, 3, 0⟩ 1 (.new fun _ ↦ 0)
    (.replicate tstTestsNumFailedMax ⟨0, 0, 0, 0⟩) tstFileSequentialMode (by simp [fileWriters])
    ⟨0, 0, true, true, 0, 0, true, true, true⟩ [] _ (by decide +kernel) rfl
    ⟨0, Nat.one_pos, fun hchunk ↦ absurd hchunk.1 (by decide +kernel)⟩
  exact Nat.lt_irrefl 0 hpositive

end MpiTestSuite

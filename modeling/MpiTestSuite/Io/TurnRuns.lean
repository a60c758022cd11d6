import MpiTestSuite.Io.TurnTaking

/-!
# Runs of the tests that take turns

Each rank of the four tests has a plan for its calls. What this means for the runs of all ranks
together is put down here (`TurnTest.Works`): they access the file one after another, each of them
at the position that the one before has left, nobody waits forever, and in the end there is nothing
to complain about.

Before that every rank allocates its buffer, and at the end the root does so once more. There is
memory for the data of a file of which the number of bytes is an `int`, but the buffers have eight
elements more.
-/

open Relation

namespace MpiTestSuite

open Runs Turns Meetings

namespace TurnTest

/-! ## What works -/

section

variable (w : TurnTest) (cfg : Config) (t : TypeSlot) (env : Env) (p : ℕ) (tstAtomic : Bool)

/-- What the ranks share and their own variables, when `run` is called. -/
structure Started (file : File) (vars : SharedFile × (Fin p → FileVars)) : Prop where
  file_eq : w.file cfg t env.valuesNum p file = some vars.1.file
  pointers_eq : vars.1.pointers = fun _ ↦ 0
  fresh : ∀ r, (vars.2 r).Fresh
  buffer_eq : ∀ r : Fin p, w.buffer cfg t env.valuesNum r = some (vars.2 r).buffer

/-- A call of some rank. -/
abbrev Steps : State (Fin p) Call (SharedFile × (Fin p → FileVars)) →
    State (Fin p) Call (SharedFile × (Fin p → FileVars)) → Prop :=
  Step (Meet Call.Collective) (each (Call.exec t env.valuesNum p))

/-- All ranks call `run`. -/
def begin (vars : SharedFile × (Fin p → FileVars)) :
    State (Fin p) Call (SharedFile × (Fin p → FileVars)) :=
  .start (fun r : Fin p ↦ w.run tstAtomic p r) vars

/-- The first ranks have accessed the file, and whoever is about to do so finds the position that
the others have left. -/
structure InTurn (s : State (Fin p) Call (SharedFile × (Fin p → FileVars))) : Prop where
  ordered : ∃ m : ℕ, ∀ r : Fin p, w.access r ∈ s.done r ↔ r < m
  position : ∀ (r : Fin p) rest, s.todo r = w.access r :: rest →
    w.turn.2.position s.vars.1 (s.vars.2 r)
      = some (r * (env.valuesNum.toNat * w.unit t.datatype.typemap))

/-- The file consists of the standard arrays of all ranks, every rank is where it should be, and all
checks are passed. -/
structure Succeeds (file : File) (vars : SharedFile × (Fin p → FileVars)) : Prop where
  length_eq : vars.1.file.length
    = max file.length (p * (env.valuesNum.toNat * t.datatype.typemap.size))
  arrived : ∀ r < p, ChunkArrived cfg t env.valuesNum.toNat vars.1.file r
  position : ∀ r : Fin p, (vars.2 r).offPosition
    = ((r + 1) * (env.valuesNum.toNat * w.unit t.datatype.typemap) : ℕ)
  no_error : ∀ r : Fin p,
    ∀ e ∈ w.errors t env r p ((vars.2 r).answers t.datatype.typemap tstAtomic), e.1 = false
  checked : ∀ r : Fin p, w.checkBuffer cfg t env (vars.2 r).buffer r = some []
  compared : ∀ r : Fin p, (∃ c ∈ w.run tstAtomic p r, c.call = .check) →
    ∀ q < p, ∃ buf, (vars.2 r).compared[q]? = some buf ∧
      IsStandardArray cfg t env.valuesNum.toNat q buf

/-- In every run the ranks take turns, somebody can go on until all are done, which they are some
time, and then the test has succeeded. -/
structure Works (file : File) (vars : SharedFile × (Fin p → FileVars)) : Prop where
  inTurn : ∀ s, ReflTransGen (Steps t env p) (w.begin p tstAtomic vars) s → w.InTurn t env p s
  exists_step : ∀ s, ReflTransGen (Steps t env p) (w.begin p tstAtomic vars) s →
    ∀ r, s.todo r ≠ [] → ∃ s', Steps t env p s s'
  terminates : ∀ s, ReflTransGen (Steps t env p) (w.begin p tstAtomic vars) s →
    Acc (fun s' s ↦ Steps t env p s s') s
  succeeds : ∀ s, ReflTransGen (Steps t env p) (w.begin p tstAtomic vars) s →
    (∀ r, s.todo r = []) → w.Succeeds cfg t env p tstAtomic file s.vars

/-- `init` comes to its end, and then `run` works. -/
structure Passes (file : File) : Prop where
  exists_started : ∃ vars, w.Started cfg t env p file vars
  works : ∀ vars, w.Started cfg t env p file vars → w.Works cfg t env p tstAtomic file vars

end

variable {w : TurnTest} {cfg : Config} {t : TypeSlot} {fields : List FieldStore} {env : Env}
  {p : ℕ} {tstAtomic : Bool} {file : File} {vars : SharedFile × (Fin p → FileVars)}

/-- Plans for all ranks are enough. -/
theorem Placed.works (hplaced : w.Placed) (hvalues : 0 ≤ env.valuesNum) {shared : ℕ → SharedFile}
    {final : Fin p → FileVars → Prop} (hshared : vars.1 = shared 0)
    (hplan : ∀ r : Fin p, ∃ A, w.Follows t env.valuesNum.toNat p tstAtomic shared r A
      (w.run tstAtomic p r) (final r) ∧ A (vars.2 r))
    (hsucceeds : ∀ x, (∀ r, final r (x r)) →
      w.Succeeds cfg t env p tstAtomic file (shared p, x)) :
    w.Works cfg t env p tstAtomic file vars := by
  have hturns := hplaced.takesTurns tstAtomic p
  have hsteps : Steps t env p = Step (Meet Call.Collective)
      (each (Call.exec t env.valuesNum.toNat p)) := by
    rw [Steps, Int.toNat_of_nonneg hvalues]
  refine ⟨fun s hrun ↦ ?_, fun s hrun r hr ↦ ?_, fun s _ ↦ acc_step s, fun s hrun hover ↦ ?_⟩
  all_goals rw [hsteps] at hrun
  · obtain ⟨m, hm⟩ := hturns.run hshared hplan hrun
    refine ⟨⟨m, hm.taken⟩, fun r rest htodo ↦ ?_⟩
    obtain ⟨hfound, -⟩ := hturns.next hrun hm htodo
    exact hfound rfl
  · obtain ⟨m, hm⟩ := hturns.run hshared hplan hrun
    rw [hsteps]
    exact hturns.exists_step hrun hm hr
  · obtain ⟨m, hm⟩ := hturns.run hshared hplan hrun
    obtain ⟨heq, hfinal⟩ := hturns.final_of_over hrun hm hover
    have hall := hsucceeds s.vars.2 hfinal
    rwa [← heq] at hall

end TurnTest

/-! ## What is checked -/

/-- Before the loop and in it nothing is read back. -/
theorem call_ne_check {w : TurnTest} (hw : w ∈ turnTests) (tstAtomic : Bool) (r : ℕ) :
    (∀ c ∈ w.before tstAtomic, c.call ≠ .check) ∧
      ∀ i, ∀ c ∈ w.round tstAtomic r i, c.call ≠ .check := by
  simp only [turnTests, List.mem_cons, List.not_mem_nil, or_false] at hw
  rcases hw with rfl | rfl | rfl | rfl
  · simp only [tstFileReadSharedTurns]
    exact ⟨by simp, fun i ↦ by split_ifs <;> simp⟩
  · simp only [tstFileWriteSharedTurns]
    exact ⟨by split_ifs <;> simp, fun i ↦ by split_ifs <;> simp⟩
  · simp only [tstFileAppendModeTurns]
    exact ⟨by simp, fun i ↦ by split_ifs <;> simp⟩
  · simp only [tstFileIoCommselfTurns]
    exact ⟨by simp, fun i ↦ by split_ifs <;> simp⟩

/-- Who calls `tst_file_check`, calls it after the loop. -/
theorem mem_after_of_check {w : TurnTest} (hw : w ∈ turnTests) {tstAtomic : Bool} {p r : ℕ}
    (hcheck : ∃ c ∈ w.run tstAtomic p r, c.call = .check) : ∃ c ∈ w.after p r, c.call = .check := by
  obtain ⟨hbefore, hround⟩ := call_ne_check hw tstAtomic r
  obtain ⟨c, hc, hcall⟩ := hcheck
  rw [TurnTest.run, List.mem_append, List.mem_append, List.mem_flatMap] at hc
  rcases hc with (hc | ⟨i, -, hc⟩) | hc
  · exact absurd hcall (hbefore c hc)
  · exact absurd hcall (hround i c hc)
  · exact ⟨c, hc, hcall⟩

/-- There the root alone compares something. -/
theorem root_of_fileCheck {p r : ℕ} {c : Call} (hc : c ∈ tstFileCheckCalls p r)
    (hcall : c.call = .check) : r = 0 := by
  by_contra hr
  rw [tstFileCheckCalls, if_neg hr] at hc
  simp only [List.append_nil, List.singleton_append, List.mem_cons, List.not_mem_nil,
    or_false] at hc
  rcases hc with rfl | rfl <;> cases hcall

/-- Nothing is wrong with a position and a view of elements. -/
theorem ViewChecked.no_error {type : Typemap} {position : ℕ} {x : FileVars}
    (h : ViewChecked type position x) (messages : String × String × String × String)
    (tstAtomic : Bool) :
    ∀ e ∈ viewErrors position messages (x.answers type tstAtomic), e.1 = false := by
  have hsame : tstTypeCompare type.bounds type.bounds = tstSucess :=
    tstTypeCompare_eq_sucess_iff.mpr ⟨rfl, rfl⟩
  simp [viewErrors, FileVars.answers, h.offPosition_eq, h.offView_eq, h.datatypeCheck_eq,
    h.filetypeCheck_eq, hsame]

/-- The product that a position is compared with is an `int`. -/
theorem fits_of_product {n p size r : ℕ} (hsize : 0 < size) (hfits : n * p * size < 2 ^ 31)
    (hr : r < p) : (r + 1) * (n * size) < 2 ^ 31 ∧ (r + 1) * n < 2 ^ 31 := by
  have hbytes : (r + 1) * (n * size) ≤ n * p * size := by
    calc (r + 1) * (n * size) ≤ p * (n * size) := Nat.mul_le_mul_right _ hr
      _ = n * p * size := by ring
  have helements : (r + 1) * n ≤ (r + 1) * (n * size) :=
    Nat.mul_le_mul_left _ (Nat.le_mul_of_pos_right n hsize)
  exact ⟨hbytes.trans_lt hfits, (helements.trans hbytes).trans_lt hfits⟩

theorem bound_of_product {n p size r : ℕ} (hsize : 0 < size) (hfits : n * p * size < 2 ^ 31)
    (hp : p < 2 ^ 31) (hr : r < p) : r + n ≤ 2 ^ 32 := by
  have hint := (fits_of_product hsize hfits hr).2
  have hle : n ≤ (r + 1) * n := Nat.le_mul_of_pos_left n r.succ_pos
  omega

theorem endPosition_eq {env : Env} {n r : ℕ} (hn : env.valuesNum = n)
    (hfits : (r + 1) * n < 2 ^ 31) : endPosition env r = ((r + 1) * n : ℕ) := by
  have heq : env.valuesNum * (r + 1) = ((r + 1) * n : ℕ) := by
    rw [hn, mul_comm]
    push_cast
    rfl
  rw [endPosition, heq]
  exact wrapInt_of_fitsInt ⟨by omega, by exact_mod_cast hfits⟩

/-- The position in bytes. -/
theorem bytePosition_eq {env : Env} {n size r : ℕ} (hn : env.valuesNum = n)
    (hfits : (r + 1) * (n * size) < 2 ^ 31) :
    wrapInt (wrapInt (size * env.valuesNum) * (r + 1)) = ((r + 1) * (n * size) : ℕ) := by
  have hle : n * size ≤ (r + 1) * (n * size) := Nat.le_mul_of_pos_left _ r.succ_pos
  have hproduct : size * env.valuesNum = (n * size : ℕ) := by
    rw [hn, mul_comm]
    push_cast
    rfl
  have hall : ((n * size : ℕ) : ℤ) * (r + 1) = ((r + 1) * (n * size) : ℕ) := by
    push_cast
    ring
  have hsize : FitsInt (n * size : ℕ) := ⟨by omega, by exact_mod_cast hle.trans_lt hfits⟩
  rw [hproduct, wrapInt_of_fitsInt hsize, hall]
  exact wrapInt_of_fitsInt ⟨by omega, by exact_mod_cast hfits⟩

namespace Transferable

variable {cfg : Config} {t : TypeSlot} {fields : List FieldStore} {env : Env} {p : ℕ}
  {tstAtomic : Bool} {file : File} {vars : SharedFile × (Fin p → FileVars)}

theorem length_standardFile_eq_max (n m : ℕ) : (standardFile cfg t fields n file m).length
    = max file.length (m * (n * t.datatype.typemap.size)) := by
  rw [standardFile, File.length_write_range]

/-- `tst_file_check` compares the right arrays. -/
theorem compared_fileCheck (h : Transferable cfg t fields) {w : TurnTest} (hw : w ∈ turnTests)
    {n r : ℕ} {compared : List Memory}
    (hafter : ∀ c ∈ w.after p r, c.call = .check → c ∈ tstFileCheckCalls p r)
    (hcompared : r = 0 → compared = comparedBuffers t n p (standardFile cfg t fields n file p)
      (freshValues t n))
    (hcheck : ∃ c ∈ w.run tstAtomic p r, c.call = .check) :
    ∀ q < p, ∃ buf, compared[q]? = some buf ∧ IsStandardArray cfg t n q buf := by
  obtain ⟨c, hc, hcall⟩ := mem_after_of_check hw hcheck
  rw [hcompared (root_of_fileCheck (hafter c hc hcall) hcall)]
  exact fun q hq ↦ h.isStandardArray_comparedBuffers hq

/-- The buffer of a rank that writes. -/
theorem writeBuffer_eq (h : Transferable cfg t fields) {valuesNum : ℤ}
    (harray : ArrayFits t valuesNum) (r : ℕ) : writeBuffer cfg t valuesNum r
      = some (written cfg t fields r valuesNum.toNat (freshValues t valuesNum.toNat)) := by
  rw [writeBuffer, harray.allocvalues_eq, Option.bind_eq_bind, Option.bind_some,
    h.settable.setstandardarray_eq]

/-- The file after `tst_file_alloc`. -/
theorem fileAlloc_eq (h : Transferable cfg t fields) {valuesNum : ℤ}
    (harray : ArrayFits t valuesNum) : tstFileAlloc cfg t valuesNum p file
      = some (standardFile cfg t fields valuesNum.toNat file p) := by
  obtain ⟨n, rfl⟩ := Int.eq_ofNat_of_zero_le harray.count
  exact h.fileAlloc_eq_some_iff.mpr ⟨n, rfl, harray, rfl⟩

/-- The standard arrays in a file, as far as they are concerned. -/
theorem arrived_standardFile (h : Transferable cfg t fields) {n : ℕ}
    (hfits : n * p * t.datatype.typemap.size < 2 ^ 31) (hp : p < 2 ^ 31) :
    ∀ r < p, ChunkArrived cfg t n (standardFile cfg t fields n file p) r :=
  fun _ hr ↦ h.chunkArrived hr (bound_of_product h.size_pos hfits hp hr)

theorem readState_zero (n : ℕ) : readState cfg t fields n p file 0
    = ⟨standardFile cfg t fields n file p, fun _ ↦ 0⟩ := by
  rw [readState, zero_mul, Function.update_eq_self]

theorem writeState_zero (n : ℕ) : writeState cfg t fields n file 0 = ⟨file, fun _ ↦ 0⟩ := by
  rw [writeState, zero_mul, Function.update_eq_self, standardFile_zero]

theorem closedState_zero (n : ℕ) : closedState cfg t fields n file 0 = ⟨file, fun _ ↦ 0⟩ := by
  rw [closedState, standardFile_zero]

section

variable (h : Transferable cfg t fields)
  (hposition : ∀ k : ℕ, t.datatype.typemap.position k = k) (harray : ArrayFits t env.valuesNum)
  (hfits : env.valuesNum.toNat * p * t.datatype.typemap.size < 2 ^ 31) (hp : p < 2 ^ 31)

include h hposition harray hfits hp

theorem works_readShared (hstarted : tstFileReadSharedTurns.Started cfg t env p file vars) :
    tstFileReadSharedTurns.Works cfg t env p tstAtomic file vars := by
  have hnum : env.valuesNum = env.valuesNum.toNat := (Int.toNat_of_nonneg harray.count).symm
  obtain ⟨⟨contents, pointers⟩, x₀⟩ := vars
  have hcontents := Option.some_inj.mp ((h.fileAlloc_eq harray).symm.trans hstarted.file_eq)
  have hpointers : pointers = fun _ ↦ 0 := hstarted.pointers_eq
  subst hcontents hpointers
  refine placed_readShared.works harray.count (readState_zero _).symm
    (fun r ↦ ⟨_, h.follows_readShared hposition r, hstarted.fresh r,
      Option.some_inj.mp ((hstarted.buffer_eq r).symm.trans harray.allocvalues_eq)⟩) fun x hx ↦ ?_
  refine ⟨length_standardFile_eq_max _ p, h.arrived_standardFile hfits hp, fun r ↦ ?_,
    fun r ↦ ?_, fun r ↦ ?_, fun r hcheck ↦ ?_⟩
  · exact (hx r).2.offPosition_eq.trans (by simp [tstFileReadSharedTurns])
  · have hint := (fits_of_product h.size_pos hfits r.isLt).2
    have hall := (hx r).2.no_error ("Error in position after MPI_File_read_shared",
      "Error in view position after MPI_File_read_shared", "Error in datatype",
      "Error in filetype") tstAtomic
    rwa [← endPosition_eq hnum hint] at hall
  · have hholds := h.settable.holdsStandardArray_of_isStandardArray
      (bound_of_product h.size_pos hfits hp r.isLt) (hx r).1
    exact (h.settable.testCheckstandardarray_eq env _ r).trans (by rw [if_pos hholds])
  · -- the reader does not call `tst_file_check`
    obtain ⟨c, hc, hcall⟩ := mem_after_of_check (by simp [turnTests]) hcheck
    rw [List.mem_singleton.mp hc] at hcall
    cases hcall

theorem works_writeShared (hstarted : tstFileWriteSharedTurns.Started cfg t env p file vars) :
    tstFileWriteSharedTurns.Works cfg t env p tstAtomic file vars := by
  have hnum : env.valuesNum = env.valuesNum.toNat := (Int.toNat_of_nonneg harray.count).symm
  obtain ⟨⟨contents, pointers⟩, x₀⟩ := vars
  have hcontents : file = contents := Option.some_inj.mp hstarted.file_eq
  have hpointers : pointers = fun _ ↦ 0 := hstarted.pointers_eq
  subst hcontents hpointers
  refine placed_writeShared.works harray.count (writeState_zero _).symm
    (fun r ↦ ⟨_, h.follows_writeShared (hnum ▸ harray) hposition r _, hstarted.fresh r,
      Option.some_inj.mp ((hstarted.buffer_eq r).symm.trans (h.writeBuffer_eq harray r))⟩)
    fun x hx ↦ ?_
  refine ⟨length_standardFile_eq_max _ p, h.arrived_standardFile hfits hp, fun r ↦ ?_,
    fun r ↦ ?_, fun r ↦ rfl,
    fun r ↦ h.compared_fileCheck (by simp [turnTests]) (fun c hc hcall ↦ ?_) (hx r).2⟩
  · exact (hx r).1.offPosition_eq.trans (by simp [tstFileWriteSharedTurns])
  · have hint := (fits_of_product h.size_pos hfits r.isLt).2
    have hall := (hx r).1.no_error ("Error in position after MPI_File_write_shared",
      "Error in view position after MPI_File_write_shared", "Error in datatype",
      "Error in filetype") tstAtomic
    rwa [← endPosition_eq hnum hint] at hall
  · rcases List.mem_cons.mp hc with rfl | hc
    · cases hcall
    · exact hc

omit hposition in
theorem works_appendMode (hempty : file.length = 0)
    (hstarted : tstFileAppendModeTurns.Started cfg t env p file vars) :
    tstFileAppendModeTurns.Works cfg t env p tstAtomic file vars := by
  have hnum : env.valuesNum = env.valuesNum.toNat := (Int.toNat_of_nonneg harray.count).symm
  obtain ⟨⟨contents, pointers⟩, x₀⟩ := vars
  have hcontents : file = contents := Option.some_inj.mp hstarted.file_eq
  have hpointers : pointers = fun _ ↦ 0 := hstarted.pointers_eq
  subst hcontents hpointers
  refine placed_appendMode.works harray.count (closedState_zero _).symm
    (fun r ↦ ⟨_, h.follows_appendMode (hnum ▸ harray) hempty r _, hstarted.fresh r,
      Option.some_inj.mp ((hstarted.buffer_eq r).symm.trans (h.writeBuffer_eq harray r))⟩)
    fun x hx ↦ ?_
  refine ⟨length_standardFile_eq_max _ p, h.arrived_standardFile hfits hp,
    fun r ↦ (hx r).1.accessed r.isLt, fun r ↦ ?_, fun r ↦ rfl,
    fun r ↦ h.compared_fileCheck (by simp [turnTests]) (fun c hc _ ↦ hc) (hx r).2⟩
  have hend := bytePosition_eq hnum (fits_of_product h.size_pos hfits r.isLt).1
  obtain ⟨hamode, hatomic⟩ := (hx r).1.asked r.pos
  have hoffset := (hx r).1.accessed r.isLt
  simp only [tstFileAppendModeTurns, tstFileAppendMode, hend, List.forall_mem_cons]
  refine ⟨?_, ?_, ?_, List.forall_mem_nil _⟩
  · simp [FileVars.answers, hoffset]
  · simp [FileVars.answers, hamode]
  · cases tstAtomic with
    | true => simp [FileVars.answers, hatomic rfl]
    | false => rfl

theorem works_ioCommself (hstarted : tstFileIoCommselfTurns.Started cfg t env p file vars) :
    tstFileIoCommselfTurns.Works cfg t env p tstAtomic file vars := by
  have hnum : env.valuesNum = env.valuesNum.toNat := (Int.toNat_of_nonneg harray.count).symm
  have hint : ∀ r : Fin p, ((r : ℕ) + 1) * env.valuesNum.toNat < 2 ^ 31 := fun r ↦
    (fits_of_product h.size_pos hfits r.isLt).2
  obtain ⟨⟨contents, pointers⟩, x₀⟩ := vars
  have hcontents : file = contents := Option.some_inj.mp hstarted.file_eq
  have hpointers : pointers = fun _ ↦ 0 := hstarted.pointers_eq
  subst hcontents hpointers
  refine placed_ioCommself.works harray.count (closedState_zero _).symm
    (fun r ↦ ⟨_, h.follows_ioCommself (hnum ▸ harray) hposition r ?_ _, hstarted.fresh r,
      Option.some_inj.mp ((hstarted.buffer_eq r).symm.trans (h.writeBuffer_eq harray r))⟩)
    fun x hx ↦ ?_
  · exact (Nat.mul_le_mul_right _ (Nat.le_succ r)).trans_lt (hint r)
  refine ⟨length_standardFile_eq_max _ p, h.arrived_standardFile hfits hp, fun r ↦ ?_,
    fun r ↦ ?_, fun r ↦ rfl,
    fun r ↦ h.compared_fileCheck (by simp [turnTests]) (fun c hc _ ↦ hc) (hx r).2⟩
  · exact ((hx r).1.accessed r.isLt).offPosition_eq.trans (by simp [tstFileIoCommselfTurns])
  · have hall := ((hx r).1.accessed r.isLt).no_error ("Error in offset position",
      "Error in view point", "Error in datatype", "Error in filetype ") tstAtomic
    rwa [← endPosition_eq hnum (hint r)] at hall

end

end Transferable

/-! ## When they work -/

namespace TurnTest

variable {w : TurnTest} {cfg : Config} {t : TypeSlot} {fields : List FieldStore} {env : Env} {p : ℕ}
  {tstAtomic : Bool} {file : File}

theorem placed_of_mem (hw : w ∈ turnTests) : w.Placed := by
  simp only [turnTests, List.mem_cons, List.not_mem_nil, or_false] at hw
  rcases hw with rfl | rfl | rfl | rfl
  exacts [placed_readShared, placed_writeShared, placed_appendMode, placed_ioCommself]

/-- Whoever has a buffer has had memory for it. -/
theorem hasBlock_of_buffer (hw : w ∈ turnTests) {valuesNum : ℤ} {r : ℕ} {buffer : Memory}
    (hbuffer : w.buffer cfg t valuesNum r = some buffer) : HasBlock t valuesNum := by
  have hwrite : writeBuffer cfg t valuesNum r = some buffer → HasBlock t valuesNum := fun h ↦ by
    obtain ⟨m, hm, -⟩ := Option.bind_eq_some_iff.mp h
    exact hasBlock_of_allocvalues hm
  simp only [turnTests, List.mem_cons, List.not_mem_nil, or_false] at hw
  rcases hw with rfl | rfl | rfl | rfl
  exacts [hasBlock_of_allocvalues hbuffer, hwrite hbuffer, hwrite hbuffer, hwrite hbuffer]

/-- An access has a number of elements. -/
theorem nonneg_of_access (hw : w ∈ turnTests) {valuesNum : ℤ} {r : ℕ} {g : SharedFile}
    {x : FileVars} {y : SharedFile × FileVars}
    (hexec : w.turn.2.exec t valuesNum p r g x = some y) : 0 ≤ valuesNum := by
  simp only [turnTests, List.mem_cons, List.not_mem_nil, or_false] at hw
  rcases hw with rfl | rfl | rfl | rfl
  all_goals
    obtain ⟨handle, -, hrest⟩ := Option.bind_eq_some_iff.mp hexec
    obtain ⟨count, hcount, -⟩ := Option.bind_eq_some_iff.mp hrest
    rw [elementCount_eq_some_iff.mp hcount]
    exact Int.natCast_nonneg count

/-- Since every rank makes its access at some time, there is a number of elements. -/
theorem Works.nonneg {vars : SharedFile × (Fin p → FileVars)}
    (h : w.Works cfg t env p tstAtomic file vars) (hw : w ∈ turnTests) (hp : 0 < p) :
    0 ≤ env.valuesNum := by
  let r : Fin p := ⟨0, hp⟩
  obtain ⟨s, hrun, hover⟩ := exists_over h.exists_step
  have hgenuine : Genuine (fun r : Fin p ↦ w.run tstAtomic p r) s :=
    (genuine_start vars).run hrun
  have hdone : w.access r ∈ s.done r := by
    have hall := hgenuine r
    rw [hover r, List.append_nil] at hall
    rw [hall]
    exact Placed.mem_run hp ((placed_of_mem hw).access_mem tstAtomic r)
  obtain ⟨x, y, hexec⟩ := exec_of_done hrun hdone
  obtain ⟨z, hz, -⟩ := Option.map_eq_some_iff.mp hexec
  exact nonneg_of_access hw hz

/-- If the arrays fit, `init` comes to its end. -/
theorem exists_started (h : Transferable cfg t fields) (hw : w ∈ turnTests)
    (harray : ArrayFits t env.valuesNum) : ∃ vars, w.Started cfg t env p file vars := by
  obtain ⟨⟨contents, hcontents⟩, hbuffer⟩ : (∃ contents, w.file cfg t env.valuesNum p file
      = some contents) ∧ ∀ r : Fin p, ∃ b, w.buffer cfg t env.valuesNum r = some b := by
    have hwrite : ∀ r : Fin p, ∃ b, writeBuffer cfg t env.valuesNum r = some b :=
      fun r ↦ ⟨_, h.writeBuffer_eq harray r⟩
    simp only [turnTests, List.mem_cons, List.not_mem_nil, or_false] at hw
    rcases hw with rfl | rfl | rfl | rfl
    exacts [⟨⟨_, h.fileAlloc_eq harray⟩, fun _ ↦ ⟨_, harray.allocvalues_eq⟩⟩,
      ⟨⟨_, rfl⟩, hwrite⟩, ⟨⟨_, rfl⟩, hwrite⟩, ⟨⟨_, rfl⟩, hwrite⟩]
  choose b hb using hbuffer
  exact ⟨(⟨contents, fun _ ↦ 0⟩, fun r ↦
    ⟨none, 0, b r, 0, 0, byteView, byteView, .rdonly, false, []⟩), hcontents, rfl,
    fun _ ↦ ⟨rfl, rfl⟩, hb⟩

end TurnTest

/-- **Turns.** However the ranks are interleaved, in the four tests they access the file in the
order of their numbers, each at the position that the one below has left, and none of them waits
forever. In the end the file consists of the standard arrays of all ranks, and no error is reported.
For a datatype without padding, a number of bytes that is an `int` and a file that is empty, should
it be appended to, this is so exactly if the arrays fit. -/
theorem turns_work_iff (cfg : Config) (t : TypeSlot) (ht : t ∈ initTypes cfg)
    (hnull : t.datatype ≠ .null) (hgapless : t.datatype.typemap.Gapless)
    (hextent : t.datatype.typemap.extent = t.datatype.typemap.size) (row : Test)
    (hrow : row ∈ ioTests cfg) (hadmitted : t.typeClass &&& row.runWithType ≠ 0) (w : TurnTest)
    (hw : w ∈ turnTests) (env : Env) (p : ℕ) (hpos : 0 < p) (hp : p < 2 ^ 31)
    (hfits : FitsInt (env.valuesNum * p * t.datatype.typemap.size)) (tstAtomic : Bool)
    (file : File) (hfile : w = tstFileAppendModeTurns → file.length = 0) :
    w.Passes cfg t env p tstAtomic file ↔ ArrayFits t env.valuesNum := by
  rw [runWithType_ioTests cfg row hrow] at hadmitted
  obtain ⟨fields, h, -⟩ := exists_transferable cfg ht hnull hadmitted
  have hposition := hgapless.position_eq hextent h.size_pos
  constructor
  · rintro ⟨⟨vars, hstarted⟩, hworks⟩
    exact arrayFits_iff.mpr ⟨(hworks vars hstarted).nonneg hw hpos,
      TurnTest.hasBlock_of_buffer hw (hstarted.buffer_eq ⟨0, hpos⟩)⟩
  · intro harray
    refine ⟨TurnTest.exists_started h hw harray, fun vars hstarted ↦ ?_⟩
    have hbytes : env.valuesNum.toNat * p * t.datatype.typemap.size < 2 ^ 31 := by
      have hlt := hfits.2
      rw [← Int.toNat_of_nonneg harray.count] at hlt
      exact_mod_cast hlt
    simp only [turnTests, List.mem_cons, List.not_mem_nil, or_false] at hw
    rcases hw with rfl | rfl | rfl | rfl
    · exact h.works_readShared hposition harray hbytes hp hstarted
    · exact h.works_writeShared hposition harray hbytes hp hstarted
    · exact h.works_appendMode harray hbytes hp (hfile rfl) hstarted
    · exact h.works_ioCommself hposition harray hbytes hp hstarted

/-- Two ranks append three values of `MPI_INT` each. -/
theorem turns_work_iff_int :
    tstFileAppendModeTurns.Passes ⟨2, true, true, true, true, true, true, true, true⟩ (slotMpi2 6)
      ⟨65, 0, 6, 3, 0⟩ 2 true (.new fun _ ↦ 0) ↔ ArrayFits (slotMpi2 6) 3 :=
  turns_work_iff ⟨2, true, true, true, true, true, true, true, true⟩ (slotMpi2 6)
    (by decide +kernel) (by decide +kernel) (by decide +kernel) (by decide +kernel)
    ((ioTests ⟨2, true, true, true, true, true, true, true, true⟩).getD 1 noTest)
    (by decide +kernel) (by decide +kernel) tstFileAppendModeTurns (by simp [turnTests])
    ⟨65, 0, 6, 3, 0⟩ 2 (by norm_num) (by norm_num) (by decide +kernel) true (.new fun _ ↦ 0)
    fun _ ↦ rfl

/-- 268435455 values of `MPI_DOUBLE` are 2147483640 bytes. With eight elements more, the size of the
buffer is more than an `int` holds. -/
theorem turns_fail :
    ¬∀ (cfg : Config) (t : TypeSlot), t ∈ initTypes cfg → t.datatype ≠ .null →
      t.datatype.typemap.Gapless → t.datatype.typemap.extent = t.datatype.typemap.size →
        ∀ row ∈ ioTests cfg, t.typeClass &&& row.runWithType ≠ 0 → ∀ w ∈ turnTests,
          ∀ (env : Env) (p : ℕ), 0 ≤ env.valuesNum → 0 < p → p < 2 ^ 31 →
            FitsInt (env.valuesNum * p * t.datatype.typemap.size) →
              ∀ (tstAtomic : Bool) (gap : Memory),
                w.Passes cfg t env p tstAtomic (.new gap) := by
  intro h
  let cfg : Config := ⟨2, true, true, true, true, true, true, true, true⟩
  obtain ⟨⟨vars, hstarted⟩, -⟩ := h cfg (slotMpi2 11) (by decide +kernel) (by decide +kernel)
    (by decide +kernel) (by decide +kernel) ((ioTests cfg).getD 1 noTest) (by decide +kernel)
    (by decide +kernel) tstFileWriteSharedTurns (by simp [turnTests]) ⟨65, 0, 11, 268435455, 0⟩ 1
    (by decide) (by norm_num) (by norm_num) (by decide +kernel) false fun _ ↦ 0
  have hblock : HasBlock (slotMpi2 11) 268435455 :=
    TurnTest.hasBlock_of_buffer (by simp [turnTests]) (hstarted.buffer_eq 0)
  exact absurd hblock (by decide +kernel)

end MpiTestSuite

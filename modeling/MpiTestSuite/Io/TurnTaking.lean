import MpiTestSuite.Io.FileCalls

/-!
# Taking turns with a file

However the ranks are interleaved, in the four tests in which they take turns they access the file
in the order of their numbers. After the turns of `m` ranks the file consists of the standard arrays
of the first `m`, one after another, and this is also where the shared pointer and the end of the
file are. So the positions that the ranks compare are the right ones, and what is read at the end
are the arrays that were written.

For the two layouts of the file to agree, the datatype must have no padding.
-/

open Relation

namespace MpiTestSuite

open Runs Turns Meetings

/-! ## The file after some turns -/

section

variable (cfg : Config) (t : TypeSlot) (fields : List FieldStore) (n : ℕ)

/-- The data of the first `m` ranks, written to a file. -/
def standardFile (file : File) (m : ℕ) : File :=
  file.write ((List.range (m * (n * t.datatype.typemap.size))).map fun g : ℕ ↦
    ((g : ℤ), datum cfg t fields n g))

end

theorem File.length_write_range (file : File) (k : ℕ) (value : ℕ → UInt8) :
    (file.write ((List.range k).map fun g : ℕ ↦ ((g : ℤ), value g))).length
      = max file.length k := by
  induction k with
  | zero => exact (max_eq_left (Nat.zero_le _)).symm
  | succ k ih =>
    rw [List.range_succ, List.map_append, File.write_append, List.map_singleton]
    change max _ (((k : ℤ) + 1).toNat) = _
    rw [ih]
    omega

namespace Transferable

variable {cfg : Config} {t : TypeSlot} {fields : List FieldStore} {n r : ℕ} {file : File}

theorem standardFile_zero : standardFile cfg t fields n file 0 = file := by
  rw [standardFile, zero_mul]
  rfl

/-- The turn of a rank, through a view without gaps. -/
theorem standardFile_succ (h : Transferable cfg t fields) {view : Typemap}
    (hview : ∀ k : ℕ, view.position k = k) (m : Memory) :
    (standardFile cfg t fields n file r).write
        (fileWrites view (r * (n * t.datatype.typemap.size)) t.datatype.typemap n
          (written cfg t fields r n m))
      = standardFile cfg t fields n file (r + 1) := by
  rw [h.fileWrites_written, standardFile, standardFile, Nat.succ_mul, List.range_add,
    List.map_append, List.map_map, File.write_append]
  simp only [hview, Function.comp_def]

/-- What is read of the data of a rank is its standard array. -/
theorem isStandardArray_read (h : Transferable cfg t fields) {view : Typemap}
    (hview : ∀ k : ℕ, view.position k = k) {p : ℕ} (hr : r < p) {buf : Memory}
    (hbuf : Untouched t n buf) :
    IsStandardArray cfg t n r ((standardFile cfg t fields n file p).read view
      (r * (n * t.datatype.typemap.size)) t.datatype.typemap n buf) := by
  refine h.isStandardArray_of_data (fun e he k hk ↦ ?_) fun q hq ↦
    (File.read_frame hq).trans (hbuf q hq)
  have hbyte : e * t.datatype.typemap.size + k < n * t.datatype.typemap.size := by
    simpa using index_lt Nat.one_pos he hk
  rw [standardFile, h.read_layout Nat.cast_injective file (.refl _) hbyte (index_lt hr he hk)
    (by rw [index_eq, hview]), datum_eq cfg t fields he hk]

/-- The root reads the standard arrays of all ranks. -/
theorem isStandardArray_comparedBuffers (h : Transferable cfg t fields) {p : ℕ} (hr : r < p) :
    ∃ buf, (comparedBuffers t n p (standardFile cfg t fields n file p)
        (freshValues t n))[r]? = some buf ∧ IsStandardArray cfg t n r buf := by
  obtain ⟨buf, hbuf, huntouched⟩ :=
    comparedBuffers_getElem? t n p (standardFile cfg t fields n file p) hr
  exact ⟨_, hbuf, h.isStandardArray_read byteView_position hr huntouched⟩

/-- The data of every rank has arrived in the file. -/
theorem chunkArrived (h : Transferable cfg t fields) {p : ℕ} (hr : r < p)
    (hbound : r + n ≤ 2 ^ 32) :
    ChunkArrived cfg t n (standardFile cfg t fields n file p) r := by
  refine ⟨?_, h.settable.holdsStandardArray_of_isStandardArray hbound
    (h.isStandardArray_read byteView_position hr fun _ _ ↦ rfl)⟩
  rw [standardFile, File.length_write_range]
  exact (Nat.mul_le_mul_right _ hr).trans (le_max_right _ _)

end Transferable

/-! ## Plans for the calls -/

/-- A call, by the rank that makes it. -/
def Call.exec (t : TypeSlot) (valuesNum : ℤ) (p : ℕ) (r : Fin p) (c : Call) :
    SharedFile → FileVars → Option (SharedFile × FileVars) := c.call.exec t valuesNum p r

namespace TurnTest

/-- A rank finds the position behind the data of all ranks below it. -/
def Found (w : TurnTest) (t : TypeSlot) (n : ℕ) {p : ℕ} (r : Fin p) (c : Call) (g : SharedFile)
    (x : FileVars) : Prop :=
  c = w.access r → c.call.position g x = some (r * (n * w.unit t.datatype.typemap))

/-- A plan for calls of a rank, where after the turns of `m` ranks what they share is `shared m`. -/
abbrev Follows (w : TurnTest) (t : TypeSlot) (n p : ℕ) (tstAtomic : Bool) (shared : ℕ → SharedFile)
    (r : Fin p) (A : FileVars → Prop) (calls : List Call) (B : FileVars → Prop) : Prop :=
  Plan Call.Collective callLevel (fun q : Fin p ↦ w.run tstAtomic p q) (fun q ↦ w.access q)
    (Call.exec t n p) shared (w.Found t n) r A calls B

/-- The turns of `m` ranks may be over when a rank makes a call. -/
abbrev MayFind (w : TurnTest) (p : ℕ) (tstAtomic : Bool) (r : Fin p) (a : Call) (m : ℕ) : Prop :=
  Allowed Call.Collective callLevel (fun q : Fin p ↦ w.run tstAtomic p q) (fun q ↦ w.access q) r a m

end TurnTest

namespace Follows

variable {w : TurnTest} {t : TypeSlot} {n p : ℕ} {tstAtomic : Bool} {shared : ℕ → SharedFile}
  {r : Fin p} {A B C : FileVars → Prop} {a : Call} {calls : List Call}

/-- A call that is not the access of the rank. -/
theorem call (hne : a.line ≠ w.turn.1 ∨ a.round ≠ r + 1)
    (hexec : ∀ x m, A x → w.MayFind p tstAtomic r a m →
      ∃ y, a.call.exec t n p r (shared m) x = some (shared m, y) ∧ B y)
    (hrest : w.Follows t n p tstAtomic shared r B calls C) :
    w.Follows t n p tstAtomic shared r A (a :: calls) C := by
  have hother : a ≠ w.access r := by
    rintro rfl
    exact hne.elim (fun h ↦ h rfl) fun h ↦ h rfl
  exact .keep hother (fun x m hx hm ↦ ⟨fun heq ↦ absurd heq hother, hexec x m hx hm⟩) hrest

/-- The access. -/
theorem access (hexec : ∀ x, A x →
      w.turn.2.position (shared r) x = some (r * (n * w.unit t.datatype.typemap)) ∧
      ∃ y, w.turn.2.exec t n p r (shared r) x = some (shared (r + 1), y) ∧ B y)
    (hrest : w.Follows t n p tstAtomic shared r B calls C) :
    w.Follows t n p tstAtomic shared r A (w.access r :: calls) C :=
  .take (fun x hx ↦ ⟨fun _ ↦ (hexec x hx).1, (hexec x hx).2⟩) hrest

theorem done (h : ∀ x, A x → B x) : w.Follows t n p tstAtomic shared r A [] B := .nil h

/-- A loop, with an assertion in front of every round. -/
theorem loop (inv : ℕ → FileVars → Prop) {body : ℕ → List Call}
    (h : ∀ i < p, w.Follows t n p tstAtomic shared r (inv i) (body i) (inv (i + 1))) :
    w.Follows t n p tstAtomic shared r (inv 0) ((List.range p).flatMap body) (inv p) :=
  Plan.loop h

/-- A barrier. -/
theorem barrier {i line : ℕ} (hne : line ≠ w.turn.1)
    (hrest : w.Follows t n p tstAtomic shared r A calls C) :
    w.Follows t n p tstAtomic shared r A (⟨i, line, .barrier⟩ :: calls) C :=
  call (.inl hne) (fun x _ hx _ ↦ ⟨x, rfl, hx⟩) hrest

/-- The calls of `tst_file_check`. The rest of the variables stays as it is. -/
theorem fileCheck (hplaced : w.Placed) (hfits : ArrayFits t n)
    (hA : ∀ x handle views compared, A x →
      A { x with handle := handle, views := views, compared := compared }) :
    w.Follows t n p tstAtomic shared r A (tstFileCheckCalls p r) fun x ↦ A x ∧
      ((r : ℕ) = 0 →
        x.compared = comparedBuffers t n p (shared p).file (freshValues t n)) := by
  have hround : p + 2 ≠ r + 1 := by omega
  have hopen : ∀ l C, w.Follows t n p tstAtomic shared r (fun x ↦ A x ∧ x.handle.isSome) l C →
      w.Follows t n p tstAtomic shared r A (⟨p + 2, 0, .openComm .rdwr⟩ :: l) C := fun l C ↦
    call (.inr hround) fun x m hx _ ↦ ⟨_, rfl, hA x _ _ x.compared hx, rfl⟩
  have hclose : ∀ P : FileVars → Prop, (∀ x, P x → P { x with handle := none }) →
      w.Follows t n p tstAtomic shared r (fun x ↦ P x ∧ x.handle.isSome)
        [⟨p + 2, 2, .closeComm⟩] P := by
    refine fun P hP ↦ call (.inr hround) (fun x m hx _ ↦ ?_) (done fun _ hx ↦ hx)
    obtain ⟨hx, hsome⟩ := hx
    obtain ⟨handle, hhandle⟩ := Option.isSome_iff_exists.mp hsome
    exact ⟨_, exec_closeComm hhandle, hP x hx⟩
  rw [tstFileCheckCalls]
  by_cases hroot : (r : ℕ) = 0
  · rw [if_pos hroot]
    refine hopen _ _ (call (.inr hround) (fun x m hx hm ↦ ?_) (hclose _ fun x hx ↦ ?_))
    · obtain ⟨hx, hsome⟩ := hx
      obtain ⟨handle, hhandle⟩ := Option.isSome_iff_exists.mp hsome
      have hall : m = p := hplaced.eq_size_of_allowed (by simp) hm
      exact ⟨_, exec_check hhandle hfits, ⟨hA x x.handle x.views _ hx, fun _ ↦ hall ▸ rfl⟩, hsome⟩
    · exact ⟨hA x none x.views x.compared hx.1, hx.2⟩
  · rw [if_neg hroot]
    refine hopen _ _ (.weaken (fun x hx ↦ ⟨⟨hx.1, fun hzero ↦ absurd hzero hroot⟩, hx.2⟩)
      (hclose _ fun x hx ↦ ⟨hA x none x.views x.compared hx.1, hx.2⟩))

end Follows

/-! ## The shared pointer -/

/-- A rank sees the file through a view of elements that was set after the file was opened. -/
structure Viewing (type : Typemap) (x : FileVars) : Prop where
  exists_handle : ∃ h, x.handle = some h ∧ h.file = .setView 0 type type
  views_eq : x.views = 2

theorem FileHandle.atPointer_eq {h : FileHandle} {type : Typemap}
    (hfile : h.file = .setView 0 type type) (k : ℕ) : h.atPointer k = ⟨0, type, type, k⟩ := by
  rw [FileHandle.atPointer, hfile]
  rfl

/-- What a rank has been told about its position and its view. -/
structure ViewChecked (type : Typemap) (position : ℕ) (x : FileVars) : Prop where
  offPosition_eq : x.offPosition = position
  offView_eq : x.offView = 0
  datatypeCheck_eq : x.datatypeCheck = type
  filetypeCheck_eq : x.filetypeCheck = type

/-- In front of a round a rank still has the buffer `b`, or its own round is over and `D` holds of
the buffer. -/
structure SharedRound (type : Typemap) (n r : ℕ) (b : Memory) (D : Memory → Prop) (i : ℕ)
    (x : FileVars) : Prop where
  viewing : Viewing type x
  buffer_eq : i ≤ r → x.buffer = b
  accessed : r < i → D x.buffer ∧ ViewChecked type ((r + 1) * n) x

namespace Follows

section

variable {w : TurnTest} {t : TypeSlot} {n p : ℕ} {tstAtomic : Bool} {shared : ℕ → SharedFile}
  {r : Fin p} {b : Memory} {D : Memory → Prop}

/-- The round of a rank in which it accesses the file with the shared pointer. -/
theorem sharedRound (hplaced : w.Placed) (hline : w.turn.1 = 1)
    (hpointers : ∀ m, (shared m).pointers 2 = m * n)
    (haccess : ∀ x, Viewing t.datatype.typemap x → x.buffer = b →
      w.turn.2.position (shared r) x = some (r * (n * w.unit t.datatype.typemap)) ∧
      ∃ y, w.turn.2.exec t n p r (shared r) x = some (shared (r + 1), y) ∧
        Viewing t.datatype.typemap y ∧ D y.buffer) :
    w.Follows t n p tstAtomic shared r (fun x ↦ Viewing t.datatype.typemap x ∧ x.buffer = b)
      [w.access r, ⟨r + 1, 2, .getPositionShared⟩, ⟨r + 1, 3, .getView⟩, ⟨r + 1, 9, .barrier⟩]
      fun x ↦ Viewing t.datatype.typemap x ∧ D x.buffer ∧
        ViewChecked t.datatype.typemap ((r + 1) * n) x := by
  have hne : ∀ k, k ≠ 1 → k ≠ w.turn.1 := fun k hk ↦ hline ▸ hk
  refine access (fun x hx ↦ haccess x hx.1 hx.2) ?_
  -- the shared pointer is where the rank has left it
  refine call (B := fun x ↦ Viewing t.datatype.typemap x ∧ D x.buffer ∧
      x.offPosition = ((r + 1) * n : ℕ)) (.inl (hne 2 (by decide))) (fun x m hx hm ↦ ?_) ?_
  · obtain ⟨hview, hD⟩ := hx
    obtain ⟨h, hhandle, hfile⟩ := hview.exists_handle
    have hnext : m = r + 1 :=
      hplaced.eq_succ_of_allowed rfl (hline ▸ Nat.one_lt_two) (Nat.lt_of_sub_eq_succ rfl) hm
    refine ⟨_, exec_getPositionShared hhandle, ⟨⟨h, hhandle, hfile⟩, hview.views_eq⟩, hD, ?_⟩
    simp only [hview.views_eq, hpointers, hnext]
  refine call (.inl (hne 3 (by decide))) (fun x m hx _ ↦ ?_)
    (barrier (hne 9 (by decide)) (done fun _ hx ↦ hx))
  obtain ⟨hview, hD, hposition⟩ := hx
  obtain ⟨h, hhandle, hfile⟩ := hview.exists_handle
  exact ⟨_, exec_getView hhandle, ⟨⟨h, hhandle, hfile⟩, hview.views_eq⟩, hD, hposition,
    congrArg OpenFile.disp hfile, congrArg OpenFile.etype hfile, congrArg OpenFile.filetype hfile⟩

/-- All rounds of a rank. -/
theorem sharedLoop (hplaced : w.Placed) (hline : w.turn.1 = 1)
    (hpointers : ∀ m, (shared m).pointers 2 = m * n) (front : ℕ → List Call)
    (hfront : ∀ i A, w.Follows t n p tstAtomic shared r A (front i) A)
    (hround : ∀ i, w.round tstAtomic r i = front i ++ (if (r : ℕ) = i then
      [w.access i, ⟨i + 1, 2, .getPositionShared⟩, ⟨i + 1, 3, .getView⟩] else [])
        ++ [⟨i + 1, 9, .barrier⟩])
    (haccess : ∀ x, Viewing t.datatype.typemap x → x.buffer = b →
      w.turn.2.position (shared r) x = some (r * (n * w.unit t.datatype.typemap)) ∧
      ∃ y, w.turn.2.exec t n p r (shared r) x = some (shared (r + 1), y) ∧
        Viewing t.datatype.typemap y ∧ D y.buffer) :
    w.Follows t n p tstAtomic shared r (fun x ↦ Viewing t.datatype.typemap x ∧ x.buffer = b)
      ((List.range p).flatMap (w.round tstAtomic r)) fun x ↦
        Viewing t.datatype.typemap x ∧ D x.buffer ∧
          ViewChecked t.datatype.typemap ((r + 1) * n) x := by
  have hrounds : w.Follows t n p tstAtomic shared r
      (SharedRound t.datatype.typemap n r b D 0) ((List.range p).flatMap (w.round tstAtomic r))
      (SharedRound t.datatype.typemap n r b D p) := by
    refine loop (SharedRound t.datatype.typemap n r b D) fun i _ ↦ ?_
    rw [hround]
    by_cases hi : (r : ℕ) = i
    · subst hi
      have hown : w.Follows t n p tstAtomic shared r _ _ _ :=
        sharedRound (D := D) hplaced hline hpointers haccess
      rw [if_pos rfl, List.append_assoc]
      refine (hfront r _).append ((hown.weaken fun x hx ↦ ⟨hx.viewing, hx.buffer_eq le_rfl⟩).append
        (done fun x hx ↦ ⟨hx.1, fun hle ↦ absurd hle (by omega), fun _ ↦ hx.2⟩))
    · rw [if_neg hi, List.append_nil]
      refine (hfront i _).append (barrier (hline ▸ by decide) (done fun x hx ↦ ?_))
      exact ⟨hx.viewing, fun hle ↦ hx.buffer_eq (by omega), fun hlt ↦ hx.accessed (by omega)⟩
  have hall := hrounds.append (done (B := fun x ↦ Viewing t.datatype.typemap x ∧ D x.buffer ∧
    ViewChecked t.datatype.typemap ((r + 1) * n) x) fun x hx ↦ ⟨hx.viewing, hx.accessed r.isLt⟩)
  rw [List.append_nil] at hall
  exact hall.weaken fun x hx ↦ ⟨hx.1, fun _ ↦ hx.2, fun hlt ↦ absurd hlt (Nat.not_lt_zero _)⟩

/-- Opening the file and setting the view. -/
theorem openView {amode : Amode} {calls : List Call} {C : FileVars → Prop}
    (hrest : w.Follows t n p tstAtomic shared r
      (fun x ↦ Viewing t.datatype.typemap x ∧ x.buffer = b) calls C) :
    w.Follows t n p tstAtomic shared r (fun x ↦ x.Fresh ∧ x.buffer = b)
      (⟨0, 0, .openComm amode⟩ :: ⟨0, 1, .setView⟩ :: calls) C := by
  have hround : 0 ≠ (r : ℕ) + 1 := by omega
  refine call (B := fun x ↦ (∃ h, x.handle = some h) ∧ x.views = 1 ∧ x.buffer = b) (.inr hround)
    (fun x m hx _ ↦ ⟨_, rfl, ⟨_, rfl⟩, congrArg Nat.succ hx.1.views_eq, hx.2⟩) ?_
  refine call (.inr hround) (fun x m hx _ ↦ ?_) hrest
  obtain ⟨⟨h, hhandle⟩, hviews, hbuffer⟩ := hx
  exact ⟨_, exec_setView hhandle, ⟨⟨_, rfl, rfl⟩, congrArg Nat.succ hviews⟩, hbuffer⟩

/-- Closing it. -/
theorem closeView {A C : FileVars → Prop} (hA : ∀ x, A x → Viewing t.datatype.typemap x)
    (hclose : ∀ x, A x → C { x with handle := none }) :
    w.Follows t n p tstAtomic shared r A [⟨p + 1, 0, .closeComm⟩] C := by
  have hround : p + 1 ≠ r + 1 := by omega
  refine call (.inr hround) (fun x m hx _ ↦ ?_) (done fun _ hx ↦ hx)
  obtain ⟨h, hhandle, -⟩ := (hA x hx).exists_handle
  exact ⟨_, exec_closeComm hhandle, hclose x hx⟩

end

end Follows

/-! ## Files opened in every round -/

/-- What a handle of `tst_file_append_mode` says of itself. -/
structure Appending (tstAtomic : Bool) (h : FileHandle) : Prop where
  amode_eq : h.amode = .createWronlyAppend
  atomicity_eq : tstAtomic = true → h.atomicity = true

/-- In front of a round of `tst_file_append_mode`, where the ranks write `c` bytes each. -/
structure AppendRound (tstAtomic : Bool) (c r : ℕ) (b : Memory) (i : ℕ) (x : FileVars) : Prop where
  buffer_eq : x.buffer = b
  accessed : r < i → x.offPosition = ((r + 1) * c : ℕ)
  asked : 0 < i → x.amodeCheck = .createWronlyAppend ∧ (tstAtomic = true → x.atomicCheck = true)

/-- In front of a round of `tst_file_io_commself`. -/
structure SelfRound (type : Typemap) (n r : ℕ) (b : Memory) (i : ℕ) (x : FileVars) : Prop where
  buffer_eq : x.buffer = b
  accessed : r < i → ViewChecked type ((r + 1) * n) x

/-- A rank is about to access the file with the individual pointer. -/
def Seeing (type : Typemap) (pointer : ℕ) (x : FileVars) : Prop :=
  ∃ h, x.handle = some h ∧ h.file = ⟨0, type, type, pointer⟩

/-! ## The four tests -/

namespace OpenFile

variable {T : Typemap} (pointer n : ℕ) (buf : Memory)

theorem read_elements (h : 0 < T.size) (file : File) :
    OpenFile.read ⟨0, T, T, pointer⟩ file T n buf
      = (file.read T (pointer * T.size) T n buf, ⟨0, T, T, pointer + n⟩) := by
  have hadvance := advance_eq (o := ⟨0, T, T, pointer⟩) h n
  rw [OpenFile.read, hadvance, OpenFile.view, Typemap.shift_zero]

theorem write_elements (h : 0 < T.size) :
    OpenFile.write ⟨0, T, T, pointer⟩ T n buf
      = (fileWrites T (pointer * T.size) T n buf, ⟨0, T, T, pointer + n⟩) := by
  have hadvance := advance_eq (o := ⟨0, T, T, pointer⟩) h n
  rw [OpenFile.write, hadvance, OpenFile.view, Typemap.shift_zero]

/-- In the view that a file is opened with, the pointer counts bytes. -/
theorem write_bytes (T : Typemap) :
    OpenFile.write ⟨0, byteView, byteView, pointer⟩ T n buf
      = (fileWrites byteView pointer T n buf, ⟨0, byteView, byteView, pointer + n * T.size⟩) := by
  have hsize : byteView.size = 1 := by decide
  simp only [OpenFile.write, OpenFile.view, OpenFile.advance, Typemap.shift_zero, hsize, mul_one,
    Nat.div_one]

end OpenFile

namespace Transferable

variable {cfg : Config} {t : TypeSlot} {fields : List FieldStore} {n p : ℕ} {file : File}
  {tstAtomic : Bool}

/-- What is shared after some turns of `tst_file_read_shared`. -/
def readState (cfg : Config) (t : TypeSlot) (fields : List FieldStore) (n p : ℕ) (file : File)
    (m : ℕ) : SharedFile :=
  ⟨standardFile cfg t fields n file p, Function.update (fun _ ↦ 0) 2 (m * n)⟩

/-- What is shared after some turns of `tst_file_write_shared`. -/
def writeState (cfg : Config) (t : TypeSlot) (fields : List FieldStore) (n : ℕ) (file : File)
    (m : ℕ) : SharedFile :=
  ⟨standardFile cfg t fields n file m, Function.update (fun _ ↦ 0) 2 (m * n)⟩

/-- What is shared after some turns of the tests that open the file again in every turn. -/
def closedState (cfg : Config) (t : TypeSlot) (fields : List FieldStore) (n : ℕ) (file : File)
    (m : ℕ) : SharedFile :=
  ⟨standardFile cfg t fields n file m, fun _ ↦ 0⟩

theorem readState_pointers (m : ℕ) : (readState cfg t fields n p file m).pointers 2 = m * n := by
  simp only [readState, Function.update_self]

theorem readState_succ (m : ℕ) :
    { readState cfg t fields n p file m with
      pointers := Function.update (readState cfg t fields n p file m).pointers 2 (m * n + n) }
      = readState cfg t fields n p file (m + 1) := by
  rw [readState, readState, Function.update_idem, Nat.succ_mul]

theorem writeState_pointers (m : ℕ) : (writeState cfg t fields n file m).pointers 2 = m * n := by
  simp only [writeState, Function.update_self]

theorem writeState_succ (h : Transferable cfg t fields)
    (hposition : ∀ k : ℕ, t.datatype.typemap.position k = k) (r : ℕ) (m : Memory) :
    SharedFile.mk
      ((writeState cfg t fields n file r).file.write (fileWrites t.datatype.typemap
        (r * (n * t.datatype.typemap.size)) t.datatype.typemap n (written cfg t fields r n m)))
      (Function.update (writeState cfg t fields n file r).pointers 2 (r * n + n))
      = writeState cfg t fields n file (r + 1) := by
  rw [writeState, writeState, h.standardFile_succ hposition, Function.update_idem, Nat.succ_mul]

theorem closedState_succ (h : Transferable cfg t fields) {view : Typemap}
    (hview : ∀ k : ℕ, view.position k = k) (r : ℕ) (m : Memory) :
    { closedState cfg t fields n file r with
      file := (closedState cfg t fields n file r).file.write (fileWrites view
        (r * (n * t.datatype.typemap.size)) t.datatype.typemap n (written cfg t fields r n m)) }
      = closedState cfg t fields n file (r + 1) := by
  rw [closedState, closedState, h.standardFile_succ hview]

theorem length_standardFile (hempty : file.length = 0) (m : ℕ) :
    (standardFile cfg t fields n file m).length = m * (n * t.datatype.typemap.size) := by
  rw [standardFile, File.length_write_range, hempty, Nat.zero_max]

theorem follows_readShared (h : Transferable cfg t fields)
    (hposition : ∀ k : ℕ, t.datatype.typemap.position k = k) (r : Fin p) :
    tstFileReadSharedTurns.Follows t n p tstAtomic (readState cfg t fields n p file) r
      (fun x ↦ x.Fresh ∧ x.buffer = freshValues t n)
      (tstFileReadSharedTurns.run tstAtomic p r) fun x ↦
        IsStandardArray cfg t n r x.buffer ∧
          ViewChecked t.datatype.typemap ((r + 1) * n) x := by
  have haccess : ∀ x, Viewing t.datatype.typemap x → x.buffer = freshValues t n →
      FileCall.readShared.position (readState cfg t fields n p file r) x = some (r * (n * 1)) ∧
      ∃ y, FileCall.readShared.exec t n p r (readState cfg t fields n p file r) x
          = some (readState cfg t fields n p file (r + 1), y) ∧
        Viewing t.datatype.typemap y ∧ IsStandardArray cfg t n r y.buffer := by
    intro x hview hbuffer
    obtain ⟨handle, hhandle, hfile⟩ := hview.exists_handle
    have hpointer : (readState cfg t fields n p file r).pointers x.views = r * n := by
      rw [hview.views_eq, readState_pointers]
    refine ⟨by rw [FileCall.position, hpointer, mul_one], ?_⟩
    have hread := OpenFile.read_elements (r * n) n x.buffer h.size_pos
      (readState cfg t fields n p file r).file
    rw [← FileHandle.atPointer_eq hfile, ← hpointer] at hread
    refine ⟨_, (exec_readShared hhandle hread).trans (congrArg some (Prod.ext ?_ rfl)),
      ⟨⟨handle, hhandle, hfile⟩, hview.views_eq⟩, ?_⟩
    · rw [hpointer, hview.views_eq]
      exact readState_succ r
    · rw [hpointer, mul_assoc]
      exact h.isStandardArray_read hposition r.isLt fun q _ ↦ congrFun hbuffer q
  have hloop : tstFileReadSharedTurns.Follows t n p tstAtomic (readState cfg t fields n p file) r
      _ _ _ := Follows.sharedLoop (D := IsStandardArray cfg t n r) placed_readShared rfl
    readState_pointers (fun _ ↦ [])
    (fun i A ↦ Follows.done fun _ hx ↦ hx) (fun i ↦ rfl) haccess
  refine .append (.append (Follows.openView (Follows.done fun _ hx ↦ hx)) hloop)
    (Follows.closeView (fun x hx ↦ hx.1) fun x hx ↦ ?_)
  exact ⟨hx.2.1, hx.2.2.1, hx.2.2.2, hx.2.2.3, hx.2.2.4⟩

theorem follows_writeShared (h : Transferable cfg t fields) (harray : ArrayFits t n)
    (hposition : ∀ k : ℕ, t.datatype.typemap.position k = k) (r : Fin p) (m : Memory) :
    tstFileWriteSharedTurns.Follows t n p tstAtomic (writeState cfg t fields n file) r
      (fun x ↦ x.Fresh ∧ x.buffer = written cfg t fields r n m)
      (tstFileWriteSharedTurns.run tstAtomic p r) fun x ↦
        ViewChecked t.datatype.typemap ((r + 1) * n) x ∧
          ((r : ℕ) = 0 → x.compared = comparedBuffers t n p
            (standardFile cfg t fields n file p) (freshValues t n)) := by
  have haccess : ∀ x, Viewing t.datatype.typemap x → x.buffer = written cfg t fields r n m →
      FileCall.writeShared.position (writeState cfg t fields n file r) x = some (r * (n * 1)) ∧
      ∃ y, FileCall.writeShared.exec t n p r (writeState cfg t fields n file r) x
          = some (writeState cfg t fields n file (r + 1), y) ∧
        Viewing t.datatype.typemap y ∧ True := by
    intro x hview hbuffer
    obtain ⟨handle, hhandle, hfile⟩ := hview.exists_handle
    have hpointer : (writeState cfg t fields n file r).pointers x.views = r * n := by
      rw [hview.views_eq, writeState_pointers]
    refine ⟨by rw [FileCall.position, hpointer, mul_one], ?_⟩
    have hwrite := OpenFile.write_elements (r * n) n x.buffer h.size_pos
    rw [← FileHandle.atPointer_eq hfile, ← hpointer] at hwrite
    refine ⟨x, (exec_writeShared hhandle hwrite).trans (congrArg some (Prod.ext ?_ rfl)), hview,
      trivial⟩
    rw [hpointer, hview.views_eq, hbuffer, mul_assoc]
    exact h.writeState_succ hposition r m
  -- whether the file is atomic does not matter
  have hatomic : tstFileWriteSharedTurns.Follows t n p tstAtomic (writeState cfg t fields n file) r
      (fun x ↦ Viewing t.datatype.typemap x ∧ x.buffer = written cfg t fields r n m)
      (if tstAtomic then [⟨0, 2, .setAtomicity⟩] else [])
      (fun x ↦ Viewing t.datatype.typemap x ∧ x.buffer = written cfg t fields r n m) := by
    have hround : 0 ≠ (r : ℕ) + 1 := by omega
    split_ifs
    · refine Follows.call (.inr hround) (fun x _ hx _ ↦ ?_) (Follows.done fun _ hx ↦ hx)
      obtain ⟨handle, hhandle, hfile⟩ := hx.1.exists_handle
      exact ⟨_, exec_setAtomicity hhandle, ⟨⟨_, rfl, hfile⟩, hx.1.views_eq⟩, hx.2⟩
    · exact Follows.done fun _ hx ↦ hx
  have hloop : tstFileWriteSharedTurns.Follows t n p tstAtomic (writeState cfg t fields n file) r
      _ _ _ := Follows.sharedLoop (D := fun _ ↦ True) placed_writeShared rfl
    writeState_pointers (fun i ↦ [⟨i + 1, 0, .barrier⟩])
    (fun i A ↦ Follows.barrier (by decide) (Follows.done fun _ hx ↦ hx)) (fun i ↦ rfl) haccess
  have hclose : tstFileWriteSharedTurns.Follows t n p tstAtomic (writeState cfg t fields n file) r
      _ [⟨p + 1, 0, .closeComm⟩] (ViewChecked t.datatype.typemap ((r + 1) * n)) :=
    Follows.closeView (A := fun x ↦ Viewing t.datatype.typemap x ∧ True ∧
      ViewChecked t.datatype.typemap ((r + 1) * n) x) (fun x hx ↦ hx.1) fun x hx ↦
        ⟨hx.2.2.1, hx.2.2.2, hx.2.2.3, hx.2.2.4⟩
  exact .append (.append (Follows.openView hatomic) hloop) (.append hclose
    (Follows.fileCheck placed_writeShared harray fun x _ _ _ hx ↦ ⟨hx.1, hx.2, hx.3, hx.4⟩))

/-- One round of `tst_file_append_mode`. -/
theorem follows_appendRound (h : Transferable cfg t fields) (hempty : file.length = 0) (r : Fin p)
    (m : Memory) (i : ℕ) :
    tstFileAppendModeTurns.Follows t n p tstAtomic (closedState cfg t fields n file) r
      (AppendRound tstAtomic (n * t.datatype.typemap.size) r (written cfg t fields r n m) i)
      (tstFileAppendModeTurns.round tstAtomic r i)
      (AppendRound tstAtomic (n * t.datatype.typemap.size) r (written cfg t fields r n m)
        (i + 1)) := by
  set c := n * t.datatype.typemap.size with hc
  set b := written cfg t fields r n m with hb
  have hne : ∀ k, k ≠ 2 → k ≠ tstFileAppendModeTurns.turn.1 := fun _ hk ↦ hk
  have hbefore : 0 < tstFileAppendModeTurns.turn.1 := Nat.zero_lt_two
  -- in its own round, a rank finds the end of the file where the ranks before have left it
  have hopen : tstFileAppendModeTurns.Follows t n p tstAtomic (closedState cfg t fields n file) r
      (AppendRound tstAtomic c r b i) [⟨i + 1, 0, .openComm .createWronlyAppend⟩]
      fun x ↦ AppendRound tstAtomic c r b i x ∧ ∃ handle, x.handle = some handle ∧
        handle.amode = .createWronlyAppend ∧
        (i = r → handle.file = ⟨0, byteView, byteView, r * c⟩) := by
    refine Follows.call (.inl (hne 0 (by decide))) (fun x k hx hk ↦ ?_) (Follows.done fun _ hx ↦ hx)
    refine ⟨_, rfl, ⟨hx.1, hx.2, hx.3⟩, _, rfl, rfl, fun hi ↦ ?_⟩
    have hturn : k = r := placed_appendMode.eq_of_allowed (congrArg Nat.succ hi) hbefore hk
    rw [FileHandle.opened, if_pos rfl, closedState, length_standardFile hempty, hturn]
  have hatomic : tstFileAppendModeTurns.Follows t n p tstAtomic (closedState cfg t fields n file) r
      (fun x ↦ AppendRound tstAtomic c r b i x ∧ ∃ handle, x.handle = some handle ∧
        handle.amode = .createWronlyAppend ∧
        (i = r → handle.file = ⟨0, byteView, byteView, r * c⟩))
      (if tstAtomic then [⟨i + 1, 1, .setAtomicity⟩] else [])
      fun x ↦ AppendRound tstAtomic c r b i x ∧ ∃ handle, x.handle = some handle ∧
        Appending tstAtomic handle ∧
        (i = r → handle.file = ⟨0, byteView, byteView, r * c⟩) := by
    cases tstAtomic with
    | true =>
      refine Follows.call (.inl (hne 1 (by decide))) (fun x k hx hk ↦ ?_)
        (Follows.done fun _ hx ↦ hx)
      obtain ⟨hx, handle, hhandle, hamode, hfile⟩ := hx
      exact ⟨_, exec_setAtomicity hhandle, ⟨hx.1, hx.2, hx.3⟩, _, rfl, ⟨hamode, fun _ ↦ rfl⟩, hfile⟩
    | false =>
      refine Follows.done fun x hx ↦ ?_
      obtain ⟨hx, handle, hhandle, hamode, hfile⟩ := hx
      exact ⟨hx, handle, hhandle, ⟨hamode, nofun⟩, hfile⟩
  have haccess : tstFileAppendModeTurns.Follows t n p tstAtomic (closedState cfg t fields n file) r
      (fun x ↦ AppendRound tstAtomic c r b i x ∧ ∃ handle, x.handle = some handle ∧
        Appending tstAtomic handle ∧
        (i = r → handle.file = ⟨0, byteView, byteView, r * c⟩))
      (if i = r then [⟨i + 1, 2, .write⟩, ⟨i + 1, 3, .getPosition⟩] else [])
      fun x ↦ x.buffer = b ∧ (r < i + 1 → x.offPosition = ((r + 1) * c : ℕ)) ∧
        ∃ handle, x.handle = some handle ∧ Appending tstAtomic handle := by
    split_ifs with hi
    · subst hi
      refine Follows.access (B := fun x ↦ x.buffer = b ∧ ∃ handle, x.handle = some handle ∧
        Appending tstAtomic handle ∧ handle.file.pointer = (r + 1) * c) (fun x hx ↦ ?_)
        (Follows.call (.inl (hne 3 (by decide))) (fun x k hx hk ↦ ?_) (Follows.done fun _ hx ↦ hx))
      · obtain ⟨hx, handle, hhandle, happending, hfile⟩ := hx
        have hwrite := OpenFile.write_bytes (r * c) n x.buffer t.datatype.typemap
        rw [← hfile rfl] at hwrite
        refine ⟨(position_write hhandle).trans (by rw [hfile rfl]; rfl), _,
          (exec_write hhandle hwrite).trans (congrArg some (Prod.ext ?_ rfl)), hx.buffer_eq, _, rfl,
          ⟨happending.1, happending.2⟩, (Nat.succ_mul _ _).symm⟩
        rw [hx.buffer_eq]
        exact h.closedState_succ byteView_position r m
      · obtain ⟨hbuffer, handle, hhandle, happending, hpointer⟩ := hx
        exact ⟨_, exec_getPosition hhandle, hbuffer, fun _ ↦ by rw [hpointer], handle, hhandle,
          happending⟩
    · refine Follows.done fun x hx ↦ ?_
      obtain ⟨hx, handle, hhandle, happending, -⟩ := hx
      exact ⟨hx.buffer_eq, fun hlt ↦ hx.accessed (by omega), handle, hhandle, happending⟩
  have hask : tstFileAppendModeTurns.Follows t n p tstAtomic (closedState cfg t fields n file) r
      (fun x ↦ x.buffer = b ∧ (r < i + 1 → x.offPosition = ((r + 1) * c : ℕ)) ∧
        ∃ handle, x.handle = some handle ∧ Appending tstAtomic handle)
      [⟨i + 1, 4, .getAmode⟩, ⟨i + 1, 5, .getAtomicity⟩, ⟨i + 1, 9, .closeComm⟩]
      (AppendRound tstAtomic c r b (i + 1)) := by
    refine Follows.call (B := fun x ↦ x.buffer = b ∧
      (r < i + 1 → x.offPosition = ((r + 1) * c : ℕ)) ∧ x.amodeCheck = .createWronlyAppend ∧
        ∃ handle, x.handle = some handle ∧ Appending tstAtomic handle)
      (.inl (hne 4 (by decide))) (fun x k hx _ ↦ ?_) ?_
    · obtain ⟨hbuffer, hposition, handle, hhandle, happending⟩ := hx
      exact ⟨_, exec_getAmode hhandle, hbuffer, hposition, happending.amode_eq, handle, hhandle,
        happending⟩
    refine Follows.call (B := fun x ↦ AppendRound tstAtomic c r b (i + 1) x ∧ x.handle.isSome)
      (.inl (hne 5 (by decide))) (fun x k hx _ ↦ ?_) ?_
    · obtain ⟨hbuffer, hposition, hamode, handle, hhandle, happending⟩ := hx
      exact ⟨_, exec_getAtomicity hhandle, ⟨hbuffer, hposition, fun _ ↦
        ⟨hamode, happending.atomicity_eq⟩⟩, by simp [hhandle]⟩
    refine Follows.call (.inl (hne 9 (by decide))) (fun x k hx _ ↦ ?_) (Follows.done fun _ hx ↦ hx)
    obtain ⟨handle, hhandle⟩ := Option.isSome_iff_exists.mp hx.2
    exact ⟨_, exec_closeComm hhandle, hx.1.1, hx.1.2, hx.1.3⟩
  have hround := hopen.append (hatomic.append (haccess.append hask))
  simpa only [tstFileAppendModeTurns, List.append_assoc] using hround

theorem follows_appendMode (h : Transferable cfg t fields) (harray : ArrayFits t n)
    (hempty : file.length = 0) (r : Fin p) (m : Memory) :
    tstFileAppendModeTurns.Follows t n p tstAtomic (closedState cfg t fields n file) r
      (fun x ↦ x.Fresh ∧ x.buffer = written cfg t fields r n m)
      (tstFileAppendModeTurns.run tstAtomic p r) fun x ↦
        AppendRound tstAtomic (n * t.datatype.typemap.size) r (written cfg t fields r n m) p x ∧
          ((r : ℕ) = 0 → x.compared = comparedBuffers t n p
            (standardFile cfg t fields n file p) (freshValues t n)) := by
  have hloop : tstFileAppendModeTurns.Follows t n p tstAtomic (closedState cfg t fields n file) r
      _ _ _ := Follows.loop
    (AppendRound tstAtomic (n * t.datatype.typemap.size) r (written cfg t fields r n m))
    fun i _ ↦ h.follows_appendRound hempty r m i
  exact (hloop.weaken fun x hx ↦ ⟨hx.2, fun hlt ↦ absurd hlt (Nat.not_lt_zero _),
    fun hlt ↦ absurd hlt (lt_irrefl 0)⟩).append
      (Follows.fileCheck placed_appendMode harray fun x _ _ _ hx ↦ ⟨hx.1, hx.2, hx.3⟩)

/-- The rank that opens the file with `MPI_COMM_SELF`. -/
theorem follows_selfTurn (h : Transferable cfg t fields)
    (hposition : ∀ k : ℕ, t.datatype.typemap.position k = k) (r : Fin p)
    (hfits : r * n < 2 ^ 31) (m : Memory) :
    tstFileIoCommselfTurns.Follows t n p tstAtomic (closedState cfg t fields n file) r
      (fun x ↦ x.buffer = written cfg t fields r n m)
      ([⟨r + 1, 1, .openSelf .createWronly⟩]
        ++ (if tstAtomic then [⟨r + 1, 2, .setAtomicity⟩] else [])
        ++ [⟨r + 1, 3, .setView⟩, ⟨r + 1, 4, .seek⟩, ⟨r + 1, 5, .write⟩, ⟨r + 1, 6, .getPosition⟩,
          ⟨r + 1, 7, .getView⟩, ⟨r + 1, 8, .closeSelf⟩])
      fun x ↦ x.buffer = written cfg t fields r n m ∧
        ViewChecked t.datatype.typemap ((r + 1) * n) x := by
  set T := t.datatype.typemap with hT
  set b := written cfg t fields r n m with hb
  have hne : ∀ k, k ≠ 5 → k ≠ tstFileIoCommselfTurns.turn.1 := fun _ hk ↦ hk
  have hopen : tstFileIoCommselfTurns.Follows t n p tstAtomic (closedState cfg t fields n file) r
      (fun x ↦ x.buffer = b) [⟨r + 1, 1, .openSelf .createWronly⟩]
      fun x ↦ x.buffer = b ∧ x.handle.isSome :=
    Follows.call (.inl (hne 1 (by decide))) (fun x k hx _ ↦ ⟨_, rfl, hx, rfl⟩)
      (Follows.done fun _ hx ↦ hx)
  have hatomic : tstFileIoCommselfTurns.Follows t n p tstAtomic (closedState cfg t fields n file) r
      (fun x ↦ x.buffer = b ∧ x.handle.isSome)
      (if tstAtomic then [⟨r + 1, 2, .setAtomicity⟩] else [])
      fun x ↦ x.buffer = b ∧ x.handle.isSome := by
    split_ifs
    · refine Follows.call (.inl (hne 2 (by decide))) (fun x k hx _ ↦ ?_)
        (Follows.done fun _ hx ↦ hx)
      obtain ⟨handle, hhandle⟩ := Option.isSome_iff_exists.mp hx.2
      exact ⟨_, exec_setAtomicity hhandle, hx.1, rfl⟩
    · exact Follows.done fun _ hx ↦ hx
  have hseek : tstFileIoCommselfTurns.Follows t n p tstAtomic (closedState cfg t fields n file) r
      (fun x ↦ x.buffer = b ∧ x.handle.isSome) [⟨r + 1, 3, .setView⟩, ⟨r + 1, 4, .seek⟩]
      fun x ↦ x.buffer = b ∧ Seeing T (r * n) x := by
    refine Follows.call (B := fun x ↦ x.buffer = b ∧ Seeing T 0 x) (.inl (hne 3 (by decide)))
      (fun x k hx _ ↦ ?_) (Follows.call (.inl (hne 4 (by decide))) (fun x k hx _ ↦ ?_)
        (Follows.done fun _ hx ↦ hx))
    · obtain ⟨handle, hhandle⟩ := Option.isSome_iff_exists.mp hx.2
      exact ⟨_, exec_setView hhandle, hx.1, _, rfl, rfl⟩
    · obtain ⟨hbuffer, handle, hhandle, hfile⟩ := hx
      exact ⟨_, exec_seek hhandle hfits, hbuffer, _, rfl,
        congrArg (OpenFile.seekSet · (r * n)) hfile⟩
  have haccess : tstFileIoCommselfTurns.Follows t n p tstAtomic (closedState cfg t fields n file) r
      (fun x ↦ x.buffer = b ∧ Seeing T (r * n) x) [⟨r + 1, 5, .write⟩]
      fun x ↦ x.buffer = b ∧ Seeing T ((r + 1) * n) x := by
    refine Follows.access (fun x hx ↦ ?_) (Follows.done fun _ hx ↦ hx)
    obtain ⟨hbuffer, handle, hhandle, hfile⟩ := hx
    have hwrite := OpenFile.write_elements (r * n) n x.buffer h.size_pos
    rw [← hT, ← hfile] at hwrite
    refine ⟨(position_write hhandle).trans (by rw [hfile, ← mul_one (r * n), mul_assoc]; rfl), _,
      (exec_write hhandle hwrite).trans (congrArg some (Prod.ext ?_ rfl)), hbuffer, _, rfl,
      by rw [Nat.succ_mul]⟩
    rw [hbuffer, mul_assoc]
    exact h.closedState_succ hposition r m
  have hask : tstFileIoCommselfTurns.Follows t n p tstAtomic (closedState cfg t fields n file) r
      (fun x ↦ x.buffer = b ∧ Seeing T ((r + 1) * n) x)
      [⟨r + 1, 6, .getPosition⟩, ⟨r + 1, 7, .getView⟩, ⟨r + 1, 8, .closeSelf⟩]
      fun x ↦ x.buffer = b ∧ ViewChecked T ((r + 1) * n) x := by
    refine Follows.call (B := fun x ↦ (x.buffer = b ∧ x.offPosition = ((r + 1) * n : ℕ)) ∧
      Seeing T ((r + 1) * n) x) (.inl (hne 6 (by decide))) (fun x k hx _ ↦ ?_) ?_
    · obtain ⟨hbuffer, handle, hhandle, hfile⟩ := hx
      exact ⟨_, exec_getPosition hhandle, ⟨hbuffer, by rw [hfile]⟩, handle, hhandle, hfile⟩
    refine Follows.call (B := fun x ↦ (x.buffer = b ∧ ViewChecked T ((r + 1) * n) x) ∧
      x.handle.isSome) (.inl (hne 7 (by decide))) (fun x k hx _ ↦ ?_) ?_
    · obtain ⟨⟨hbuffer, hposition⟩, handle, hhandle, hfile⟩ := hx
      exact ⟨_, exec_getView hhandle, ⟨hbuffer, hposition, by rw [hfile], by rw [hfile],
        by rw [hfile]⟩, by simp [hhandle]⟩
    refine Follows.call (.inl (hne 8 (by decide))) (fun x k hx _ ↦ ?_) (Follows.done fun _ hx ↦ hx)
    obtain ⟨⟨hbuffer, hchecked⟩, hsome⟩ := hx
    obtain ⟨handle, hhandle⟩ := Option.isSome_iff_exists.mp hsome
    exact ⟨_, exec_closeSelf hhandle, hbuffer, hchecked.1, hchecked.2, hchecked.3, hchecked.4⟩
  have hturn := hopen.append (hatomic.append (hseek.append (haccess.append hask)))
  simpa only [List.append_assoc, List.cons_append, List.nil_append] using hturn

theorem follows_ioCommself (h : Transferable cfg t fields) (harray : ArrayFits t n)
    (hposition : ∀ k : ℕ, t.datatype.typemap.position k = k) (r : Fin p)
    (hfits : r * n < 2 ^ 31) (m : Memory) :
    tstFileIoCommselfTurns.Follows t n p tstAtomic (closedState cfg t fields n file) r
      (fun x ↦ x.Fresh ∧ x.buffer = written cfg t fields r n m)
      (tstFileIoCommselfTurns.run tstAtomic p r) fun x ↦
        SelfRound t.datatype.typemap n r (written cfg t fields r n m) p x ∧
          ((r : ℕ) = 0 → x.compared = comparedBuffers t n p
            (standardFile cfg t fields n file p) (freshValues t n)) := by
  have hloop : tstFileIoCommselfTurns.Follows t n p tstAtomic (closedState cfg t fields n file) r
      (SelfRound t.datatype.typemap n r (written cfg t fields r n m) 0)
      ((List.range p).flatMap (tstFileIoCommselfTurns.round tstAtomic r))
      (SelfRound t.datatype.typemap n r (written cfg t fields r n m) p) := by
    refine Follows.loop (SelfRound t.datatype.typemap n r (written cfg t fields r n m))
      fun i _ ↦ ?_
    have hne : 9 ≠ tstFileIoCommselfTurns.turn.1 := by decide
    change tstFileIoCommselfTurns.Follows t n p tstAtomic _ r _
      ((if i = r then _ else []) ++ [⟨i + 1, 9, .barrier⟩]) _
    by_cases hi : i = r
    · subst hi
      rw [if_pos rfl]
      exact ((h.follows_selfTurn hposition r hfits m).weaken fun x hx ↦ hx.buffer_eq).append
        (Follows.barrier hne (Follows.done fun x hx ↦ ⟨hx.1, fun _ ↦ hx.2⟩))
    · rw [if_neg hi]
      exact Follows.barrier hne (Follows.done fun x hx ↦ ⟨hx.1, fun hlt ↦ hx.2 (by omega)⟩)
  exact (hloop.weaken fun x hx ↦ ⟨hx.2, fun hlt ↦ absurd hlt (Nat.not_lt_zero _)⟩).append
    (Follows.fileCheck placed_ioCommself harray fun x _ _ _ hx ↦
      ⟨hx.1, fun hlt ↦ ⟨(hx.2 hlt).1, (hx.2 hlt).2, (hx.2 hlt).3, (hx.2 hlt).4⟩⟩)

end Transferable

end MpiTestSuite

import MpiTestSuite.Coding.CInt
import MpiTestSuite.Report.Oracle
import MpiTestSuite.Runs.Windows
import MpiTestSuite.Types.Minimum

/-!
# Accesses to windows

The one-sided tests create windows of their buffers, and ranks get, put and accumulate arrays there.
What the tests have in common is described here (`AccessTest`): their buffers and windows, what an
access reads and writes, and what is expected in the end. In which order they do it, and how they
wait for each other, is left to the tests with post and start and to those with locks and fences.
-/

open Relation

namespace MpiTestSuite

open Runs Meetings

/-! ## Elements -/

/-- The buffers of a rank: `send_buffer`, and `recv_buffer` or a member of it. -/
inductive Buffer
  | send
  | recv (i : ℕ)
  deriving DecidableEq, Repr

/-- `MPI_Get`, `MPI_Put`, and `MPI_Accumulate` with `MPI_MIN` or `MPI_MAX`. -/
inductive AccessOp
  | get
  | put
  | accumulateMin
  | accumulateMax
  deriving DecidableEq, Repr

/-- The data of one element are moved. -/
def copyElement (T : Typemap) (e : ℕ) (sent received : Memory) : Memory := fun q ↦
  if q - e * T.extent ∈ T.bytes then sent q else received q

/-- They are moved if they rank in front of what they replace. Only elements of one scalar can be
compared. -/
def accumulateElement (rank : ℤ → ℤ) (T : Typemap) (e : ℕ) (sent received : Memory) :
    Option Memory :=
  match T.scalars with
  | [(d, s)] =>
    let origin := e * T.extent + d
    some (if rank (keyAt s sent origin) < rank (keyAt s received origin) then
      copyElement T e sent received else received)
  | _ => none

/-- What an access does to one element of the buffer it writes to. -/
def AccessOp.move (op : AccessOp) (T : Typemap) (e : ℕ) (sent received : Memory) :
    Option Memory :=
  match op with
  | get | put => some (copyElement T e sent received)
  | accumulateMin => accumulateElement (fun k ↦ k) T e sent received
  | accumulateMax => accumulateElement (fun k ↦ -k) T e sent received

/-- What calls do to windows. -/
inductive CallKind
  | create
  | access
  | other
  deriving DecidableEq, Repr

/-! ## The tests -/

/-- What the tests differ in, apart from their calls. The windows of a rank have numbers. -/
structure AccessTest where
  /-- The functions of the row of the test. -/
  functions : String
  op : AccessOp
  /-- The receive buffers that `init` sets like `send_buffer`, by rank. -/
  own : ℕ → ℕ → Bool
  /-- The buffer that a window is created of. -/
  exposed : ℕ → Buffer
  /-- The size of a window, which is computed with the type `int`. -/
  windowBytes : TypeSlot → ℤ → Option ℤ
  /-- The window in which a rank accesses others. -/
  window : ℕ → ℕ
  /-- The buffer of the rank itself, by the rank that it accesses. -/
  accessed : ℕ → Buffer
  /-- The buffers that are checked, each with the rank whose array is expected. -/
  checks : ℕ → ℕ → List (Buffer × ℕ)

/-- `env->values_num*type_size`. -/
def valuesBytes (t : TypeSlot) (valuesNum : ℤ) : Option ℤ := checkedSigned (valuesNum * t.size)

/-- `tst_type_getstandardarray_size`. -/
def standardArrayBytes (t : TypeSlot) (valuesNum : ℤ) : Option ℤ := do
  let count ← checkedSigned (valuesNum + overhead)
  checkedSigned (count * t.size)

namespace AccessTest

section

variable (w : AccessTest)

/-- The buffers of a rank, of which some hold the array of the rank and the others have just been
allocated. -/
def filled (commRank : ℕ) (array allocated : Memory) : Buffer → Memory
  | .send => array
  | .recv i => if w.own commRank i then array else allocated

/-- `init`. -/
def init (cfg : Config) (t : TypeSlot) (env : Env) (commRank : ℕ) : Option (Buffer → Memory) := do
  let allocated ← tstTypeAllocvalues t env.valuesNum
  let array ← tstTypeSetstandardarray cfg t env.valuesNum.toNat allocated commRank
  return w.filled commRank array allocated

variable (p n : ℕ)

/-- What is moved: one element each time, between two ranks. -/
def transfers : Windows.Transfers (Fin p) ℕ (Fin p × Fin p × Fin n) where
  origin x := x.1
  target x := x.2.1
  window x := w.window x.1

variable {p n}

/-- The rank and the buffer that an access reads. -/
def source (o t : Fin p) : Fin p × Buffer :=
  if w.op = .get then (t, w.exposed (w.window o)) else (o, w.accessed t)

/-- The rank and the buffer that an access writes to. -/
def dest (o t : Fin p) : Fin p × Buffer :=
  if w.op = .get then (o, w.accessed t) else (t, w.exposed (w.window o))

variable (t : TypeSlot) (valuesNum : ℤ)

/-- All data of the elements of a window are in the window, if the first element is at its
beginning. -/
def fitsWindow : Bool :=
  (w.windowBytes t valuesNum).any fun bytes ↦ decide (∀ e < valuesNum.toNat,
    ∀ b ∈ t.datatype.typemap.bytes, 0 ≤ e * t.datatype.typemap.extent + b ∧
      e * t.datatype.typemap.extent + b < bytes)

/-- What calls do to the buffers. The unit of the displacements in a window is positive, and nobody
may access what is outside of it. -/
def exec {κ : Type*} (kind : κ → CallKind) :
    Fin p ⊕ Fin p × Fin p × Fin valuesNum.toNat → Windows.Numbered κ →
      (Fin p → Buffer → Memory) → Option (Fin p → Buffer → Memory)
  | .inl _, c, buffers =>
    match kind c.call with
    | .create =>
      if 0 < t.size ∧ (w.windowBytes t valuesNum).isSome then some buffers else none
    | .access => if w.fitsWindow t valuesNum then some buffers else none
    | .other => some buffers
  | .inr x, _, buffers => do
    let source := w.source x.1 x.2.1
    let dest := w.dest x.1 x.2.1
    let moved ← w.op.move t.datatype.typemap x.2.2 (buffers source.1 source.2)
      (buffers dest.1 dest.2)
    return Function.update buffers dest.1 (Function.update (buffers dest.1) dest.2 moved)

end

/-! ## Sizes -/

/-- The windows have room for all elements. -/
def Roomy (w : AccessTest) : Prop :=
  ∀ (t : TypeSlot) (valuesNum : ℤ), 0 ≤ valuesNum → 0 < t.size →
    (valuesNum + overhead) * t.size < 2 ^ 31 →
    ∃ bytes, w.windowBytes t valuesNum = some bytes ∧ valuesNum * t.size ≤ bytes

theorem checkedSigned_of_mem {x : ℤ} (hnonneg : 0 ≤ x) (hlt : x < 2 ^ 31) :
    checkedSigned x = some x := if_pos ⟨by omega, hlt⟩

theorem roomy_valuesBytes {w : AccessTest} (h : w.windowBytes = valuesBytes) : w.Roomy := by
  intro t valuesNum hvalues hsize hfits
  have hroom := mul_size_eq t valuesNum
  have hnonneg : 0 ≤ valuesNum * t.size := mul_nonneg hvalues hsize.le
  rw [h]
  exact ⟨_, checkedSigned_of_mem hnonneg (by omega), le_rfl⟩

theorem roomy_standardArrayBytes {w : AccessTest} (h : w.windowBytes = standardArrayBytes) :
    w.Roomy := by
  intro t valuesNum hvalues hsize hfits
  have hroom := mul_size_eq t valuesNum
  have hnonneg : 0 ≤ valuesNum * t.size := mul_nonneg hvalues hsize.le
  have hcount : valuesNum + overhead ≤ (valuesNum + overhead) * t.size :=
    le_mul_of_one_le_right (by rw [overhead]; omega) hsize
  rw [h]
  refine ⟨(valuesNum + overhead) * t.size, ?_, by omega⟩
  simp only [standardArrayBytes, Option.bind_eq_bind, Option.bind_some,
    checkedSigned_of_mem (show 0 ≤ valuesNum + overhead by rw [overhead]; omega) (by omega),
    checkedSigned_of_mem (show 0 ≤ (valuesNum + overhead) * t.size by omega) hfits]

variable {w : AccessTest} {cfg : Config} {t : TypeSlot} {env : Env} {fields : List FieldStore}

/-- The array that a rank sets. -/
abbrev ownArray (cfg : Config) (t : TypeSlot) (fields : List FieldStore) (n r : ℕ) : Memory :=
  written cfg t fields r n (freshValues t n)

/-- `init` succeeds if the blocks of the buffers have sizes of type `int`. -/
theorem init_eq_some_iff (h : Settable cfg t fields) (hvalues : 0 ≤ env.valuesNum)
    (hsize : 0 < t.size) {r : ℕ} {b : Buffer → Memory} :
    w.init cfg t env r = some b ↔ (env.valuesNum + overhead) * t.size < 2 ^ 31 ∧
      w.filled r (ownArray cfg t fields env.valuesNum.toNat r)
        (freshValues t env.valuesNum.toNat) = b := by
  by_cases hroom : (env.valuesNum + overhead) * t.size < 2 ^ 31
  · have hfits : ArrayFits t env.valuesNum := ⟨hvalues, hsize, hroom⟩
    simp only [init, hfits.allocvalues_eq, h.setstandardarray_eq, Option.pure_def,
      Option.bind_eq_bind, Option.bind_some, Option.some_inj, hroom, true_and]
  · refine iff_of_false (fun hinit ↦ ?_) fun hboth ↦ hroom hboth.1
    obtain ⟨allocated, hallocated, -⟩ := Option.bind_eq_some_iff.mp hinit
    exact hroom (hasBlock_of_allocvalues hallocated).2

theorem init_eq (h : Settable cfg t fields) (hvalues : 0 ≤ env.valuesNum) (hsize : 0 < t.size)
    (hroom : (env.valuesNum + overhead) * t.size < 2 ^ 31) (r : ℕ) :
    w.init cfg t env r = some (w.filled r (ownArray cfg t fields env.valuesNum.toNat r)
      (freshValues t env.valuesNum.toNat)) :=
  (init_eq_some_iff h hvalues hsize).mpr ⟨hroom, rfl⟩

/-- A rank that has the array that is expected passes its check. -/
theorem check_of_isStandardArray (h : Settable cfg t fields) {q : ℕ}
    (hbound : q + env.valuesNum.toNat ≤ 2 ^ 32) {m : Memory}
    (harray : IsStandardArray cfg t env.valuesNum.toNat q m) :
    tstTestCheckstandardarray cfg t env m q = some [] := by
  rw [h.testCheckstandardarray_eq, if_pos (h.holdsStandardArray_of_isStandardArray hbound harray)]

/-! ## What calls do -/

section

variable {p : ℕ} {κ : Type*} {kind : κ → CallKind} {valuesNum : ℤ} {c : Windows.Numbered κ}

/-- All data of the elements are in the windows. -/
theorem Roomy.fitsWindow_eq (h : w.Roomy) (hsend : Sendable cfg t fields) (hvalues : 0 ≤ valuesNum)
    (hroom : (valuesNum + overhead) * t.size < 2 ^ 31)
    (hbehind : valuesNum = 0 ∨ ∀ b ∈ t.datatype.typemap.bytes, 0 ≤ b) :
    w.fitsWindow t valuesNum = true := by
  obtain ⟨bytes, hbytes, hle⟩ := h t valuesNum hvalues hsend.size_pos hroom
  rw [fitsWindow, hbytes, Option.any_some, decide_eq_true_eq, hsend.extent_eq]
  intro e he b hb
  have hdef : t.size = t.ub - t.lb := rfl
  have hnum : (e : ℤ) < valuesNum := by omega
  obtain ⟨hnonneg, hlast⟩ := element_bounds hsend.size_pos hnum
  have hlb := hsend.fit.1
  have hwithin := hsend.within b hb
  rcases hbehind with hzero | hfront
  · omega
  · have hb0 := hfront b hb
    omega

/-- All calls have a result if windows are only accessed when they have all of their data. -/
theorem Roomy.exists_exec (h : w.Roomy) (hsend : Sendable cfg t fields) (hvalues : 0 ≤ valuesNum)
    (hroom : (valuesNum + overhead) * t.size < 2 ^ 31)
    (hmove : ∀ e sent received, (w.op.move t.datatype.typemap e sent received).isSome)
    {i : Fin p ⊕ Fin p × Fin p × Fin valuesNum.toNat}
    (hbehind : ∀ r, i = .inl r → kind c.call = .access →
      valuesNum = 0 ∨ ∀ b ∈ t.datatype.typemap.bytes, 0 ≤ b)
    (b : Fin p → Buffer → Memory) : ∃ b', w.exec t valuesNum kind i c b = some b' := by
  cases i with
  | inr x =>
    obtain ⟨moved, hmoved⟩ := Option.isSome_iff_exists.mp
      (hmove x.2.2 (b (w.source x.1 x.2.1).1 (w.source x.1 x.2.1).2)
        (b (w.dest x.1 x.2.1).1 (w.dest x.1 x.2.1).2))
    simp only [exec, Option.pure_def, Option.bind_eq_bind, hmoved, Option.bind_some]
    exact ⟨_, rfl⟩
  | inl r =>
    rw [exec]
    split
    · obtain ⟨bytes, hbytes, -⟩ := h t valuesNum hvalues hsend.size_pos hroom
      exact ⟨b, if_pos ⟨hsend.size_pos, Option.isSome_iff_exists.mpr ⟨bytes, hbytes⟩⟩⟩
    · rename_i hkind
      exact ⟨b, if_pos (h.fitsWindow_eq hsend hvalues hroom (hbehind r rfl hkind))⟩
    · exact ⟨b, rfl⟩

end

end AccessTest

/-! ## Neighbours -/

section

variable {p : ℕ}

/-- `(comm_rank + 1) % comm_size`. -/
def nextRank (r : Fin p) : Fin p := ⟨(r + 1) % p, Nat.mod_lt _ r.pos⟩

/-- `(comm_rank + comm_size - 1) % comm_size`. -/
def previousRank (r : Fin p) : Fin p := ⟨(r + p - 1) % p, Nat.mod_lt _ r.pos⟩

theorem val_previousRank (r : Fin p) :
    (previousRank r : ℕ) = if (r : ℕ) = 0 then p - 1 else (r : ℕ) - 1 := by
  have hr := r.isLt
  change ((r : ℕ) + p - 1) % p = _
  split_ifs with h
  · rw [h, zero_add, Nat.mod_eq_of_lt (by omega)]
  · rw [Nat.sub_add_comm (by omega), Nat.add_mod_right, Nat.mod_eq_of_lt (by omega)]

theorem val_nextRank (r : Fin p) :
    (nextRank r : ℕ) = if (r : ℕ) + 1 = p then 0 else (r : ℕ) + 1 := by
  have hr := r.isLt
  change ((r : ℕ) + 1) % p = _
  split_ifs with h
  · rw [h, Nat.mod_self]
  · exact Nat.mod_eq_of_lt (by omega)

theorem eq_previousRank_iff {o t : Fin p} : t = previousRank o ↔ o = nextRank t := by
  have ho := o.isLt
  have ht := t.isLt
  rw [Fin.ext_iff, Fin.ext_iff, val_previousRank, val_nextRank]
  split_ifs <;> omega

end

end MpiTestSuite

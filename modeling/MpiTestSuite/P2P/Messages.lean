import MpiTestSuite.Report.Oracle
import MpiTestSuite.Runs.Levels
import MpiTestSuite.Selection.SlotArray
import MpiTestSuite.Types.Transfer

/-!
# Messages

What the tests that send arrays from rank to rank have in common: every rank fills a buffer with a
standard array and sends it, and a rank that has received something looks at the status, in strict
mode at the number of elements, and compares the elements with the standard array of the rank that
it expects to have sent it.

A buffer is as large as the table says, and there is none if its size leaves `int` or is nothing
(`ArrayFits`). What was sent is received in a buffer that was allocated for as many elements, and is
still the array that it was (`Arrival.window_buffer`).

The ranks of a communicator, and what is computed of them, are natural numbers. For the sums and
products of the tests not to fit in an `int` there would have to be 2^30 processes, and
`tst_comm_init` does not get through with more than 46341 (`edges_lt_iff`).
-/

open MpiTestSuite.Runs.Requests

namespace MpiTestSuite

namespace P2P

/-- What is sent. -/
structure Packet where
  buffer : Memory
  /-- The distance of its elements in bytes. -/
  stride : ℤ
  /-- The argument `count`. -/
  count : ℤ

/-- What has been received, with `MPI_SOURCE` and `MPI_TAG`. -/
structure Arrival where
  source : ℕ
  tag : ℤ
  packet : Packet

/-- What the status of a completed request says, with what has been received. The status of a send
says only whether it has been cancelled. -/
structure Completion where
  cancelled : Bool
  arrival : Arrival

/-- What a rank has received with the request in a slot. -/
def arrival? {ι : Type*} [DecidableEq ι] (s : State ι ℤ Packet) (rankOf : ι → ℕ) (q : ι)
    (slot : ℕ) : Option Arrival :=
  (s.got q slot).map fun x ↦ ⟨rankOf x.1, x.2.1, x.2.2⟩

section

variable {ι : Type*} [DecidableEq ι] {prog : ι → List (Instr ι ℤ Packet)} {s : State ι ℤ Packet}
  {rankOf : ι → ℕ} {r q : ι} {i j : ℕ} {k : ℤ} {x : Packet}

/-- What is seen of what was sent. -/
theorem arrival?_eq (h : Genuine prog s) (hpaired : Paired prog) {mode : Mode}
    (hsend : .send i mode q k x ∈ prog r) (hrecv : .recv j r k ∈ prog q)
    (hcomplete : s.Complete q j) : arrival? s rankOf q j = some ⟨rankOf r, k, x⟩ := by
  rw [arrival?, h.got_eq hpaired hsend hrecv hcomplete]
  rfl

/-- Only a receive that is complete has received something. -/
theorem complete_of_arrival? {a : Arrival} (ha : arrival? s rankOf q j = some a) :
    s.Complete q j := by
  obtain ⟨y, hgot, -⟩ := Option.map_eq_some_iff.mp ha
  exact State.complete_of_got hgot

end

section

variable (cfg : Config) (t : TypeSlot) (env : Env) (mode : TstMode)

/-- The send buffer that the functions `_init` prepare. The receive buffers, which are allocated for
as many values, come into being under the same condition. -/
def standardBuffer (commRank : ℤ) : Option Memory := do
  let sendBuffer ← tstTypeAllocvalues t env.valuesNum
  tstTypeSetstandardarray cfg t env.valuesNum.toNat sendBuffer commRank

/-- `env->values_num` elements of a buffer. -/
def Packet.values (sendBuffer : Memory) : Packet :=
  ⟨sendBuffer, t.datatype.typemap.extent, env.valuesNum⟩

/-- The array of the rank, as the arguments of a call. -/
def sendArray (commRank : ℤ) : Option Packet := do
  let sendBuffer ← standardBuffer cfg t env commRank
  let count ← elementCount env.valuesNum
  return ⟨sendBuffer, t.datatype.typemap.extent, count⟩

/-- The receive buffer, which has been allocated for `env->values_num` elements. -/
def Arrival.buffer (a : Arrival) : Memory :=
  transferred t.datatype.typemap a.packet.count.toNat a.packet.stride a.packet.buffer
    (freshValues t env.valuesNum.toNat)

/-- In strict mode, what `MPI_Get_count` says is not `env->values_num`. -/
def Arrival.wrongCount (a : Arrival) : Bool := mode == .strict && a.packet.count != env.valuesNum

/-- An unknown type ends the program in `tst_type_setvalue`. -/
def orStop {α : Type*} : Option α → Except Stop α
  | some x => .ok x
  | none => .error (.error "Unknown type in tst_type_setvalue")

/-- A block from `tst_type_allocvalues`, which calls `ERROR` if there is none. -/
def allocOrStop (valuesNum : ℤ) : Except Stop Memory :=
  match tstTypeAllocvalues t valuesNum with
  | some m => .ok m
  | none => .error (.error "malloc")

/-- The count of a call. With a negative one MPI ends the program. -/
def countOrStop : Except Stop ℕ :=
  match elementCount env.valuesNum with
  | some count => .ok count
  | none => .error (.error "MPI_ERR_COUNT")

/-- What is done with an arrival when its status is right: in strict mode its count is checked, then
it is compared with what is expected. -/
def Arrival.checkWith (a : Arrival) (message : String) (compare : Option (List Env)) :
    Except Stop (List Env) :=
  if a.wrongCount env mode then .error (.error message) else orStop compare

/-- It is compared with the array of a rank. -/
def Arrival.check (a : Arrival) (message : String) (commRank : ℤ) : Except Stop (List Env) :=
  a.checkWith env mode message (tstTestCheckstandardarray cfg t env (a.buffer t env) commRank)

/-- The status of a receive from `source`, and what else is checked. -/
def judge (arrival : Option Arrival) (source : ℕ) (check : Arrival → Except Stop (List Env)) :
    Except Stop (List Env) :=
  match arrival with
  | some a =>
    if a.source ≠ source ∨ a.tag ≠ env.tag then .error (.error "Error in communication")
    else check a
  | none => .error (.error "Error in communication")

end

/-- What a test that attaches a buffer gets from its surroundings. -/
structure Surroundings where
  /-- `tst_thread_num_threads ()`. -/
  numThreads : ℕ
  /-- `MPI_BSEND_OVERHEAD`. -/
  bsendOverhead : ℕ
  /-- What the array takes up in an attached buffer, apart from the overhead. -/
  packSize : ℕ

/-- What is checked of several arrivals, one after the other. -/
def judgeAll {α : Type} (as : List α) (check : α → Except Stop (List Env)) :
    Except Stop (List Env) := do
  let calls ← as.mapM check
  return calls.flatten

/-- All ranks but one, in increasing order. -/
def others (p i : ℕ) : List ℕ := (List.range p).filter (· != i)

theorem mem_others {p i j : ℕ} : j ∈ others p i ↔ j < p ∧ j ≠ i := by
  rw [others, List.mem_filter, List.mem_range, bne_iff_ne]

theorem length_others {p i : ℕ} (hi : i < p) : (others p i).length = p - 1 := by
  rw [others, ← List.nodup_range.erase_eq_filter, List.length_erase_of_mem (List.mem_range.mpr hi),
    List.length_range]

variable {cfg : Config} {t : TypeSlot}

theorem judgeAll_nil {α : Type} (check : α → Except Stop (List Env)) : judgeAll [] check = .ok [] :=
  rfl

theorem judgeAll_cons {α : Type} (a : α) (as : List α) (check : α → Except Stop (List Env)) :
    judgeAll (a :: as) check = do
      let calls ← check a
      let calls' ← judgeAll as check
      return calls ++ calls' := by
  simp [judgeAll, List.mapM_cons]

theorem judgeAll_append {α : Type} (as bs : List α) (check : α → Except Stop (List Env)) :
    judgeAll (as ++ bs) check = do
      let calls ← judgeAll as check
      let calls' ← judgeAll bs check
      return calls ++ calls' := by
  simp [judgeAll, List.mapM_append]

/-- If everything has been checked, each of the checks has come to an end. -/
theorem exists_ok_of_judgeAll {α : Type} {as : List α} {check : α → Except Stop (List Env)}
    {calls : List Env} (h : judgeAll as check = .ok calls) {a : α} (ha : a ∈ as) :
    ∃ calls', check a = .ok calls' := by
  induction as generalizing calls with
  | nil => cases ha
  | cons b as ih =>
    rw [judgeAll_cons] at h
    cases hb : check b with
    | error stop =>
      rw [hb] at h
      cases h
    | ok first =>
      rcases List.mem_cons.mp ha with rfl | ha
      · exact ⟨first, hb⟩
      · cases has : judgeAll as check with
        | error stop =>
          rw [hb, has] at h
          cases h
        | ok rest => exact ih has ha

theorem judgeAll_ne_error {α : Type} {as : List α} {check : α → Except Stop (List Env)}
    {stop : Stop} (h : ∀ a ∈ as, check a ≠ .error stop) : judgeAll as check ≠ .error stop := by
  induction as with
  | nil =>
    intro heq
    cases heq
  | cons a as ih =>
    have hfirst := h a List.mem_cons_self
    have hrest := ih fun b hb ↦ h b (List.mem_cons_of_mem a hb)
    rw [judgeAll_cons]
    intro heq
    cases ha : check a with
    | error stop' =>
      rw [ha] at heq hfirst
      cases heq
      exact hfirst rfl
    | ok calls =>
      cases has : judgeAll as check with
      | error stop' =>
        rw [ha, has] at heq
        cases heq
        exact hrest has
      | ok calls' =>
        rw [ha, has] at heq
        cases heq

theorem judgeAll_congr {α : Type} {as : List α} {check check' : α → Except Stop (List Env)}
    (h : ∀ a ∈ as, check a = check' a) : judgeAll as check = judgeAll as check' := by
  induction as with
  | nil => rfl
  | cons a as ih =>
    rw [judgeAll_cons, judgeAll_cons, h a List.mem_cons_self,
      ih fun b hb ↦ h b (List.mem_cons_of_mem a hb)]

/-- What is recorded if no check is an error. -/
theorem judgeAll_eq_ok {α : Type} {as : List α} {check : α → Except Stop (List Env)}
    {calls : α → List Env} (h : ∀ a ∈ as, check a = .ok (calls a)) :
    judgeAll as check = .ok (as.flatMap calls) := by
  induction as with
  | nil => rfl
  | cons a as ih =>
    rw [judgeAll_cons, h a List.mem_cons_self, ih fun b hb ↦ h b (List.mem_cons_of_mem a hb)]
    rfl

theorem judgeAll_eq_nil {α : Type} {as : List α} {check : α → Except Stop (List Env)}
    (h : ∀ a ∈ as, check a = .ok []) : judgeAll as check = .ok [] := by
  rw [judgeAll_eq_ok h, List.flatMap_eq_nil_iff.mpr fun _ _ ↦ rfl]

/-- A rank and `values_num` are `int`s, so the numbers in the array of a rank stay below 2^32. -/
theorem rank_add_values_le {env : Env} (hvalues : FitsInt env.valuesNum) {p r : ℕ}
    (hsize : FitsInt p) (hr : r < p) : r + env.valuesNum.toNat ≤ 2 ^ 32 := by
  have hn := hvalues.2
  have hs := hsize.2
  omega

section

variable {env : Env} {commRank : ℤ}

theorem hasBlock_of_standardBuffer {b : Memory}
    (h : standardBuffer cfg t env commRank = some b) : HasBlock t env.valuesNum := by
  obtain ⟨m, hm, -⟩ := Option.bind_eq_some_iff.mp h
  exact hasBlock_of_allocvalues hm

theorem exists_standardBuffer (ht : t ∈ initTypes cfg) (hnull : t.datatype ≠ .null)
    (hblock : HasBlock t env.valuesNum) (commRank : ℤ) :
    ∃ b, standardBuffer cfg t env commRank = some b := by
  obtain ⟨fields, h⟩ := exists_settable cfg ht hnull
  rw [standardBuffer, tstTypeAllocvalues, if_pos hblock]
  exact ⟨_, h.setstandardarray_eq _ _ _⟩

theorem allocOrStop_eq_ok_iff {n : ℤ} {m : Memory} :
    allocOrStop t n = .ok m ↔ tstTypeAllocvalues t n = some m := by
  rw [allocOrStop]
  cases tstTypeAllocvalues t n <;> simp

theorem countOrStop_eq_ok_iff {count : ℕ} :
    countOrStop env = .ok count ↔ env.valuesNum = count := by
  rw [countOrStop, ← elementCount_eq_some_iff]
  cases elementCount env.valuesNum <;> simp

/-- A send buffer holds a standard array, whatever was in it before. -/
theorem exists_written {fields : List FieldStore} (h : Settable cfg t fields) {b : Memory}
    (hset : standardBuffer cfg t env commRank = some b) :
    ∃ m, b = written cfg t fields commRank env.valuesNum.toNat m := by
  obtain ⟨m, -, hm⟩ := Option.bind_eq_some_iff.mp hset
  rw [h.setstandardarray_eq] at hm
  exact ⟨m, (Option.some_inj.mp hm).symm⟩

/-- What can be sent, can be allocated and counted. -/
theorem sendArray_eq_some_iff {packet : Packet} : sendArray cfg t env commRank = some packet ↔
    0 ≤ env.valuesNum ∧
      ∃ b, standardBuffer cfg t env commRank = some b ∧ .values t env b = packet := by
  rw [sendArray]
  by_cases hcount : 0 ≤ env.valuesNum
  · cases hset : standardBuffer cfg t env commRank <;>
      simp [elementCount_of_nonneg hcount, Packet.values, hcount]
  · cases hset : standardBuffer cfg t env commRank <;> simp [elementCount_eq_none hcount, hcount]

/-- **Sizes.** A rank has an array that it can send exactly if its array fits. -/
theorem exists_sendArray_iff (ht : t ∈ initTypes cfg) (hnull : t.datatype ≠ .null) :
    (∃ packet, sendArray cfg t env commRank = some packet) ↔ ArrayFits t env.valuesNum := by
  constructor
  · rintro ⟨packet, hpacket⟩
    obtain ⟨hcount, b, hset, -⟩ := sendArray_eq_some_iff.mp hpacket
    exact arrayFits_iff.mpr ⟨hcount, hasBlock_of_standardBuffer hset⟩
  · intro hfits
    obtain ⟨b, hset⟩ := exists_standardBuffer ht hnull hfits.hasBlock commRank
    exact ⟨_, sendArray_eq_some_iff.mpr ⟨hfits.count, b, hset, rfl⟩⟩

/-- All ranks have one. -/
theorem exists_sendArrays (ht : t ∈ initTypes cfg) (hnull : t.datatype ≠ .null)
    (hfits : ArrayFits t env.valuesNum) {ι : Type*} (rankOf : ι → ℤ) :
    ∃ sendBuffer : ι → Memory,
      (∀ r, standardBuffer cfg t env (rankOf r) = some (sendBuffer r)) ∧
      ∀ r, sendArray cfg t env (rankOf r) = some (.values t env (sendBuffer r)) := by
  choose sendBuffer hset using fun r ↦
    exists_standardBuffer ht hnull hfits.hasBlock (rankOf r)
  exact ⟨sendBuffer, hset, fun r ↦ sendArray_eq_some_iff.mpr ⟨hfits.count, _, hset r, rfl⟩⟩

end

namespace Arrival

/-- With the right count it is up to the comparison. -/
theorem checkWith_of_count {env : Env} (mode : TstMode) {a : Arrival} (message : String)
    (hcount : a.packet.count = env.valuesNum) (compare : Option (List Env)) :
    a.checkWith env mode message compare = orStop compare := by
  have hwrong : a.wrongCount env mode = false := by
    rw [wrongCount, hcount, bne_self_eq_false, Bool.and_false]
  rw [checkWith, hwrong, if_neg Bool.false_ne_true]

theorem checkWith_eq_nil {env : Env} (mode : TstMode) {a : Arrival} (message : String)
    (hcount : a.packet.count = env.valuesNum) :
    a.checkWith env mode message (some []) = .ok [] :=
  checkWith_of_count mode message hcount (some [])

section

variable (ht : t ∈ initTypes cfg) (hnull : t.datatype ≠ .null) {env : Env} {commRank : ℤ}
  {sendBuffer : Memory} (hset : standardBuffer cfg t env commRank = some sendBuffer) {a : Arrival}
  (ha : a.packet = .values t env sendBuffer)

include ht hnull hset ha

/-- **Arrays.** The elements of an array arrive as they have been sent. -/
theorem window_buffer {i : ℕ} (hi : i < env.valuesNum.toNat) :
    window t (a.buffer t env) i = window t sendBuffer i := by
  obtain ⟨fields, h⟩ := exists_settable cfg ht hnull
  have hsize : t.size = t.ub - t.lb := rfl
  obtain ⟨m, rfl⟩ := exists_written h hset
  refine load_congr fun k hk ↦ ?_
  rw [add_assoc, h.written_apply commRank _ _ hi (by omega) (by omega), buffer, ha]
  exact h.transferred_written ht hnull _ commRank _ i hi _ (by omega) (by omega)

/-- Nothing wrong is found with them. -/
theorem testCheckstandardarray_buffer (hlow : -2 ^ 31 ≤ commRank)
    (hhigh : commRank + env.valuesNum.toNat ≤ 2 ^ 32) :
    tstTestCheckstandardarray cfg t env (a.buffer t env) commRank = some [] := by
  obtain ⟨fields, h⟩ := exists_settable cfg ht hnull
  obtain ⟨m, rfl⟩ := exists_written h hset
  have hholds : HoldsStandardArray cfg t env.valuesNum.toNat commRank (a.buffer t env) := by
    refine (h.holdsStandardArray_congr commRank fun i hi q hlo hhi ↦ ?_).mp
      (h.holdsStandardArray_written hlow hhigh m)
    rw [h.written_apply commRank _ _ hi hlo hhi, buffer, ha]
    exact (h.transferred_written ht hnull _ commRank _ i hi q hlo hhi).symm
  rw [h.testCheckstandardarray_eq, if_pos hholds]

theorem check_eq_nil (mode : TstMode) (message : String) (hlow : -2 ^ 31 ≤ commRank)
    (hhigh : commRank + env.valuesNum.toNat ≤ 2 ^ 32) :
    a.check cfg t env mode message commRank = .ok [] := by
  rw [check, testCheckstandardarray_buffer ht hnull hset ha hlow hhigh]
  exact checkWith_eq_nil mode message (by rw [ha]; rfl)

end

/-- What arrives of the array of a rank is the array of this rank. -/
theorem isStandardArray_buffer (ht : t ∈ initTypes cfg) (hnull : t.datatype ≠ .null) {env : Env}
    {commRank : ℕ} {sendBuffer : Memory}
    (hset : standardBuffer cfg t env commRank = some sendBuffer) {a : Arrival}
    (ha : a.packet = .values t env sendBuffer) :
    IsStandardArray cfg t env.valuesNum.toNat commRank (a.buffer t env) := by
  obtain ⟨fields, h⟩ := exists_settable cfg ht hnull
  refine (h.isStandardArray_iff _ commRank _).mpr fun i hi q hlo hhi ↦ ?_
  obtain ⟨m, rfl⟩ := exists_written h hset
  rw [buffer, ha]
  exact h.transferred_written ht hnull _ commRank m i hi q hlo hhi

end Arrival

end P2P

end MpiTestSuite

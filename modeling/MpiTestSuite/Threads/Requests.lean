import MpiTestSuite.Coding.CInt
import MpiTestSuite.Runs.Fold
import MpiTestSuite.Selection.SlotArray

/-!
# The global requests

`tst_thread_alloc_global_requests` makes an array of requests that all threads use, and
`tst_thread_get_global_request` returns the address of one of them after a look at
`tst_thread_requests_max`. But no function ever sets this variable to anything but zero, and the
look is one for `num > tst_thread_requests_max`. So request zero can be had at any time, even if
there is none, and no other one ever.

All tests ask for request zero, of an array with two, and go on from there on their own.
-/

open MpiTestSuite.Runs

namespace MpiTestSuite

namespace Threads

/-! ## The store -/

/-- The variables, with the blocks that `malloc` has returned: for each of them the number of
requests in it, or `none` when it has been freed. -/
structure RequestStore where
  /-- `tst_thread_requests_array`: a block, or `NULL`. -/
  array : Option ℕ
  /-- `tst_thread_requests_max`. -/
  max : ℤ
  heap : List (Option ℕ)
  deriving DecidableEq, Repr

/-- `&array[index]`. -/
structure RequestAddress where
  array : Option ℕ
  index : ℕ
  deriving DecidableEq, Repr

namespace RequestStore

/-- At the start of the program. -/
def initial : RequestStore := ⟨none, 0, []⟩

/-- The number of requests in a block that has not been freed. -/
def room (s : RequestStore) (block : Option ℕ) : ℕ :=
  (block.bind fun k ↦ (s.heap[k]?).join).getD 0

/-- The number of requests that are allocated. -/
def allocated (s : RequestStore) : ℕ := s.room s.array

/-- An address inside of a block. -/
def Inside (s : RequestStore) (a : RequestAddress) : Prop := a.index < s.room a.array

end RequestStore

/-- `tst_thread_alloc_global_requests`. -/
def tstThreadAllocGlobalRequests (num : ℤ) (s : RequestStore) :
    Except Stop (RequestAddress × RequestStore) :=
  match mallocInt num with
  | none => .error (.error "malloc")
  | some n =>
    .ok (⟨some s.heap.length, 0⟩, ⟨some s.heap.length, s.max, s.heap ++ [some n]⟩)

/-- `tst_thread_get_global_request`. -/
def tstThreadGetGlobalRequest (num : ℤ) (s : RequestStore) : Except Stop RequestAddress :=
  if num < 0 ∨ s.max < num then .error (.error "reuest number outside allowed range")
  else .ok ⟨s.array, num.toNat⟩

/-- `tst_thread_free_global_requests`, which leaves the address in its variable. There is no telling
what a second `free` of it does. -/
def tstThreadFreeGlobalRequests (s : RequestStore) : Except Stop RequestStore :=
  match s.array with
  | none => .ok { s with max := 0 }
  | some k =>
    if (s.heap[k]?).join.isSome then .ok ⟨some k, 0, s.heap.set k none⟩
    else .error .outOfBounds

/-- A call of one of the three functions. -/
inductive RequestCall
  | alloc (num : ℤ)
  | get (num : ℤ)
  | free
  deriving DecidableEq, Repr

/-- The store after a call. -/
def RequestStore.call (s : RequestStore) : RequestCall → Except Stop RequestStore
  | .alloc num => (tstThreadAllocGlobalRequests num s).map Prod.snd
  | .get num => (tstThreadGetGlobalRequest num s).map fun _ ↦ s
  | .free => tstThreadFreeGlobalRequests s

/-! ## What the calls are meant to do -/

/-- The number of requests that should be allocated after a call. -/
def RequestCall.allocates (n : ℤ) : RequestCall → ℤ
  | .alloc num => num
  | .get _ => n
  | .free => 0

/-- A request is found exactly if there is one with this number, and `ERROR` is called otherwise. -/
def GetWorks (s : RequestStore) (num : ℤ) : Prop :=
  if 0 ≤ num ∧ num < s.allocated then ∃ a, tstThreadGetGlobalRequest num s = .ok a ∧ s.Inside a
  else tstThreadGetGlobalRequest num s = .error (.error "reuest number outside allowed range")

/-! ## What they do -/

/-- The bound is zero, and what is allocated is what should be. -/
structure RequestStore.Tracks (s : RequestStore) (n : ℤ) : Prop where
  max_eq : s.max = 0
  allocated_eq : s.allocated = n

namespace RequestStore

variable {s s' : RequestStore} {n : ℤ}

/-- One call. -/
theorem Tracks.call (h : s.Tracks n) {c : RequestCall} (hcall : s.call c = .ok s') :
    s'.Tracks (c.allocates n) := by
  cases c with
  | alloc num =>
    rw [RequestStore.call, map_eq_ok_iff] at hcall
    obtain ⟨⟨a, t⟩, halloc, rfl⟩ := hcall
    rw [tstThreadAllocGlobalRequests] at halloc
    cases hmalloc : mallocInt num with
    | none =>
      rw [hmalloc] at halloc
      cases halloc
    | some m =>
      rw [hmalloc] at halloc
      cases halloc
      refine ⟨h.max_eq, ?_⟩
      simp [RequestStore.allocated, RequestStore.room, RequestCall.allocates,
        mallocInt_eq_some_iff.mp hmalloc]
  | get num =>
    rw [RequestStore.call, map_eq_ok_iff] at hcall
    obtain ⟨a, -, rfl⟩ := hcall
    exact h
  | free =>
    rw [RequestStore.call, tstThreadFreeGlobalRequests] at hcall
    cases harray : s.array with
    | none =>
      rw [harray] at hcall
      cases hcall
      exact ⟨rfl, by simp [RequestStore.allocated, RequestStore.room, RequestCall.allocates]⟩
    | some k =>
      simp only [harray] at hcall
      split_ifs at hcall with hlive
      cases hcall
      refine ⟨rfl, ?_⟩
      simp only [RequestStore.allocated, RequestStore.room, RequestCall.allocates,
        Option.bind_some, List.getElem?_set_self']
      cases s.heap[k]? <;> rfl

/-- A whole run. -/
theorem Tracks.run (h : s.Tracks n) {calls : List RequestCall}
    (hrun : calls.foldlM RequestStore.call s = .ok s') :
    s'.Tracks (calls.foldl RequestCall.allocates n) := by
  induction calls generalizing s n with
  | nil =>
    cases hrun
    exact h
  | cons c calls ih =>
    cases hcall : s.call c with
    | error e =>
      rw [foldlM_cons_error hcall] at hrun
      cases hrun
    | ok t =>
      rw [foldlM_cons_ok hcall] at hrun
      exact ih (h.call hcall) hrun

/-- Request zero is always found, and no other one. -/
theorem Tracks.get_eq (h : s.Tracks n) (num : ℤ) : tstThreadGetGlobalRequest num s
    = if num = 0 then .ok ⟨s.array, 0⟩
      else .error (.error "reuest number outside allowed range") := by
  rw [tstThreadGetGlobalRequest, h.max_eq]
  by_cases hzero : num = 0
  · rw [if_pos hzero, if_neg (by omega), hzero]
    rfl
  · rw [if_neg hzero, if_pos (by omega)]

theorem Tracks.getWorks_iff (h : s.Tracks n) (num : ℤ) :
    GetWorks s num ↔ (num = 0 ↔ 0 ≤ num ∧ num < n) := by
  have hroom : (s.Inside ⟨s.array, 0⟩) ↔ 0 < n := by
    rw [RequestStore.Inside, ← h.allocated_eq, Int.natCast_pos]
    rfl
  rw [GetWorks, h.get_eq, h.allocated_eq]
  by_cases hzero : num = 0 <;> by_cases hin : 0 ≤ num ∧ num < n
  · rw [if_pos hin, if_pos hzero]
    exact iff_of_true ⟨_, rfl, hroom.mpr (by omega)⟩ (iff_of_true hzero hin)
  · rw [if_neg hin, if_pos hzero]
    exact iff_of_false nofun fun hiff ↦ hin (hiff.mp hzero)
  · rw [if_pos hin, if_neg hzero]
    exact iff_of_false (by simp) fun hiff ↦ hzero (hiff.mpr hin)
  · rw [if_neg hin, if_neg hzero]
    exact iff_of_true rfl (iff_of_false hzero hin)

end RequestStore

/-- **The global requests.** After any calls of the three functions, what is asked for is found if
it is there and refused if it is not, exactly if it is request zero and there, or another one and
not there. No two numbers lead to the same address. -/
theorem global_requests_iff (calls : List RequestCall) (s : RequestStore)
    (hrun : calls.foldlM RequestStore.call .initial = .ok s) :
    (∀ num : ℤ, GetWorks s num ↔
      (num = 0 ↔ 0 ≤ num ∧ num < calls.foldl RequestCall.allocates 0)) ∧
    ∀ (i j : ℤ) (a : RequestAddress), tstThreadGetGlobalRequest i s = .ok a →
      tstThreadGetGlobalRequest j s = .ok a → i = j := by
  have hinitial : RequestStore.initial.Tracks 0 := ⟨rfl, rfl⟩
  have h := hinitial.run hrun
  refine ⟨h.getWorks_iff, fun i j a hi hj ↦ ?_⟩
  have hzero : ∀ num, tstThreadGetGlobalRequest num s = .ok a → num = 0 := fun num hnum ↦ by
    rw [h.get_eq] at hnum
    split_ifs at hnum with hzero
    exact hzero
  rw [hzero i hi, hzero j hj]

/-- What the tests do. -/
theorem global_requests_iff_two :
    let s : RequestStore := ⟨some 0, 0, [some 2]⟩
    (∀ num : ℤ, GetWorks s num ↔ (num = 0 ↔ 0 ≤ num ∧ num < 2)) ∧
    ∀ (i j : ℤ) (a : RequestAddress), tstThreadGetGlobalRequest i s = .ok a →
      tstThreadGetGlobalRequest j s = .ok a → i = j :=
  global_requests_iff [.alloc 2, .get 0] ⟨some 0, 0, [some 2]⟩ rfl

/-- Of two requests that have been allocated, request one is refused. -/
theorem global_requests_refused : ¬∀ (calls : List RequestCall) (s : RequestStore),
    calls.foldlM RequestStore.call .initial = .ok s → ∀ num : ℤ, GetWorks s num := by
  intro h
  have hworks := h [.alloc 2] ⟨some 0, 0, [some 2]⟩ rfl 1
  rw [GetWorks, if_pos (by decide)] at hworks
  obtain ⟨a, ha, -⟩ := hworks
  cases ha

end Threads

end MpiTestSuite

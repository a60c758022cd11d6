import MpiTestSuite.Runs.Windows

/-!
# Locks and fences

Every party has *windows* that the others may access, either between two *fences*, which all parties
call, or under a *lock* that a party alone takes at another one. A lock is shared, or exclusive, and
then nobody else holds one of the same window of the same party. What an access moves is moved some
time after it, but before the lock is given back or the next fence is over. A party holds at most
one lock, and whoever holds one only accesses the window that is locked.

Whatever the programs are, no two locks of a window exclude each other (`exclusion`), and as long as
something has not been moved, the party that has accessed it holds a lock or is between two fences
(`Pending.cases`).

If all parties come to the same fences, in the same order, nobody waits forever
(`Regular.exists_ready`): who holds a lock can always go on, and if nobody does, a party at the
lowest level can.
-/

open Relation

namespace MpiTestSuite

namespace Runs

namespace Locks

open Meetings Windows

variable {ρ ω τ σ : Type*}

/-! ## Calls -/

/-- `MPI_LOCK_SHARED` and `MPI_LOCK_EXCLUSIVE`. -/
inductive LockType
  | shared
  | exclusive
  deriving DecidableEq, Repr

/-- The calls of a party. A fence that ends nothing (`MPI_MODE_NOPRECEDE`) does not wait for
anybody, and after one that begins nothing (`MPI_MODE_NOSUCCEED`) nothing may be accessed. What an
access moves is moved with `deliver`, which is not a call of the party. -/
inductive Call (ρ ω : Type*)
  | create (window : ω)
  | free (window : ω)
  | fence (window : ω) (precede succeed : Bool)
  | lock (type : LockType) (window : ω) (target : ρ)
  | unlock (window : ω) (target : ρ)
  | access (window : ω) (target : ρ)
  | deliver
  deriving DecidableEq, Repr

namespace Call

/-- Calls that all parties make. -/
def IsCollective : Call ρ ω → Prop
  | create _ | free _ | fence _ _ _ => True
  | _ => False

/-- Calls that nobody returns from before all have made them. -/
def IsBarrier : Call ρ ω → Prop
  | create _ | free _ => True
  | fence _ precede _ => precede = true
  | _ => False

end Call

/-- Calls with numbers. -/
abbrev Numbered (ρ ω : Type*) : Type _ := Windows.Numbered (Call ρ ω)

/-- A window between two fences: whether it may be accessed, and whether it has been. -/
inductive Fenced
  | closed
  | opened
  | used
  deriving DecidableEq, Repr

/-- The windows that a party has created, and the lock that it holds. -/
structure Held (ρ ω : Type*) where
  windows : ω → Option Fenced
  locked : Option (LockType × ω × ρ)

namespace Held

/-- There is no window. -/
def nothing : Held ρ ω := ⟨fun _ ↦ none, none⟩

section

variable [DecidableEq ρ] [DecidableEq ω]

/-- A window is fenced in some way. -/
def set (e : Held ρ ω) (w : ω) (f : Option Fenced) : Held ρ ω :=
  { e with windows := Function.update e.windows w f }

/-- What a party has after a call; `none` if the call may not be made. -/
def next (e : Held ρ ω) : Call ρ ω → Option (Held ρ ω)
  | .create w =>
    if e.locked = none ∧ e.windows w = none then some (e.set w (some .closed)) else none
  | .free w =>
    if e.locked = none ∧ (e.windows w = some .closed ∨ e.windows w = some .opened) then
      some (e.set w none) else none
  | .fence w precede succeed =>
    if e.locked = none ∧ e.windows w ≠ none ∧ (precede = true ∨ e.windows w ≠ some .used) then
      some (e.set w (some (if succeed then .opened else .closed))) else none
  | .lock k w t =>
    if e.locked = none ∧ e.windows w = some .closed then some { e with locked := some (k, w, t) }
    else none
  | .unlock w t =>
    if e.locked = some (.shared, w, t) ∨ e.locked = some (.exclusive, w, t) then
      some { e with locked := none } else none
  | .access w t =>
    if e.locked = some (.shared, w, t) ∨ e.locked = some (.exclusive, w, t) then some e
    else if e.locked = none ∧ (e.windows w = some .opened ∨ e.windows w = some .used) then
      some (e.set w (some .used)) else none
  | .deliver => some e

/-- How a call leads from one situation to the next one. -/
inductive LeadsTo (e : Held ρ ω) : Call ρ ω → Held ρ ω → Prop
  | create {w : ω} (hfree : e.locked = none) (hw : e.windows w = none) :
    LeadsTo e (.create w) (e.set w (some .closed))
  | free {w : ω} (hfree : e.locked = none)
    (hw : e.windows w = some .closed ∨ e.windows w = some .opened) : LeadsTo e (.free w) (e.set w none)
  | fence {w : ω} {precede succeed : Bool} (hfree : e.locked = none)
    (hw : precede = true ∨ e.windows w ≠ some .used) :
    LeadsTo e (.fence w precede succeed) (e.set w (some (if succeed then .opened else .closed)))
  | lock {k : LockType} {w : ω} {t : ρ} (hfree : e.locked = none) :
    LeadsTo e (.lock k w t) { e with locked := some (k, w, t) }
  | unlock {k : LockType} {w : ω} {t : ρ} (hlock : e.locked = some (k, w, t)) :
    LeadsTo e (.unlock w t) { e with locked := none }
  | locked {k : LockType} {w : ω} {t : ρ} (hlock : e.locked = some (k, w, t)) :
    LeadsTo e (.access w t) e
  | fenced {w : ω} {t : ρ} (hfree : e.locked = none)
    (hw : e.windows w = some .opened ∨ e.windows w = some .used) :
    LeadsTo e (.access w t) (e.set w (some .used))
  | deliver : LeadsTo e .deliver e

theorem leadsTo_of_next {e e' : Held ρ ω} {c : Call ρ ω} (h : e.next c = some e') :
    e.LeadsTo c e' := by
  have hlocked : ∀ {w t}, e.locked = some (.shared, w, t) ∨ e.locked = some (.exclusive, w, t) →
      ∃ k, e.locked = some (k, w, t) := Or.rec (⟨_, ·⟩) (⟨_, ·⟩)
  cases c with
  | create w =>
    obtain ⟨hcond, heq⟩ := Option.ite_none_right_eq_some.mp h
    exact Option.some_inj.mp heq ▸ .create hcond.1 hcond.2
  | free w =>
    obtain ⟨hcond, heq⟩ := Option.ite_none_right_eq_some.mp h
    exact Option.some_inj.mp heq ▸ .free hcond.1 hcond.2
  | fence w precede succeed =>
    obtain ⟨hcond, heq⟩ := Option.ite_none_right_eq_some.mp h
    exact Option.some_inj.mp heq ▸ .fence hcond.1 hcond.2.2
  | lock k w t =>
    obtain ⟨hcond, heq⟩ := Option.ite_none_right_eq_some.mp h
    exact Option.some_inj.mp heq ▸ .lock hcond.1
  | unlock w t =>
    obtain ⟨hcond, heq⟩ := Option.ite_none_right_eq_some.mp h
    obtain ⟨k, hk⟩ := hlocked hcond
    exact Option.some_inj.mp heq ▸ .unlock hk
  | access w t =>
    rw [next] at h
    split_ifs at h with hlock hcond
    · obtain ⟨k, hk⟩ := hlocked hlock
      exact Option.some_inj.mp h ▸ .locked hk
    · exact Option.some_inj.mp h ▸ .fenced hcond.1 hcond.2
  | deliver => exact Option.some_inj.mp h ▸ .deliver

omit [DecidableEq ρ] in
theorem windows_set (e : Held ρ ω) (w w' : ω) (f : Option Fenced) :
    (e.set w f).windows w' = if w' = w then f else e.windows w' := Function.update_apply _ _ _ _

end

end Held

/-! ## What is waited for -/

section

variable [DecidableEq ρ] [DecidableEq ω]

/-- The programs of the parties and those of what is moved by accesses. -/
abbrev parties (T : Transfers ρ ω τ) (calls : ρ → List (Numbered ρ ω)) :
    ρ ⊕ τ → List (Numbered ρ ω) := Windows.parties T .access .deliver calls

section

variable (T : Transfers ρ ω τ) (s : State (ρ ⊕ τ) (Numbered ρ ω) σ)

/-- The lock that a party holds. -/
def lockOf (r : ρ) : Option (LockType × ω × ρ) :=
  (follow Held.next Held.nothing (s.done (.inl r))).bind Held.locked

/-- How a window of a party is fenced. -/
def fenceOf (r : ρ) (w : ω) : Option Fenced :=
  (follow Held.next Held.nothing (s.done (.inl r))).bind fun e ↦ e.windows w

/-- All that has been accessed before a call has been moved. -/
def Moved (n : ℕ) (x : τ) : Prop :=
  ∀ a ∈ s.done (.inl (T.origin x)), a.call = .access (T.window x) (T.target x) → a.level < n →
    ⟨a.level + 1, .deliver⟩ ∈ s.done (.inr x)

/-- What a call waits for. -/
def Waited (r : ρ) (c : Numbered ρ ω) : Prop :=
  match c.call with
  | .create _ | .free _ => ∀ q, s.Reached (.inl q) c
  | .fence w precede _ => precede = true → (∀ q, s.Reached (.inl q) c) ∧
    ∀ x, T.window x = w → T.origin x = r ∨ T.target x = r → Moved T s c.level x
  | .lock k w t => ∀ q ≠ r, ∀ k', lockOf s q = some (k', w, t) → k = .shared ∧ k' = .shared
  | .unlock w t => ∀ x, T.origin x = r → T.window x = w → T.target x = t → Moved T s c.level x
  | _ => True

/-- A call may be made and has nothing to wait for. Something is moved when it has been accessed,
and the party whose window it is has called the same fences before, unless the window is locked. -/
def Ready : ρ ⊕ τ → Numbered ρ ω → Prop
  | .inl r, c => (follow Held.next Held.nothing (s.done (.inl r) ++ [c])).isSome ∧ Waited T s r c
  | .inr x, c => ∃ a ∈ s.done (.inl (T.origin x)),
    a.call = .access (T.window x) (T.target x) ∧ c.level = a.level + 1 ∧
      ((∃ k, lockOf s (T.origin x) = some (k, T.window x, T.target x)) ∨
        ∀ f ∈ s.done (.inl (T.origin x)), f.level < a.level →
          (∃ b b', f.call = .fence (T.window x) b b') → f ∈ s.done (.inl (T.target x)))

end

variable {T : Transfers ρ ω τ} [DecidableEq τ] {exec : ρ ⊕ τ → Numbered ρ ω → σ → Option σ}
  {calls : ρ → List (Numbered ρ ω)} {vars : σ} {s : State (ρ ⊕ τ) (Numbered ρ ω) σ}

/-- No party makes a call that it may not make. -/
theorem exists_held
    (hrun : ReflTransGen (Step (Ready T) exec) (State.start (parties T calls) vars) s) (r : ρ) :
    ∃ e, follow Held.next Held.nothing (s.done (.inl r)) = some e :=
  follow_done (fun _ _ _ hready ↦ hready.1) hrun r

omit [DecidableEq τ] in
theorem lockOf_eq {r : ρ} {e : Held ρ ω}
    (h : follow Held.next Held.nothing (s.done (.inl r)) = some e) : lockOf s r = e.locked := by
  rw [lockOf, h, Option.bind_some]

omit [DecidableEq τ] in
theorem fenceOf_eq {r : ρ} {e : Held ρ ω}
    (h : follow Held.next Held.nothing (s.done (.inl r)) = some e) (w : ω) :
    fenceOf s r w = e.windows w := by
  rw [fenceOf, h, Option.bind_some]

omit [DecidableEq ω] in
/-- Calls of others do not change what a party has. -/
theorem done_execute_of_ne {i j : ρ ⊕ τ} (h : j ≠ i) (a : Numbered ρ ω)
    (rest : List (Numbered ρ ω)) (vars : σ) : (s.execute i a rest vars).done j = s.done j :=
  Function.update_of_ne h _ _

/-- What a party has after one more call. -/
theorem next_of_ready {r : ρ} {a : Numbered ρ ω} {e : Held ρ ω}
    (h : follow Held.next Held.nothing (s.done (.inl r)) = some e) (hready : Ready T s (.inl r) a)
    (rest : List (Numbered ρ ω)) (vars : σ) :
    ∃ e', e.next a.call = some e' ∧
      follow Held.next Held.nothing ((s.execute (.inl r) a rest vars).done (.inl r)) = some e' := by
  obtain ⟨e', he'⟩ := Option.isSome_iff_exists.mp hready.1
  refine ⟨e', ?_, ?_⟩
  · rwa [follow_concat, h, Option.bind_some] at he'
  · simpa only [State.execute, Function.update_self] using he'

/-! ## Locks -/

omit [DecidableEq τ] in
/-- A lock is held after the call that has taken it, until it is given back. -/
theorem Held.locked_next {e e' : Held ρ ω} {c : Call ρ ω} (h : e.next c = some e')
    {k : LockType} {w : ω} {t : ρ} (hlocked : e'.locked = some (k, w, t)) :
    e.locked = some (k, w, t) ∨ c = .lock k w t := by
  cases leadsTo_of_next h with
  | lock =>
    obtain ⟨rfl, rfl, rfl⟩ := by simpa using hlocked
    exact .inr rfl
  | unlock => cases hlocked
  | _ => exact .inl hlocked

omit [DecidableEq τ] in
theorem Held.exists_lock {l : List (Numbered ρ ω)} {e : Held ρ ω}
    (h : follow next nothing l = some e) {k : LockType} {w : ω} {t : ρ}
    (hlocked : e.locked = some (k, w, t)) : ∃ n, ⟨n, .lock k w t⟩ ∈ l := by
  induction l using List.reverseRecOn generalizing e with
  | nil =>
    obtain rfl := Option.some_inj.mp h
    cases hlocked
  | append_singleton l c ih =>
    rw [follow_append, Option.bind_eq_some_iff] at h
    obtain ⟨e', he', hnext⟩ := h
    rw [follow_singleton] at hnext
    rcases locked_next hnext hlocked with hbefore | hcall
    · obtain ⟨n, hn⟩ := ih he' hbefore
      exact ⟨n, List.mem_append_left _ hn⟩
    · refine ⟨c.level, List.mem_append_right _ (List.mem_singleton.mpr ?_)⟩
      rw [← hcall]

omit [DecidableEq τ] in
/-- How a window can be fenced after a call. -/
theorem Held.windows_next {e e' : Held ρ ω} {c : Call ρ ω} (h : e.next c = some e') {w : ω} :
    e'.windows w = e.windows w ∨ e'.windows w = some .closed ∨ e'.windows w = none ∨
      (∃ b b', c = .fence w b b') ∨
      e'.windows w = some .used ∧ (∃ t, c = .access w t) ∧
        (e.windows w = some .opened ∨ e.windows w = some .used) := by
  cases leadsTo_of_next h with
  | create =>
    rw [windows_set]
    split_ifs
    · exact .inr (.inl rfl)
    · exact .inl rfl
  | free =>
    rw [windows_set]
    split_ifs
    · exact .inr (.inr (.inl rfl))
    · exact .inl rfl
  | @fence w' =>
    by_cases hw : w = w'
    · subst hw
      exact .inr (.inr (.inr (.inl ⟨_, _, rfl⟩)))
    · rw [windows_set, if_neg hw]
      exact .inl rfl
  | @fenced w' t _ hwas =>
    by_cases hw : w = w'
    · subst hw
      rw [windows_set, if_pos rfl]
      exact .inr (.inr (.inr (.inr ⟨rfl, ⟨t, rfl⟩, hwas⟩)))
    · rw [windows_set, if_neg hw]
      exact .inl rfl
  | _ => exact .inl rfl

omit [DecidableEq τ] in
/-- What is accessed without a lock is accessed after a fence. -/
theorem Held.exists_fence {l : List (Numbered ρ ω)} {e : Held ρ ω}
    (h : follow next nothing l = some e) (hlevels : l.Pairwise fun a b ↦ a.level < b.level)
    {w : ω} :
    (e.windows w = some .opened → ∃ f ∈ l, ∃ b b', f.call = .fence w b b') ∧
      (e.windows w = some .used → ∃ f ∈ l, ∃ a ∈ l, (∃ b b', f.call = .fence w b b') ∧
        (∃ t, a.call = .access w t) ∧ f.level < a.level) := by
  induction l using List.reverseRecOn generalizing e with
  | nil =>
    obtain rfl := Option.some_inj.mp h
    exact ⟨nofun, nofun⟩
  | append_singleton l c ih =>
    rw [follow_append, Option.bind_eq_some_iff] at h
    obtain ⟨e', he', hnext⟩ := h
    rw [follow_singleton] at hnext
    obtain ⟨hsorted, -, hlast⟩ := List.pairwise_append.mp hlevels
    obtain ⟨hopened, hused⟩ := ih he' hsorted
    have hmem : ∀ {f}, f ∈ l → f ∈ l ++ [c] := fun hf ↦ List.mem_append_left _ hf
    have hc : c ∈ l ++ [c] := List.mem_append_right _ (List.mem_singleton_self c)
    have hopened' : e'.windows w = some .opened → ∃ f ∈ l ++ [c], ∃ b b',
        f.call = .fence w b b' := fun hw ↦
      let ⟨f, hf, hfence⟩ := hopened hw
      ⟨f, hmem hf, hfence⟩
    have hused' : e'.windows w = some .used → ∃ f ∈ l ++ [c], ∃ a ∈ l ++ [c],
        (∃ b b', f.call = .fence w b b') ∧ (∃ t, a.call = .access w t) ∧ f.level < a.level := by
      intro hw
      obtain ⟨f, hf, a, ha, hboth⟩ := hused hw
      exact ⟨f, hmem hf, a, hmem ha, hboth⟩
    rcases windows_next hnext with hsame | hclosed | hnone | hfence | ⟨hwindow, haccess, hcond⟩
    · rw [hsame]
      exact ⟨hopened', hused'⟩
    · rw [hclosed]
      exact ⟨nofun, nofun⟩
    · rw [hnone]
      exact ⟨nofun, nofun⟩
    · refine ⟨fun _ ↦ ⟨c, hc, hfence⟩, fun hw ↦ ?_⟩
      -- a fence leaves a window that has not been accessed yet
      obtain ⟨b, b', hcall⟩ := hfence
      rw [hcall, next, Option.ite_none_right_eq_some] at hnext
      obtain rfl := Option.some_inj.mp hnext.2
      cases b' <;> simp [set] at hw
    · rw [hwindow]
      refine ⟨nofun, fun _ ↦ ?_⟩
      rcases hcond with hwas | hwas
      · obtain ⟨f, hf, hfence⟩ := hopened hwas
        exact ⟨f, hmem hf, c, hc, hfence, haccess, hlast f hf c (List.mem_singleton_self c)⟩
      · exact hused' hwas

/-- **Exclusion**, whatever the programs are: two parties that hold locks of the same window of the
same party share it. -/
theorem exclusion
    (hrun : ReflTransGen (Step (Ready T) exec) (State.start (parties T calls) vars) s) {o q : ρ}
    (hne : o ≠ q) {w : ω} {t : ρ} {k k' : LockType} (ho : lockOf s o = some (k, w, t))
    (hq : lockOf s q = some (k', w, t)) : k = .shared ∧ k' = .shared := by
  induction hrun generalizing o q k k' with
  | refl => cases ho
  | @tail s s' hrun hstep ih =>
    obtain ⟨-, hready, -⟩ := hstep
    rename_i i a rest vars
    have hother : ∀ {r}, .inl r ≠ i → lockOf (s.execute i a rest vars) r = lockOf s r := by
      intro r hr
      rw [lockOf, lockOf, done_execute_of_ne hr]
    -- who has just taken a lock has waited for the others
    have htaken : ∀ {r r' k k'}, .inl r = i → r' ≠ r →
        lockOf (s.execute i a rest vars) r = some (k, w, t) → lockOf s r' = some (k', w, t) →
          k = .shared ∧ k' = .shared := by
      rintro r r' k k' rfl hr hlock hlock'
      obtain ⟨e, he⟩ := exists_held hrun r
      obtain ⟨e', hnext, he'⟩ := next_of_ready he hready rest vars
      rw [lockOf_eq he'] at hlock
      rcases Held.locked_next hnext hlock with hbefore | hcall
      · exact ih hr.symm ((lockOf_eq he).trans hbefore) hlock'
      · have hwaited := hready.2
        rw [Waited, hcall] at hwaited
        exact hwaited r' hr k' hlock'
    by_cases hio : .inl o = i
    · have hiq : .inl q ≠ i := fun h ↦ hne (Sum.inl.inj (hio.trans h.symm))
      rw [hother hiq] at hq
      exact htaken hio hne.symm ho hq
    · rw [hother hio] at ho
      by_cases hiq : .inl q = i
      · exact (htaken hiq hne hq ho).symm
      · rw [hother hiq] at hq
        exact ih hne ho hq

/-! ## What has not been moved yet -/

/-- A party holds a lock of a window, or accesses it between two fences. -/
def Held.Covers (e : Held ρ ω) (w : ω) (t : ρ) : Prop :=
  (∃ k, e.locked = some (k, w, t)) ∨ e.windows w = some .used

omit [DecidableEq τ] in
theorem Held.covers_access {e e' : Held ρ ω} {w : ω} {t : ρ}
    (h : e.next (.access w t) = some e') : e'.Covers w t := by
  cases leadsTo_of_next h with
  | locked hlock => exact .inl ⟨_, hlock⟩
  | fenced => exact .inr (Function.update_self _ _ _)

omit [DecidableEq τ] in
/-- It does so until it gives the lock back or calls a fence. -/
theorem Held.Covers.next {e e' : Held ρ ω} {w : ω} {t : ρ} (hcovers : e.Covers w t) {c : Call ρ ω}
    (h : e.next c = some e') (hunlock : c ≠ .unlock w t) (hfence : ∀ b, c ≠ .fence w true b) :
    e'.Covers w t := by
  have hused : e.locked = none → e.windows w = some .used := by
    intro hfree
    refine hcovers.resolve_left ?_
    rintro ⟨k, hk⟩
    rw [hk] at hfree
    cases hfree
  have hset : ∀ w' f, e.locked = none → w' ≠ w → (e.set w' f).Covers w t := fun w' f hfree hne ↦
    .inr ((Function.update_of_ne hne.symm _ _).trans (hused hfree))
  cases leadsTo_of_next h with
  | create hfree hw =>
    refine hset _ _ hfree ?_
    rintro rfl
    rw [hused hfree] at hw
    cases hw
  | free hfree hw =>
    refine hset _ _ hfree ?_
    rintro rfl
    rw [hused hfree] at hw
    rcases hw with hclosed | hopened
    · cases hclosed
    · cases hopened
  | fence hfree hw =>
    refine hset _ _ hfree ?_
    rintro rfl
    rcases hw with rfl | hnot
    · exact hfence _ rfl
    · exact hnot (hused hfree)
  | lock hfree => exact .inr (hused hfree)
  | unlock hlock =>
    rcases hcovers with ⟨k, hk⟩ | hwindow
    · cases hk.symm.trans hlock
      exact absurd rfl hunlock
    · exact .inr hwindow
  | @fenced w' _ hfree =>
    by_cases hw : w' = w
    · subst hw
      exact .inr (Function.update_self _ _ _)
    · exact hset _ _ hfree hw
  | _ => exact hcovers

/-- **What has not been moved** has been accessed under a lock that is still held, or between two
fences the second of which is still to come. -/
theorem covers_of_pending
    (hrun : ReflTransGen (Step (Ready T) exec) (State.start (parties T calls) vars) s)
    (hlevels : ∀ r, (calls r).Pairwise fun a b ↦ a.level < b.level) {x : τ} {a : Numbered ρ ω}
    (ha : a ∈ s.done (.inl (T.origin x))) (hcall : a.call = .access (T.window x) (T.target x))
    (hpending : ⟨a.level + 1, .deliver⟩ ∉ s.done (.inr x)) :
    ∃ e, follow Held.next Held.nothing (s.done (.inl (T.origin x))) = some e ∧
      e.Covers (T.window x) (T.target x) := by
  induction hrun with
  | refl => exact absurd ha List.not_mem_nil
  | @tail s s' hrun hstep ih =>
    obtain ⟨htodo, hready, -⟩ := hstep
    rename_i i b rest vars'
    have hpending' : ⟨a.level + 1, .deliver⟩ ∉ s.done (.inr x) := fun hmem ↦
      hpending (mem_done_execute.mpr (.inl hmem))
    by_cases hi : .inl (T.origin x) = i
    · subst hi
      obtain ⟨e, he⟩ := exists_held hrun (T.origin x)
      obtain ⟨e', hnext, he'⟩ := next_of_ready he hready rest vars'
      refine ⟨e', he', ?_⟩
      rcases mem_done_execute.mp ha with hdone | ⟨-, rfl⟩
      · obtain ⟨e₀, he₀, hcovers⟩ := ih hdone hpending'
        obtain rfl := Option.some_inj.mp (he.symm.trans he₀)
        -- the calls that end an access wait for it
        have hs : Genuine (parties T calls) s := (genuine_start vars).run hrun
        have hprog := hs.split htodo
        have hlt : a.level < b.level := by
          have hsorted := hlevels (T.origin x)
          rw [show calls (T.origin x) = _ from hprog] at hsorted
          exact (List.pairwise_append.mp hsorted).2.2 a hdone b List.mem_cons_self
        have hwaited := hready.2
        refine hcovers.next hnext (fun hunlock ↦ hpending' ?_) fun k hfence ↦ hpending' ?_
        · rw [Waited, hunlock] at hwaited
          exact hwaited x rfl rfl rfl a hdone hcall hlt
        · rw [Waited, hfence] at hwaited
          exact (hwaited rfl).2 x rfl (.inl rfl) a hdone hcall hlt
      · exact Held.covers_access (hcall ▸ hnext)
    · rw [done_execute_of_ne hi] at ha ⊢
      exact ih ha hpending'

end

/-! ## Programs -/

section

variable [DecidableEq ρ] [DecidableEq ω]

/-- What is assumed of the programs: numbers are apart, all parties make the same collective calls,
no call is one that may not be made, and all locks are given back. -/
structure Regular (calls : ρ → List (Numbered ρ ω)) : Prop where
  apart : ∀ r, (calls r).Pairwise fun a b ↦ a.level + 2 ≤ b.level
  collective : ∀ r q, ∀ c ∈ calls r, c.call.IsCollective → c ∈ calls q
  allowed : ∀ r, ∃ e, follow Held.next Held.nothing (calls r) = some e ∧ e.locked = none

variable {T : Transfers ρ ω τ} {calls : ρ → List (Numbered ρ ω)}
  {s : State (ρ ⊕ τ) (Numbered ρ ω) σ} {r q : ρ} {a b : Numbered ρ ω} {x : τ}

namespace Regular

theorem lt (h : Regular calls) (r : ρ) : (calls r).Pairwise fun a b ↦ a.level < b.level :=
  (h.apart r).imp fun {a b} hab ↦ by omega

theorem ordered (h : Regular calls) (T : Transfers ρ ω τ) :
    Ordered (fun _ (c : Numbered ρ ω) ↦ c.level) (parties T calls) := ordered_parties h.lt

/-- Two calls of a party do not come close. -/
theorem eq_of_near (h : Regular calls) (ha : a ∈ calls r) (hb : b ∈ calls r)
    (hlow : a.level < b.level + 2) (hhigh : b.level < a.level + 2) : a = b := by
  by_contra hne
  have hpairwise : (calls r).Pairwise fun a b ↦ a.level + 2 ≤ b.level ∨ b.level + 2 ≤ a.level :=
    (h.apart r).imp .inl
  have : Std.Symm fun a b : Numbered ρ ω ↦ a.level + 2 ≤ b.level ∨ b.level + 2 ≤ a.level :=
    ⟨fun _ _ ↦ Or.symm⟩
  rcases hpairwise.forall ha hb hne with hle | hle <;> omega

variable (h : Regular calls) (hs : Genuine (parties T calls) s)

include h hs

/-- The next call may be made. -/
theorem isSome_next {rest : List (Numbered ρ ω)} (htodo : s.todo (.inl r) = a :: rest) :
    (follow Held.next Held.nothing (s.done (.inl r) ++ [a])).isSome := by
  obtain ⟨e, he, -⟩ := h.allowed r
  exact isSome_follow hs he htodo

/-- Who holds a lock can go on, or what it has accessed under it can be moved. -/
theorem exists_ready_of_lock {e : Held ρ ω}
    (he : follow Held.next Held.nothing (s.done (.inl r)) = some e) {k : LockType} {w : ω} {t : ρ}
    (hlock : e.locked = some (k, w, t)) :
    ∃ j b rest, s.todo j = b :: rest ∧ Ready T s j b := by
  have hprog : s.done (.inl r) ++ s.todo (.inl r) = calls r := hs (.inl r)
  obtain ⟨eEnd, hend, hnone⟩ := h.allowed r
  cases htodo : s.todo (.inl r) with
  | nil =>
    -- all locks have been given back in the end
    rw [htodo, List.append_nil] at hprog
    rw [hprog, hend] at he
    obtain rfl := Option.some_inj.mp he
    rw [hlock] at hnone
    cases hnone
  | cons b rest =>
    have hfollow := h.isSome_next hs htodo
    by_cases hwaited : Waited T s r b
    · exact ⟨_, b, rest, htodo, hfollow, hwaited⟩
    -- only giving the lock back may have to wait, for something that can be moved
    obtain ⟨e', he'⟩ := Option.isSome_iff_exists.mp hfollow
    have hnext := he'
    rw [follow_concat, he, Option.bind_some] at hnext
    obtain ⟨hcall, hmoved⟩ : b.call = .unlock w t ∧
        ¬∀ x, T.origin x = r → T.window x = w → T.target x = t → Moved T s b.level x := by
      generalize hcall : b.call = c at hnext
      rw [Waited, hcall] at hwaited
      cases Held.leadsTo_of_next hnext with
      | unlock hlock' =>
        cases hlock.symm.trans hlock'
        exact ⟨rfl, hwaited⟩
      | locked | deliver => exact absurd trivial hwaited
      | create hfree | free hfree | fence hfree | lock hfree | fenced hfree =>
        cases hlock.symm.trans hfree
    simp only [Moved, not_forall] at hmoved
    obtain ⟨x, rfl, rfl, rfl, a, ha, haccess, hlt, hnot⟩ := hmoved
    have hmem : (⟨a.level + 1, .deliver⟩ : Numbered ρ ω) ∈ s.todo (.inr x) := by
      have hin : ⟨a.level + 1, .deliver⟩ ∈ parties T calls (.inr x) :=
        mem_parties (hs.mem_of_done ha) haccess
      rw [← hs (.inr x)] at hin
      exact (List.mem_append.mp hin).resolve_left hnot
    obtain ⟨d, rest', hd⟩ := List.exists_cons_of_ne_nil (List.ne_nil_of_mem hmem)
    obtain ⟨c, hc, hcaccess, rfl⟩ := exists_access_of_mem (hs.mem_of_next hd)
    refine ⟨.inr x, _, rest', hd, c, ?_, hcaccess, rfl, .inl ⟨k, ?_⟩⟩
    · -- the first transfer that is left is not after the one of `a`
      have hle : c.level ≤ a.level := by
        rw [hd] at hmem
        rcases List.mem_cons.mp hmem with heq | hrest
        · exact (Nat.succ_injective (congrArg Numbered.level heq)).ge
        · have hsorted := (h.ordered T) (.inr x)
          rw [hs.split hd] at hsorted
          have hlt := (List.pairwise_cons.mp (List.pairwise_append.mp hsorted).2.1).1 _ hrest
          exact (Nat.succ_lt_succ_iff.mp hlt).le
      rcases hle.lt_or_eq with hlow | heq
      · exact (h.ordered T).mem_done_of_done hs ha hc hlow
      · rwa [h.eq_of_near hc (hs.mem_of_done ha) (by omega) (by omega)]
    · rw [lockOf, he, Option.bind_some, hlock]

end Regular

variable [DecidableEq τ] {exec : ρ ⊕ τ → Numbered ρ ω → σ → Option σ} {vars : σ}

namespace Regular

/-- **Nobody waits forever.** As long as somebody has something left to do, somebody has nothing to
wait for. -/
theorem exists_ready (h : Regular calls)
    (hrun : ReflTransGen (Step (Ready T) exec) (State.start (parties T calls) vars) s) {i : ρ ⊕ τ}
    (hi : s.todo i ≠ []) : ∃ j a rest, s.todo j = a :: rest ∧ Ready T s j a := by
  have hs : Genuine (parties T calls) s := (genuine_start vars).run hrun
  obtain ⟨j, a, rest, htodo, hlow⟩ := (h.ordered T).exists_lowest hs hi
  have hmem := hs.mem_of_next htodo
  cases j with
  | inr x =>
    obtain ⟨c, hc, hcall, rfl⟩ := exists_access_of_mem hmem
    refine ⟨.inr x, _, rest, htodo, c, hlow (.inl (T.origin x)) c hc (Nat.lt_succ_self _), hcall,
      rfl, .inr fun f hf hlt hfence ↦ ?_⟩
    obtain ⟨k, k', hfence⟩ := hfence
    exact hlow (.inl (T.target x)) f
      (h.collective _ _ f (hs.mem_of_done hf) (by rw [hfence]; trivial)) (by simp only; omega)
  | inl r =>
    by_cases hwaited : Waited T s r a
    · exact ⟨.inl r, a, rest, htodo, h.isSome_next hs htodo, hwaited⟩
    have hreached : a.call.IsCollective → ∀ q, s.Reached (.inl q) a := fun hcollective q ↦
      (h.ordered T).reached hs (h.collective r q a hmem hcollective) fun b hb hlt ↦
        hlow (.inl q) b hb hlt
    have hmoved : ∀ x, a ∈ calls (T.origin x) → Moved T s a.level x := by
      intro x hx c hc hcall hlt
      have hnear : ¬a.level < c.level + 2 := fun hnear ↦ by
        rw [h.eq_of_near (hs.mem_of_done hc) hx (by omega) hnear] at hlt
        exact lt_irrefl _ hlt
      exact hlow (.inr x) _ (mem_parties (hs.mem_of_done hc) hcall) (by simp only; omega)
    cases hcall : a.call with
    | lock k w t =>
      -- somebody else holds the lock
      simp only [Waited, hcall, not_forall] at hwaited
      obtain ⟨q, -, k', hlock, -⟩ := hwaited
      obtain ⟨e, he⟩ := exists_held hrun q
      exact h.exists_ready_of_lock hs he ((lockOf_eq he).symm.trans hlock)
    | _ =>
      refine absurd ?_ hwaited
      rw [Waited, hcall]
      first
      | trivial
      | exact hreached (by rw [hcall]; trivial)
      | exact fun _ ↦ ⟨hreached (by rw [hcall]; trivial), fun x _ _ ↦
          hmoved x (h.collective r _ a hmem (by rw [hcall]; trivial))⟩
      | exact fun x hx _ _ ↦ hmoved x (hx ▸ hmem)

/-- What is moved belongs to a party that holds a lock of the window, or is between two fences. -/
theorem covers_of_deliver (h : Regular calls)
    (hrun : ReflTransGen (Step (Ready T) exec) (State.start (parties T calls) vars) s)
    {rest : List (Numbered ρ ω)} (htodo : s.todo (.inr x) = a :: rest)
    (hready : Ready T s (.inr x) a) :
    ∃ e, follow Held.next Held.nothing (s.done (.inl (T.origin x))) = some e ∧
      e.Covers (T.window x) (T.target x) := by
  have hs : Genuine (parties T calls) s := (genuine_start vars).run hrun
  obtain ⟨c, hc, hcall, hlevel, -⟩ := hready
  refine covers_of_pending hrun h.lt hc hcall fun hmem ↦ ?_
  have hlt := (h.ordered T).lt_of_mem_done hs htodo hmem
  simp only at hlt
  omega

end Regular

/-! ## Putting programs together -/

/-- The numbers of some calls are apart and between two bounds. -/
structure Within (lo hi : ℕ) (l : List (Numbered ρ ω)) : Prop where
  apart : l.Pairwise fun a b ↦ a.level + 2 ≤ b.level
  bounds : ∀ c ∈ l, lo ≤ c.level ∧ c.level + 2 ≤ hi

namespace Within

variable {lo mid hi : ℕ} {l l' : List (Numbered ρ ω)}

omit [DecidableEq ρ] [DecidableEq ω] in
theorem nil (lo hi : ℕ) : Within lo hi ([] : List (Numbered ρ ω)) := ⟨.nil, by simp⟩

omit [DecidableEq ρ] [DecidableEq ω] in
theorem append (h : Within lo mid l) (h' : Within mid hi l') (hlo : lo ≤ mid) (hhi : mid ≤ hi) :
    Within lo hi (l ++ l') := by
  refine ⟨List.pairwise_append.mpr ⟨h.apart, h'.apart, fun a ha b hb ↦ ?_⟩, fun c hc ↦ ?_⟩
  · exact (h.bounds a ha).2.trans (h'.bounds b hb).1
  · rcases List.mem_append.mp hc with hc | hc
    · have hbounds := h.bounds c hc
      omega
    · have hbounds := h'.bounds c hc
      omega

omit [DecidableEq ρ] [DecidableEq ω] in
/-- The rounds of a loop. -/
theorem loop {p width : ℕ} {body : Fin p → List (Numbered ρ ω)}
    (h : ∀ i : Fin p, Within (lo + width * i) (lo + width * (i + 1)) (body i)) :
    Within lo (lo + width * p) ((List.finRange p).flatMap body) := by
  have hround : ∀ {i j : ℕ}, i < j → width * (i + 1) ≤ width * j := fun hlt ↦
    Nat.mul_le_mul_left _ hlt
  refine ⟨List.pairwise_flatMap.mpr ⟨fun i _ ↦ (h i).apart,
    (List.pairwise_lt_finRange p).imp fun {i j} hlt a ha b hb ↦ ?_⟩, fun c hc ↦ ?_⟩
  · have hhigh := ((h i).bounds a ha).2
    have hlow := ((h j).bounds b hb).1
    have hle := hround (Fin.lt_def.mp hlt)
    omega
  · obtain ⟨i, -, hc⟩ := List.mem_flatMap.mp hc
    have hbounds := (h i).bounds c hc
    have hle := hround i.isLt
    omega

end Within

/-- The collective calls of a party are among those of another one. -/
def Agrees (l l' : List (Numbered ρ ω)) : Prop := ∀ c ∈ l, c.call.IsCollective → c ∈ l'

namespace Agrees

variable {l l' m m' : List (Numbered ρ ω)}

omit [DecidableEq ρ] [DecidableEq ω] in
theorem refl (l : List (Numbered ρ ω)) : Agrees l l := fun _ hc _ ↦ hc

omit [DecidableEq ρ] [DecidableEq ω] in
theorem append (h : Agrees l l') (h' : Agrees m m') : Agrees (l ++ m) (l' ++ m') := by
  intro c hc hcollective
  rcases List.mem_append.mp hc with hc | hc
  · exact List.mem_append_left _ (h c hc hcollective)
  · exact List.mem_append_right _ (h' c hc hcollective)

omit [DecidableEq ρ] [DecidableEq ω] in
theorem loop {ι : Type*} {body body' : ι → List (Numbered ρ ω)} (is : List ι)
    (h : ∀ i ∈ is, Agrees (body i) (body' i)) : Agrees (is.flatMap body) (is.flatMap body') := by
  intro c hc hcollective
  obtain ⟨i, hi, hc⟩ := List.mem_flatMap.mp hc
  exact List.mem_flatMap.mpr ⟨i, hi, h i hi c hc hcollective⟩

end Agrees

/-- Some calls may be made in all situations of one kind and lead to one of another kind. -/
def Leads (A : Held ρ ω → Prop) (l : List (Numbered ρ ω)) (B : Held ρ ω → Prop) : Prop :=
  ∀ e, A e → ∃ e', follow Held.next e l = some e' ∧ B e'

namespace Leads

variable {A B C : Held ρ ω → Prop} {l l' : List (Numbered ρ ω)}

theorem nil : Leads A [] A := fun e he ↦ ⟨e, rfl, he⟩

theorem append (h : Leads A l B) (h' : Leads B l' C) : Leads A (l ++ l') C := by
  intro e he
  obtain ⟨e', hfollow, he'⟩ := h e he
  obtain ⟨e'', hfollow', he''⟩ := h' e' he'
  exact ⟨e'', by rw [follow_append, hfollow, Option.bind_some, hfollow'], he''⟩

/-- A loop that keeps an assertion. -/
theorem loop {ι : Type*} {body : ι → List (Numbered ρ ω)} (is : List ι)
    (h : ∀ i ∈ is, Leads A (body i) A) : Leads A (is.flatMap body) A := by
  induction is with
  | nil => exact .nil
  | cons i is ih =>
    rw [List.flatMap_cons]
    exact (h i List.mem_cons_self).append (ih fun j hj ↦ h j (List.mem_cons_of_mem _ hj))

/-- A whole program. -/
theorem allowed (h : Leads (· = Held.nothing) l B) (hB : ∀ e, B e → e.locked = none) :
    ∃ e, follow Held.next Held.nothing l = some e ∧ e.locked = none :=
  let ⟨e, he, hend⟩ := h Held.nothing rfl
  ⟨e, he, hB e hend⟩

end Leads

end

end Locks

end Runs

end MpiTestSuite

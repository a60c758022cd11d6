import MpiTestSuite.Coding.CInt
import MpiTestSuite.Runs.Outline
import MpiTestSuite.Selection.SlotArray

/-!
# Signals between threads

A thread waits in `tst_thread_signal_wait` until another one has called `tst_thread_signal_send`
with the same tag. Each tag has a mutex, a condition variable and a state, which stays at `GOON`
once the signal has been sent. One counter, `tst_thread_signals_count`, says how many threads wait.

The counter belongs to all tags and is changed under the mutex of one, so that changing it is a read
and a write with the steps of other threads in between. A thread in `pthread_cond_wait` has given
its mutex back and sleeps until it is woken; `pthread_cond_signal` wakes at least one of the
sleepers, not all of them. A sleeper may also wake up by itself.

## What goes wrong

A signal sent to two sleepers may wake only one. The state remains at `GOON`, but the other sleeper
does not look at it before something else wakes it up. And two threads with different tags can read
the same value of the counter and both write its successor. Where neither happens (`Calm`) the
interface does what it says.
-/

open MpiTestSuite.Runs

namespace MpiTestSuite

namespace Threads

namespace Signals

variable {n : ℕ}

/-! ## Threads -/

/-- `tst_thread_signal_state`. -/
inductive SignalState
  | wait
  | goon
  deriving DecidableEq, Repr

/-- What the threads share: the variables of the interface, and who holds which mutex. -/
structure Shared (n : ℕ) where
  /-- `tst_thread_signals_max`. -/
  max : ℤ
  mutex : ℤ → Option (Fin n)
  /-- `tst_thread_signal_states_array`. -/
  states : ℤ → SignalState
  /-- `tst_thread_signals_count`. -/
  count : ℤ

namespace Shared

def lock (sh : Shared n) (tag : ℤ) (t : Fin n) : Shared n :=
  { sh with mutex := Function.update sh.mutex tag (some t) }

def unlock (sh : Shared n) (tag : ℤ) : Shared n :=
  { sh with mutex := Function.update sh.mutex tag none }

end Shared

/-- Where a thread is, and the tag it was called with. -/
inductive Place
  /-- In neither of the two functions. -/
  | idle
  /-- It is about to lock the mutex in `tst_thread_signal_wait`. -/
  | waitLock (tag : ℤ)
  /-- It is about to read the counter, to add one when it enters or to subtract one. -/
  | countRead (tag : ℤ) (entering : Bool)
  /-- It is about to write the counter, which it has read. -/
  | countWrite (tag : ℤ) (entering : Bool) (count : ℤ)
  /-- It is about to look at the state of the signal. -/
  | check (tag : ℤ)
  /-- It sleeps in `pthread_cond_wait`. -/
  | blocked (tag : ℤ)
  /-- It has been woken and needs the mutex again. -/
  | woken (tag : ℤ)
  | waitUnlock (tag : ℤ)
  /-- It is about to lock the mutex in `tst_thread_signal_send`. -/
  | sendLock (tag : ℤ)
  | sendState (tag : ℤ)
  | sendSignal (tag : ℤ)
  | sendUnlock (tag : ℤ)
  /-- It has called `ERROR`. -/
  | failed
  deriving DecidableEq, Repr

/-- What a thread does on its own. -/
inductive Move
  | wait (tag : ℤ)
  | send (tag : ℤ)
  | next
  /-- Wake up without a signal. -/
  | wakeup
  deriving DecidableEq, Repr

/-- The check of a tag, in front of both functions. -/
def checkTag (max tag : ℤ) (p : Place) : Place := if tag < 0 ∨ max ≤ tag then .failed else p

namespace Place

/-- Go to another place with the mutex, if nobody holds it. -/
def withLock (p : Place) (t : Fin n) (sh : Shared n) (tag : ℤ) : Option (Place × Shared n) :=
  if sh.mutex tag = none then some (p, sh.lock tag t) else none

/-- The next step in `tst_thread_signal_wait` or `tst_thread_signal_send`, where it does not involve
other threads. -/
def next (t : Fin n) (sh : Shared n) : Place → Option (Place × Shared n)
  | waitLock tag => (countRead tag true).withLock t sh tag
  | countRead tag entering => some (countWrite tag entering sh.count, sh)
  | countWrite tag true count => some (check tag, { sh with count := count + 1 })
  | check tag =>
    if sh.states tag = .wait then some (blocked tag, sh.unlock tag)
    else some (countRead tag false, sh)
  | woken tag => (check tag).withLock t sh tag
  | countWrite tag false count => some (waitUnlock tag, { sh with count := count - 1 })
  | waitUnlock tag => some (idle, sh.unlock tag)
  | sendLock tag => (sendState tag).withLock t sh tag
  | sendState tag =>
    some (sendSignal tag, { sh with states := Function.update sh.states tag .goon })
  | sendUnlock tag => some (idle, sh.unlock tag)
  | idle | blocked _ | sendSignal _ | failed => none

/-- The step of a thread. -/
def move (t : Fin n) (sh : Shared n) : Move → Place → Option (Place × Shared n)
  | .wait tag, idle => some (checkTag sh.max tag (waitLock tag), sh)
  | .send tag, idle => some (checkTag sh.max tag (sendLock tag), sh)
  | .next, p => p.next t sh
  | .wakeup, blocked tag => some (woken tag, sh)
  | _, _ => none

/-- The mutex that a thread holds. -/
def held : Place → Option ℤ
  | countRead tag _ | countWrite tag _ _ | check tag | waitUnlock tag => some tag
  | sendState tag | sendSignal tag | sendUnlock tag => some tag
  | _ => none

/-- It has been counted among those that wait. -/
def inside : Place → Bool
  | check _ | blocked _ | woken _ | countRead _ false | countWrite _ false _ => true
  | _ => false

/-- It is about to read the counter. -/
def reads : Place → Bool
  | countRead _ _ => true
  | _ => false

/-- It is about to signal. -/
def signals : Place → Option ℤ
  | sendSignal tag => some tag
  | _ => none

/-- The value of the counter that it has read and is about to change. -/
def counting : Place → Option ℤ
  | countWrite _ _ count => some count
  | _ => none

/-- It has left the loop of `tst_thread_signal_wait`. -/
def left : Place → Option ℤ
  | countRead tag false | countWrite tag false _ | waitUnlock tag => some tag
  | _ => none

/-- It has set the state of the signal, and has the mutex still. -/
def announced : Place → Option ℤ
  | sendSignal tag | sendUnlock tag => some tag
  | _ => none

/-- It is in `tst_thread_signal_send` and has yet to signal. -/
def sending : Place → Option ℤ
  | sendLock tag | sendState tag | sendSignal tag => some tag
  | _ => none

end Place

/-- A call has returned. -/
inductive Event
  | waited (tag : ℤ)
  | sent (tag : ℤ)
  deriving DecidableEq, Repr

/-- The call that returns with the next step. -/
def Place.event : Place → Option Event
  | waitUnlock tag => some (.waited tag)
  | sendUnlock tag => some (.sent tag)
  | _ => none

/-! ## The system -/

/-- The state of all threads. -/
structure State (n : ℕ) where
  shared : Shared n
  place : Fin n → Place

/-- A step of the system. -/
inductive Action (n : ℕ)
  | move (t : Fin n) (m : Move)
  /-- `pthread_cond_signal`, which wakes some of the sleepers. -/
  | signal (t : Fin n) (woken : Finset (Fin n))

namespace State

variable (s : State n)

/-- The threads that sleep on a condition variable. -/
def sleepers (tag : ℤ) : Finset (Fin n) := Finset.univ.filter fun t ↦ s.place t = .blocked tag

/-- `pthread_cond_signal` of thread `t`. -/
def signal (t : Fin n) (woken : Finset (Fin n)) : Option (State n) :=
  match s.place t with
  | .sendSignal tag =>
    if woken ⊆ s.sleepers tag ∧ (s.sleepers tag ≠ ∅ → woken ≠ ∅) then
      some ⟨s.shared, fun u ↦ if u = t then .sendUnlock tag
        else if u ∈ woken then .woken tag else s.place u⟩
    else none
  | _ => none

/-- A step, if it is possible. -/
def step : Action n → Option (State n)
  | .move t m => ((s.place t).move t s.shared m).map fun (p, sh) ↦
      ⟨sh, Function.update s.place t p⟩
  | .signal t woken => s.signal t woken

/-- The call that returns in a step. -/
def event : Action n → Option Event
  | .move t _ => (s.place t).event
  | .signal _ _ => none

/-- The number of threads inside of `tst_thread_signal_wait`. -/
def numInside : ℕ := (Finset.univ.filter fun t ↦ (s.place t).inside = true).card

end State

/-- All threads are outside, and no signal has been sent. -/
def State.start (num : ℤ) : State n := ⟨⟨num, fun _ ↦ none, fun _ ↦ .wait, 0⟩, fun _ ↦ .idle⟩

/-- `tst_thread_signal_init`, before any thread is in one of the functions. -/
def tstThreadSignalInit (num : ℤ) : Except Stop (State n) :=
  match mallocInt num with
  | none => .error (.error "malloc")
  | some _ => .ok (.start num)

/-- `tst_thread_signal_cleanup`. -/
def tstThreadSignalCleanup (s : State n) : Except Stop (State n) :=
  if s.shared.count ≠ 0 then .error (.error "tst_thread_signals already in use")
  else .ok { s with shared := { s.shared with max := 0 } }

/-- A run whose steps are all allowed, with the calls that have returned in it. -/
inductive Run (Allowed : State n → Action n → Prop) (s₀ : State n) : List Event → State n → Prop
  | nil : Run Allowed s₀ [] s₀
  | snoc {es : List Event} {s s' : State n} {a : Action n} (hrun : Run Allowed s₀ es s)
      (hallowed : Allowed s a) (hstep : s.step a = some s') :
      Run Allowed s₀ (es ++ (s.event a).toList) s'

/-- Take some steps one after another, where they are possible and allowed. -/
def execute (Allowed : State n → Action n → Prop) [∀ s a, Decidable (Allowed s a)] (s : State n) :
    List (Action n) → Option (List Event × State n)
  | [] => some ([], s)
  | a :: as =>
    if Allowed s a then
      (s.step a).bind fun s' ↦ (execute Allowed s' as).map fun r ↦ ((s.event a).toList ++ r.1, r.2)
    else none

theorem Run.execute {Allowed : State n → Action n → Prop} [∀ s a, Decidable (Allowed s a)]
    {s₀ s : State n} {es : List Event} (hrun : Run Allowed s₀ es s) {as : List (Action n)}
    {r : List Event × State n} (h : execute Allowed s as = some r) :
    Run Allowed s₀ (es ++ r.1) r.2 := by
  induction as generalizing s es r with
  | nil =>
    cases h
    rw [List.append_nil]
    exact hrun
  | cons a as ih =>
    rw [Signals.execute] at h
    split_ifs at h with hallowed
    obtain ⟨s', hstep, hrest⟩ := Option.bind_eq_some_iff.mp h
    obtain ⟨r', hr', rfl⟩ := Option.map_eq_some_iff.mp hrest
    have hlast := ih (hrun.snoc hallowed hstep) hr'
    rwa [List.append_assoc] at hlast

/-- There is a run with what these steps lead to. -/
theorem exists_run_of_execute {Allowed : State n → Action n → Prop}
    [∀ s a, Decidable (Allowed s a)] {s₀ : State n} {as : List (Action n)}
    {P : List Event × State n → Bool} (h : (Signals.execute Allowed s₀ as).any P = true) :
    ∃ es s, Run Allowed s₀ es s ∧ P (es, s) = true := by
  obtain ⟨r, hr, hP⟩ := (Option.any_eq_true P _).mp h
  exact ⟨r.1, r.2, Run.nil.execute hr, hP⟩

/-! ## What the interface promises -/

/-- A signal has been sent, and a thread sleeps that nobody is about to wake. -/
def LostWakeup (es : List Event) (s : State n) (tag : ℤ) (t : Fin n) : Prop :=
  .sent tag ∈ es ∧ s.place t = .blocked tag ∧ ∀ u, (s.place u).sending ≠ some tag

/-- The interface works, up to a state of a run. -/
structure SignalsWork (es : List Event) (s : State n) : Prop where
  not_lost : ∀ tag t, ¬LostWakeup es s tag t
  preceded : ∀ pre tag post, es = pre ++ .waited tag :: post → .sent tag ∈ pre
  count_eq : s.shared.count = s.numInside
  cleanup_iff : tstThreadSignalCleanup s = .error (.error "tst_thread_signals already in use") ↔
    ∃ t, (s.place t).inside = true

/-- A signal is sent to at most one sleeper, and a thread reads the counter while nobody else is
about to write it. -/
def Calm (s : State n) : Action n → Prop
  | .signal t _ => ∀ tag ∈ (s.place t).signals, (s.sleepers tag).card ≤ 1
  | .move t _ => (s.place t).reads = true → ∀ u, (s.place u).counting = none

instance (s : State n) (a : Action n) : Decidable (Calm s a) := by
  cases a <;> unfold Calm <;> infer_instance

/-! ## What a thread can do -/

/-- The steps of a thread, case by case. -/
inductive Moves (t : Fin n) (sh : Shared n) : Place → Place → Shared n → Prop
  | wait (tag : ℤ) : Moves t sh .idle (.waitLock tag) sh
  | send (tag : ℤ) : Moves t sh .idle (.sendLock tag) sh
  | reject : Moves t sh .idle .failed sh
  | wakeup (tag : ℤ) : Moves t sh (.blocked tag) (.woken tag) sh
  | enter (tag : ℤ) (h : sh.mutex tag = none) :
      Moves t sh (.waitLock tag) (.countRead tag true) (sh.lock tag t)
  | read (tag : ℤ) (entering : Bool) :
      Moves t sh (.countRead tag entering) (.countWrite tag entering sh.count) sh
  | add (tag c : ℤ) :
      Moves t sh (.countWrite tag true c) (.check tag) { sh with count := c + 1 }
  | sleep (tag : ℤ) (h : sh.states tag = .wait) :
      Moves t sh (.check tag) (.blocked tag) (sh.unlock tag)
  | pass (tag : ℤ) (h : sh.states tag = .goon) :
      Moves t sh (.check tag) (.countRead tag false) sh
  | again (tag : ℤ) (h : sh.mutex tag = none) :
      Moves t sh (.woken tag) (.check tag) (sh.lock tag t)
  | sub (tag c : ℤ) :
      Moves t sh (.countWrite tag false c) (.waitUnlock tag) { sh with count := c - 1 }
  | waited (tag : ℤ) : Moves t sh (.waitUnlock tag) .idle (sh.unlock tag)
  | sendLock (tag : ℤ) (h : sh.mutex tag = none) :
      Moves t sh (.sendLock tag) (.sendState tag) (sh.lock tag t)
  | sendState (tag : ℤ) : Moves t sh (.sendState tag) (.sendSignal tag)
      { sh with states := Function.update sh.states tag .goon }
  | sent (tag : ℤ) : Moves t sh (.sendUnlock tag) .idle (sh.unlock tag)

theorem Place.withLock_eq_some {p p' : Place} {t : Fin n} {sh sh' : Shared n} {tag : ℤ}
    (h : p.withLock t sh tag = some (p', sh')) :
    sh.mutex tag = none ∧ p' = p ∧ sh' = sh.lock tag t := by
  rw [withLock] at h
  split_ifs at h with hfree
  cases h
  exact ⟨hfree, rfl, rfl⟩

/-- A step of a thread is one of these. -/
theorem moves_of_move {t : Fin n} {sh sh' : Shared n} {m : Move} {p p' : Place}
    (h : p.move t sh m = some (p', sh')) : Moves t sh p p' sh' := by
  have hcall : ∀ {max tag : ℤ} {q : Place}, Moves t sh .idle q sh →
      Moves t sh .idle (checkTag max tag q) sh := by
    intro max tag q hq
    rw [checkTag]
    split_ifs
    exacts [.reject, hq]
  cases m with
  | wait tag =>
    cases p with
    | idle => cases h; exact hcall (.wait tag)
    | _ => cases h
  | send tag =>
    cases p with
    | idle => cases h; exact hcall (.send tag)
    | _ => cases h
  | wakeup =>
    cases p with
    | blocked tag => cases h; exact .wakeup tag
    | _ => cases h
  | next =>
    cases p with
    | waitLock tag =>
      obtain ⟨hfree, rfl, rfl⟩ := Place.withLock_eq_some h
      exact .enter tag hfree
    | countRead tag entering => cases h; exact .read tag entering
    | countWrite tag entering c =>
      cases entering with
      | true => cases h; exact .add tag c
      | false => cases h; exact .sub tag c
    | check tag =>
      rw [Place.move, Place.next] at h
      cases hstate : sh.states tag with
      | wait => rw [if_pos hstate] at h; cases h; exact .sleep tag hstate
      | goon => rw [if_neg (by rw [hstate]; nofun)] at h; cases h; exact .pass tag hstate
    | woken tag =>
      obtain ⟨hfree, rfl, rfl⟩ := Place.withLock_eq_some h
      exact .again tag hfree
    | waitUnlock tag => cases h; exact .waited tag
    | sendLock tag =>
      obtain ⟨hfree, rfl, rfl⟩ := Place.withLock_eq_some h
      exact .sendLock tag hfree
    | sendState tag => cases h; exact .sendState tag
    | sendUnlock tag => cases h; exact .sent tag
    | idle | blocked | sendSignal | failed => cases h

namespace Moves

variable {t : Fin n} {sh sh' : Shared n} {p p' : Place}

/-- A mutex is kept, taken from nobody, or given back. -/
theorem mutex (h : Moves t sh p p' sh') :
    (p'.held = p.held ∧ sh'.mutex = sh.mutex) ∨
    (∃ tag, p.held = none ∧ sh.mutex tag = none ∧ p'.held = some tag ∧
      sh'.mutex = Function.update sh.mutex tag (some t)) ∨
    ∃ tag, p.held = some tag ∧ p'.held = none ∧ sh'.mutex = Function.update sh.mutex tag none := by
  cases h with
  | enter tag hfree | again tag hfree | sendLock tag hfree =>
    exact .inr (.inl ⟨tag, rfl, hfree, rfl, rfl⟩)
  | sleep tag | waited tag | sent tag => exact .inr (.inr ⟨tag, rfl, rfl, rfl⟩)
  | _ => exact .inl ⟨rfl, rfl⟩

/-- Signals are not taken back. -/
theorem goon (h : Moves t sh p p' sh') {tag : ℤ} (hgoon : sh.states tag = .goon) :
    sh'.states tag = .goon := by
  cases h with
  | sendState tag' =>
    change Function.update sh.states tag' .goon tag = .goon
    rw [Function.update_apply]
    split_ifs
    exacts [rfl, hgoon]
  | _ => exact hgoon

/-- Only one who is about to signal has changed a state. -/
theorem states (h : Moves t sh p p' sh') {tag : ℤ} (hgoon : sh'.states tag = .goon) :
    sh.states tag = .goon ∨ p' = .sendSignal tag := by
  cases h with
  | sendState tag' =>
    change Function.update sh.states tag' .goon tag = .goon at hgoon
    rw [Function.update_apply] at hgoon
    split_ifs at hgoon with heq
    · exact .inr (heq ▸ rfl)
    · exact .inl hgoon
  | _ => exact .inl hgoon

/-- The loop is left when the signal has been sent. -/
theorem left (h : Moves t sh p p' sh') {tag : ℤ} (hleft : p'.left = some tag) :
    p.left = some tag ∨ sh.states tag = .goon := by
  cases h with
  | pass tag' hstate => cases hleft; exact .inr hstate
  | read tag' entering => exact .inl (by cases entering <;> exact hleft)
  | sub tag' c => exact .inl hleft
  | _ => cases hleft

/-- A thread falls asleep when the signal has not been sent. -/
theorem blocked (h : Moves t sh p p' sh') {tag : ℤ} (hblocked : p' = .blocked tag) :
    sh'.states tag = .wait := by
  cases h with
  | sleep tag' hstate => cases hblocked; exact hstate
  | _ => cases hblocked

/-- Who has set the state of a signal has to have done so. -/
theorem announced (h : Moves t sh p p' sh') {tag : ℤ} (hp : p'.announced = some tag) :
    sh'.states tag = .goon := by
  cases h with
  | sendState tag' => cases hp; exact Function.update_self _ _ _
  | _ => cases hp

/-- It stays there until it signals, and returns after that. -/
theorem returns (h : Moves t sh p p' sh') {tag : ℤ} (hp : p.announced = some tag) :
    p.event = some (.sent tag) := by
  cases h with
  | sent tag' => cases hp; rfl
  | _ => cases hp

theorem ne_sendSignal (h : Moves t sh p p' sh') (tag : ℤ) : p ≠ .sendSignal tag := by
  rintro rfl
  cases h

/-- How a thread counts itself. -/
theorem count (h : Moves t sh p p' sh') :
    (p'.inside = p.inside ∧ sh'.count = sh.count ∧ p.counting = none ∧
      (p'.counting = none ∨ p'.counting = some sh.count ∧ p.reads = true)) ∨
    ∃ c, p.counting = some c ∧ p'.counting = none ∧
      sh'.count = c + (if p'.inside = true then 1 else 0) - if p.inside = true then 1 else 0 := by
  cases h with
  | read tag entering =>
    exact .inl ⟨by cases entering <;> rfl, rfl, rfl, .inr ⟨rfl, rfl⟩⟩
  | add tag c => exact .inr ⟨c, rfl, rfl, by simp [Place.inside]⟩
  | sub tag c => exact .inr ⟨c, rfl, rfl, by simp [Place.inside]⟩
  | _ => exact .inl ⟨rfl, rfl, rfl, .inl rfl⟩

end Moves

/-- What `pthread_cond_signal` does to a thread: one has signalled, and some are woken. -/
theorem signal_place {s s' : State n} {t : Fin n} {woken : Finset (Fin n)}
    (h : s.signal t woken = some s') :
    ∃ tag, s.place t = .sendSignal tag ∧ s'.shared = s.shared ∧
      (s.sleepers tag ≠ ∅ → woken ≠ ∅) ∧ woken ⊆ s.sleepers tag ∧
      ∀ u, (u = t ∧ s'.place u = .sendUnlock tag) ∨
        (u ∈ woken ∧ s.place u = .blocked tag ∧ s'.place u = .woken tag) ∨
        (u ≠ t ∧ u ∉ woken ∧ s'.place u = s.place u) := by
  rw [State.signal] at h
  split at h
  · rename_i tag htag
    split_ifs at h with hwoken
    cases h
    refine ⟨tag, htag, rfl, hwoken.2, hwoken.1, fun u ↦ ?_⟩
    by_cases hu : u = t
    · exact .inl ⟨hu, if_pos hu⟩
    · by_cases hmem : u ∈ woken
      · have hsleeps := (Finset.mem_filter.mp (hwoken.1 hmem)).2
        exact .inr (.inl ⟨hmem, hsleeps, (if_neg hu).trans (if_pos hmem)⟩)
      · exact .inr (.inr ⟨hu, hmem, (if_neg hu).trans (if_neg hmem)⟩)
  · cases h

/-- To signal and to be woken changes nothing else. -/
theorem signal_kept {s s' : State n} {t : Fin n} {woken : Finset (Fin n)}
    (h : s.signal t woken = some s') (u : Fin n) :
    (s'.place u).held = (s.place u).held ∧ (s'.place u).left = (s.place u).left ∧
    (s'.place u).announced = (s.place u).announced ∧ (s'.place u).inside = (s.place u).inside ∧
    (s'.place u).counting = (s.place u).counting := by
  obtain ⟨tag, htag, -, -, -, hplace⟩ := signal_place h
  obtain ⟨rfl, hu⟩ | ⟨-, hblocked, hu⟩ | ⟨-, -, hu⟩ := hplace u
  · rw [htag, hu]
    exact ⟨rfl, rfl, rfl, rfl, rfl⟩
  · rw [hblocked, hu]
    exact ⟨rfl, rfl, rfl, rfl, rfl⟩
  · rw [hu]
    exact ⟨rfl, rfl, rfl, rfl, rfl⟩

/-- A step of one thread. -/
theorem step_move {s s' : State n} {t : Fin n} {m : Move} (h : s.step (.move t m) = some s') :
    ∃ p', Moves t s.shared (s.place t) p' s'.shared ∧
      s'.place = Function.update s.place t p' := by
  obtain ⟨⟨p', sh'⟩, hmove, rfl⟩ := Option.map_eq_some_iff.mp h
  exact ⟨p', moves_of_move hmove, rfl⟩

/-- What holds of the new place of one thread and of the old ones of the others holds of all. -/
theorem forall_place {s s' : State n} {t : Fin n} {p' : Place} {P : Place → Prop}
    (hplace : s'.place = Function.update s.place t p') (ht : P p')
    (hother : ∀ u ≠ t, P (s.place u)) (u : Fin n) : P (s'.place u) := by
  rw [hplace]
  by_cases hu : u = t
  · rw [hu, Function.update_self]
    exact ht
  · rw [Function.update_of_ne hu]
    exact hother u hu

/-! ## Every run -/

/-- What holds in every run: mutexes exclude each other, and the state of a signal tells whether it
has been sent. -/
structure Safe (es : List Event) (s : State n) : Prop where
  mutex_iff : ∀ tag t, s.shared.mutex tag = some t ↔ (s.place t).held = some tag
  goon_of_left : ∀ t tag, (s.place t).left = some tag → s.shared.states tag = .goon
  goon_of_announced : ∀ t tag, (s.place t).announced = some tag → s.shared.states tag = .goon
  goon_of_sent : ∀ tag, .sent tag ∈ es → s.shared.states tag = .goon
  sent_or : ∀ tag, s.shared.states tag = .goon →
    .sent tag ∈ es ∨ ∃ t, (s.place t).announced = some tag
  preceded : ∀ pre tag post, es = pre ++ .waited tag :: post → .sent tag ∈ pre

theorem safe_init {num : ℤ} {s : State n} (h : tstThreadSignalInit num = .ok s) : Safe [] s := by
  rw [tstThreadSignalInit] at h
  split at h
  · cases h
  · cases h
    refine ⟨fun tag t ↦ iff_of_false nofun nofun, nofun, nofun, nofun, nofun,
      fun pre tag post hes ↦ ?_⟩
    exact absurd hes.symm (List.append_ne_nil_of_right_ne_nil _ nofun)

/-- Who has set the state of a signal has the mutex. -/
theorem held_of_announced {p : Place} {tag : ℤ} (h : p.announced = some tag) :
    p.held = some tag := by
  cases p <;> simp_all [Place.announced, Place.held]

theorem announced_of_event {p : Place} {tag : ℤ} (h : p.event = some (.sent tag)) :
    p.announced = some tag := by
  cases p <;> simp_all [Place.announced, Place.event]

/-- A wait returns after a send has. -/
theorem Safe.sent_of_waitUnlock {es : List Event} {s : State n} (hs : Safe es s) {t : Fin n}
    {tag : ℤ} (ht : s.place t = .waitUnlock tag) : .sent tag ∈ es := by
  have hgoon := hs.goon_of_left t tag (by rw [ht]; rfl)
  obtain hsent | ⟨u, hu⟩ := hs.sent_or tag hgoon
  · exact hsent
  · have hheld := (hs.mutex_iff tag u).mpr (held_of_announced hu)
    have hme := (hs.mutex_iff tag t).mpr (by rw [ht]; rfl)
    cases hheld.symm.trans hme
    rw [ht] at hu
    cases hu

/-- What was preceded is so when another call returns. -/
theorem preceded_append {es : List Event} {e : Option Event}
    (hes : ∀ pre tag post, es = pre ++ .waited tag :: post → .sent tag ∈ pre)
    (he : ∀ tag, e = some (.waited tag) → .sent tag ∈ es) :
    ∀ pre tag post, es ++ e.toList = pre ++ .waited tag :: post → .sent tag ∈ pre := by
  intro pre tag post heq
  cases e with
  | none =>
    rw [Option.toList_none, List.append_nil] at heq
    exact hes pre tag post heq
  | some e =>
    obtain rfl | ⟨post', e', rfl⟩ := List.eq_nil_or_concat post
    · obtain ⟨rfl, he'⟩ := List.append_inj' heq rfl
      exact he tag (congrArg some (List.head_eq_of_cons_eq he'))
    · have hsplit :
          pre ++ .waited tag :: (post' ++ [e']) = pre ++ .waited tag :: post' ++ [e'] := by
        rw [List.append_assoc, List.cons_append]
      rw [List.concat_eq_append, hsplit] at heq
      exact hes pre tag post' (List.append_inj' heq rfl).1

/-- The mutexes after the step of a thread. -/
theorem Safe.mutex_move {es : List Event} {s s' : State n} (hs : Safe es s) {t : Fin n}
    {p' : Place} (hmoves : Moves t s.shared (s.place t) p' s'.shared)
    (hplace : s'.place = Function.update s.place t p') (tag : ℤ) (u : Fin n) :
    s'.shared.mutex tag = some u ↔ (s'.place u).held = some tag := by
  have hold := hs.mutex_iff
  obtain ⟨hheld, hmutex⟩ | ⟨tag', hheld, hfree, hheld', hmutex⟩ | ⟨tag', hheld, hheld', hmutex⟩ :=
    hmoves.mutex
  · rw [hmutex, hold, hplace]
    by_cases hu : u = t
    · rw [hu, Function.update_self, hheld]
    · rw [Function.update_of_ne hu]
  · rw [hmutex, hplace, Function.update_apply]
    by_cases hu : u = t
    · rw [hu, Function.update_self, hheld']
      split_ifs with htag
      · rw [htag, iff_true_intro rfl, iff_true_intro rfl]
      · rw [hold, hheld]
        exact iff_of_false nofun fun heq ↦ htag (Option.some_inj.mp heq).symm
    · rw [Function.update_of_ne hu, ← hold]
      split_ifs with htag
      · rw [htag, hfree]
        exact iff_of_false (fun heq ↦ hu (Option.some_inj.mp heq).symm) nofun
      · rfl
  · have hmine := (hold tag' t).mpr hheld
    rw [hmutex, hplace, Function.update_apply]
    by_cases hu : u = t
    · rw [hu, Function.update_self, hheld']
      split_ifs with htag
      · exact iff_of_false nofun nofun
      · rw [hold, hheld]
        exact iff_of_false (fun heq ↦ htag (Option.some_inj.mp heq).symm) nofun
    · rw [Function.update_of_ne hu, ← hold]
      split_ifs with htag
      · rw [htag, hmine]
        exact iff_of_false nofun fun heq ↦ hu (Option.some_inj.mp heq).symm
      · rfl

/-- One step. -/
theorem Safe.step {es : List Event} {s s' : State n} (hs : Safe es s) {a : Action n}
    (h : s.step a = some s') : Safe (es ++ (s.event a).toList) s' := by
  cases a with
  | signal t woken =>
    obtain ⟨-, -, hshared, -⟩ := signal_place h
    have hkept := signal_kept h
    have hnone : es ++ (s.event (.signal t woken)).toList = es := List.append_nil es
    rw [hnone]
    refine ⟨fun tag u ↦ ?_, fun u tag ↦ ?_, fun u tag ↦ ?_, fun tag ↦ ?_, fun tag ↦ ?_,
      hs.preceded⟩
    · rw [hshared, (hkept u).1]
      exact hs.mutex_iff tag u
    · rw [hshared, (hkept u).2.1]
      exact hs.goon_of_left u tag
    · rw [hshared, (hkept u).2.2.1]
      exact hs.goon_of_announced u tag
    · rw [hshared]
      exact hs.goon_of_sent tag
    · rw [hshared]
      exact fun hgoon ↦ (hs.sent_or tag hgoon).imp_right fun ⟨u, hu⟩ ↦
        ⟨u, (hkept u).2.2.1.trans hu⟩
  | move t m =>
    obtain ⟨p', hmoves, hplace⟩ := step_move h
    refine ⟨hs.mutex_move hmoves hplace, ?_, ?_, fun tag hsent ↦ ?_, fun tag hgoon ↦ ?_,
      preceded_append hs.preceded fun tag hevent ↦ ?_⟩
    · refine forall_place hplace
        (P := fun p ↦ ∀ tag, p.left = some tag → s'.shared.states tag = .goon) (fun tag hleft ↦ ?_)
        fun u _ tag hleft ↦ hmoves.goon (hs.goon_of_left u tag hleft)
      exact hmoves.goon ((hmoves.left hleft).elim (hs.goon_of_left t tag) id)
    · exact forall_place hplace
        (P := fun p ↦ ∀ tag, p.announced = some tag → s'.shared.states tag = .goon)
        (fun tag hp ↦ hmoves.announced hp) fun u _ tag hu ↦
        hmoves.goon (hs.goon_of_announced u tag hu)
    · obtain hsent | hsent := List.mem_append.mp hsent
      · exact hmoves.goon (hs.goon_of_sent tag hsent)
      · exact hmoves.goon (hs.goon_of_announced t tag
          (announced_of_event (Option.mem_toList.mp hsent)))
    · obtain hgoon | rfl := hmoves.states hgoon
      · obtain hsent | ⟨u, hu⟩ := hs.sent_or tag hgoon
        · exact .inl (List.mem_append_left _ hsent)
        · by_cases hut : u = t
          · have hevent := hmoves.returns (hut ▸ hu)
            refine .inl (List.mem_append_right _ ?_)
            change _ ∈ (s.place t).event.toList
            rw [hevent]
            exact List.mem_singleton_self _
          · refine .inr ⟨u, ?_⟩
            rw [hplace, Function.update_of_ne hut]
            exact hu
      · refine .inr ⟨t, ?_⟩
        rw [hplace, Function.update_self]
        rfl
    · refine hs.sent_of_waitUnlock (t := t) ?_
      change (s.place t).event = _ at hevent
      cases hp : s.place t with
      | waitUnlock tag' =>
        rw [hp] at hevent
        cases hevent
        rfl
      | _ => rw [hp] at hevent; cases hevent

/-- The mutexes, states and order of calls in every run. -/
theorem Run.safe {Allowed : State n → Action n → Prop} {num : ℤ} {s₀ s : State n}
    {es : List Event} (hinit : tstThreadSignalInit num = .ok s₀) (hrun : Run Allowed s₀ es s) :
    Safe es s := by
  induction hrun with
  | nil => exact safe_init hinit
  | snoc _ _ hstep ih => exact ih.step hstep

/-! ## Calm runs -/

/-- What holds in calm runs besides: nobody sleeps through a signal, and the counter counts. -/
structure Settled (s : State n) : Prop where
  signalled : ∀ t tag, s.place t = .blocked tag → s.shared.states tag = .goon →
    ∃ u, s.place u = .sendSignal tag
  counting_eq : ∀ t c, (s.place t).counting = some c → c = s.shared.count
  counting_unique : ∀ t u c d, (s.place t).counting = some c → (s.place u).counting = some d → t = u
  count_eq : s.shared.count = s.numInside

theorem settled_init {num : ℤ} {s : State n} (h : tstThreadSignalInit num = .ok s) : Settled s := by
  rw [tstThreadSignalInit] at h
  split at h
  · cases h
  · cases h
    refine ⟨nofun, nofun, nofun, ?_⟩
    have hnone : (Finset.univ.filter fun _ : Fin n ↦ Place.idle.inside = true) = ∅ :=
      Finset.filter_false_of_mem fun _ _ ↦ nofun
    change (0 : ℤ) = ((Finset.univ.filter fun _ : Fin n ↦ Place.idle.inside = true).card : ℤ)
    rw [hnone]
    rfl

/-- The step of a thread changes the number of those inside by what it changes of its own. -/
theorem numInside_move {s s' : State n} {t : Fin n} {p' : Place}
    (hplace : s'.place = Function.update s.place t p') :
    s'.numInside + (if (s.place t).inside = true then 1 else 0)
      = s.numInside + if p'.inside = true then 1 else 0 := by
  rw [State.numInside, State.numInside, Finset.card_filter, Finset.card_filter, hplace]
  exact sum_update (fun _ (p : Place) ↦ if p.inside = true then 1 else 0) s.place t p'

/-- To be woken is not to leave. -/
theorem numInside_signal {s s' : State n} {t : Fin n} {woken : Finset (Fin n)}
    (h : s.signal t woken = some s') : s'.numInside = s.numInside := by
  rw [State.numInside, State.numInside]
  exact congrArg _ (Finset.filter_congr fun u _ ↦ by rw [(signal_kept h u).2.2.2.1])

/-- The only one that sleeps is woken by the signal. -/
theorem Settled.signalled_signal {s s' : State n} (hs : Settled s) {t : Fin n}
    {woken : Finset (Fin n)} (hcalm : Calm s (.signal t woken)) (h : s.signal t woken = some s')
    (u : Fin n) (tag' : ℤ) (hu : s'.place u = .blocked tag')
    (hgoon : s'.shared.states tag' = .goon) : ∃ v, s'.place v = .sendSignal tag' := by
  obtain ⟨tag, htag, hshared, hwoken, hsubset, hplace⟩ := signal_place h
  obtain ⟨-, hu'⟩ | ⟨-, -, hu'⟩ | ⟨-, hnot, hu'⟩ := hplace u
  · cases hu.symm.trans hu'
  · cases hu.symm.trans hu'
  · rw [hu'] at hu
    rw [hshared] at hgoon
    obtain ⟨v, hv⟩ := hs.signalled u tag' hu hgoon
    refine ⟨v, ?_⟩
    obtain ⟨rfl, -⟩ | ⟨-, hblocked, -⟩ | ⟨-, -, hv'⟩ := hplace v
    · cases htag.symm.trans hv
      have hsleeper : u ∈ s.sleepers tag' := Finset.mem_filter.mpr ⟨Finset.mem_univ u, hu⟩
      obtain ⟨w, hw⟩ := Finset.nonempty_iff_ne_empty.mpr
        (hwoken (Finset.ne_empty_of_mem hsleeper))
      have hone := Finset.card_le_one.mp (hcalm tag' (by rw [htag]; rfl))
      have heq := hone w (hsubset hw) u hsleeper
      exact absurd (heq ▸ hw) hnot
    · cases hblocked.symm.trans hv
    · exact hv'.trans hv

/-- Nobody goes to sleep after the signal has been sent, and who has sent it is about to wake up the
others. -/
theorem Settled.signalled_move {s s' : State n} (hs : Settled s) {t : Fin n} {p' : Place}
    (hmoves : Moves t s.shared (s.place t) p' s'.shared)
    (hplace : s'.place = Function.update s.place t p') (u : Fin n) (tag : ℤ)
    (hu : s'.place u = .blocked tag) (hgoon : s'.shared.states tag = .goon) :
    ∃ v, s'.place v = .sendSignal tag := by
  have hself : s'.place t = p' := by rw [hplace, Function.update_self]
  have hother : ∀ u ≠ t, s'.place u = s.place u := fun u hu ↦ by
    rw [hplace, Function.update_of_ne hu]
  by_cases hut : u = t
  · have hwait := hmoves.blocked (hself.symm.trans (hut ▸ hu))
    cases hwait.symm.trans hgoon
  · obtain hold | hp' := hmoves.states hgoon
    · rw [hother u hut] at hu
      obtain ⟨v, hv⟩ := hs.signalled u tag hu hold
      have hvt : v ≠ t := by
        rintro rfl
        exact hmoves.ne_sendSignal tag hv
      exact ⟨v, (hother v hvt).trans hv⟩
    · exact ⟨t, hself.trans hp'⟩

/-- If the one that moves comes to a place where it has not read the counter, those who have read it
are among those who had. -/
theorem counting_of_move {s s' : State n} {t : Fin n} {p' : Place}
    (hplace : s'.place = Function.update s.place t p') (hnone : p'.counting = none) {u : Fin n}
    {c : ℤ} (hu : (s'.place u).counting = some c) : u ≠ t ∧ (s.place u).counting = some c := by
  rw [hplace] at hu
  by_cases hut : u = t
  · rw [hut, Function.update_self, hnone] at hu
    cases hu
  · rw [Function.update_of_ne hut] at hu
    exact ⟨hut, hu⟩

/-- One calm step. -/
theorem Settled.step {s s' : State n} (hs : Settled s) {a : Action n} (hcalm : Calm s a)
    (h : s.step a = some s') : Settled s' := by
  cases a with
  | signal t woken =>
    obtain ⟨-, -, hshared, -⟩ := signal_place h
    have hkept := signal_kept h
    refine ⟨hs.signalled_signal hcalm h, fun u c hu ↦ ?_, fun u v c d hu hv ↦ ?_, ?_⟩
    · rw [(hkept u).2.2.2.2] at hu
      rw [hshared]
      exact hs.counting_eq u c hu
    · rw [(hkept u).2.2.2.2] at hu
      rw [(hkept v).2.2.2.2] at hv
      exact hs.counting_unique u v c d hu hv
    · rw [hshared, numInside_signal h]
      exact hs.count_eq
  | move t m =>
    obtain ⟨p', hmoves, hplace⟩ := step_move h
    have hnum := numInside_move hplace
    have hcount := hs.count_eq
    have hsignalled := hs.signalled_move hmoves hplace
    obtain ⟨hinside, hsame, -, hcounting⟩ | ⟨c, hc, hcounting, hchange⟩ := hmoves.count
    · rw [hinside] at hnum
      have hcounted : s'.shared.count = s'.numInside := by omega
      obtain hcounting | ⟨hcounting, hread⟩ := hcounting
      · refine ⟨hsignalled, fun u c hu ↦ ?_, fun u v c d hu hv ↦ ?_, hcounted⟩
        · rw [hsame]
          exact hs.counting_eq u c (counting_of_move hplace hcounting hu).2
        · exact hs.counting_unique u v c d (counting_of_move hplace hcounting hu).2
            (counting_of_move hplace hcounting hv).2
      · -- It reads the counter, and nobody else has read it.
        have honly : ∀ u c, (s'.place u).counting = some c → u = t ∧ s.shared.count = c := by
          intro u c hu
          rw [hplace] at hu
          by_cases hut : u = t
          · rw [hut, Function.update_self, hcounting] at hu
            exact ⟨hut, Option.some_inj.mp hu⟩
          · rw [Function.update_of_ne hut, hcalm hread u] at hu
            cases hu
        refine ⟨hsignalled, fun u c hu ↦ ?_, fun u v c d hu hv ↦ ?_, hcounted⟩
        · rw [hsame]
          exact (honly u c hu).2.symm
        · rw [(honly u c hu).1, (honly v d hv).1]
    · -- It writes the counter, and nobody else is about to.
      have hnone : ∀ u d, (s'.place u).counting ≠ some d := fun u d hu ↦
        let ⟨hut, hold⟩ := counting_of_move hplace hcounting hu
        hut (hs.counting_unique u t d c hold hc)
      have hold := hs.counting_eq t c hc
      refine ⟨hsignalled, fun u d hu ↦ absurd hu (hnone u d),
        fun u v d e hu _ ↦ absurd hu (hnone u d), ?_⟩
      split_ifs at hnum hchange <;> omega

/-- **Signals.** In every run whose steps are calm the interface does what it promises: no signal is
lost, no wait returns before a signal, and the counter is the number of those who wait. -/
theorem signals_of_calm {num : ℤ} {s₀ s : State n} {es : List Event}
    (hinit : tstThreadSignalInit num = .ok s₀) (hrun : Run Calm s₀ es s) : SignalsWork es s := by
  have hsafe := hrun.safe hinit
  have hsettled : Settled s := by
    clear hsafe
    induction hrun with
    | nil => exact settled_init hinit
    | snoc _ hcalm hstep ih => exact ih.step hcalm hstep
  refine ⟨?_, hsafe.preceded, hsettled.count_eq, ?_⟩
  · rintro tag t ⟨hsent, hblocked, hnone⟩
    obtain ⟨u, hu⟩ := hsettled.signalled t tag hblocked (hsafe.goon_of_sent tag hsent)
    exact hnone u (by rw [hu]; rfl)
  · have hpos : (∃ t, (s.place t).inside = true) ↔ s.numInside ≠ 0 := by
      rw [State.numInside, Finset.card_ne_zero, Finset.filter_nonempty_iff]
      simp only [Finset.mem_univ, true_and]
    have hcast : s.shared.count ≠ 0 ↔ s.numInside ≠ 0 := by
      rw [hsettled.count_eq]
      exact Int.natCast_ne_zero
    rw [hpos, ← hcast, tstThreadSignalCleanup]
    split_ifs with hzero
    · exact iff_of_true rfl hzero
    · exact iff_of_false nofun hzero

/-- One thread sends a signal, and the other waits for it. -/
theorem signals_of_calm_once : ∃ s : State 2, SignalsWork [.sent 0, .waited 0] s := by
  have hexecute : (execute Calm (State.start 1 : State 2) [.move 0 (.wait 0), .move 0 .next,
      .move 0 .next, .move 0 .next, .move 0 .next, .move 1 (.send 0), .move 1 .next, .move 1 .next,
      .signal 1 {0}, .move 1 .next, .move 0 .next, .move 0 .next, .move 0 .next, .move 0 .next,
      .move 0 .next]).any (fun r ↦ r.1 = [.sent 0, .waited 0]) = true := by decide
  obtain ⟨es, s, hrun, hes⟩ := exists_run_of_execute hexecute
  have hinit : tstThreadSignalInit 1 = .ok (State.start 1 : State 2) := rfl
  exact ⟨s, of_decide_eq_true hes ▸ signals_of_calm hinit hrun⟩

/-- A signal is sent to two sleepers, and one of them sleeps on. -/
theorem signals_two_sleepers :
    ¬∀ (n : ℕ) (num : ℤ) (s₀ s : State n) (es : List Event), tstThreadSignalInit num = .ok s₀ →
      Run (fun _ _ ↦ True) s₀ es s → SignalsWork es s := by
  intro h
  have hexecute : (execute (fun _ _ ↦ True) (State.start 1 : State 3) [.move 0 (.wait 0),
      .move 0 .next, .move 0 .next, .move 0 .next, .move 0 .next, .move 1 (.wait 0), .move 1 .next,
      .move 1 .next, .move 1 .next, .move 1 .next, .move 2 (.send 0), .move 2 .next, .move 2 .next,
      .signal 2 {0}, .move 2 .next]).any (fun r ↦ .sent 0 ∈ r.1 ∧ r.2.place 1 = .blocked 0 ∧
        ∀ u, (r.2.place u).sending ≠ some 0) = true := by decide
  obtain ⟨es, s, hrun, hlost⟩ := exists_run_of_execute hexecute
  rw [decide_eq_true_iff] at hlost
  exact (h 3 1 _ s es rfl hrun).not_lost 0 1 hlost

end Signals

end Threads

end MpiTestSuite

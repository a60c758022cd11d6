import Mathlib.Data.List.Basic

/-!
# Folds that may stop

A program that reads a list of inputs one after another and may give up on any of them is a
`List.foldlM` in `Except`. This file holds what a verification of such a program needs and what
has nothing to do with any particular one: a condition imposed on every step of the run, the
comparison of the run with an abstract fold, and the equivalence of the two when the condition
is exact for a single step.

## Conditions on steps

`Along step P s as` says that `P` holds of the state and the input at every step the run from `s`
over `as` really takes. A run that stops imposes nothing on the inputs after the stop.

## Exactness

`along_iff_meets` is the main result. A single step started in a state that represents an abstract
value either meets `P` and ends in a state representing the next abstract value (or stops for a
reason that counts as harmless), or does neither. Then `P` holds along the whole run if and only if
*every prefix* of the run is represented. Quantifying over prefixes is what makes the statement an
equivalence: two wrong steps may cancel out in the final state, but not at every point in between.
-/

namespace MpiTestSuite

namespace Runs

universe u

variable {σ α β δ ε : Type*}

/-! ## Splitting a fold -/

@[simp] theorem ok_bind {σ τ : Type u} (s : σ) (f : σ → Except ε τ) :
    ((Except.ok s : Except ε σ) >>= f) = f s := rfl

@[simp] theorem error_bind {σ τ : Type u} (e : ε) (f : σ → Except ε τ) :
    ((Except.error e : Except ε σ) >>= f) = .error e := rfl

/-- What is made of a result stops where the result did. -/
theorem map_eq_error_iff {σ τ : Type u} {x : Except ε σ} {f : σ → τ} {e : ε} :
    x.map f = .error e ↔ x = .error e := by
  cases x with
  | ok s => exact iff_of_false nofun nofun
  | error e' => simp [Except.map]

theorem map_eq_ok_iff {σ τ : Type u} {x : Except ε σ} {f : σ → τ} {b : τ} :
    x.map f = .ok b ↔ ∃ a, x = .ok a ∧ f a = b := by
  cases x with
  | ok s => simp [Except.map]
  | error e => simp [Except.map]

/-- What is done with a result comes to an end if both come to an end. -/
theorem bind_eq_ok_iff {σ τ : Type u} {x : Except ε σ} {f : σ → Except ε τ} {b : τ} :
    x >>= f = .ok b ↔ ∃ a, x = .ok a ∧ f a = .ok b := by
  cases x with
  | ok s => simp
  | error e => simp

/-- Folding over a concatenation of pieces is folding over the pieces. -/
theorem foldlM_flatMap {m : Type u → Type*} [Monad m] [LawfulMonad m] {σ : Type u}
    (f : σ → β → m σ) (g : α → List β) (as : List α) (s : σ) :
    (as.flatMap g).foldlM f s = as.foldlM (fun s a ↦ (g a).foldlM f s) s := by
  induction as generalizing s with
  | nil => rfl
  | cons a as ih =>
    rw [List.flatMap_cons, List.foldlM_append, List.foldlM_cons]
    exact bind_congr fun s' ↦ ih s'

theorem foldlM_cons_ok {f : σ → α → Except ε σ} {s s' : σ} {a : α} {as : List α}
    (h : f s a = .ok s') : (a :: as).foldlM f s = as.foldlM f s' := by
  rw [List.foldlM_cons, h, ok_bind]

theorem foldlM_cons_error {f : σ → α → Except ε σ} {s : σ} {e : ε} {a : α} {as : List α}
    (h : f s a = .error e) : (a :: as).foldlM f s = .error e := by
  rw [List.foldlM_cons, h, error_bind]

/-! ## Conditions on every step -/

/-- `P` holds at every step of the run of `f` from `s` over `as`. -/
def Along (f : σ → α → Except ε σ) (P : σ → α → Prop) : σ → List α → Prop
  | _, [] => True
  | s, a :: as => P s a ∧ ∀ s', f s a = .ok s' → Along f P s' as

@[simp] theorem along_nil (f : σ → α → Except ε σ) (P : σ → α → Prop) (s : σ) :
    Along f P s [] := trivial

theorem along_cons {f : σ → α → Except ε σ} {P : σ → α → Prop} {s : σ} {a : α} {as : List α} :
    Along f P s (a :: as) ↔ P s a ∧ ∀ s', f s a = .ok s' → Along f P s' as := Iff.rfl

/-! ## Comparison with an abstract fold -/

/-- The outcome `r` stands for the abstract value `d`: it is a state related to `d`, or a stop
for a reason accepted by `harmless`. -/
def Meets (R : σ → δ → Prop) (harmless : ε → Prop) (d : δ) : Except ε σ → Prop
  | .ok s => R s d
  | .error e => harmless e

@[simp] theorem meets_ok {R : σ → δ → Prop} {harmless : ε → Prop} {d : δ} {s : σ} :
    Meets R harmless d (.ok s) ↔ R s d := Iff.rfl

@[simp] theorem meets_pure {R : σ → δ → Prop} {harmless : ε → Prop} {d : δ} {s : σ} :
    Meets R harmless d (pure s) ↔ R s d := Iff.rfl

@[simp] theorem meets_error {R : σ → δ → Prop} {harmless : ε → Prop} {d : δ} {e : ε} :
    Meets R harmless d (.error e : Except ε σ) ↔ harmless e := Iff.rfl

instance {R : σ → δ → Prop} {harmless : ε → Prop} [∀ s d, Decidable (R s d)]
    [DecidablePred harmless] (d : δ) : (r : Except ε σ) → Decidable (Meets R harmless d r)
  | .ok s => inferInstanceAs (Decidable (R s d))
  | .error e => inferInstanceAs (Decidable (harmless e))

variable {f : σ → α → Except ε σ} {g : δ → α → δ} {P : σ → α → Prop} {R : σ → δ → Prop}
  {harmless : ε → Prop} {Q : α → Prop}

/-- **Exactness.** If `P` is exactly the condition under which one step keeps the representation,
then it holds along a run if and only if every prefix of the run is represented. The inputs may be
restricted by `Q`, which plays no part beyond that. -/
theorem along_iff_meets
    (hstep : ∀ s d a, Q a → R s d → (P s a ↔ Meets R harmless (g d a) (f s a)))
    {s : σ} {d : δ} (hs : R s d) {as : List α} (hQ : ∀ a ∈ as, Q a) :
    Along f P s as ↔
      ∀ k, Meets R harmless ((as.take k).foldl g d) ((as.take k).foldlM f s) := by
  induction as generalizing s d with
  | nil => simpa using hs
  | cons a as ih =>
    have hQa : Q a := hQ a List.mem_cons_self
    have hQas : ∀ b ∈ as, Q b := fun b hb ↦ hQ b (List.mem_cons_of_mem a hb)
    rw [along_cons, hstep s d a hQa hs]
    cases hf : f s a with
    | error e =>
      -- all prefixes but the empty one stop with this step
      constructor
      · rintro ⟨he, -⟩ k
        cases k with
        | zero => exact hs
        | succ k =>
          rw [List.take_succ_cons, foldlM_cons_error hf]
          exact he
      · intro h
        have h1 := h 1
        rw [List.take_succ_cons, foldlM_cons_error hf] at h1
        exact ⟨h1, fun s' hs' ↦ by cases hs'⟩
    | ok t =>
      -- all prefixes but the empty one begin with this step
      constructor
      · rintro ⟨ht, hrest⟩ k
        cases k with
        | zero => exact hs
        | succ k =>
          rw [List.take_succ_cons, foldlM_cons_ok hf, List.foldl_cons]
          exact (ih ht hQas).mp (hrest t rfl) k
      · intro h
        have ht : R t (g d a) := by
          have h1 := h 1
          rw [List.take_succ_cons, foldlM_cons_ok hf] at h1
          simpa using h1
        refine ⟨ht, fun s' hs' ↦ ?_⟩
        cases hs'
        refine (ih ht hQas).mpr fun k ↦ ?_
        have hk := h (k + 1)
        rw [List.take_succ_cons, foldlM_cons_ok hf, List.foldl_cons] at hk
        exact hk

/-- A run along which `P` holds ends represented. -/
theorem meets_of_along
    (hstep : ∀ s d a, Q a → R s d → (P s a ↔ Meets R harmless (g d a) (f s a)))
    {s : σ} {d : δ} (hs : R s d) {as : List α} (hQ : ∀ a ∈ as, Q a) (h : Along f P s as) :
    Meets R harmless (as.foldl g d) (as.foldlM f s) := by
  simpa using (along_iff_meets hstep hs hQ).mp h as.length

/-- **Loops.** If every step of a loop gets through and keeps what is said of the inputs that have
been read, then so does the loop. -/
theorem exists_foldlM_ok {I : List α → σ → Prop} {s : σ} {as : List α} (hs : I [] s)
    (hstep : ∀ done a rest, done ++ a :: rest = as →
      ∀ s, I done s → ∃ s', f s a = .ok s' ∧ I (done ++ [a]) s') :
    ∃ s', as.foldlM f s = .ok s' ∧ I as s' := by
  suffices h : ∀ rest done s, done ++ rest = as → I done s →
      ∃ s', rest.foldlM f s = .ok s' ∧ I as s' from h as [] s rfl hs
  intro rest
  induction rest with
  | nil =>
    intro done s has hs
    rw [List.append_nil] at has
    exact ⟨s, rfl, has ▸ hs⟩
  | cons a rest ih =>
    intro done s has hs
    obtain ⟨t, hf, ht⟩ := hstep done a rest has s hs
    rw [foldlM_cons_ok hf]
    exact ih (done ++ [a]) t (by rw [List.append_assoc, List.singleton_append, has]) ht

/-- A loop that passes over some of its inputs. -/
theorem foldlM_ite {p : α → Prop} [DecidablePred p] (s : σ) (as : List α) :
    as.foldlM (fun s a ↦ if p a then .ok s else f s a) s
      = (as.filter fun a ↦ ¬p a).foldlM f s := by
  induction as generalizing s with
  | nil => rfl
  | cons a as ih =>
    by_cases h : p a
    · rw [List.filter_cons_of_neg (by simpa using h), ← ih, List.foldlM_cons, if_pos h, ok_bind]
    · rw [List.filter_cons_of_pos (by simpa using h), List.foldlM_cons, List.foldlM_cons, if_neg h]
      exact bind_congr fun s' ↦ ih s'

/-- In a run that does not stop, there is a step for each of the inputs. -/
theorem exists_step_of_foldlM {s s' : σ} {as : List α} (h : as.foldlM f s = .ok s') {a : α}
    (ha : a ∈ as) : ∃ t t', f t a = .ok t' := by
  induction as generalizing s with
  | nil => cases ha
  | cons b as ih =>
    obtain ⟨t, hfirst, hrest⟩ := bind_eq_ok_iff.mp h
    rcases List.mem_cons.mp ha with rfl | ha
    · exact ⟨s, t, hfirst⟩
    · exact ih hrest ha

/-- What every step keeps, a run that does not stop keeps. -/
theorem foldlM_ok_induction {I : σ → Prop} (hkeep : ∀ s a s', I s → f s a = .ok s' → I s')
    {s s' : σ} {as : List α} (hs : I s) (h : as.foldlM f s = .ok s') : I s' := by
  induction as generalizing s with
  | nil =>
    cases h
    exact hs
  | cons a as ih =>
    cases hf : f s a with
    | error e =>
      rw [foldlM_cons_error hf] at h
      cases h
    | ok t =>
      rw [foldlM_cons_ok hf] at h
      exact ih (hkeep s a t hs hf) h

/-- **Stops.** If `P` is exactly the condition under which one step does not end in the stop `e`,
then it holds along a run if and only if the run does not end in `e`. -/
theorem along_iff_ne_error {I : σ → Prop} {e : ε}
    (hkeep : ∀ s a s', I s → f s a = .ok s' → I s')
    (hstep : ∀ s a, I s → (P s a ↔ f s a ≠ .error e)) {s : σ} (hs : I s) (as : List α) :
    Along f P s as ↔ as.foldlM f s ≠ .error e := by
  induction as generalizing s with
  | nil =>
    refine iff_of_true trivial fun h ↦ ?_
    cases h
  | cons a as ih =>
    rw [along_cons, hstep s a hs]
    cases hf : f s a with
    | error e' =>
      rw [foldlM_cons_error hf]
      refine and_iff_left fun s' hs' ↦ ?_
      cases hs'
    | ok t =>
      rw [foldlM_cons_ok hf, ← ih (hkeep s a t hs hf)]
      constructor
      · rintro ⟨-, hrest⟩
        exact hrest t rfl
      · intro hrest
        refine ⟨fun h ↦ (by cases h), fun s' hs' ↦ ?_⟩
        cases hs'
        exact hrest

end Runs

end MpiTestSuite

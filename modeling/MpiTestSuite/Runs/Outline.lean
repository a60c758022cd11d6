import Mathlib.Algebra.Order.BigOperators.Group.Finset
import Mathlib.Data.Fintype.BigOperators
import Mathlib.Logic.Relation
import Mathlib.Order.WellFounded

/-!
# Proof outlines under interference

A sequential program is executed by one party while other parties change the state between its
instructions. An *outline* puts an assertion in front of every instruction. It is a proof if each
assertion survives the steps of the other parties and each instruction, whenever it is executed,
leads from its assertion to the next one or, when it only blocks, leaves its own assertion alone
(`Point`). What every assertion of an outline implies then holds in every state of every
interleaving (`Outline.holds`).

Outlines compose: the outline of a concatenation is put together from outlines of its parts
(`Outline.append`), and that of a loop from outlines of its rounds (`Outline.flatMap`).

## Termination

`exists_final` says that the steps of a system with a decreasing measure end somewhere, in a state
in which no step is possible. Whether that is a state in which the program has ended or one in
which everybody waits is for the outline to say.
-/

open Relation

namespace MpiTestSuite

namespace Runs

variable {σ ι α : Type*}

/-! ## Outlines -/

section

variable (prog : σ → List ι) (interfere step : σ → σ → Prop) (Holds : σ → Prop)

/-- One instruction `i` of an outline, with the assertions `A` in front of it and `B` behind it. -/
structure Point (A : σ → Prop) (i : ι) (B : σ → Prop) : Prop where
  /-- The assertion implies what is to be proved. -/
  holds : ∀ s rest, prog s = i :: rest → A s → Holds s
  /-- The other parties keep the assertion. -/
  stable : ∀ s s' rest, prog s = i :: rest → A s → interfere s s' → A s'
  /-- The instruction is executed, or it blocks. -/
  next : ∀ s s' rest, prog s = i :: rest → A s → step s s' →
    prog s' = rest ∧ B s' ∨ prog s' = i :: rest ∧ A s'

/-- An outline of a list of instructions from one assertion to another. -/
inductive Outline : (σ → Prop) → List ι → (σ → Prop) → Prop
  | nil {A C : σ → Prop} : (∀ s, A s → C s) → Outline A [] C
  | cons {A A' B C : σ → Prop} {i : ι} {p : List ι} : (∀ s, A s → A' s) →
      Point prog interfere step Holds A' i B → Outline B p C → Outline A (i :: p) C

variable {prog interfere step Holds}

theorem Outline.weaken {A B C : σ → Prop} {p : List ι} (hAB : ∀ s, A s → B s)
    (h : Outline prog interfere step Holds B p C) : Outline prog interfere step Holds A p C := by
  cases h with
  | nil hBC => exact .nil fun s hs ↦ hBC s (hAB s hs)
  | cons hB hpoint hrest => exact .cons (fun s hs ↦ hB s (hAB s hs)) hpoint hrest

/-- Code that is never reached. -/
theorem Outline.of_false {C : σ → Prop} (p : List ι) :
    Outline prog interfere step Holds (fun _ ↦ False) p C := by
  induction p with
  | nil => exact .nil fun s hs ↦ hs.elim
  | cons i p ih =>
    exact .cons (fun s hs ↦ hs) ⟨fun s rest _ hs ↦ hs.elim, fun s s' rest _ hs ↦ hs.elim,
      fun s s' rest _ hs ↦ hs.elim⟩ ih

/-- **Sequential composition.** -/
theorem Outline.append {A B C : σ → Prop} {p q : List ι}
    (hp : Outline prog interfere step Holds A p B)
    (hq : Outline prog interfere step Holds B q C) :
    Outline prog interfere step Holds A (p ++ q) C := by
  induction hp with
  | nil hAB => exact hq.weaken hAB
  | cons hA hpoint _ ih => exact .cons hA hpoint (ih hq)

/-- **Loops.** An outline for every round is an outline of the loop, where the assertion between the
rounds depends on the rounds that are over. -/
theorem Outline.flatMap {body : α → List ι} (inv : List α → σ → Prop) {as : List α}
    (h : ∀ done a todo, as = done ++ a :: todo →
      Outline prog interfere step Holds (inv done) (body a) (inv (done ++ [a]))) :
    Outline prog interfere step Holds (inv []) (as.flatMap body) (inv as) := by
  suffices hrest : ∀ todo done, as = done ++ todo →
      Outline prog interfere step Holds (inv done) (todo.flatMap body) (inv as) from
    hrest as [] rfl
  intro todo
  induction todo with
  | nil =>
    intro done has
    rw [List.append_nil] at has
    subst has
    exact .nil fun s hs ↦ hs
  | cons a todo ih =>
    intro done has
    exact (h done a todo has).append (ih (done ++ [a]) (by rw [has, List.append_assoc]; rfl))

/-- **Soundness.** In every interleaving of the program with the other parties, what the assertions
imply holds, and once the program has ended so does the last assertion. -/
theorem Outline.holds {A C : σ → Prop} {p : List ι}
    (h : Outline prog interfere step Holds A p C)
    (hinterfere : ∀ s s', interfere s s' → prog s' = prog s)
    (hend : ∀ s s', prog s = [] → ¬step s s')
    (hC : ∀ s, prog s = [] → C s → Holds s)
    (hstable : ∀ s s', prog s = [] → C s → interfere s s' → C s')
    {s t : σ} (hprog : prog s = p) (hs : A s)
    (hrun : ReflTransGen (fun s s' ↦ interfere s s' ∨ step s s') s t) :
    Holds t ∧ (prog t = [] → C t) := by
  -- at any time the rest of the program has an outline whose assertion holds
  suffices hmain : ∃ B, Outline prog interfere step Holds B (prog t) C ∧ B t by
    obtain ⟨B, hB, ht⟩ := hmain
    generalize hq : prog t = q at hB
    cases hB with
    | nil hBC => exact ⟨hC t hq (hBC t ht), fun _ ↦ hBC t ht⟩
    | cons hBA hpoint hrest =>
      exact ⟨hpoint.holds t _ hq (hBA t ht), fun hnil ↦ absurd hnil (List.cons_ne_nil _ _)⟩
  induction hrun with
  | refl => exact ⟨A, hprog ▸ h, hs⟩
  | @tail u v _ huv ih =>
    obtain ⟨B, hB, hu⟩ := ih
    generalize hq : prog u = q at hB
    cases hB with
    | nil hBC =>
      rcases huv with henv | hstep
      · refine ⟨C, ?_, hstable u v hq (hBC u hu) henv⟩
        rw [hinterfere u v henv, hq]
        exact .nil fun s hs ↦ hs
      · exact absurd hstep (hend u v hq)
    | cons hBA hpoint hrest =>
      rcases huv with henv | hstep
      · refine ⟨_, ?_, hpoint.stable u v _ hq (hBA u hu) henv⟩
        rw [hinterfere u v henv, hq]
        exact .cons (fun s hs ↦ hs) hpoint hrest
      · rcases hpoint.next u v _ hq (hBA u hu) hstep with ⟨hv, hB⟩ | ⟨hv, hA⟩
        · exact ⟨_, hv ▸ hrest, hB⟩
        · exact ⟨_, hv ▸ .cons (fun s hs ↦ hs) hpoint hrest, hA⟩

end

/-! ## Termination -/

/-- Of a measure that is a sum over all parties, changing one party changes one summand. -/
theorem sum_update [Fintype ι] [DecidableEq ι] (f : ι → α → ℕ) (party : ι → α) (i : ι) (a : α) :
    ∑ j, f j (Function.update party i a j) + f i (party i) = ∑ j, f j (party j) + f i a := by
  have hrest : ∑ j ∈ Finset.univ.erase i, f j (Function.update party i a j)
      = ∑ j ∈ Finset.univ.erase i, f j (party j) :=
    Finset.sum_congr rfl fun j hj ↦ by
      rw [Function.update_of_ne (Finset.ne_of_mem_erase hj)]
  have hnew := Finset.add_sum_erase Finset.univ (fun j ↦ f j (Function.update party i a j))
    (Finset.mem_univ i)
  have hold := Finset.add_sum_erase Finset.univ (fun j ↦ f j (party j)) (Finset.mem_univ i)
  simp only [Function.update_self] at hnew hold
  omega

/-- A system whose steps decrease a measure comes to rest. -/
theorem exists_final {step : σ → σ → Prop} (μ : σ → ℕ) (hμ : ∀ s s', step s s' → μ s' < μ s)
    (s : σ) : ∃ t, ReflTransGen step s t ∧ ∀ u, ¬step t u := by
  induction hn : μ s using Nat.strong_induction_on generalizing s with
  | _ n ih =>
    by_cases hfinal : ∀ u, ¬step s u
    · exact ⟨s, .refl, hfinal⟩
    · obtain ⟨u, hu⟩ := not_forall_not.mp hfinal
      obtain ⟨t, hut, ht⟩ := ih (μ u) (hn ▸ hμ s u hu) u rfl
      exact ⟨t, .head hu hut, ht⟩

/-- If a measure decreases with every step that is taken while an invariant holds, no run from a
state in which it holds goes on forever. -/
theorem acc_of_measure {step : σ → σ → Prop} {I : σ → Prop} (μ : σ → ℕ)
    (hI : ∀ s s', I s → step s s' → I s') (hμ : ∀ s s', I s → step s s' → μ s' < μ s) {s : σ}
    (hs : I s) : Acc (fun t s ↦ step s t) s := by
  induction hn : μ s using Nat.strong_induction_on generalizing s with
  | _ n ih => exact ⟨_, fun t hst ↦ ih (μ t) (hn ▸ hμ s t hs hst) (hI s t hs hst) rfl⟩

/-- What cannot go on forever comes to rest. -/
theorem exists_final_of_acc {step : σ → σ → Prop} {s : σ} (h : Acc (fun t s ↦ step s t) s) :
    ∃ t, ReflTransGen step s t ∧ ∀ u, ¬step t u := by
  induction h with
  | intro s _ ih =>
    by_cases hfinal : ∀ u, ¬step s u
    · exact ⟨s, .refl, hfinal⟩
    · obtain ⟨u, hu⟩ := not_forall_not.mp hfinal
      obtain ⟨t, hut, ht⟩ := ih u hu
      exact ⟨t, .head hu hut, ht⟩

/-- The steps and the disturbances of a run, counted. -/
inductive Counted (step disturb : σ → σ → Prop) : ℕ → ℕ → σ → σ → Prop
  | refl (s : σ) : Counted step disturb 0 0 s s
  | step {k d : ℕ} {s t u : σ} : Counted step disturb k d s t → step t u →
      Counted step disturb (k + 1) d s u
  | disturb {k d : ℕ} {s t u : σ} : Counted step disturb k d s t → disturb t u →
      Counted step disturb k (d + 1) s u

/-- **Bounded runs.** If a step decreases the measure and a disturbance adds at most one to it, the
number of steps is bounded by the measure and the number of disturbances. -/
theorem Counted.le {step disturb : σ → σ → Prop} (μ : σ → ℕ)
    (hstep : ∀ s s', step s s' → μ s' < μ s) (hdisturb : ∀ s s', disturb s s' → μ s' ≤ μ s + 1)
    {k d : ℕ} {s t : σ} (h : Counted step disturb k d s t) : k + μ t ≤ μ s + d := by
  induction h with
  | refl s => exact le_of_eq (Nat.add_comm 0 (μ s))
  | step _ htu ih =>
    have := hstep _ _ htu
    omega
  | disturb _ htu ih =>
    have := hdisturb _ _ htu
    omega

end Runs

end MpiTestSuite

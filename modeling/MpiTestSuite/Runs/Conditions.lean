import Mathlib.Data.Nat.Find
import Mathlib.Data.Set.Basic

/-!
# Waiting for conditions

Several parties execute one list of instructions each. An instruction may wait for conditions, and a
condition needs certain instructions of certain parties before it can hold. When those have been
executed it may still take something else for it to hold, which is nobody's instruction.

If the instructions have levels that do not decrease along a program, and a condition needs only
instructions of lower levels than the one that waits for it, no parties wait for each other in a
circle (`Leveled.exists_ready`): whoever has come to an instruction of the lowest level can execute
it, or waits for a condition for which everybody has done its part.
-/

namespace MpiTestSuite

namespace Runs

namespace Conditions

variable {ι α γ : Type*}

/-- The instructions have levels. -/
structure Leveled (waits : ι → α → Set γ) (needs : γ → Set (ι × α)) (level : ι → α → ℕ)
    (prog : ι → List α) : Prop where
  sorted : ∀ i, (prog i).Pairwise fun a b ↦ level i a ≤ level i b
  needed : ∀ i, ∀ a ∈ prog i, ∀ c ∈ waits i a, ∀ x ∈ needs c,
    x.2 ∈ prog x.1 ∧ level x.1 x.2 < level i a

namespace Leveled

variable {waits : ι → α → Set γ} {needs : γ → Set (ι × α)} {level : ι → α → ℕ}
  {prog done todo : ι → List α}

/-- What has a lower level than the next instruction has been executed. -/
theorem mem_done (h : Leveled waits needs level prog) (hsplit : ∀ i, done i ++ todo i = prog i)
    {i : ι} {a b : α} {rest : List α} (htodo : todo i = a :: rest) (hb : b ∈ prog i)
    (hlt : level i b < level i a) : b ∈ done i := by
  have hsorted := h.sorted i
  rw [← hsplit i, htodo] at hb hsorted
  rcases List.mem_append.mp hb with hdone | hleft
  · exact hdone
  rcases List.mem_cons.mp hleft with rfl | hrest
  · exact absurd hlt (lt_irrefl _)
  · have hle := (List.pairwise_cons.mp (List.pairwise_append.mp hsorted).2.1).1 b hrest
    exact absurd hlt (Nat.not_lt.mpr hle)

/-- What has a higher level than the next instruction has not been executed. -/
theorem not_mem_done (h : Leveled waits needs level prog) (hsplit : ∀ i, done i ++ todo i = prog i)
    {i : ι} {a b : α} {rest : List α} (htodo : todo i = a :: rest)
    (hlt : level i a < level i b) : b ∉ done i := by
  intro hb
  have hsorted := h.sorted i
  rw [← hsplit i, htodo] at hsorted
  have hle := (List.pairwise_append.mp hsorted).2.2 b hb a List.mem_cons_self
  exact absurd hlt (Nat.not_lt.mpr hle)

/-- What has a lower level than an instruction that has been executed has been executed before. -/
theorem mem_done_of_done (h : Leveled waits needs level prog)
    (hsplit : ∀ i, done i ++ todo i = prog i) {i : ι} {a b : α} (ha : a ∈ done i)
    (hb : b ∈ prog i) (hlt : level i b < level i a) : b ∈ done i := by
  have hsorted := h.sorted i
  rw [← hsplit i] at hb hsorted
  rcases List.mem_append.mp hb with hdone | hleft
  · exact hdone
  · have hle := (List.pairwise_append.mp hsorted).2.2 a ha b hleft
    exact absurd hlt (Nat.not_lt.mpr hle)

/-- **No circles.** As long as somebody has something left to do, somebody can go on, or waits for a
condition although all that it needs has been done. -/
theorem exists_ready (h : Leveled waits needs level prog) (hsplit : ∀ i, done i ++ todo i = prog i)
    (holds : γ → Prop) {i : ι} (hi : todo i ≠ []) :
    ∃ j a rest, todo j = a :: rest ∧ ((∀ c ∈ waits j a, holds c) ∨
      ∃ c ∈ waits j a, ¬holds c ∧ ∀ x ∈ needs c, x.2 ∈ done x.1) := by
  classical
  -- among the next instructions there is one of the lowest level
  have hsome : ∃ n, ∃ j a rest, todo j = a :: rest ∧ level j a = n := by
    obtain ⟨a, rest, htodo⟩ := List.exists_cons_of_ne_nil hi
    exact ⟨_, i, a, rest, htodo, rfl⟩
  obtain ⟨j, a, rest, htodo, hlevel⟩ := Nat.find_spec hsome
  refine ⟨j, a, rest, htodo, ?_⟩
  by_cases hall : ∀ c ∈ waits j a, holds c
  · exact .inl hall
  obtain ⟨c, hc⟩ := not_forall.mp hall
  obtain ⟨hwaits, hnot⟩ := Classical.not_imp.mp hc
  refine .inr ⟨c, hwaits, hnot, fun x hx ↦ ?_⟩
  have ha : a ∈ prog j := by
    rw [← hsplit j, htodo]
    exact List.mem_append_right _ List.mem_cons_self
  obtain ⟨hmem, hlt⟩ := h.needed j a ha c hwaits x hx
  rw [hlevel] at hlt
  by_contra hdone
  -- otherwise its party would be at an instruction of a lower level
  have hleft : x.2 ∈ todo x.1 := by
    rw [← hsplit x.1] at hmem
    exact (List.mem_append.mp hmem).resolve_left hdone
  obtain ⟨b, rest', htodo'⟩ := List.exists_cons_of_ne_nil (List.ne_nil_of_mem hleft)
  have hnext : ¬level x.1 x.2 < level x.1 b := fun hlower ↦
    hdone (h.mem_done hsplit htodo' (hsplit x.1 ▸ List.mem_append_right _ hleft) hlower)
  exact Nat.find_min hsome (Nat.lt_of_le_of_lt (Nat.not_lt.mp hnext) hlt)
    ⟨x.1, b, rest', htodo', rfl⟩

end Leveled

end Conditions

end Runs

end MpiTestSuite

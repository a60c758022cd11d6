import MpiTestSuite.Runs.Isolation
import MpiTestSuite.Runs.Outline

/-!
# Progress

If in every round each process either sends or receives from anybody, an orderly state in which
something is left to be done always has a timely step: somebody who is in the earliest of all rounds
sends, or waits for somebody who is in this round, too, and sends. As every step is one instruction
less to be done, timely runs lead to the end of all programs (`exists_finished`).
-/

open Relation

namespace MpiTestSuite

namespace Runs

namespace Network

variable {ι κ π : Type*} [Fintype ι] [DecidableEq ι] [DecidableEq κ]

/-- In every round a process either sends messages with the keys `K` or receives such messages from
anybody. -/
structure Halves (K : List κ) (rounds : ι → List (List (Instr ι κ π))) : Prop where
  sends : ∀ r i dest k payload, .send dest k payload ∈ instrsAt rounds r i → k ∈ K
  receives : ∀ q i source wants accept, .recv source wants accept ∈ instrsAt rounds q i →
    source = none ∧ ∃ k ∈ K, wants k = true
  apart : ∀ q i source wants accept dest k payload,
    .recv source wants accept ∈ instrsAt rounds q i → .send dest k payload ∉ instrsAt rounds q i
  noBarrier : ∀ q i, .barrier ∉ instrsAt rounds q i

variable {K : List κ} {rounds : ι → List (List (Instr ι κ π))} {s s' : State ι κ π} {i : ℕ}

/-- Nothing is left to be done in a round before `i`. -/
def State.From (s : State ι κ π) (i : ℕ) : Prop := ∀ r, ∀ l ∈ s.prog r, i ≤ l.1

omit [Fintype ι] [DecidableEq ι] [DecidableEq κ] in
/-- A process has nothing to do in a round before the one that it is in. -/
theorem Genuine.le_of_mem (h : Genuine rounds s) {r : ι} {a : Instr ι κ π}
    {rest : List (ℕ × Instr ι κ π)} (hprog : s.prog r = (i, a) :: rest) {l : ℕ × Instr ι κ π}
    (hl : l ∈ s.prog r) : i ≤ l.1 := by
  have hsorted := (pairwise_numbered 0 (rounds r)).sublist (h.suffix r).sublist
  rw [hprog] at hsorted hl
  rcases List.mem_cons.mp hl with rfl | hl
  · exact le_refl _
  · exact List.rel_of_pairwise_cons hsorted hl

omit [Fintype ι] [DecidableEq ι] [DecidableEq κ] in
/-- Somebody is in the earliest round. -/
theorem Genuine.exists_from (h : Genuine rounds s) {q : ι} (hq : s.prog q ≠ []) :
    ∃ r i a rest, s.prog r = (i, a) :: rest ∧ s.From i := by
  classical
  have hsome : ∃ i, ∃ r, ∃ l ∈ s.prog r, l.1 = i :=
    ⟨_, q, _, List.head_mem hq, rfl⟩
  obtain ⟨r, l, hl, hround⟩ := Nat.find_spec hsome
  obtain ⟨⟨i, a⟩, rest, hprog⟩ := List.exists_cons_of_ne_nil (List.ne_nil_of_mem hl)
  refine ⟨r, i, a, rest, hprog, fun r' l' hl' ↦ ?_⟩
  calc i ≤ l.1 := h.le_of_mem hprog hl
    _ = Nat.find hsome := hround
    _ ≤ l'.1 := Nat.find_min' hsome ⟨r', l', hl', rfl⟩

namespace Orderly

/-- Whoever is to receive a message has yet to do so, so what is pending is of no earlier round. -/
theorem le_of_mem_pending (h : Orderly K rounds s) (hfrom : s.From i) {k : κ} (hk : k ∈ K) {q r : ι}
    {j : ℕ} (hj : j ∈ s.pending q k r) : i ≤ j := by
  have hsum : 0 < ∑ r, (s.pending q k r).count j :=
    lt_of_lt_of_le (List.count_pos_iff.mpr hj)
      (Finset.single_le_sum (f := fun r ↦ (s.pending q k r).count j) (fun _ _ ↦ Nat.zero_le _)
        (Finset.mem_univ r))
  rw [h.balanced k hk q j] at hsum
  obtain ⟨l, hl, rfl⟩ := List.mem_map.mp (List.count_pos_iff.mp hsum)
  exact hfrom q l (List.mem_of_mem_filter hl)

theorem exists_of_send (h : Orderly K rounds s) (hfrom : s.From i) {r dest : ι} {k : κ}
    {payload : π} {rest : List (ℕ × Instr ι κ π)}
    (hprog : s.prog r = (i, .send dest k payload) :: rest) : ∃ s', TimelyNext K s s' := by
  refine ⟨_, .advance r, ?_, .send hprog⟩
  intro l hl
  rw [hprog, List.head?_cons] at hl
  obtain rfl := Option.mem_some.mp hl
  exact fun hk r' _ j hj ↦ h.le_of_mem_pending hfrom hk hj

omit [Fintype ι] in
/-- A message on its way can be received. -/
theorem exists_of_onTheWay {q r : ι} {wants : κ → Bool} {accept : Message κ π → Bool} {k : κ}
    {rest : List (ℕ × Instr ι κ π)} {j : ℕ}
    (hprog : s.prog q = (i, .recv none wants accept) :: rest) (hwants : wants k = true)
    (hj : j ∈ onTheWay k (s.channel (r, q))) : ∃ s', TimelyNext K s s' := by
  obtain ⟨m, hm, -⟩ := List.mem_map.mp hj
  obtain ⟨hm, hkey⟩ := List.mem_filter.mp hm
  have hfind : ((s.channel (r, q)).find? fun m ↦ wants m.key).isSome = true := by
    rw [List.find?_isSome]
    exact ⟨m, hm, by rw [of_decide_eq_true hkey, hwants]⟩
  obtain ⟨m', hm'⟩ := Option.isSome_iff_exists.mp hfind
  exact ⟨_, .receive q r, trivial,
    .recv hprog (fun _ hnone ↦ absurd hnone (Option.not_mem_none _)) hm'⟩

/-- **Progress.** As long as something is left to be done, there is a timely step. -/
theorem exists_timelyNext (hlive : Halves K rounds) (h : Orderly K rounds s) {q : ι}
    (hq : s.prog q ≠ []) : ∃ s', TimelyNext K s s' := by
  obtain ⟨r, i, a, rest, hprog, hfrom⟩ := h.exists_from hq
  have ha := h.mem_instrsAt hprog
  cases a with
  | send dest k payload => exact h.exists_of_send hfrom hprog
  | barrier => exact absurd ha (hlive.noBarrier r i)
  | recv source wants accept =>
    obtain ⟨rfl, k, hk, hwants⟩ := hlive.receives r i source wants accept ha
    -- somebody has a message for this round
    have hexpected : 0 < (s.expected r k).count i := by
      rw [State.expected, hprog, roundsOf_cons, List.count_append]
      simp [Instr.wantsKey, hwants]
    rw [← h.balanced k hk r i] at hexpected
    obtain ⟨r', -, hr'⟩ := Finset.exists_ne_zero_of_sum_ne_zero hexpected.ne'
    rcases List.mem_append.mp (List.count_pos_iff.mp (Nat.pos_of_ne_zero hr')) with hway | hprog'
    · exact exists_of_onTheWay hprog hwants hway
    · -- who has not sent it yet, and is in this round, too
      obtain ⟨⟨j, b⟩, hb, rfl⟩ := List.mem_map.mp hprog'
      obtain ⟨hb, hsends⟩ := List.mem_filter.mp hb
      obtain ⟨⟨j', b'⟩, rest', hhead⟩ := List.exists_cons_of_ne_nil (List.ne_nil_of_mem hb)
      have hround : j' = j := le_antisymm (h.le_of_mem hhead hb)
        (hfrom r' (j', b') (by rw [hhead]; exact List.mem_cons_self))
      subst hround
      have hb : b ∈ instrsAt rounds r' j' := mem_numbered ((h.suffix r').subset hb)
      have hb' := h.mem_instrsAt hhead
      cases b' with
      | send dest' k' payload' => exact h.exists_of_send hfrom hhead
      | barrier => exact absurd hb' (hlive.noBarrier r' j')
      | recv source' wants' accept' =>
        cases b with
        | send dest k' payload =>
          exact absurd hb (hlive.apart r' j' source' wants' accept' dest k' payload hb')
        | recv => cases hsends
        | barrier => cases hsends

end Orderly

/-- The number of instructions left. -/
def State.left (s : State ι κ π) : ℕ := ∑ r, (s.prog r).length

omit [DecidableEq κ] in
theorem left_update {r : ι} {l : ℕ × Instr ι κ π} {rest rest' : List (ℕ × Instr ι κ π)}
    (hprog : s.prog r = l :: rest) (hrest : rest'.length ≤ rest.length)
    (hs' : s'.prog = Function.update s.prog r rest') : s'.left < s.left := by
  rw [State.left, State.left, hs']
  refine Finset.sum_lt_sum (fun r' _ ↦ ?_) ⟨r, Finset.mem_univ r, ?_⟩
  · rcases eq_or_ne r' r with rfl | hr
    · rw [Function.update_self, hprog, List.length_cons]
      omega
    · rw [Function.update_of_ne hr]
  · rw [Function.update_self, hprog, List.length_cons]
    omega

omit [DecidableEq κ] in
theorem Step.left_lt (hlive : Halves K rounds) (h : Genuine rounds s) {v : Move ι}
    (hstep : Step s v s') : s'.left < s.left := by
  cases hstep with
  | send hprog => exact left_update hprog (le_refl _) rfl
  | enter hprog => exact absurd (h.mem_instrsAt hprog) (hlive.noBarrier _ _)
  | leave hprog => exact left_update hprog (le_refl _) rfl
  | recv hprog =>
    refine left_update hprog ?_ rfl
    split_ifs
    · exact le_refl _
    · exact Nat.zero_le _

/-- **The end.** From every orderly state a timely run leads to one in which all is done. -/
theorem exists_finished (hK : Exchange K rounds) (hlive : Halves K rounds)
    (h : Orderly K rounds s) :
    ∃ t, ReflTransGen (TimelyNext K) s t ∧ Orderly K rounds t ∧ ∀ q, t.prog q = [] := by
  have hmeasure : ∀ s s' : State ι κ π, Orderly K rounds s ∧ TimelyNext K s s' →
      s'.left < s.left := by
    rintro s s' ⟨horderly, v, -, hstep⟩
    exact hstep.left_lt hlive horderly.toGenuine
  obtain ⟨t, hrun, hfinal⟩ := exists_final State.left hmeasure s
  replace hrun := hrun.lift id fun _ _ ↦ And.right
  have ht := h.run hK hrun
  refine ⟨t, hrun, ht, fun q ↦ ?_⟩
  by_contra hq
  obtain ⟨u, hu⟩ := ht.exists_timelyNext hlive hq
  exact hfinal u ⟨ht, hu⟩

end Network

end Runs

end MpiTestSuite

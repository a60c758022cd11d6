import MpiTestSuite.Runs.Isolation

/-!
# Rounds between barriers

A receive that takes any message at all, whatever its key, cannot be kept apart from other rounds by
keys. Barriers do it (`Kept.step`): if all processes come to a barrier that has all messages of
earlier rounds in front of it and all others behind it (`Cut`), and everybody is sent as many
messages in each round as it receives, then nothing is on its way when they leave it, and no message
of a round in front of it is received behind it or the other way round.

It does not matter what happens between two such barriers. Whoever gives up there does not come to
the next one, and nobody leaves it.
-/

open Relation

namespace MpiTestSuite

namespace Runs

namespace Network

variable {ι κ π : Type*}

namespace Instr

def isBarrier : Instr ι κ π → Bool
  | barrier => true
  | _ => false

def isRecv : Instr ι κ π → Bool
  | recv .. => true
  | _ => false

variable [DecidableEq ι]

/-- The instruction sends something to `q`. -/
def isSendTo (q : ι) : Instr ι κ π → Bool
  | send dest _ _ => dest = q
  | _ => false

end Instr

/-! ## Cuts -/

/-- A line of a program that sends or receives. -/
abbrev Talks (l : ℕ × Instr ι κ π) : Prop := l.2.isBarrier = false

/-- All processes come to a barrier after `b` others, with the rounds before `i` in front of it and
the others behind it. -/
def Cut (rounds : ι → List (List (Instr ι κ π))) (i : ℕ) : Prop :=
  ∃ b, ∀ r, ∃ before j after, numbered 0 (rounds r) = before ++ (j, .barrier) :: after ∧
    before.countP (fun l ↦ l.2.isBarrier) = b ∧ (∀ l ∈ before, Talks l → l.1 < i) ∧
    ∀ l ∈ after, Talks l → i ≤ l.1

section

variable {α : Type*}

theorem numbered_append (n : ℕ) (l₁ l₂ : List (List α)) :
    numbered n (l₁ ++ l₂) = numbered n l₁ ++ numbered (n + l₁.length) l₂ := by
  induction l₁ generalizing n with
  | nil => rfl
  | cons l l₁ ih =>
    rw [List.cons_append, numbered, numbered, ih, List.append_assoc, List.length_cons,
      Nat.add_right_comm n 1, Nat.add_assoc n]

theorem numbered_eq_of_getElem? {ls : List (List α)} {i : ℕ} {l : List α}
    (h : ls[i]? = some l) : numbered 0 ls
      = numbered 0 (ls.take i) ++ l.map (i, ·) ++ numbered (i + 1) (ls.drop (i + 1)) := by
  obtain ⟨hi, rfl⟩ := List.getElem?_eq_some_iff.mp h
  conv_lhs => rw [← List.take_append_drop i ls, List.drop_eq_getElem_cons hi, numbered_append,
    numbered, List.length_take_of_le hi.le, Nat.zero_add, ← List.append_assoc]

theorem lt_of_mem_numbered {n : ℕ} {ls : List (List α)} {l : ℕ × α} (h : l ∈ numbered n ls) :
    l.1 < n + ls.length := by
  induction ls generalizing n with
  | nil => cases h
  | cons l' ls ih =>
    rw [List.length_cons]
    rcases List.mem_append.mp h with h | h
    · obtain ⟨a, -, rfl⟩ := List.mem_map.mp h
      exact Nat.lt_add_of_pos_right (Nat.succ_pos _)
    · have := ih h
      omega

theorem countP_numbered_congr {P : α → Bool} (n : ℕ) (ls ls' : List (List α))
    (h : ls.map (List.countP P) = ls'.map (List.countP P)) :
    (numbered n ls).countP (fun l ↦ P l.2) = (numbered n ls').countP fun l ↦ P l.2 := by
  induction ls generalizing n ls' with
  | nil => rw [List.map_eq_nil_iff.mp h.symm]
  | cons l ls ih =>
    cases ls' with
    | nil => cases h
    | cons l' ls' =>
      obtain ⟨hcount, htail⟩ := List.cons_eq_cons.mp h
      have hline : ∀ l : List α, (l.map (n, ·)).countP (fun l ↦ P l.2) = l.countP P :=
        fun l ↦ by rw [List.countP_map]; rfl
      rw [numbered, numbered, List.countP_append, List.countP_append, ih (n + 1) ls' htail, hline,
        hline, hcount]

end

section

variable {rounds : ι → List (List (Instr ι κ π))} {i c : ℕ}

/-- If all go through equally many barriers in each round, and `b` others in front of one in round
`i`, this is a cut in front of round `c`, provided that it is the first or the last line. -/
theorem cut_of_line (b : ℕ) (hsame : ∀ r q, (rounds r).map (List.countP Instr.isBarrier)
      = (rounds q).map (List.countP Instr.isBarrier))
    (hline : ∀ r, ∃ l₁ l₂, (rounds r)[i]? = some (l₁ ++ .barrier :: l₂) ∧
      l₁.countP Instr.isBarrier = b ∧ (l₁ ≠ [] → i < c) ∧ (l₂ ≠ [] → c ≤ i))
    (hle : i ≤ c) (hlt : c ≤ i + 1) : Cut rounds c := by
  obtain ⟨n, hn⟩ : ∃ n, ∀ r,
      (numbered 0 ((rounds r).take i)).countP (fun l ↦ l.2.isBarrier) = n := by
    rcases isEmpty_or_nonempty ι with hempty | ⟨⟨q⟩⟩
    · exact ⟨0, fun r ↦ isEmptyElim r⟩
    · refine ⟨_, fun r ↦ countP_numbered_congr 0 _ ((rounds q).take i) ?_⟩
      rw [List.map_take, hsame r q, List.map_take]
  refine ⟨n + b, fun r ↦ ?_⟩
  obtain ⟨l₁, l₂, hi, hb, h₁, h₂⟩ := hline r
  refine ⟨numbered 0 ((rounds r).take i) ++ l₁.map (i, ·), i,
    l₂.map (i, ·) ++ numbered (i + 1) ((rounds r).drop (i + 1)), ?_, ?_, ?_, ?_⟩
  · rw [numbered_eq_of_getElem? hi, List.map_append, List.map_cons]
    simp only [List.append_assoc, List.cons_append]
  · rw [List.countP_append, hn, List.countP_map, ← hb]
    rfl
  · intro l hl _
    rcases List.mem_append.mp hl with hl | hl
    · have hbound := lt_of_mem_numbered hl
      have hlength := List.length_take_le i (rounds r)
      omega
    · obtain ⟨a, ha, rfl⟩ := List.mem_map.mp hl
      exact h₁ (List.ne_nil_of_mem ha)
  · intro l hl _
    rcases List.mem_append.mp hl with hl | hl
    · obtain ⟨a, ha, rfl⟩ := List.mem_map.mp hl
      exact h₂ (List.ne_nil_of_mem ha)
    · exact hlt.trans (le_of_mem_numbered hl)

end

/-! ## What is kept -/

section

variable [DecidableEq ι]

/-- What is kept by all steps, where `done` are the lines that each process has executed, `ahead`
are the others and `cuts` are rounds with a cut in front of them. -/
structure Kept (rounds : ι → List (List (Instr ι κ π))) (cuts : Set ℕ)
    (done ahead : ι → List (ℕ × Instr ι κ π)) (s : State ι κ π) : Prop where
  split : ∀ r, done r ++ ahead r = numbered 0 (rounds r)
  /-- A process goes on, or it has given up. -/
  goesOn : ∀ r, s.prog r = ahead r ∨ s.prog r = []
  entered : ∀ r, s.entered r = (done r).countP (fun l ↦ l.2.isBarrier) + (s.waiting r).toNat
  waiting : ∀ r, s.waiting r = true → ∃ j rest, s.prog r = (j, .barrier) :: rest
  /-- Whoever has left a barrier has left all in it behind. -/
  left : ∀ r q, (done r).countP (fun l ↦ l.2.isBarrier) ≤ s.entered q
  sent : ∀ r q, ∀ m ∈ s.channel (r, q), (m.round, .send q m.key m.payload) ∈ done r
  /-- What has been sent in some rounds is on its way or has been received. -/
  conserved : ∀ r q (P : ℕ → Bool), (s.channel (r, q)).countP (fun m ↦ P m.round)
      + (s.log q).countP (fun x ↦ x.source = r && P x.message.round)
    = (done r).countP fun l ↦ P l.1 && l.2.isSendTo q
  received : ∀ q (P : ℕ → Bool), (s.log q).countP (fun x ↦ P x.round)
    = (done q).countP fun l ↦ P l.1 && l.2.isRecv
  logged : ∀ q, ∀ x ∈ s.log q,
    (x.message.round, .send q x.message.key x.message.payload) ∈ done x.source ∧
      ∃ source wants accept, (x.round, .recv source wants accept) ∈ done q ∧
        wants x.message.key = true
  /-- No message is received on the other side of a cut. -/
  crossing : ∀ i ∈ cuts, ∀ q, ∀ x ∈ s.log q, x.round < i ↔ x.message.round < i

end

section

variable {α : Type*}

/-- The numbers below a bound, one after the other. -/
theorem countP_lt_eq_sum (l : List ℕ) (i : ℕ) :
    l.countP (fun n ↦ n < i) = ∑ j ∈ Finset.range i, l.count j := by
  induction l with
  | nil => simp
  | cons n l ih =>
    simp only [List.countP_cons, List.count_cons, Finset.sum_add_distrib, ih, beq_iff_eq,
      Finset.sum_ite_eq, Finset.mem_range, decide_eq_true_eq]

/-- What is done in the rounds before one. -/
theorem countP_numbered (P : α → Bool) (ls : List (List α)) (i : ℕ) :
    (numbered 0 ls).countP (fun l ↦ decide (l.1 < i) && P l.2)
      = ∑ j ∈ Finset.range i, (ls[j]?.getD []).countP P := by
  have hrounds : (numbered 0 ls).countP (fun l ↦ decide (l.1 < i) && P l.2)
      = (roundsOf P (numbered 0 ls)).countP fun n ↦ n < i := by
    rw [roundsOf, List.countP_map, List.countP_filter]
    rfl
  rw [hrounds, countP_lt_eq_sum]
  refine Finset.sum_congr rfl fun j _ ↦ ?_
  have hcount := count_roundsOf_numbered P 0 j ls
  rwa [zero_add] at hcount

/-- What is done in one round. -/
theorem countP_numbered_eq (P : α → Bool) (ls : List (List α)) (i : ℕ) :
    (numbered 0 ls).countP (fun l ↦ decide (l.1 = i) && P l.2) = (ls[i]?.getD []).countP P := by
  have hcount := count_roundsOf_numbered P 0 i ls
  rw [zero_add] at hcount
  rw [← hcount, roundsOf, List.count, List.countP_map, List.countP_filter]
  refine List.countP_congr fun l _ ↦ ?_
  simp [Function.comp_apply]

/-- Everything has one source. -/
theorem sum_countP_source [Fintype ι] [DecidableEq ι] (source : α → ι) (P : α → Bool)
    (l : List α) : ∑ r, l.countP (fun x ↦ decide (source x = r) && P x) = l.countP P := by
  induction l with
  | nil => simp
  | cons x l ih =>
    simp only [List.countP_cons, Finset.sum_add_distrib, ih, Bool.and_eq_true, decide_eq_true_eq]
    cases P x <;> simp

end

/-- What two sides of one list have in common. -/
theorem append_cons_cases {α : Type*} {l₁ l₂ k₁ k₂ : List α} {a : α}
    (h : l₁ ++ l₂ = k₁ ++ a :: k₂) :
    (∃ l, k₁ = l₁ ++ l ∧ l₂ = l ++ a :: k₂) ∨ ∃ l, l₁ = k₁ ++ a :: l ∧ k₂ = l ++ l₂ := by
  rcases List.append_eq_append_iff.mp h with ⟨l, hk, hl⟩ | ⟨l, hl, hk⟩
  · exact .inl ⟨l, hk, hl⟩
  · cases l with
    | nil => exact .inl ⟨[], by simpa using hl.symm, by simpa using hk.symm⟩
    | cons b l =>
      obtain ⟨rfl, rfl⟩ := List.cons_eq_cons.mp hk
      exact .inr ⟨l, hl, rfl⟩

namespace Kept

variable [DecidableEq ι] {rounds : ι → List (List (Instr ι κ π))} {cuts : Set ℕ}
  {done ahead : ι → List (ℕ × Instr ι κ π)} {s s' : State ι κ π} {i : ℕ}

theorem ahead_eq (h : Kept rounds cuts done ahead s) {r : ι} {l : ℕ × Instr ι κ π}
    {rest : List (ℕ × Instr ι κ π)} (hprog : s.prog r = l :: rest) : ahead r = l :: rest := by
  rcases h.goesOn r with hahead | hnil
  · exact hahead.symm.trans hprog
  · cases hprog.symm.trans hnil

/-- **Cuts.** If somebody has come to the far side of a cut, nobody has anything left to do on the
near side. -/
theorem le_of_beyond (h : Kept rounds cuts done ahead s) (hcut : Cut rounds i) {r : ι}
    (hbeyond : (∃ l ∈ done r, Talks l ∧ i ≤ l.1) ∨
      ∃ l rest, s.prog r = l :: rest ∧ Talks l ∧ i ≤ l.1) (q : ι) :
    ∀ l ∈ ahead q, Talks l → i ≤ l.1 := by
  obtain ⟨b, hcut⟩ := hcut
  -- the barrier has been left
  have hleft : b + 1 ≤ (done r).countP fun l ↦ l.2.isBarrier := by
    obtain ⟨before, j, after, hsplit, hcount, hbefore, -⟩ := hcut r
    rcases append_cons_cases ((h.split r).trans hsplit) with
      ⟨front, hfront, hback⟩ | ⟨front, hfront, -⟩
    · exfalso
      rcases hbeyond with ⟨l, hl, htalks, hle⟩ | ⟨l, rest, hprog, htalks, hle⟩
      · have hlt := hbefore l (hfront ▸ List.mem_append_left _ hl) htalks
        omega
      · rw [h.ahead_eq hprog] at hback
        cases front with
        | nil =>
          obtain ⟨rfl, -⟩ := List.cons_eq_cons.mp hback
          cases htalks
        | cons l' front =>
          obtain ⟨rfl, -⟩ := List.cons_eq_cons.mp hback
          have hlt := hbefore l (hfront ▸ by simp) htalks
          omega
    · rw [hfront, List.countP_append, List.countP_cons_of_pos rfl, hcount]
      omega
  obtain ⟨before, j, after, hsplit, hcount, -, hafter⟩ := hcut q
  have hentered := hleft.trans (h.left r q)
  rw [h.entered q] at hentered
  rcases append_cons_cases ((h.split q).trans hsplit) with
    ⟨front, hfront, hback⟩ | ⟨front, -, hback⟩
  · -- at the barrier itself nothing stands in front of it
    have hnil : front = [] := by
      cases front with
      | nil => rfl
      | cons l front =>
        exfalso
        rw [hfront, List.countP_append, List.countP_cons] at hcount
        cases hwaiting : s.waiting q with
        | false =>
          rw [hwaiting, Bool.toNat_false] at hentered
          omega
        | true =>
          obtain ⟨j', rest, hprog⟩ := h.waiting q hwaiting
          rw [h.ahead_eq hprog] at hback
          obtain ⟨rfl, -⟩ := List.cons_eq_cons.mp hback
          rw [hwaiting, Bool.toNat_true] at hentered
          have hbarrier : ((j', .barrier) : ℕ × Instr ι κ π).2.isBarrier = true := rfl
          rw [if_pos hbarrier] at hcount
          omega
    subst hnil
    intro l hl htalks
    rw [hback] at hl
    rcases List.mem_cons.mp hl with rfl | hl
    · cases htalks
    · exact hafter l hl htalks
  · exact fun l hl ↦ hafter l (hback ▸ List.mem_append_right _ hl)

/-- At the far side of a cut nothing is on its way that was sent on the near side. -/
theorem le_round_of_beyond [Fintype ι] (hbalanced : ∀ q i,
      ∑ r, (instrsAt rounds r i).countP (Instr.isSendTo q)
        = (instrsAt rounds q i).countP Instr.isRecv)
    (h : Kept rounds cuts done ahead s) (hi : i ∈ cuts)
    (hbeyond : ∀ q, ∀ l ∈ ahead q, Talks l → i ≤ l.1) (r q : ι) :
    ∀ m ∈ s.channel (r, q), i ≤ m.round := by
  -- what is left to be done is not counted
  have hdone : ∀ r' (P : Instr ι κ π → Bool), (∀ a, P a = true → a.isBarrier = false) →
      (done r').countP (fun l ↦ decide (l.1 < i) && P l.2)
        = ∑ j ∈ Finset.range i, (instrsAt rounds r' j).countP P := by
    intro r' P hP
    refine Eq.trans ?_ (countP_numbered P (rounds r') i)
    rw [← h.split r', List.countP_append, Nat.left_eq_add, List.countP_eq_zero]
    intro l hl hcount
    obtain ⟨hlt, hP'⟩ := Bool.and_eq_true_iff.mp hcount
    exact absurd (of_decide_eq_true hlt) (Nat.not_lt.mpr (hbeyond r' l hl (hP l.2 hP')))
  have hsends : ∀ a : Instr ι κ π, a.isSendTo q = true → a.isBarrier = false := by
    intro a ha
    cases a with
    | barrier => cases ha
    | _ => rfl
  have hrecvs : ∀ a : Instr ι κ π, a.isRecv = true → a.isBarrier = false := by
    intro a ha
    cases a with
    | barrier => cases ha
    | _ => rfl
  have hall : ∑ r', (s.channel (r', q)).countP (fun m ↦ m.round < i)
      + (s.log q).countP (fun x ↦ x.message.round < i)
      = (s.log q).countP fun x ↦ x.round < i := by
    rw [← sum_countP_source Receipt.source, ← Finset.sum_add_distrib,
      h.received q (fun n ↦ n < i), hdone q _ hrecvs]
    simp only [← hbalanced]
    rw [Finset.sum_comm]
    refine Finset.sum_congr rfl fun r' _ ↦ ?_
    rw [h.conserved r' q (fun n ↦ n < i), hdone r' _ hsends]
  have hcrossing : (s.log q).countP (fun x ↦ x.round < i)
      = (s.log q).countP fun x ↦ x.message.round < i :=
    List.countP_congr fun x hx ↦ by
      simpa only [decide_eq_true_eq] using h.crossing i hi q x hx
  rw [hcrossing, Nat.add_eq_right, Finset.sum_eq_zero_iff] at hall
  intro m hm
  by_contra hlt
  exact List.countP_eq_zero.mp (hall r (Finset.mem_univ r)) m hm
    (decide_eq_true (Nat.not_le.mp hlt))

end Kept

/-! ## Steps -/

/-- In every round everybody is sent as many messages as it receives, and the rounds `cuts` have a
cut in front of them. -/
structure Fenced [Fintype ι] [DecidableEq ι] (rounds : ι → List (List (Instr ι κ π)))
    (cuts : Set ℕ) : Prop where
  balanced : ∀ q i, ∑ r, (instrsAt rounds r i).countP (Instr.isSendTo q)
    = (instrsAt rounds q i).countP Instr.isRecv
  cut : ∀ i ∈ cuts, Cut rounds i

section

variable [DecidableEq ι] {done : ι → List (ℕ × Instr ι κ π)} {r : ι} {l : ℕ × Instr ι κ π}

theorem mem_execute {x : ℕ × Instr ι κ π} {r' : ι} (hx : x ∈ done r') :
    x ∈ Function.update done r (done r ++ [l]) r' := by
  rcases eq_or_ne r' r with rfl | hr
  · rw [Function.update_self]
    exact List.mem_append_left _ hx
  · rwa [Function.update_of_ne hr]

theorem mem_execute_self : l ∈ Function.update done r (done r ++ [l]) r := by
  rw [Function.update_self]
  exact List.mem_append_right _ (List.mem_singleton_self l)

theorem countP_execute (P : ℕ × Instr ι κ π → Bool) (r' : ι) :
    (Function.update done r (done r ++ [l]) r').countP P
      = (done r').countP P + if r' = r ∧ P l = true then 1 else 0 := by
  rcases eq_or_ne r' r with rfl | hr
  · simp [List.countP_singleton]
  · simp [hr]

theorem countP_execute_of_neg {P : ℕ × Instr ι κ π → Bool} (hP : P l = false) (r' : ι) :
    (Function.update done r (done r ++ [l]) r').countP P = (done r').countP P := by
  rw [countP_execute, if_neg fun h ↦ Bool.false_ne_true (hP.symm.trans h.2), Nat.add_zero]

end

/-- A message that is taken out of a channel is one less there. -/
theorem countP_take {wants : κ → Bool} {l : List (Message κ π)} {m : Message κ π}
    (h : l.find? (fun m ↦ wants m.key) = some m) (P : Message κ π → Bool) :
    l.countP P = (l.eraseP fun m ↦ wants m.key).countP P + if P m = true then 1 else 0 := by
  obtain ⟨hm, l₁, l₂, rfl, hl₁⟩ := List.find?_eq_some_iff_append.mp h
  rw [List.eraseP_append_right _ (fun x hx ↦ by simpa using hl₁ x hx),
    List.eraseP_cons_of_pos (p := fun m : Message κ π ↦ wants m.key) hm, List.countP_append,
    List.countP_append, List.countP_cons, Nat.add_assoc]

namespace Kept

variable [DecidableEq ι] {rounds : ι → List (List (Instr ι κ π))} {cuts : Set ℕ}
  {done ahead : ι → List (ℕ × Instr ι κ π)} {s s' : State ι κ π}

theorem init : Kept rounds cuts (fun _ ↦ []) (fun r ↦ numbered 0 (rounds r))
    (State.init rounds) where
  split _ := rfl
  goesOn _ := .inl rfl
  entered _ := rfl
  waiting _ hwaiting := nomatch hwaiting
  left _ _ := le_rfl
  sent _ _ _ hm := absurd hm List.not_mem_nil
  conserved _ _ _ := rfl
  received _ _ := rfl
  logged _ _ hx := absurd hx List.not_mem_nil
  crossing _ _ _ _ hx := absurd hx List.not_mem_nil

theorem mem_instrsAt (h : Kept rounds cuts done ahead s) {r : ι} {i : ℕ} {a : Instr ι κ π}
    (hl : (i, a) ∈ done r) : a ∈ instrsAt rounds r i :=
  mem_numbered (h.split r ▸ List.mem_append_left _ hl)

theorem split_execute (h : Kept rounds cuts done ahead s) {r : ι} {l : ℕ × Instr ι κ π}
    {rest : List (ℕ × Instr ι κ π)} (hprog : s.prog r = l :: rest) (r' : ι) :
    Function.update done r (done r ++ [l]) r' ++ Function.update ahead r rest r'
      = numbered 0 (rounds r') := by
  rcases eq_or_ne r' r with rfl | hr
  · rw [Function.update_self, Function.update_self, List.append_assoc, List.singleton_append,
      ← h.ahead_eq hprog]
    exact h.split r'
  · rw [Function.update_of_ne hr, Function.update_of_ne hr]
    exact h.split r'

theorem goesOn_execute (h : Kept rounds cuts done ahead s) {r : ι}
    {rest rest' : List (ℕ × Instr ι κ π)} (hrest : rest' = rest ∨ rest' = []) (r' : ι) :
    Function.update s.prog r rest' r' = Function.update ahead r rest r' ∨
      Function.update s.prog r rest' r' = [] := by
  rcases eq_or_ne r' r with rfl | hr
  · rwa [Function.update_self, Function.update_self]
  · rw [Function.update_of_ne hr, Function.update_of_ne hr]
    exact h.goesOn r'

/-- A message that is received is from the same side of all cuts. -/
theorem lt_iff_of_recv [Fintype ι] (hrounds : Fenced rounds cuts)
    (h : Kept rounds cuts done ahead s)
    {q r : ι} {i : ℕ} {source : Option ι} {wants : κ → Bool} {accept : Message κ π → Bool}
    {rest : List (ℕ × Instr ι κ π)} {m : Message κ π}
    (hprog : s.prog q = (i, .recv source wants accept) :: rest) (hm : m ∈ s.channel (r, q)) :
    ∀ c ∈ cuts, i < c ↔ m.round < c := by
  intro c hc
  constructor
  · intro hlt
    by_contra hle
    have hbeyond := h.le_of_beyond (hrounds.cut c hc)
      (.inl ⟨_, h.sent r q m hm, rfl, Nat.not_lt.mp hle⟩) q
    have := hbeyond (i, .recv source wants accept) (h.ahead_eq hprog ▸ List.mem_cons_self) rfl
    omega
  · intro hlt
    by_contra hle
    have hbeyond := h.le_of_beyond (hrounds.cut c hc)
      (.inr ⟨_, rest, hprog, rfl, Nat.not_lt.mp hle⟩)
    have := h.le_round_of_beyond hrounds.balanced hc hbeyond r q m hm
    omega

theorem step_send (h : Kept rounds cuts done ahead s) {r dest : ι} {j : ℕ} {key : κ} {payload : π}
    {rest : List (ℕ × Instr ι κ π)} (hprog : s.prog r = (j, .send dest key payload) :: rest) :
    Kept rounds cuts (Function.update done r (done r ++ [(j, .send dest key payload)]))
      (Function.update ahead r rest) (s.sent r dest ⟨j, key, payload⟩ rest) where
  split := h.split_execute hprog
  goesOn := h.goesOn_execute (.inl rfl)
  entered r' := by
    rw [countP_execute_of_neg rfl]
    exact h.entered r'
  waiting r' hwaiting := by
    have hr : r' ≠ r := by
      rintro rfl
      obtain ⟨j', rest', hprog'⟩ := h.waiting _ hwaiting
      cases hprog.symm.trans hprog'
    rw [State.sent_prog, Function.update_of_ne hr]
    exact h.waiting r' hwaiting
  left r' q := by
    rw [countP_execute_of_neg rfl]
    exact h.left r' q
  sent r' q m hm := by
    rw [State.sent_channel] at hm
    rcases eq_or_ne (r', q) (r, dest) with heq | hne
    · cases heq
      rw [Function.update_self] at hm
      rcases List.mem_append.mp hm with hm | hm
      · exact mem_execute (h.sent _ _ m hm)
      · obtain rfl := List.mem_singleton.mp hm
        exact mem_execute_self
    · rw [Function.update_of_ne hne] at hm
      exact mem_execute (h.sent r' q m hm)
  conserved r' q P := by
    have hconserved := h.conserved r' q P
    show (Function.update s.channel (r, dest) _ (r', q)).countP _ + (s.log q).countP _ = _
    rw [countP_execute, ← hconserved]
    rcases eq_or_ne (r', q) (r, dest) with heq | hne
    · cases heq
      rw [Function.update_self, List.countP_append, List.countP_singleton, Nat.add_right_comm]
      simp [Instr.isSendTo]
    · rw [Function.update_of_ne hne, if_neg, Nat.add_zero]
      rintro ⟨rfl, hsend⟩
      obtain ⟨-, hdest⟩ := Bool.and_eq_true_iff.mp hsend
      exact hne (congrArg _ (of_decide_eq_true hdest).symm)
  received q P := (h.received q P).trans (countP_execute_of_neg (Bool.and_false _) q).symm
  logged q x hx := by
    obtain ⟨hsend, source, wants, accept, hrecv, hwants⟩ := h.logged q x hx
    exact ⟨mem_execute hsend, source, wants, accept, mem_execute hrecv, hwants⟩
  crossing := h.crossing

theorem step_enter (h : Kept rounds cuts done ahead s) {r : ι} {j : ℕ}
    {rest : List (ℕ × Instr ι κ π)} (hprog : s.prog r = (j, .barrier) :: rest)
    (hwaiting : s.waiting r = false) : Kept rounds cuts done ahead (s.entering r) where
  split := h.split
  goesOn := h.goesOn
  entered r' := by
    have hentered := h.entered r'
    show Function.update s.entered r (s.entered r + 1) r'
      = _ + (Function.update s.waiting r true r').toNat
    rcases eq_or_ne r' r with rfl | hr
    · rw [hwaiting, Bool.toNat_false] at hentered
      rw [Function.update_self, Function.update_self, hentered, Bool.toNat_true]
    · rw [Function.update_of_ne hr, Function.update_of_ne hr, hentered]
  waiting r' hwaiting' := by
    rcases eq_or_ne r' r with rfl | hr
    · exact ⟨j, rest, hprog⟩
    · exact h.waiting r' ((Function.update_of_ne hr _ _).symm.trans hwaiting')
  left r' q := by
    refine (h.left r' q).trans ?_
    show _ ≤ Function.update s.entered r (s.entered r + 1) q
    rcases eq_or_ne q r with rfl | hq
    · rw [Function.update_self]
      exact Nat.le_succ _
    · rw [Function.update_of_ne hq]
  sent := h.sent
  conserved := h.conserved
  received := h.received
  logged := h.logged
  crossing := h.crossing

theorem step_leave (h : Kept rounds cuts done ahead s) {r : ι} {j : ℕ}
    {rest : List (ℕ × Instr ι κ π)} (hprog : s.prog r = (j, .barrier) :: rest)
    (hwaiting : s.waiting r = true) (hall : ∀ q, s.entered r ≤ s.entered q) :
    Kept rounds cuts (Function.update done r (done r ++ [(j, .barrier)]))
      (Function.update ahead r rest) (s.leaving r rest) where
  split := h.split_execute hprog
  goesOn := h.goesOn_execute (.inl rfl)
  entered r' := by
    have hentered := h.entered r'
    rw [countP_execute]
    show s.entered r' = _ + (Function.update s.waiting r false r').toNat
    rcases eq_or_ne r' r with rfl | hr
    · rw [hwaiting, Bool.toNat_true] at hentered
      rw [Function.update_self, if_pos ⟨rfl, rfl⟩, hentered, Bool.toNat_false, Nat.add_zero]
    · rw [Function.update_of_ne hr, if_neg fun h ↦ hr h.1, hentered, Nat.add_zero]
  waiting r' hwaiting' := by
    have hr : r' ≠ r := by
      rintro rfl
      exact Bool.false_ne_true ((Function.update_self _ _ _).symm.trans hwaiting')
    rw [State.leaving_prog, Function.update_of_ne hr]
    exact h.waiting r' ((Function.update_of_ne hr _ _).symm.trans hwaiting')
  left r' q := by
    rw [countP_execute]
    show _ ≤ s.entered q
    rcases eq_or_ne r' r with rfl | hr
    · -- it was in the barrier that it leaves
      rw [if_pos ⟨rfl, rfl⟩]
      refine le_trans (le_of_eq ?_) (hall q)
      rw [h.entered r', hwaiting, Bool.toNat_true]
    · rw [if_neg fun h ↦ hr h.1, Nat.add_zero]
      exact h.left r' q
  sent r' q m hm := mem_execute (h.sent r' q m hm)
  conserved r' q P :=
    (h.conserved r' q P).trans (countP_execute_of_neg (Bool.and_false _) r').symm
  received q P := (h.received q P).trans (countP_execute_of_neg (Bool.and_false _) q).symm
  logged q x hx := by
    obtain ⟨hsend, source, wants, accept, hrecv, hwants⟩ := h.logged q x hx
    exact ⟨mem_execute hsend, source, wants, accept, mem_execute hrecv, hwants⟩
  crossing := h.crossing

theorem step_recv [Fintype ι] (hrounds : Fenced rounds cuts) (h : Kept rounds cuts done ahead s)
    {q r : ι} {i : ℕ} {source : Option ι} {wants : κ → Bool} {accept : Message κ π → Bool}
    {rest rest' : List (ℕ × Instr ι κ π)} {m : Message κ π}
    (hprog : s.prog q = (i, .recv source wants accept) :: rest)
    (hfind : (s.channel (r, q)).find? (fun m ↦ wants m.key) = some m)
    (hrest : rest' = rest ∨ rest' = []) :
    Kept rounds cuts (Function.update done q (done q ++ [(i, .recv source wants accept)]))
      (Function.update ahead q rest) (s.received q wants ⟨i, r, m⟩ rest') where
  split := h.split_execute hprog
  goesOn := h.goesOn_execute hrest
  entered r' := by
    rw [countP_execute_of_neg rfl]
    exact h.entered r'
  waiting r' hwaiting := by
    have hr : r' ≠ q := by
      rintro rfl
      obtain ⟨j', rest', hprog'⟩ := h.waiting _ hwaiting
      cases hprog.symm.trans hprog'
    rw [State.received_prog, Function.update_of_ne hr]
    exact h.waiting r' hwaiting
  left r' q' := by
    rw [countP_execute_of_neg rfl]
    exact h.left r' q'
  sent r' q' m' hm' := by
    rw [State.received_channel] at hm'
    rcases eq_or_ne (r', q') (r, q) with heq | hne
    · cases heq
      rw [Function.update_self] at hm'
      exact mem_execute (h.sent _ _ m' (List.mem_of_mem_eraseP hm'))
    · rw [Function.update_of_ne hne] at hm'
      exact mem_execute (h.sent r' q' m' hm')
  conserved r' q' P := by
    have hconserved := h.conserved r' q' P
    refine Eq.trans ?_ (countP_execute_of_neg (Bool.and_false _) r').symm
    rw [State.received_channel, State.received_log, ← hconserved]
    rcases eq_or_ne q' q with rfl | hq
    · rw [Function.update_self, List.countP_append, List.countP_singleton]
      rcases eq_or_ne r' r with rfl | hr
      · rw [Function.update_self, countP_take hfind]
        simp only [decide_true, Bool.true_and]
        omega
      · rw [Function.update_of_ne fun h ↦ hr (Prod.ext_iff.mp h).1, if_neg, Nat.add_zero]
        exact fun h ↦ hr (of_decide_eq_true (Bool.and_eq_true_iff.mp h).1).symm
    · rw [Function.update_of_ne fun h ↦ hq (Prod.ext_iff.mp h).2, Function.update_of_ne hq]
  received q' P := by
    rw [countP_execute, ← h.received q' P, State.received_log]
    rcases eq_or_ne q' q with rfl | hq
    · rw [Function.update_self, List.countP_append, List.countP_singleton]
      simp only [Instr.isRecv, Bool.and_true, true_and]
    · rw [Function.update_of_ne hq, if_neg fun h ↦ hq h.1, Nat.add_zero]
  logged q' x hx := by
    rw [State.received_log] at hx
    have hold : x ∈ s.log q' → _ := fun hx ↦ h.logged q' x hx
    rcases eq_or_ne q' q with rfl | hq
    · rw [Function.update_self] at hx
      rcases List.mem_append.mp hx with hx | hx
      · obtain ⟨hsend, source', wants', accept', hrecv, hwants⟩ := hold hx
        exact ⟨mem_execute hsend, source', wants', accept', mem_execute hrecv, hwants⟩
      · obtain rfl := List.mem_singleton.mp hx
        exact ⟨mem_execute (h.sent r q' m (List.mem_of_find?_eq_some hfind)), source, wants, accept,
          mem_execute_self, List.find?_some (p := fun m : Message κ π ↦ wants m.key) hfind⟩
    · rw [Function.update_of_ne hq] at hx
      obtain ⟨hsend, source', wants', accept', hrecv, hwants⟩ := hold hx
      exact ⟨mem_execute hsend, source', wants', accept', mem_execute hrecv, hwants⟩
  crossing c hc q' x hx := by
    rw [State.received_log] at hx
    rcases eq_or_ne q' q with rfl | hq
    · rw [Function.update_self] at hx
      rcases List.mem_append.mp hx with hx | hx
      · exact h.crossing c hc q' x hx
      · obtain rfl := List.mem_singleton.mp hx
        exact h.lt_iff_of_recv hrounds hprog (List.mem_of_find?_eq_some hfind) c hc
    · rw [Function.update_of_ne hq] at hx
      exact h.crossing c hc q' x hx

/-- **Steps.** -/
theorem step [Fintype ι] (hrounds : Fenced rounds cuts) (h : Kept rounds cuts done ahead s)
    {v : Move ι} (hstep : Step s v s') : ∃ done' ahead', Kept rounds cuts done' ahead' s' := by
  cases hstep with
  | send hprog => exact ⟨_, _, h.step_send hprog⟩
  | enter hprog hwaiting => exact ⟨_, _, h.step_enter hprog hwaiting⟩
  | leave hprog hwaiting hall => exact ⟨_, _, h.step_leave hprog hwaiting hall⟩
  | recv hprog _ hfind =>
    refine ⟨_, _, h.step_recv hrounds hprog hfind ?_⟩
    split_ifs
    · exact .inl rfl
    · exact .inr rfl

/-- **Runs.** -/
theorem run [Fintype ι] (hrounds : Fenced rounds cuts)
    (hrun : ReflTransGen Next (State.init rounds) s) :
    ∃ done ahead, Kept rounds cuts done ahead s := by
  induction hrun with
  | refl => exact ⟨_, _, init⟩
  | tail _ hnext ih =>
    obtain ⟨done, ahead, h⟩ := ih
    obtain ⟨v, hstep⟩ := hnext
    exact h.step hrounds hstep

/-! ## Rounds between two cuts -/

/-- What is received in such a round was sent in it, and the other way round. -/
theorem round_eq_iff (h : Kept rounds cuts done ahead s) {i : ℕ} (hi : i ∈ cuts)
    (hi' : i + 1 ∈ cuts) {q : ι} {x : Receipt ι κ π} (hx : x ∈ s.log q) :
    x.round = i ↔ x.message.round = i := by
  have hbefore := h.crossing i hi q x hx
  have hbehind := h.crossing (i + 1) hi' q x hx
  omega

/-- Whoever has nothing more to receive in such a round has received what everybody sends to it
there. -/
theorem countP_log [Fintype ι] (hrounds : Fenced rounds cuts) (h : Kept rounds cuts done ahead s)
    {i : ℕ} (hi : i ∈ cuts) (hi' : i + 1 ∈ cuts) {q : ι}
    (hq : ∀ l ∈ ahead q, l.1 = i → l.2.isRecv = false) (r : ι) :
    (s.log q).countP (fun x ↦ decide (x.source = r) && decide (x.message.round = i))
      = (instrsAt rounds r i).countP (Instr.isSendTo q) := by
  -- what is done is part of what there is to do
  have hdone : ∀ r (P : Instr ι κ π → Bool), (done r).countP (fun l ↦ decide (l.1 = i) && P l.2)
      + (ahead r).countP (fun l ↦ decide (l.1 = i) && P l.2) = (instrsAt rounds r i).countP P := by
    intro r P
    rw [← List.countP_append, h.split r, countP_numbered_eq]
    rfl
  have hle : ∀ r ∈ Finset.univ,
      (s.log q).countP (fun x ↦ decide (x.source = r) && decide (x.message.round = i))
        ≤ (instrsAt rounds r i).countP (Instr.isSendTo q) := by
    intro r _
    have hconserved := h.conserved r q (fun n ↦ n = i)
    have hall := hdone r (Instr.isSendTo q)
    omega
  refine (Finset.sum_eq_sum_iff_of_le hle).mp ?_ r (Finset.mem_univ r)
  calc ∑ r, (s.log q).countP (fun x ↦ decide (x.source = r) && decide (x.message.round = i))
      = (s.log q).countP fun x ↦ x.message.round = i := sum_countP_source Receipt.source _ _
    _ = (s.log q).countP fun x ↦ x.round = i :=
        List.countP_congr fun x hx ↦ by
          simpa only [decide_eq_true_eq] using (h.round_eq_iff hi hi' hx).symm
    _ = (done q).countP fun l ↦ decide (l.1 = i) && l.2.isRecv := h.received q (fun n ↦ n = i)
    _ = (instrsAt rounds q i).countP Instr.isRecv := by
        have hrest : (ahead q).countP (fun l ↦ decide (l.1 = i) && l.2.isRecv) = 0 :=
          List.countP_eq_zero.mpr fun l hl ↦ by simpa using hq l hl
        rw [← hdone q Instr.isRecv, hrest, Nat.add_zero]
    _ = ∑ r, (instrsAt rounds r i).countP (Instr.isSendTo q) := (hrounds.balanced q i).symm

end Kept

end Network

end Runs

end MpiTestSuite

import MpiTestSuite.Runs.Numbering
import MpiTestSuite.Runs.Outline

/-!
# Barriers between exchanges

In `Runs.Levels` nobody waits for a message in front of a barrier. Here processes go through a
sequence of exchanges, with barriers in front of some and behind some. The barriers get numbers as
the messages do: whatever a process waits for, a message or that all come to a barrier, has a
smaller number than all that stands behind. Of those who wait, one waits for something that has the
smallest number, and it is not kept from it (`Staged.exists_step`).

What is delivered in such a run is also delivered in a run of the programs without the barriers
(`Reachable.unbarred`), and every run ends (`le_of_counted`).
-/

open Relation

namespace MpiTestSuite

namespace Runs

namespace Requests

variable {ι κ π : Type*}

/-! ## Without the barriers -/

/-- What is left of a program without its barriers. -/
def withoutBarriers (l : List (Instr ι κ π)) : List (Instr ι κ π) := l.filter fun a ↦ !a.isBarrier

/-- The state of the programs without their barriers. -/
def State.unbarred (s : State ι κ π) : State ι κ π where
  done r := withoutBarriers (s.done r)
  todo r := withoutBarriers (s.todo r)
  inBarrier _ := false
  delivered := s.delivered
  buffered := s.buffered

theorem isBarrier_of_slot? {a : Instr ι κ π} (ha : a.slot?.isSome) : a.isBarrier = false := by
  cases a with
  | barrier => cases ha
  | _ => rfl

theorem mem_withoutBarriers {a : Instr ι κ π} {l : List (Instr ι κ π)} :
    a ∈ withoutBarriers l ↔ a ∈ l ∧ a.isBarrier = false := by
  rw [withoutBarriers, List.mem_filter, Bool.not_eq_true']

section

variable {prog : ι → List (Instr ι κ π)} {s s' : State ι κ π}

variable [DecidableEq ι]

theorem unbarred_execute {r : ι} {a : Instr ι κ π} (ha : a.isBarrier = false)
    (rest : List (Instr ι κ π)) :
    (s.execute r a rest).unbarred = s.unbarred.execute r a (withoutBarriers rest) := by
  simp only [State.unbarred, State.execute, State.mk.injEq, and_true]
  refine ⟨funext fun q ↦ ?_, funext fun q ↦ ?_, funext fun q ↦ ?_⟩
  all_goals rcases eq_or_ne q r with rfl | hq
  · simp [withoutBarriers, ha]
  · simp [hq]
  · simp
  · simp [hq]
  · simp
  · simp [hq]

theorem unbarred_leave {r : ι} {rest : List (Instr ι κ π)} (hprog : s.todo r = .barrier :: rest) :
    (s.execute r .barrier rest).unbarred = s.unbarred := by
  simp only [State.unbarred, State.execute, State.mk.injEq, and_true]
  refine ⟨funext fun q ↦ ?_, funext fun q ↦ ?_⟩
  all_goals rcases eq_or_ne q r with rfl | hq
  · simp [withoutBarriers, Instr.isBarrier]
  · simp [hq]
  · simp [withoutBarriers, Instr.isBarrier, hprog]
  · simp [hq]

variable [DecidableEq κ]

theorem openSends_unbarred (r q : ι) (k : κ) : s.unbarred.openSends r q k = s.openSends r q k := by
  have hskip : (withoutBarriers (s.done r)).filterMap (Instr.sendTo? q k)
      = (s.done r).filterMap (Instr.sendTo? q k) := by
    rw [withoutBarriers, List.filterMap_filter]
    congr 1
    funext a
    cases a <;> rfl
  exact congrArg (List.filter _) hskip

theorem openRecvs_unbarred (q r : ι) (k : κ) : s.unbarred.openRecvs q r k = s.openRecvs q r k := by
  have hskip : (withoutBarriers (s.done q)).filterMap (Instr.recvFrom? r k)
      = (s.done q).filterMap (Instr.recvFrom? r k) := by
    rw [withoutBarriers, List.filterMap_filter]
    congr 1
    funext a
    cases a <;> rfl
  exact congrArg (List.filter _) hskip

/-- Without barriers, a step is the same step, or none. -/
theorem unbarred_step (hstep : Step s s') :
    s'.unbarred = s.unbarred ∨ Step s.unbarred s'.unbarred := by
  have htodo : ∀ {r : ι} {a : Instr ι κ π} {rest}, s.todo r = a :: rest → a.isBarrier = false →
      s.unbarred.todo r = a :: withoutBarriers rest := by
    intro r a rest hprog ha
    simp [State.unbarred, hprog, withoutBarriers, ha]
  cases hstep with
  | start hprog hslot =>
    have ha := isBarrier_of_slot? hslot
    exact .inr (unbarred_execute ha _ ▸ .start (htodo hprog ha) hslot)
  | @wait r slots rest hprog hall =>
    have hexecute := unbarred_execute (s := s) (r := r) (a := .wait slots) rfl rest
    exact .inr (hexecute ▸ .wait (htodo hprog rfl) hall)
  | enter hprog hin => exact .inl rfl
  | leave hprog hin hall => exact .inl (unbarred_leave hprog)
  | deliver hsend hrecv =>
    exact .inr (.deliver ((congrArg List.head? (openSends_unbarred _ _ _)).trans hsend)
      ((congrArg List.head? (openRecvs_unbarred _ _ _)).trans hrecv))

/-- **Barriers take runs away.** What can be reached with barriers can be reached without. -/
theorem Reachable.unbarred (h : Reachable prog s) :
    Reachable (fun r ↦ withoutBarriers (prog r)) s.unbarred := by
  induction h with
  | refl => exact .refl
  | tail _ hnext ih =>
    rcases hnext with hstep | hbuffer
    · rcases unbarred_step hstep with heq | hstep
      · rwa [heq]
      · exact ih.tail (.inl hstep)
    · cases hbuffer with
      | buffer hsent => exact ih.tail (.inr (.buffer (mem_withoutBarriers.mpr ⟨hsent, rfl⟩)))

end

/-! ## Runs end -/

/-- A send that has not been matched. -/
def State.IsUnmatched [DecidableEq ι] (s : State ι κ π) (r : ι) : Instr ι κ π → Bool
  | .send slot .. => s.delivered.all fun d ↦ d.source ≠ r ∨ d.sendSlot ≠ slot
  | _ => false

theorem countP_lt_of_mem {α : Type*} {P Q : α → Bool} {l : List α}
    (himp : ∀ a ∈ l, P a = true → Q a = true) {a : α} (ha : a ∈ l) (hP : ¬P a = true)
    (hQ : Q a = true) : l.countP P < l.countP Q := by
  induction l with
  | nil => cases ha
  | cons b l ih =>
    have himp' : ∀ a ∈ l, P a = true → Q a = true := fun a ha ↦ himp a (List.mem_cons_of_mem b ha)
    rcases List.mem_cons.mp ha with rfl | ha
    · rw [List.countP_cons_of_neg hP, List.countP_cons_of_pos hQ]
      exact Nat.lt_succ_of_le (List.countP_mono_left himp')
    · rw [List.countP_cons, List.countP_cons]
      have hlt := ih himp' ha
      have hle : (if P b = true then 1 else 0) ≤ if Q b = true then 1 else 0 := by
        split_ifs with hPb hQb
        · exact le_rfl
        · exact absurd (himp b List.mem_cons_self hPb) hQb
        · exact Nat.zero_le _
        · exact le_rfl
      omega

section

variable [DecidableEq ι]

/-- What a process can still do, and the system for it. -/
def State.work (s : State ι κ π) (r : ι) : ℕ :=
  2 * (s.todo r).length + (if s.inBarrier r then 0 else 1)
    + (s.done r ++ s.todo r).countP (s.IsUnmatched r)

theorem work_execute {s : State ι κ π} {r : ι} {a : Instr ι κ π} {rest : List (Instr ι κ π)}
    (hprog : s.todo r = a :: rest) (q : ι) :
    (s.execute r a rest).work q + (if q = r then 1 else 0) ≤ s.work q := by
  have hunmatched : (s.execute r a rest).IsUnmatched q = s.IsUnmatched q := by
    funext b
    cases b <;> rfl
  rw [State.work, State.work, hunmatched, State.execute]
  rcases eq_or_ne q r with rfl | hq
  · simp only [Function.update_self, hprog, List.length_cons, List.append_assoc, if_true,
      List.singleton_append, Bool.false_eq_true, if_false]
    omega
  · simp [hq]

theorem work_enter {s : State ι κ π} {r : ι} (hin : s.inBarrier r = false) (q : ι) :
    (s.enter r).work q + (if q = r then 1 else 0) = s.work q := by
  have hunmatched : (s.enter r).IsUnmatched q = s.IsUnmatched q := by
    funext b
    cases b <;> rfl
  rw [State.work, State.work, hunmatched, State.enter]
  rcases eq_or_ne q r with rfl | hq
  · simp only [Function.update_self, hin, if_true, Bool.false_eq_true, if_false]
    omega
  · simp [hq]

theorem unmatched_deliver {s : State ι κ π} {d : Delivery ι κ π} {q : ι} {b : Instr ι κ π}
    (hb : (s.deliver d).IsUnmatched q b = true) : s.IsUnmatched q b = true := by
  cases b with
  | send slot =>
    rw [State.IsUnmatched, State.deliver, List.all_append, Bool.and_eq_true] at hb
    exact hb.1
  | _ => cases hb

theorem work_deliver {s : State ι κ π} {d : Delivery ι κ π} (q : ι) :
    (s.deliver d).work q ≤ s.work q :=
  Nat.add_le_add_left (List.countP_mono_left fun _ _ ↦ unmatched_deliver) _

theorem work_deliver_source {s : State ι κ π} {d : Delivery ι κ π} {mode : Mode}
    (hsent : .send d.sendSlot mode d.dest d.key d.payload ∈ s.done d.source)
    (hnot : (d.source, d.sendSlot) ∉ s.delivered.map fun d ↦ (d.source, d.sendSlot)) :
    (s.deliver d).work d.source < s.work d.source := by
  refine Nat.add_lt_add_left (countP_lt_of_mem (fun b _ hb ↦ ?_)
    (List.mem_append_left _ hsent) ?_ ?_) _
  · exact unmatched_deliver hb
  · simp [State.IsUnmatched, State.deliver]
  · refine List.all_eq_true.mpr fun d' hd' ↦ decide_eq_true ?_
    by_contra heq
    obtain ⟨hsource, hslot⟩ := not_or.mp heq
    exact hnot (List.mem_map.mpr
      ⟨d', hd', Prod.ext (not_not.mp hsource) (not_not.mp hslot)⟩)

variable [DecidableEq κ] [Fintype ι] {prog : ι → List (Instr ι κ π)} {s s' : State ι κ π}

/-- A step leaves less to be done. -/
theorem sum_work_lt (hstep : Step s s') : ∑ r, s'.work r < ∑ r, s.work r := by
  have hless : ∀ {s' : State ι κ π} (r : ι),
      (∀ q, s'.work q + (if q = r then 1 else 0) ≤ s.work q) → ∑ q, s'.work q < ∑ q, s.work q := by
    intro s' r hle
    refine Finset.sum_lt_sum (fun q _ ↦ (Nat.le_add_right _ _).trans (hle q))
      ⟨r, Finset.mem_univ r, ?_⟩
    have hown := hle r
    rwa [if_pos rfl] at hown
  cases hstep with
  | start hprog => exact hless _ (work_execute hprog)
  | wait hprog => exact hless _ (work_execute hprog)
  | enter _ hin => exact hless _ fun q ↦ (work_enter hin q).le
  | leave hprog => exact hless _ (work_execute hprog)
  | @deliver r q k i x j hsend hrecv =>
    obtain ⟨⟨mode, hsent⟩, hnot⟩ := State.mem_openSends.mp (List.mem_of_head? hsend)
    exact Finset.sum_lt_sum (fun q _ ↦ work_deliver q)
      ⟨r, Finset.mem_univ r, work_deliver_source (d := ⟨r, i, q, j, k, x⟩) hsent hnot⟩

/-- **Runs end.** However the processes are interleaved, there are no more steps than this. -/
theorem le_of_counted {k d : ℕ} (h : Counted Step Buffer k d (State.init prog) s) :
    k + ∑ r, s.work r ≤ ∑ r, (State.init prog).work r := by
  generalize hs₀ : State.init prog = s₀ at h
  induction h with
  | refl => exact (Nat.zero_add _).le
  | step _ hstep ih =>
    have hless := sum_work_lt hstep
    have := ih hs₀
    omega
  | disturb _ hbuffer ih =>
    cases hbuffer with
    | buffer => exact ih hs₀

end

/-! ## Numbers for barriers -/

def Instr.isWait : Instr ι κ π → Bool
  | wait _ => true
  | _ => false

/-- The numbers of the barriers. -/
def barrierNumbers (l : List (ℕ × Instr ι κ π)) : List ℕ :=
  l.filterMap fun x ↦ if x.2.isBarrier then some x.1 else none

/-- The process `r` waits in `x` for something that has the number `m`. -/
def Awaits (level : ι → ι → κ → ℕ) (prog : ι → List (Instr ι κ π)) (r : ι) (x : ℕ × Instr ι κ π)
    (m : ℕ) : Prop :=
  (x.2 = .barrier ∧ m = x.1) ∨ ∃ slots, x.2 = .wait slots ∧ ∃ i ∈ slots, ∃ a ∈ prog r,
    a.slot? = some i ∧ a.level? level r = some m

/-- Programs with a number for every instruction. -/
structure Staged (level : ι → ι → κ → ℕ) (number : ι → List (ℕ × Instr ι κ π))
    (prog : ι → List (Instr ι κ π)) : Prop extends Paired prog where
  map_number : ∀ r, (number r).map Prod.snd = prog r
  /-- A send or a receive has the number of the message. -/
  own : ∀ r, ∀ x ∈ number r, ∀ m ∈ x.2.level? level r, x.1 = m
  /-- What is waited for is started. -/
  started : ∀ r slots, .wait slots ∈ prog r → ∀ i ∈ slots, ∃ a ∈ prog r, a.slot? = some i
  /-- What is waited for comes before all that stands behind. -/
  behind : ∀ r, (number r).Pairwise fun x y ↦
    y.2.isWait = false → ∀ m, Awaits level prog r x m → m < y.1
  /-- All come to the same barriers. -/
  barriers : ∀ r q, barrierNumbers (number r) = barrierNumbers (number q)

theorem length_barrierNumbers (l : List (ℕ × Instr ι κ π)) :
    (barrierNumbers l).length = (l.map Prod.snd).countP Instr.isBarrier := by
  induction l with
  | nil => rfl
  | cons x l ih =>
    rw [barrierNumbers, List.filterMap_cons, List.map_cons, List.countP_cons, ← ih]
    cases x.2.isBarrier <;> rfl

theorem mem_barrierNumbers {l : List (ℕ × Instr ι κ π)} {n : ℕ} :
    n ∈ barrierNumbers l ↔ (n, .barrier) ∈ l := by
  simp only [barrierNumbers, List.mem_filterMap]
  constructor
  · rintro ⟨⟨m, a⟩, hmem, ha⟩
    cases a with
    | barrier =>
      obtain rfl := Option.some_inj.mp ha
      exact hmem
    | _ => cases ha
  · exact fun hmem ↦ ⟨_, hmem, rfl⟩

/-- What stands at a place of a list also stands there when the list is split in front of it. -/
theorem mem_right_of_append {α : Type*} {l₁ l₂ k₁ k₂ : List α} {a : α}
    (h : l₁ ++ l₂ = k₁ ++ a :: k₂) (hle : l₁.length ≤ k₁.length) : a ∈ l₂ := by
  rcases List.append_eq_append_iff.mp h with ⟨l, -, rfl⟩ | ⟨l, rfl, hl⟩
  · simp
  · rw [List.length_append] at hle
    obtain rfl := List.length_eq_zero_iff.mp (Nat.le_zero.mp (by omega : l.length ≤ 0))
    rw [← List.nil_append l₂, ← hl]
    exact List.mem_cons_self

/-- A process waits for something that has the number `m`. -/
structure Held (level : ι → ι → κ → ℕ) (number : ι → List (ℕ × Instr ι κ π))
    (s : State ι κ π) (r : ι) (m : ℕ) (front : List (ℕ × Instr ι κ π)) (x : ℕ × Instr ι κ π)
    (rest : List (ℕ × Instr ι κ π)) : Prop where
  split : number r = front ++ x :: rest
  done : front.map Prod.snd = s.done r
  entered : s.entered r = (barrierNumbers (front ++ [x])).length
  reason : (x.2 = .barrier ∧ m = x.1 ∧ ∃ q, s.entered q < s.entered r) ∨
    ∃ slots, x.2 = .wait slots ∧ ∃ i ∈ slots, ¬s.Complete r i ∧ ∃ a ∈ s.done r,
      a.slot? = some i ∧ a.level? level r = some m

namespace Staged

variable {level : ι → ι → κ → ℕ} {number : ι → List (ℕ × Instr ι κ π)}
  {prog : ι → List (Instr ι κ π)} {s : State ι κ π} {r : ι} {m : ℕ}
  {front rest : List (ℕ × Instr ι κ π)} {x : ℕ × Instr ι κ π}

/-- What stands behind has a larger number. -/
theorem lt_of_held (hstaged : Staged level number prog) (h : Genuine prog s)
    (hheld : Held level number s r m front x rest) {y : ℕ × Instr ι κ π} (hy : y ∈ rest)
    (hwait : y.2.isWait = false) : m < y.1 := by
  have hpairwise := hstaged.behind r
  rw [hheld.split] at hpairwise
  refine (List.pairwise_cons.mp (List.pairwise_append.mp hpairwise).2.1).1 y hy hwait m ?_
  rcases hheld.reason with ⟨hx, hm, -⟩ | ⟨slots, hx, i, hi, -, a, ha, hslot, hlevel⟩
  · exact .inl ⟨hx, hm⟩
  · exact .inr ⟨slots, hx, i, hi, a, h.mem_of_done ha, hslot, hlevel⟩

/-- A part of a message that a process has not started stands behind what it waits for. -/
theorem lt_of_not_done (hstaged : Staged level number prog) (h : Genuine prog s)
    (hheld : Held level number s r m front x rest) {b : Instr ι κ π} (hb : b ∈ prog r)
    (hnot : b ∉ s.done r) {n : ℕ} (hn : b.level? level r = some n) : m < n := by
  have hslot : b.isWait = false := by
    cases b with
    | wait => cases hn
    | _ => rfl
  rw [← hstaged.map_number r] at hb
  obtain ⟨y, hy, rfl⟩ := List.mem_map.mp hb
  rw [← hstaged.own r y hy n hn]
  rw [hheld.split] at hy
  rcases List.mem_append.mp hy with hfront | hy
  · exact absurd (hheld.done ▸ List.mem_map_of_mem hfront) hnot
  rcases List.mem_cons.mp hy with rfl | hrest
  · rcases hheld.reason with ⟨hx, -, -⟩ | ⟨slots, hx, -⟩
    · rw [hx] at hn
      cases hn
    · rw [hx] at hn
      cases hn
  · exact hstaged.lt_of_held h hheld hrest hslot

/-- Who has come to fewer barriers than somebody else is not through. -/
theorem todo_ne_nil (hstaged : Staged level number prog) (h : Genuine prog s) {q : ι}
    (hless : s.entered q < s.entered r) : s.todo q ≠ [] := by
  intro hnil
  have hall : (prog q).countP Instr.isBarrier ≤ s.entered q := by
    rw [← h.done_eq hnil]
    exact Nat.le_add_right _ _
  have hsame : (prog q).countP Instr.isBarrier = (prog r).countP Instr.isBarrier := by
    rw [← hstaged.map_number, ← hstaged.map_number, ← length_barrierNumbers,
      ← length_barrierNumbers, hstaged.barriers q r]
  have hle := Leveled.entered_le h r
  omega

/-- The barrier that a process is in stands behind all that somebody waits for who has come to
fewer. -/
theorem barrier_mem (hstaged : Staged level number prog)
    (hheld : Held level number s r m front x rest) (hx : x.2 = .barrier) {q : ι} {m' : ℕ}
    {front' rest' : List (ℕ × Instr ι κ π)} {x' : ℕ × Instr ι κ π}
    (hheld' : Held level number s q m' front' x' rest') (hless : s.entered q < s.entered r) :
    (x.1, .barrier) ∈ rest' := by
  have hsplit : ∀ (front rest : List (ℕ × Instr ι κ π)) (x : ℕ × Instr ι κ π),
      barrierNumbers (front ++ x :: rest)
        = barrierNumbers (front ++ [x]) ++ barrierNumbers rest := by
    intro front rest x
    rw [List.append_cons, barrierNumbers, List.filterMap_append]
    rfl
  have hown : barrierNumbers (front ++ [x]) = barrierNumbers front ++ [x.1] := by
    rw [barrierNumbers, List.filterMap_append, List.filterMap_cons, hx]
    rfl
  have hsame : barrierNumbers (front' ++ [x']) ++ barrierNumbers rest'
      = barrierNumbers front ++ x.1 :: barrierNumbers rest := by
    rw [List.append_cons (barrierNumbers front), ← hown, ← hsplit, ← hsplit, ← hheld.split,
      ← hheld'.split, hstaged.barriers q r]
  refine mem_barrierNumbers.mp (mem_right_of_append hsame ?_)
  rw [hheld.entered, hheld'.entered, hown, List.length_append] at hless
  exact Nat.le_of_lt_succ hless

variable [DecidableEq ι] [DecidableEq κ]

/-- What a process waits for when nothing can happen. -/
theorem exists_held (hstaged : Staged level number prog) (h : Genuine prog s)
    (hstuck : ∀ s', ¬Step s s') (hr : s.todo r ≠ []) :
    ∃ m front x rest, Held level number s r m front x rest := by
  have hsplit := h.split r
  rw [← hstaged.map_number r] at hsplit
  obtain ⟨front, back, hnumber, hdone, htodo⟩ := List.map_eq_append_iff.mp hsplit.symm
  rcases Leveled.blocked hstuck hr with
    ⟨slots, todo, hprog, i, hi, hincomplete⟩ | ⟨todo, hprog, hin, hless⟩
  · rw [hprog] at htodo
    obtain ⟨x, rest, rfl, hx, -⟩ := List.map_eq_cons_iff.mp htodo
    have hwait : .wait slots ∈ prog r := h.mem_of_todo (by rw [hprog]; exact List.mem_cons_self)
    obtain ⟨a, ha, hslot⟩ := hstaged.started r slots hwait i hi
    obtain ⟨m, hm⟩ := exists_level level r hslot
    have hentered : s.entered r = (barrierNumbers (front ++ [x])).length := by
      have hout : s.inBarrier r = false := by
        by_contra hin
        obtain ⟨rest', hhead⟩ := h.inBarrier r (Bool.eq_true_of_not_eq_false hin)
        rw [hprog] at hhead
        cases hhead
      rw [length_barrierNumbers, List.map_append, hdone, State.entered, hout, List.map_singleton,
        hx, List.countP_append]
      rfl
    refine ⟨m, front, x, rest, hnumber, hdone, hentered,
      .inr ⟨slots, hx, i, hi, hincomplete, a, ?_, hslot, hm⟩⟩
    -- what is waited for does not stand behind the wait
    by_contra hnot
    have hmem := ha
    rw [← hstaged.map_number r] at hmem
    obtain ⟨y, hy, rfl⟩ := List.mem_map.mp hmem
    have hown := hstaged.own r y hy m hm
    rw [hnumber] at hy
    rcases List.mem_append.mp hy with hfront | hy
    · exact hnot (hdone ▸ List.mem_map_of_mem hfront)
    rcases List.mem_cons.mp hy with rfl | hrest
    · rw [hx] at hslot
      cases hslot
    · have hpairwise := hstaged.behind r
      rw [hnumber] at hpairwise
      have hlt := (List.pairwise_cons.mp (List.pairwise_append.mp hpairwise).2.1).1 y hrest
        (by
          cases hy2 : y.2 with
          | wait => rw [hy2] at hslot; cases hslot
          | _ => rfl) m (.inr ⟨slots, hx, i, hi, y.2, ha, hslot, hm⟩)
      exact hlt.ne' hown
  · rw [hprog] at htodo
    obtain ⟨x, rest, rfl, hx, -⟩ := List.map_eq_cons_iff.mp htodo
    refine ⟨x.1, front, x, rest, hnumber, hdone, ?_, .inl ⟨hx, rfl, hless⟩⟩
    rw [length_barrierNumbers, List.map_append, hdone, State.entered, hin, List.map_singleton, hx,
      List.countP_append]
    rfl

/-- **No deadlock.** As long as something is left to be done, there is a step. -/
theorem exists_step (hstaged : Staged level number prog) (h : Genuine prog s)
    (hr : s.todo r ≠ []) : ∃ s', Step s s' := by
  classical
  by_contra hnone
  have hstuck : ∀ s', ¬Step s s' := fun s' hstep ↦ hnone ⟨s', hstep⟩
  have hsome : ∃ n, ∃ r front x rest, Held level number s r n front x rest := by
    obtain ⟨m, front, x, rest, hheld⟩ := hstaged.exists_held h hstuck hr
    exact ⟨m, r, front, x, rest, hheld⟩
  obtain ⟨q, front, x, rest, hheld⟩ := Nat.find_spec hsome
  set n := Nat.find hsome with hn
  have hleast : ∀ {q' : ι}, s.todo q' ≠ [] → ∃ m ≥ n, ∃ front x rest,
      Held level number s q' m front x rest := by
    intro q' hq'
    obtain ⟨m, front, x, rest, hheld'⟩ := hstaged.exists_held h hstuck hq'
    exact ⟨m, Nat.find_min' hsome ⟨q', front, x, rest, hheld'⟩, front, x, rest, hheld'⟩
  rcases hheld.reason with
    ⟨hx, hm, q', hless⟩ | ⟨slots, hx, i, hi, hincomplete, a, ha, hslot, hlevel⟩
  · obtain ⟨m, hle, front', x', rest', hheld'⟩ := hleast (hstaged.todo_ne_nil h hless)
    have hmem := hstaged.barrier_mem hheld hx hheld' hless
    rw [← hm] at hmem
    exact absurd (hstaged.lt_of_held h hheld' hmem rfl) (Nat.not_lt.mpr hle)
  · have hdone : ∀ (q' : ι) (b : Instr ι κ π), b ∈ prog q' → b.level? level q' = some n →
        b ∈ s.done q' := by
      intro q' b hb hn
      by_contra hnot
      have htodo : s.todo q' ≠ [] := fun hnil ↦ hnot (h.done_eq hnil ▸ hb)
      obtain ⟨m, hle, front', x', rest', hheld'⟩ := hleast htodo
      exact absurd (hstaged.lt_of_not_done h hheld' hb hnot hn) (Nat.not_lt.mpr hle)
    cases a with
    | send slot mode dest key y =>
      obtain rfl := Option.some_inj.mp hslot
      obtain ⟨j, hrecv⟩ := (hstaged.partner q dest key).mp ⟨slot, mode, y, h.mem_of_done ha⟩
      exact hnone (hstaged.exists_deliver h ha (hdone dest _ hrecv hlevel) (.inl hincomplete))
    | recv slot source key =>
      obtain rfl := Option.some_inj.mp hslot
      obtain ⟨j, mode, y, hsend⟩ := (hstaged.partner source q key).mpr ⟨slot, h.mem_of_done ha⟩
      exact hnone (hstaged.exists_deliver h (hdone source _ hsend hlevel) ha (.inr hincomplete))
    | wait => cases hslot
    | barrier => cases hslot

end Staged

/-! ## Exchanges with barriers around them -/

/-- An exchange, with a barrier in front of it and one behind it. -/
def fenced (before after : Bool) (l : List (Instr ι κ π)) : List (Instr ι κ π) :=
  (if before then [.barrier] else []) ++ l ++ (if after then [.barrier] else [])

theorem mem_fenced {before after : Bool} {l : List (Instr ι κ π)} {a : Instr ι κ π}
    (ha : a.isBarrier = false) : a ∈ fenced before after l ↔ a ∈ l := by
  have hne : a ≠ .barrier := by
    rintro rfl
    cases ha
  rw [fenced, List.mem_append, List.mem_append]
  split_ifs <;> simp [hne]

theorem pairwise_fenced {before after : Bool} {l : List (Instr ι κ π)}
    {R : Instr ι κ π → Instr ι κ π → Prop} (hfirst : ∀ b, R .barrier b)
    (hlast : ∀ a, R a .barrier) (h : l.Pairwise R) : (fenced before after l).Pairwise R := by
  rw [fenced, List.pairwise_append, List.pairwise_append]
  split_ifs <;> simp [h, hfirst, hlast]

theorem withoutBarriers_fenced {before after : Bool} {l : List (Instr ι κ π)}
    (hl : ∀ a ∈ l, a.isBarrier = false) : withoutBarriers (fenced before after l) = l := by
  have hself : l.filter (fun a ↦ !a.isBarrier) = l :=
    List.filter_eq_self.mpr fun a ha ↦ by rw [hl a ha, Bool.not_false]
  rw [withoutBarriers, fenced, List.filter_append, List.filter_append, hself]
  split_ifs <;> simp [Instr.isBarrier]

theorem withoutBarriers_map {κ' : Type*} (f : Instr ι κ π → Instr ι κ' π)
    (hf : ∀ a, (f a).isBarrier = a.isBarrier) (l : List (Instr ι κ π)) :
    withoutBarriers (l.map f) = (withoutBarriers l).map f := by
  rw [withoutBarriers, List.filter_map, withoutBarriers]
  exact congrArg (List.map f) (List.filter_congr fun a _ ↦ congrArg not (hf a))

theorem withoutBarriers_plainSequence (n : ℕ) (exchange : ℕ → ι → List (Instr ι κ π)) (r : ι) :
    withoutBarriers (plainSequence n exchange r)
      = plainSequence n (fun c r ↦ withoutBarriers (exchange c r)) r := by
  rw [plainSequence, withoutBarriers_map _ Instr.isBarrier_forget, plainSequence]
  refine congrArg (List.map Instr.forget) ?_
  rw [withoutBarriers, sequence, List.filter_flatMap, sequence]
  exact List.flatMap_congr fun c _ ↦ withoutBarriers_map _ (Instr.isBarrier_inExchange c) _

theorem paired_fenced {prog : ι → List (Instr ι κ π)} (h : Paired prog) (before after : Bool) :
    Paired fun r ↦ fenced before after (prog r) where
  slots r := pairwise_fenced (fun _ _ hi ↦ nomatch hi) (fun _ _ _ hi ↦ nomatch hi) (h.slots r)
  envelopes r :=
    pairwise_fenced (fun _ _ he ↦ nomatch he) (fun _ _ _ he ↦ nomatch he) (h.envelopes r)
  partner r q k := by
    have hsend : ∀ {i mode x}, .send i mode q k x ∈ fenced before after (prog r)
        ↔ .send i mode q k x ∈ prog r := mem_fenced rfl
    have hrecv : ∀ {j}, .recv j r k ∈ fenced before after (prog q) ↔ .recv j r k ∈ prog q :=
      mem_fenced rfl
    simp only [hsend, hrecv]
    exact h.partner r q k

section

variable {n : ℕ} {exchange : ℕ → ι → List (Instr ι κ π)} {before after : ℕ → Bool} {M : ℕ}
  {level : ℕ → ι → ι → κ → ℕ}

/-- The levels of the messages, between the numbers of the barriers. -/
def fencedLevel (M : ℕ) (level : ℕ → ι → ι → κ → ℕ) (r q : ι) (key : ℕ × κ) : ℕ :=
  key.1 * (M + 2) + (level key.1 r q key.2 + 1)

/-- The instructions of an exchange with their numbers. -/
def fencedNumber (M : ℕ) (level : ℕ → ι → ι → κ → ℕ) (before after : ℕ → Bool)
    (exchange : ℕ → ι → List (Instr ι κ π)) (r : ι) (c : ℕ) : List (ℕ × Instr ι (ℕ × κ) π) :=
  (if before c then [(c * (M + 2), .barrier)] else [])
    ++ (exchange c r).map (fun a ↦
      (c * (M + 2) + ((a.level? (level c) r).getD 0 + 1), a.inExchange c))
    ++ (if after c then [(c * (M + 2) + (M + 1), .barrier)] else [])

theorem map_fencedNumber (r : ι) (c : ℕ) :
    (fencedNumber M level before after exchange r c).map Prod.snd
      = (fenced (before c) (after c) (exchange c r)).map (Instr.inExchange c) := by
  rw [fencedNumber, fenced]
  simp only [List.map_append, List.map_map, Function.comp_def]
  congr 1
  · congr 1
    split_ifs <;> rfl
  · split_ifs <;> rfl

@[simp] theorem level?_inExchange_fenced (c : ℕ) (a : Instr ι κ π) (r : ι) :
    (a.inExchange c).level? (fencedLevel M level) r
      = (a.level? (level c) r).map fun m ↦ c * (M + 2) + (m + 1) := by
  cases a <;> rfl

theorem barrierNumbers_fencedNumber (hbarrier : ∀ c < n, ∀ r, ∀ a ∈ exchange c r,
    a.isBarrier = false) {c : ℕ} (hc : c < n) (r : ι) :
    barrierNumbers (fencedNumber M level before after exchange r c)
      = (if before c then [c * (M + 2)] else [])
        ++ (if after c then [c * (M + 2) + (M + 1)] else []) := by
  have hnone : ((exchange c r).map fun a ↦
      (c * (M + 2) + ((a.level? (level c) r).getD 0 + 1), a.inExchange c)).filterMap
        (fun x ↦ if x.2.isBarrier then some x.1 else none) = [] := by
    rw [List.filterMap_eq_nil_iff]
    intro x hx
    obtain ⟨a, ha, rfl⟩ := List.mem_map.mp hx
    rw [Instr.isBarrier_inExchange, hbarrier c hc r a ha]
    rfl
  rw [barrierNumbers, fencedNumber, List.filterMap_append, List.filterMap_append, hnone,
    List.append_nil]
  congr 1
  · split_ifs <;> rfl
  · split_ifs <;> rfl

/-- The programs, with barriers around their exchanges. -/
abbrev fencedSequence (n : ℕ) (before after : ℕ → Bool) (exchange : ℕ → ι → List (Instr ι κ π)) :
    ι → List (Instr ι (ℕ × κ) π) :=
  sequence n fun c r ↦ fenced (before c) (after c) (exchange c r)

theorem eq_of_awaits_barrier {κ' : Type*} {level : ι → ι → κ' → ℕ} {prog : ι → List (Instr ι κ' π)}
    {r : ι} {k m : ℕ} (h : Awaits level prog r (k, .barrier) m) : m = k := by
  rcases h with ⟨-, hm⟩ | ⟨slots, hwait, -⟩
  · exact hm
  · cases hwait

section

variable (hlevel : ∀ c < n, Leveled (level c) (exchange c))
  (hbarrier : ∀ c < n, ∀ r, ∀ a ∈ exchange c r, a.isBarrier = false)
  (hbound : ∀ c < n, ∀ r, ∀ a ∈ exchange c r, ∀ m ∈ a.level? (level c) r, m < M)

include hbarrier

omit hbarrier in
theorem mem_fencedNumber {r : ι} {c : ℕ} {x : ℕ × Instr ι (ℕ × κ) π} :
    x ∈ fencedNumber M level before after exchange r c ↔
      (before c = true ∧ x = (c * (M + 2), .barrier)) ∨
        (∃ a ∈ exchange c r,
          x = (c * (M + 2) + ((a.level? (level c) r).getD 0 + 1), a.inExchange c)) ∨
        after c = true ∧ x = (c * (M + 2) + (M + 1), .barrier) := by
  rw [fencedNumber, List.mem_append, List.mem_append, List.mem_map, or_assoc]
  refine or_congr ?_ (or_congr (by simp only [eq_comm]) ?_)
  all_goals split_ifs with h <;> simp [h]

/-- What a process waits for in an exchange. -/
theorem awaits_inExchange {c : ℕ} (hc : c < n) {r : ι} {a : Instr ι κ π} (ha : a ∈ exchange c r)
    {k m : ℕ}
    (h : Awaits (fencedLevel M level) (fencedSequence n before after exchange) r
      (k, a.inExchange c) m) :
    ∃ slots, a = .wait slots ∧ ∃ i ∈ slots, ∃ b ∈ exchange c r, b.slot? = some i ∧
      ∃ m' ∈ b.level? (level c) r, m = c * (M + 2) + (m' + 1) := by
  rcases h with ⟨heq, -⟩ | ⟨slots, hwait, i, hi, b, hb, hslot, hm⟩
  · have hno := hbarrier c hc r a ha
    rw [← Instr.isBarrier_inExchange c, show a.inExchange c = .barrier from heq] at hno
    cases hno
  · obtain ⟨slots', rfl, rfl⟩ := (a.inExchange_eq_wait c).mp hwait
    obtain ⟨i', hi', rfl⟩ := List.mem_map.mp hi
    obtain ⟨c', -, b', hb', rfl⟩ := mem_sequence.mp hb
    obtain ⟨rfl, hslot'⟩ := eq_of_slot_inExchange hslot
    rw [level?_inExchange_fenced] at hm
    obtain ⟨m', hm', rfl⟩ := Option.map_eq_some_iff.mp hm
    exact ⟨slots', rfl, i', hi', b',
      (mem_fenced (isBarrier_of_slot? (hslot' ▸ rfl))).mp hb', hslot', m', hm', rfl⟩

include hbound

/-- What a process waits for within an exchange has a number of the exchange. -/
theorem awaits_lt {c : ℕ} (hc : c < n) {r : ι} {x : ℕ × Instr ι (ℕ × κ) π}
    (hx : x ∈ fencedNumber M level before after exchange r c) {m : ℕ}
    (h : Awaits (fencedLevel M level) (fencedSequence n before after exchange) r x m) :
    m < (c + 1) * (M + 2) := by
  rw [Nat.succ_mul]
  rcases mem_fencedNumber.mp hx with ⟨-, rfl⟩ | ⟨a, ha, rfl⟩ | ⟨-, rfl⟩
  · rw [eq_of_awaits_barrier h]
    omega
  · obtain ⟨slots, -, i, -, b, hb, -, m', hm', rfl⟩ := awaits_inExchange hbarrier hc ha h
    have := hbound c hc r b hb m' hm'
    omega
  · rw [eq_of_awaits_barrier h]
    omega

include hlevel

/-- Within an exchange, what a process waits for comes before what stands behind. -/
theorem pairwise_fencedNumber {c : ℕ} (hc : c < n) (r : ι) :
    (fencedNumber M level before after exchange r c).Pairwise fun x y ↦
      y.2.isWait = false → ∀ m, Awaits (fencedLevel M level)
        (fencedSequence n before after exchange) r x m → m < y.1 := by
  rw [fencedNumber, List.pairwise_append, List.pairwise_append]
  refine ⟨⟨by split_ifs <;> simp, ?_, fun x hx y hy _ m hm ↦ ?_⟩, by split_ifs <;> simp,
    fun x hx y hy _ m hm ↦ ?_⟩
  · refine List.pairwise_map.mpr (((hlevel c hc).behind r).imp_of_mem ?_)
    intro a b ha hb hab hwait m hm
    obtain ⟨slots, hslots, i, hi, a', ha', hslot, m', hm', rfl⟩ :=
      awaits_inExchange hbarrier hc ha hm
    obtain ⟨-, hall⟩ := hab slots hslots
    have hstarts : ∃ j, b.slot? = some j := by
      cases b with
      | send slot => exact ⟨slot, rfl⟩
      | recv slot => exact ⟨slot, rfl⟩
      | wait => cases hwait
      | barrier => exact absurd (hbarrier c hc r _ hb) nofun
    obtain ⟨j, hj⟩ := hstarts
    obtain ⟨k, hk⟩ := exists_level (level c) r hj
    have hlt := (hall i hi).2 a' ha' hslot m' hm' k hk
    rw [hk, Option.getD_some]
    omega
  · split_ifs at hx
    · obtain rfl := List.mem_singleton.mp hx
      obtain ⟨b, -, rfl⟩ := List.mem_map.mp hy
      rw [eq_of_awaits_barrier hm]
      exact Nat.lt_add_of_pos_right (Nat.succ_pos _)
    · cases hx
  · split_ifs at hy
    · obtain rfl := List.mem_singleton.mp hy
      rcases List.mem_append.mp hx with hfirst | hx
      · split_ifs at hfirst
        · obtain rfl := List.mem_singleton.mp hfirst
          rw [eq_of_awaits_barrier hm]
          exact Nat.lt_add_of_pos_right (Nat.succ_pos _)
        · cases hfirst
      · obtain ⟨a, ha, rfl⟩ := List.mem_map.mp hx
        obtain ⟨slots, -, i, -, b, hb, -, m', hm', rfl⟩ := awaits_inExchange hbarrier hc ha hm
        have := hbound c hc r b hb m' hm'
        show c * (M + 2) + (m' + 1) < c * (M + 2) + (M + 1)
        omega
    · cases hy

/-- **Sequences with barriers.** Exchanges with levels, one after the other with barriers between
them, have numbers. -/
theorem staged_sequence : Staged (fencedLevel M level)
    (fun r ↦ (List.range n).flatMap (fencedNumber M level before after exchange r))
    (fencedSequence n before after exchange) := by
  refine ⟨paired_sequence fun c hc ↦ paired_fenced (hlevel c hc).toPaired _ _, fun r ↦ ?_,
    fun r x hx m hm ↦ ?_, fun r slots hwait i hi ↦ ?_, fun r ↦ ?_, fun r q ↦ ?_⟩
  · rw [List.map_flatMap, fencedSequence, sequence]
    exact congrArg (List.flatMap · (List.range n)) (funext fun c ↦ map_fencedNumber r c)
  · obtain ⟨c, -, hx⟩ := List.mem_flatMap.mp hx
    rcases mem_fencedNumber.mp hx with ⟨-, rfl⟩ | ⟨a, ha, rfl⟩ | ⟨-, rfl⟩
    · cases hm
    · rw [level?_inExchange_fenced] at hm
      obtain ⟨m', hm', rfl⟩ := Option.map_eq_some_iff.mp hm
      rw [hm', Option.getD_some]
    · cases hm
  · obtain ⟨c, hc, b, hb, heq⟩ := mem_sequence.mp hwait
    obtain ⟨slots, rfl, rfl⟩ := (b.inExchange_eq_wait c).mp heq
    obtain ⟨i, hmem, rfl⟩ := List.mem_map.mp hi
    obtain ⟨a, ha, hai⟩ := (hlevel c hc).started r slots ((mem_fenced rfl).mp hb) i hmem
    have hin : a ∈ fenced (before c) (after c) (exchange c r) :=
      (mem_fenced (isBarrier_of_slot? (hai ▸ rfl))).mpr ha
    exact ⟨_, inExchange_mem hc hin, by rw [Instr.slot?_inExchange, hai, Option.map_some]⟩
  · rw [List.pairwise_flatMap]
    refine ⟨fun c hc ↦ pairwise_fencedNumber hlevel hbarrier hbound (List.mem_range.mp hc) r, ?_⟩
    refine List.pairwise_lt_range.imp_of_mem fun {c c'} hc _ hlt x hx y hy _ m hm ↦ ?_
    have hless := awaits_lt hbarrier hbound (List.mem_range.mp hc) hx hm
    have hle : (c + 1) * (M + 2) ≤ c' * (M + 2) := Nat.mul_le_mul_right _ hlt
    have hy' : c' * (M + 2) ≤ y.1 := by
      rcases mem_fencedNumber.mp hy with ⟨-, rfl⟩ | ⟨b, -, rfl⟩ | ⟨-, rfl⟩
      · exact le_rfl
      · exact Nat.le_add_right _ _
      · exact Nat.le_add_right _ _
    omega
  · simp only [barrierNumbers, List.filterMap_flatMap]
    refine List.flatMap_congr fun c hc ↦ ?_
    have hnumbers : ∀ r, barrierNumbers (fencedNumber M level before after exchange r c) = _ :=
      barrierNumbers_fencedNumber hbarrier (List.mem_range.mp hc)
    exact (hnumbers r).trans (hnumbers q).symm

variable [DecidableEq ι] [DecidableEq κ] {s : State ι κ π}

/-- Nobody is ever stuck. -/
theorem exists_step_fenced (hs : Reachable (plainSequence n fun c r ↦
      fenced (before c) (after c) (exchange c r)) s) {r : ι} (hr : s.todo r ≠ []) :
    ∃ s', Step s s' := by
  have hstaged : Staged _ _ (fencedSequence n before after exchange) :=
    staged_sequence hlevel hbarrier hbound
  obtain ⟨t, hreach, rfl⟩ := exists_lift inOrder_sequence hstaged.toPaired hs
  have htodo : t.todo r ≠ [] := fun hnil ↦ hr (by
    show (t.todo r).map Instr.forget = []
    rw [hnil, List.map_nil])
  obtain ⟨t', hstep⟩ := hstaged.exists_step hreach.genuine htodo
  exact exists_step_forget hstep

end

end

end Requests

end Runs

end MpiTestSuite

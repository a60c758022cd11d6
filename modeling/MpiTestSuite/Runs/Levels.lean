import Mathlib.Data.Nat.Find
import MpiTestSuite.Runs.Requests

/-!
# Freedom from deadlock

Processes wait for messages, and in barriers for each other. If the messages can be given levels
such that no process waits for a message before it has started its part of one of the same or of a
lower level (`Leveled`), and no one waits for a message in front of a barrier, then as long as
something is left to be done there is a step, whether or not the system has buffered any send
(`exists_step`): of those who wait, one waits for a message of the lowest level, and its partner has
not come to a wait yet, or has started its part.
-/

open Relation

namespace MpiTestSuite

namespace Runs

namespace Requests

variable {ι κ π : Type*}

/-- The level of the message that an instruction of process `r` starts a part of, where
`level r q k` is the level of the messages from `r` to `q` with key `k`. -/
def Instr.level? (level : ι → ι → κ → ℕ) (r : ι) : Instr ι κ π → Option ℕ
  | send _ _ dest key _ => some (level r dest key)
  | recv _ source key => some (level source r key)
  | _ => none

/-- The instruction `b` may stand behind the wait `w` in the program of `r`. -/
def Behind (level : ι → ι → κ → ℕ) (prog : ι → List (Instr ι κ π)) (r : ι)
    (w b : Instr ι κ π) : Prop :=
  ∀ slots, w = .wait slots → b.isBarrier = false ∧ ∀ i ∈ slots, b.slot? ≠ some i ∧
    ∀ a ∈ prog r, a.slot? = some i → ∀ m ∈ a.level? level r, ∀ n ∈ b.level? level r, m < n

section

variable {level : ι → ι → κ → ℕ} {prog : ι → List (Instr ι κ π)} {r : ι}

/-- Behind what is not a wait anything may stand. -/
theorem behind_of_slot {w b : Instr ι κ π} (hw : w.slot?.isSome) : Behind level prog r w b := by
  rintro slots rfl
  cases hw

theorem behind_barrier {b : Instr ι κ π} : Behind level prog r .barrier b := nofun

/-- A wait may stand anywhere. -/
theorem behind_wait {w : Instr ι κ π} (slots : List ℕ) : Behind level prog r w (.wait slots) :=
  fun _ _ ↦ ⟨rfl, fun _ _ ↦ ⟨nofun, fun _ _ _ _ _ _ hn ↦ nomatch hn⟩⟩

/-- What stands behind a wait for messages of lower levels. -/
theorem behind_of_lt (hslots : (prog r).Pairwise fun a b ↦ ∀ i ∈ a.slot?, i ∉ b.slot?)
    {slots : List ℕ} {b : Instr ι κ π} (hb : b.isBarrier = false)
    (h : ∀ i ∈ slots, b.slot? ≠ some i ∧ ∃ a ∈ prog r, a.slot? = some i ∧
      ∀ m ∈ a.level? level r, ∀ n ∈ b.level? level r, m < n) :
    Behind level prog r (.wait slots) b := by
  rintro slots' heq
  obtain rfl := Instr.wait.inj heq
  refine ⟨hb, fun i hi ↦ ?_⟩
  obtain ⟨hbi, a, ha, hai, hlt⟩ := h i hi
  refine ⟨hbi, fun a' ha' hai' ↦ ?_⟩
  obtain rfl := Paired.eq_of_pairwise hslots ha ha' hai hai'
  exact hlt

/-- Two calls that block, one after the other. -/
theorem pairwise_behind_of_blocking
    (hslots : (prog r).Pairwise fun a b ↦ ∀ i ∈ a.slot?, i ∉ b.slot?) {a b : Instr ι κ π} {i j : ℕ}
    (hprog : prog r = [a, .wait [i], b, .wait [j]]) (ha : a.slot? = some i)
    (hb : b.slot? = some j) (hne : i ≠ j)
    (hlt : ∀ m ∈ a.level? level r, ∀ n ∈ b.level? level r, m < n) :
    (prog r).Pairwise (Behind level prog r) := by
  have hmem : a ∈ prog r := hprog ▸ List.mem_cons_self
  have hbarrier : b.isBarrier = false := by
    cases b with
    | barrier => cases hb
    | _ => rfl
  have hwait : Behind level prog r (.wait [i]) b := by
    refine behind_of_lt hslots hbarrier fun i' hi' ↦ ?_
    obtain rfl := List.mem_singleton.mp hi'
    exact ⟨fun hbi ↦ hne (Option.some_inj.mp (hbi.symm.trans hb)), a, hmem, ha, hlt⟩
  have hstart : ∀ w : Instr ι κ π, ∀ n, w.slot? = some n → ∀ b, Behind level prog r w b :=
    fun w n hw b ↦ behind_of_slot (hw ▸ rfl)
  rw [hprog]
  simp [hstart a i ha, hstart b j hb, hwait, behind_wait]

end

/-- The messages have levels. -/
structure Leveled (level : ι → ι → κ → ℕ) (prog : ι → List (Instr ι κ π)) : Prop
    extends Paired prog where
  /-- What is waited for is started. -/
  started : ∀ r slots, .wait slots ∈ prog r → ∀ i ∈ slots, ∃ a ∈ prog r, a.slot? = some i
  behind : ∀ r, (prog r).Pairwise (Behind level prog r)
  barriers : ∀ r q, (prog r).countP Instr.isBarrier = (prog q).countP Instr.isBarrier

variable {level : ι → ι → κ → ℕ} {prog : ι → List (Instr ι κ π)} {s : State ι κ π}

/-- An instruction with a slot has a level. -/
theorem exists_level (level : ι → ι → κ → ℕ) (r : ι) {a : Instr ι κ π} {i : ℕ}
    (ha : a.slot? = some i) : ∃ n, a.level? level r = some n := by
  cases a with
  | send => exact ⟨_, rfl⟩
  | recv => exact ⟨_, rfl⟩
  | wait => cases ha
  | barrier => cases ha

/-- A message of which both parts have been started is delivered. -/
theorem Paired.exists_deliver [DecidableEq ι] [DecidableEq κ] (hpaired : Paired prog)
    (h : Genuine prog s) {r q : ι} {k : κ} {i j : ℕ} {mode : Mode} {x : π}
    (hsend : .send i mode q k x ∈ s.done r) (hrecv : .recv j r k ∈ s.done q)
    (hincomplete : ¬s.Complete r i ∨ ¬s.Complete q j) :
    ∃ s', Step s s' := by
  have hpartner := fun d hd ↦ h.partner_slot hpaired (d := d) hd (h.mem_of_done hsend)
    (h.mem_of_done hrecv)
  have hnone : ∀ d ∈ s.delivered, ¬(d.source = r ∧ d.sendSlot = i) := by
    intro d hd hslot
    rcases hincomplete with hnot | hnot
    · exact hnot (Or.inl ⟨d, hd, hslot⟩)
    · exact hnot (Or.inr (Or.inl ⟨d, hd, (hpartner d hd).mp hslot⟩))
  have hopen : (i, x) ∈ s.openSends r q k := by
    refine State.mem_openSends.mpr ⟨⟨mode, hsend⟩, fun hmem ↦ ?_⟩
    obtain ⟨d, hd, heq⟩ := List.mem_map.mp hmem
    exact hnone d hd (Prod.mk.inj heq)
  have hfree : j ∈ s.openRecvs q r k := by
    refine State.mem_openRecvs.mpr ⟨hrecv, fun hmem ↦ ?_⟩
    obtain ⟨d, hd, heq⟩ := List.mem_map.mp hmem
    exact hnone d hd ((hpartner d hd).mpr (Prod.mk.inj heq))
  obtain ⟨⟨i', x'⟩, sends, hsends⟩ := List.exists_cons_of_ne_nil (List.ne_nil_of_mem hopen)
  obtain ⟨j', recvs, hrecvs⟩ := List.exists_cons_of_ne_nil (List.ne_nil_of_mem hfree)
  exact ⟨_, .deliver (by rw [hsends, List.head?_cons]) (by rw [hrecvs, List.head?_cons])⟩

namespace Leveled

theorem behind_todo (hlevel : Leveled level prog) (h : Genuine prog s) {r : ι} {w b : Instr ι κ π}
    {rest : List (Instr ι κ π)} (hprog : s.todo r = w :: rest) (hb : b ∈ rest) :
    Behind level prog r w b := by
  have hpairwise := hlevel.behind r
  rw [← h.split r, hprog] at hpairwise
  exact (List.pairwise_cons.mp (List.pairwise_append.mp hpairwise).2.1).1 b hb

/-- Who waits for a slot has started it. -/
theorem exists_done (hlevel : Leveled level prog) (h : Genuine prog s) {r : ι} {slots : List ℕ}
    {rest : List (Instr ι κ π)} (hprog : s.todo r = .wait slots :: rest) {i : ℕ} (hi : i ∈ slots) :
    ∃ a ∈ s.done r, a.slot? = some i := by
  obtain ⟨a, ha, hslot⟩ := hlevel.started r slots
    (h.mem_of_todo (by rw [hprog]; exact List.mem_cons_self)) i hi
  refine ⟨a, ?_, hslot⟩
  rw [← h.split r, hprog] at ha
  rcases List.mem_append.mp ha with hdone | htodo
  · exact hdone
  rcases List.mem_cons.mp htodo with rfl | hrest
  · cases hslot
  · exact absurd hslot ((hlevel.behind_todo h hprog hrest slots rfl).2 i hi).1

section

variable [DecidableEq ι] [DecidableEq κ]

/-- What a process is at when nothing can happen: a wait or a barrier. -/
theorem blocked (hstuck : ∀ s', ¬Step s s') {r : ι} (hr : s.todo r ≠ []) :
    (∃ slots rest, s.todo r = .wait slots :: rest ∧ ∃ i ∈ slots, ¬s.Complete r i) ∨
      ∃ rest, s.todo r = .barrier :: rest ∧ s.inBarrier r = true ∧
        ∃ q, s.entered q < s.entered r := by
  obtain ⟨a, rest, hprog⟩ := List.exists_cons_of_ne_nil hr
  cases a with
  | send => exact absurd (.start hprog rfl) (hstuck _)
  | recv => exact absurd (.start hprog rfl) (hstuck _)
  | wait slots =>
    refine Or.inl ⟨slots, rest, hprog, ?_⟩
    by_contra hall
    push Not at hall
    exact hstuck _ (.wait hprog hall)
  | barrier =>
    refine Or.inr ⟨rest, hprog, ?_⟩
    have hin : s.inBarrier r = true := by
      by_contra hnot
      exact hstuck _ (.enter hprog (Bool.eq_false_iff.mpr hnot))
    refine ⟨hin, ?_⟩
    by_contra hall
    push Not at hall
    exact hstuck _ (.leave hprog hin hall)

omit [DecidableEq ι] [DecidableEq κ] in
/-- Nobody has come to more barriers than there are. -/
theorem entered_le (h : Genuine prog s) (r : ι) :
    s.entered r ≤ (prog r).countP Instr.isBarrier := by
  rw [← h.split r, List.countP_append, State.entered]
  refine Nat.add_le_add_left ?_ _
  cases hin : s.inBarrier r with
  | false => exact Nat.zero_le _
  | true =>
    obtain ⟨rest, hprog⟩ := h.inBarrier r hin
    rw [hprog, List.countP_cons_of_pos rfl]
    exact Nat.succ_le_succ (Nat.zero_le _)

/-- Nobody waits in a barrier forever: those who have come to the fewest get there. -/
theorem not_barrier (hlevel : Leveled level prog) (h : Genuine prog s) (hstuck : ∀ s', ¬Step s s')
    (r : ι) : ¬∃ q, s.entered q < s.entered r := by
  classical
  intro hsome
  have hvalue : ∃ n, ∃ q, s.entered q = n := ⟨_, r, rfl⟩
  obtain ⟨q, hq⟩ := Nat.find_spec hvalue
  have hleast : ∀ q', s.entered q ≤ s.entered q' := fun q' ↦
    hq ▸ Nat.find_min' hvalue ⟨q', rfl⟩
  obtain ⟨q', hlt⟩ := hsome
  have hless : s.entered q < (prog q).countP Instr.isBarrier :=
    calc s.entered q ≤ s.entered q' := hleast q'
      _ < s.entered r := hlt
      _ ≤ (prog r).countP Instr.isBarrier := entered_le h r
      _ = (prog q).countP Instr.isBarrier := hlevel.barriers r q
  -- there is a barrier left for `q`
  have hleft : 0 < (s.todo q).countP Instr.isBarrier := by
    rw [← h.split q, List.countP_append, State.entered] at hless
    omega
  obtain ⟨b, hb, hbarrier⟩ := List.countP_pos_iff.mp hleft
  rcases blocked hstuck (List.ne_nil_of_mem hb) with
    ⟨slots, rest, hprog, -⟩ | ⟨rest, -, -, q'', hless'⟩
  · rw [hprog] at hb
    rcases List.mem_cons.mp hb with rfl | hb
    · cases hbarrier
    · have hnone := (hlevel.behind_todo h hprog hb slots rfl).1
      rw [hbarrier] at hnone
      cases hnone
  · exact absurd hless' (Nat.not_lt.mpr (hleast q''))

/-- Somebody waits for a message of level `n`. -/
def WaitsAt (level : ι → ι → κ → ℕ) (s : State ι κ π) (n : ℕ) : Prop :=
  ∃ r slots rest i a, s.todo r = .wait slots :: rest ∧ i ∈ slots ∧ ¬s.Complete r i ∧
    a ∈ s.done r ∧ a.slot? = some i ∧ a.level? level r = some n

omit [DecidableEq ι] [DecidableEq κ] in
/-- Whoever has not started its part of a message, and waits, waits for one of a lower level. -/
theorem exists_lower (hlevel : Leveled level prog) (h : Genuine prog s) {q : ι} {slots : List ℕ}
    {rest : List (Instr ι κ π)} (hprog : s.todo q = .wait slots :: rest)
    (hwait : ∃ i ∈ slots, ¬s.Complete q i) {b : Instr ι κ π} (hb : b ∈ prog q)
    (hnot : b ∉ s.done q) {n : ℕ} (hn : b.level? level q = some n) :
    ∃ m < n, WaitsAt level s m := by
  obtain ⟨i, hi, hincomplete⟩ := hwait
  obtain ⟨a, ha, hslot⟩ := hlevel.exists_done h hprog hi
  obtain ⟨m, hm⟩ := exists_level level q hslot
  have hrest : b ∈ rest := by
    rw [← h.split q, hprog] at hb
    rcases List.mem_cons.mp ((List.mem_append.mp hb).resolve_left hnot) with rfl | hrest
    · cases hn
    · exact hrest
  have hlt := ((hlevel.behind_todo h hprog hrest slots rfl).2 i hi).2 a (h.mem_of_done ha) hslot
    m hm n hn
  exact ⟨m, hlt, q, slots, rest, i, a, hprog, hi, hincomplete, ha, hslot, hm⟩

/-- **No deadlock.** As long as something is left to be done, there is a step. -/
theorem exists_step (hlevel : Leveled level prog) (h : Genuine prog s) {r : ι}
    (hr : s.todo r ≠ []) : ∃ s', Step s s' := by
  by_contra hnone
  have hstuck : ∀ s', ¬Step s s' := fun s' hstep ↦ hnone ⟨s', hstep⟩
  have hwaits : ∀ q, s.todo q ≠ [] →
      ∃ slots rest, s.todo q = .wait slots :: rest ∧ ∃ i ∈ slots, ¬s.Complete q i := fun q hq ↦
    (blocked hstuck hq).resolve_right fun ⟨_, _, _, hsome⟩ ↦ hlevel.not_barrier h hstuck q hsome
  -- of all who wait, somebody waits for a message of the lowest level
  have hsome : ∃ n, WaitsAt level s n := by
    obtain ⟨slots, rest, hprog, i, hi, hincomplete⟩ := hwaits r hr
    obtain ⟨a, ha, hslot⟩ := hlevel.exists_done h hprog hi
    obtain ⟨n, hn⟩ := exists_level level r hslot
    exact ⟨n, r, slots, rest, i, a, hprog, hi, hincomplete, ha, hslot, hn⟩
  classical
  obtain ⟨q, slots, rest, i, a, -, -, hincomplete, ha, hslot, hn⟩ := Nat.find_spec hsome
  have hleast : ∀ (q' : ι) (b : Instr ι κ π), b ∈ prog q' →
      b.level? level q' = some (Nat.find hsome) → b ∈ s.done q' := by
    intro q' b hb hlevel'
    by_contra hnot
    have htodo : s.todo q' ≠ [] := fun hnil ↦ hnot (h.done_eq hnil ▸ hb)
    obtain ⟨slots', rest', hprog', hwait⟩ := hwaits q' htodo
    obtain ⟨m, hlt, hm⟩ := hlevel.exists_lower h hprog' hwait hb hnot hlevel'
    exact Nat.find_min hsome hlt hm
  cases a with
  | send slot mode dest key x =>
    obtain rfl := Option.some_inj.mp hslot
    obtain ⟨j, hrecv⟩ := (hlevel.partner q dest key).mp ⟨slot, mode, x, h.mem_of_done ha⟩
    exact hnone (hlevel.exists_deliver h ha (hleast dest _ hrecv hn) (Or.inl hincomplete))
  | recv slot source key =>
    obtain rfl := Option.some_inj.mp hslot
    obtain ⟨j, mode, x, hsend⟩ := (hlevel.partner source q key).mpr ⟨slot, h.mem_of_done ha⟩
    exact hnone (hlevel.exists_deliver h (hleast source _ hsend hn) ha (Or.inr hincomplete))
  | wait => cases hslot
  | barrier => cases hslot

end

end Leveled

end Requests

end Runs

end MpiTestSuite

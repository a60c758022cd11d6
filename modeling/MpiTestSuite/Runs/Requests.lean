import Mathlib.Logic.Function.Basic
import Mathlib.Logic.Relation
import MpiTestSuite.Runs.Deliveries

/-!
# Processes that exchange messages through requests

Every process executes a list of instructions. A send or a receive is only started by its
instruction, in a numbered slot, and it is another instruction that waits for slots; a blocking call
is the one followed by the other. The system matches what has been started: the first send of one
process to another with the first receive there that names the sender, for every key.

A send may end before it is matched if the system has a buffer for it. Nobody can rely on that, so
it is not among the steps that a system has to take sooner or later (`Step`), but it can happen
(`Buffer`).

## What is kept

What has been matched has been started on both sides, and nothing is matched twice (`Genuine`). If
no two sends of a process go to the same one with the same key, no two receives name the same sender
and key, and each send has a receive (`Paired`), a receive that is complete has got the message that
was sent to it (`Genuine.exists_delivery`).
-/

open Relation

namespace MpiTestSuite

namespace Runs

namespace Requests

variable {ι κ π : Type*}

/-! ## The system -/

/-- What is asked of a send. -/
inductive Mode
  /-- It may end before it is matched. -/
  | standard
  /-- It ends when it is matched. -/
  | synchronous
  /-- It must not be started before the receive. -/
  | ready
  deriving DecidableEq

/-- What a process does. -/
inductive Instr (ι κ π : Type*)
  | send (slot : ℕ) (mode : Mode) (dest : ι) (key : κ) (payload : π)
  | recv (slot : ℕ) (source : ι) (key : κ)
  /-- Wait until all of these slots are complete. -/
  | wait (slots : List ℕ)
  /-- Wait until everybody has come to as many barriers. -/
  | barrier

namespace Instr

/-- The slot of a send or receive. -/
def slot? : Instr ι κ π → Option ℕ
  | send slot _ _ _ _ => some slot
  | recv slot _ _ => some slot
  | _ => none

/-- Whether it is a send, the other process, and the key. -/
def envelope? : Instr ι κ π → Option (Bool × ι × κ)
  | send _ _ dest key _ => some (true, dest, key)
  | recv _ source key => some (false, source, key)
  | _ => none

def isBarrier : Instr ι κ π → Bool
  | barrier => true
  | _ => false

def isRecv : Instr ι κ π → Bool
  | recv .. => true
  | _ => false

def isReady : Instr ι κ π → Bool
  | send _ .ready _ _ _ => true
  | _ => false

theorem mem_envelope?_send {q : ι} {k : κ} {a : Instr ι κ π} :
    (true, q, k) ∈ a.envelope? ↔ ∃ i mode x, a = .send i mode q k x := by
  cases a <;> simp [envelope?, eq_comm]

theorem mem_envelope?_recv {r : ι} {k : κ} {a : Instr ι κ π} :
    (false, r, k) ∈ a.envelope? ↔ ∃ j, a = .recv j r k := by
  cases a <;> simp [envelope?, eq_comm]

variable [DecidableEq ι] [DecidableEq κ]

/-- The slot and the payload of a send to `q` with key `k`. -/
def sendTo? (q : ι) (k : κ) : Instr ι κ π → Option (ℕ × π)
  | send slot _ dest key payload => if dest = q ∧ key = k then some (slot, payload) else none
  | _ => none

/-- The slot of a receive from `r` with key `k`. -/
def recvFrom? (r : ι) (k : κ) : Instr ι κ π → Option ℕ
  | recv slot source key => if source = r ∧ key = k then some slot else none
  | _ => none

theorem isSome_sendTo? {q : ι} {k : κ} {a : Instr ι κ π} :
    (a.sendTo? q k).isSome ↔ (true, q, k) ∈ a.envelope? := by
  cases a with
  | send =>
    simp only [sendTo?, envelope?, Option.mem_some_iff, Prod.mk.injEq, true_and]
    split_ifs with h
    · exact iff_of_true rfl h
    · exact iff_of_false nofun h
  | recv => simp [sendTo?, envelope?]
  | wait => exact iff_of_false nofun nofun
  | barrier => exact iff_of_false nofun nofun

theorem isSome_recvFrom? {r : ι} {k : κ} {a : Instr ι κ π} :
    (a.recvFrom? r k).isSome ↔ (false, r, k) ∈ a.envelope? := by
  cases a with
  | recv =>
    simp only [recvFrom?, envelope?, Option.mem_some_iff, Prod.mk.injEq, true_and]
    split_ifs with h
    · exact iff_of_true rfl h
    · exact iff_of_false nofun h
  | send => simp [recvFrom?, envelope?]
  | wait => exact iff_of_false nofun nofun
  | barrier => exact iff_of_false nofun nofun

end Instr

/-- A send and a receive that have been matched. -/
abbrev Delivery (ι κ π : Type*) : Type _ := Runs.Delivery ι ℕ κ π

/-- The state of the system. -/
structure State (ι κ π : Type*) where
  /-- What each process has executed. -/
  done : ι → List (Instr ι κ π)
  /-- What it has yet to do. -/
  todo : ι → List (Instr ι κ π)
  /-- Whether it is in a barrier, the next instruction. -/
  inBarrier : ι → Bool
  delivered : List (Delivery ι κ π)
  /-- The sends that have ended without being matched. -/
  buffered : List (ι × ℕ)

/-- The initial state. -/
def State.init (prog : ι → List (Instr ι κ π)) : State ι κ π where
  done _ := []
  todo := prog
  inBarrier _ := false
  delivered := []
  buffered := []

/-- The number of barriers that a process has come to. -/
def State.entered (s : State ι κ π) (r : ι) : ℕ :=
  (s.done r).countP Instr.isBarrier + (s.inBarrier r).toNat

/-- The request in a slot of a process has ended. -/
def State.Complete (s : State ι κ π) (r : ι) (slot : ℕ) : Prop :=
  (∃ d ∈ s.delivered, d.source = r ∧ d.sendSlot = slot) ∨
    (∃ d ∈ s.delivered, d.dest = r ∧ d.recvSlot = slot) ∨ (r, slot) ∈ s.buffered

section

variable [DecidableEq ι]

/-- Process `r` has executed `a`. -/
def State.execute (s : State ι κ π) (r : ι) (a : Instr ι κ π) (rest : List (Instr ι κ π)) :
    State ι κ π :=
  { s with
    done := Function.update s.done r (s.done r ++ [a])
    todo := Function.update s.todo r rest
    inBarrier := Function.update s.inBarrier r false }

/-- Process `r` has come to a barrier. -/
def State.enter (s : State ι κ π) (r : ι) : State ι κ π :=
  { s with inBarrier := Function.update s.inBarrier r true }

/-- A send and a receive are matched. -/
def State.deliver (s : State ι κ π) (d : Delivery ι κ π) : State ι κ π :=
  { s with delivered := s.delivered ++ [d] }

/-- The system has copied a message. -/
def State.buffer (s : State ι κ π) (r : ι) (slot : ℕ) : State ι κ π :=
  { s with buffered := s.buffered ++ [(r, slot)] }

/-- What the receive in a slot has got: the sender, the key and the payload. -/
def State.got (s : State ι κ π) (q : ι) (slot : ℕ) : Option (ι × κ × π) :=
  Delivery.got s.delivered q slot

variable [DecidableEq κ]

/-- The sends from `r` to `q` with key `k` that have been started and not matched, in order. -/
def State.openSends (s : State ι κ π) (r q : ι) (k : κ) : List (ℕ × π) :=
  Delivery.openSends s.delivered r ((s.done r).filterMap (Instr.sendTo? q k))

/-- The receives at `q` from `r` with key `k` that have been started and not matched, in order. -/
def State.openRecvs (s : State ι κ π) (q r : ι) (k : κ) : List ℕ :=
  Delivery.openRecvs s.delivered q ((s.done q).filterMap (Instr.recvFrom? r k))

/-- The steps that the system takes sooner or later. -/
inductive Step (s : State ι κ π) : State ι κ π → Prop
  | start {r a rest} : s.todo r = a :: rest → a.slot?.isSome → Step s (s.execute r a rest)
  | wait {r slots rest} : s.todo r = .wait slots :: rest → (∀ i ∈ slots, s.Complete r i) →
      Step s (s.execute r (.wait slots) rest)
  | enter {r rest} : s.todo r = .barrier :: rest → s.inBarrier r = false → Step s (s.enter r)
  | leave {r rest} : s.todo r = .barrier :: rest → s.inBarrier r = true →
      (∀ q, s.entered r ≤ s.entered q) → Step s (s.execute r .barrier rest)
  | deliver {r q k i x j} : (s.openSends r q k).head? = some (i, x) →
      (s.openRecvs q r k).head? = some j → Step s (s.deliver ⟨r, i, q, j, k, x⟩)

omit [DecidableEq ι] [DecidableEq κ] in
/-- What the system may do. -/
inductive Buffer (s : State ι κ π) : State ι κ π → Prop
  | buffer {r i q k x} : .send i .standard q k x ∈ s.done r → Buffer s (s.buffer r i)

/-- Whatever happens. -/
def Next (s s' : State ι κ π) : Prop := Step s s' ∨ Buffer s s'

/-- The states that are reached from the initial one. -/
def Reachable (prog : ι → List (Instr ι κ π)) (s : State ι κ π) : Prop :=
  ReflTransGen Next (State.init prog) s

/-- Whoever is about to start a ready send finds the receive started. -/
def State.ReadyInTime (s : State ι κ π) : Prop :=
  ∀ r i q k x rest, s.todo r = .send i .ready q k x :: rest → s.openRecvs q r k ≠ []

end

/-! ## What is kept -/

/-- What is known of every state that is reached. -/
structure Genuine (prog : ι → List (Instr ι κ π)) (s : State ι κ π) : Prop where
  split : ∀ r, s.done r ++ s.todo r = prog r
  sent : ∀ d ∈ s.delivered, ∃ mode, .send d.sendSlot mode d.dest d.key d.payload ∈ s.done d.source
  received : ∀ d ∈ s.delivered, .recv d.recvSlot d.source d.key ∈ s.done d.dest
  distinct : Delivery.Distinct s.delivered
  buffered : ∀ x ∈ s.buffered, ∃ q k payload, .send x.2 .standard q k payload ∈ s.done x.1
  /-- Whoever has waited for a slot has not done so in vain. -/
  waited : ∀ r slots, .wait slots ∈ s.done r → ∀ i ∈ slots, s.Complete r i
  inBarrier : ∀ r, s.inBarrier r = true → ∃ rest, s.todo r = .barrier :: rest
  /-- Nobody has left a barrier that somebody else has not come to. -/
  synchronized : ∀ r q, (s.done r).countP Instr.isBarrier ≤ s.entered q

variable {prog : ι → List (Instr ι κ π)} {s s' : State ι κ π}

theorem Genuine.init : Genuine prog (State.init prog) where
  split _ := rfl
  sent := nofun
  received := nofun
  distinct := .nil
  buffered := nofun
  waited := nofun
  inBarrier := nofun
  synchronized _ _ := Nat.zero_le _

section

variable [DecidableEq ι]

theorem State.mem_done_execute {r : ι} {a : Instr ι κ π} {rest : List (Instr ι κ π)} {q : ι}
    {b : Instr ι κ π} : b ∈ (s.execute r a rest).done q ↔ b ∈ s.done q ∨ q = r ∧ b = a := by
  rw [State.execute]
  rcases eq_or_ne q r with rfl | hq
  · simp
  · simp [hq]

theorem State.countP_done_execute (r : ι) (a : Instr ι κ π) (rest : List (Instr ι κ π)) (q : ι) :
    ((s.execute r a rest).done q).countP Instr.isBarrier
      = (s.done q).countP Instr.isBarrier + if q = r then a.isBarrier.toNat else 0 := by
  rw [State.execute]
  rcases eq_or_ne q r with rfl | hq
  · cases ha : a.isBarrier <;> simp [ha]
  · simp [hq]

/-- An instruction has been executed. What is asked of it is what the step has checked. -/
theorem Genuine.execute (h : Genuine prog s) {r : ι} {a : Instr ι κ π}
    {rest : List (Instr ι κ π)} (hprog : s.todo r = a :: rest)
    (hwait : ∀ slots, a = .wait slots → ∀ i ∈ slots, s.Complete r i)
    (hbarrier : a.isBarrier = true → s.inBarrier r = true ∧ ∀ q, s.entered r ≤ s.entered q) :
    Genuine prog (s.execute r a rest) := by
  have hentered : ∀ q, s.entered q ≤ (s.execute r a rest).entered q := by
    intro q
    rw [State.entered, State.entered, State.countP_done_execute, State.execute]
    rcases eq_or_ne q r with rfl | hq
    · cases hin : s.inBarrier q with
      | false => simp
      | true =>
        -- only a barrier is executed from within a barrier
        obtain ⟨rest', hhead⟩ := h.inBarrier q hin
        rw [hprog] at hhead
        simp [(List.cons.inj hhead).1, Instr.isBarrier]
    · simp [hq]
  refine ⟨fun q ↦ ?_, fun d hd ↦ ?_, fun d hd ↦ ?_, h.distinct, fun x hx ↦ ?_,
    fun q slots hmem i hi ↦ ?_, fun q hin ↦ ?_, fun q q' ↦ ?_⟩
  · rw [State.execute]
    rcases eq_or_ne q r with rfl | hq
    · simpa [hprog] using h.split q
    · simpa [hq] using h.split q
  · obtain ⟨mode, hsent⟩ := h.sent d hd
    exact ⟨mode, State.mem_done_execute.mpr (Or.inl hsent)⟩
  · exact State.mem_done_execute.mpr (Or.inl (h.received d hd))
  · obtain ⟨q, k, payload, hsent⟩ := h.buffered x hx
    exact ⟨q, k, payload, State.mem_done_execute.mpr (Or.inl hsent)⟩
  · rcases State.mem_done_execute.mp hmem with hold | ⟨rfl, hnew⟩
    · exact h.waited q slots hold i hi
    · exact hwait slots hnew.symm i hi
  · rw [State.execute] at hin ⊢
    rcases eq_or_ne q r with rfl | hq
    · simp at hin
    · simpa [hq] using h.inBarrier q (by simpa [hq] using hin)
  · rw [State.countP_done_execute]
    have hold := Nat.le_trans (h.synchronized q q') (hentered q')
    split_ifs with hq
    · subst hq
      cases ha : a.isBarrier with
      | false => simpa [ha] using hold
      | true =>
        obtain ⟨hin, hall⟩ := hbarrier ha
        have hle := Nat.le_trans (hall q') (hentered q')
        rw [State.entered, hin] at hle
        simpa [ha] using hle
    · exact hold

theorem Genuine.enter (h : Genuine prog s) {r : ι} {rest : List (Instr ι κ π)}
    (hprog : s.todo r = .barrier :: rest) : Genuine prog (s.enter r) where
  split := h.split
  sent := h.sent
  received := h.received
  distinct := h.distinct
  buffered := h.buffered
  waited := h.waited
  inBarrier q hin := by
    rcases eq_or_ne q r with rfl | hq
    · exact ⟨rest, hprog⟩
    · exact h.inBarrier q (by simpa [State.enter, hq] using hin)
  synchronized q q' := by
    refine Nat.le_trans (h.synchronized q q') (Nat.add_le_add_left ?_ _)
    rw [State.enter]
    rcases eq_or_ne q' r with rfl | hq
    · simpa using Bool.toNat_le (s.inBarrier q')
    · simp [hq]

omit [DecidableEq ι] in
theorem Genuine.buffer (h : Genuine prog s) {r : ι} {i : ℕ} {q : ι} {k : κ} {x : π}
    (hsend : .send i .standard q k x ∈ s.done r) : Genuine prog (s.buffer r i) where
  split := h.split
  sent := h.sent
  received := h.received
  distinct := h.distinct
  buffered y hy := by
    rcases List.mem_append.mp hy with hy | hy
    · exact h.buffered y hy
    · obtain rfl := List.mem_singleton.mp hy
      exact ⟨q, k, x, hsend⟩
  waited r' slots hmem j hj := by
    rcases h.waited r' slots hmem j hj with hsent | hreceived | hbuffered
    · exact Or.inl hsent
    · exact Or.inr (Or.inl hreceived)
    · exact Or.inr (Or.inr (List.mem_append_left _ hbuffered))
  inBarrier := h.inBarrier
  synchronized := h.synchronized

section

variable [DecidableEq κ]

theorem State.mem_openSends {r q : ι} {k : κ} {i : ℕ} {x : π} :
    (i, x) ∈ s.openSends r q k ↔ (∃ mode, .send i mode q k x ∈ s.done r) ∧
      (r, i) ∉ s.delivered.map fun d ↦ (d.source, d.sendSlot) := by
  rw [State.openSends, Delivery.mem_openSends, List.mem_filterMap]
  refine and_congr_left' ⟨?_, ?_⟩
  · rintro ⟨a, ha, hsend⟩
    cases a with
    | send slot mode dest key payload =>
      simp only [Instr.sendTo?, Option.ite_none_right_eq_some, Option.some_inj] at hsend
      obtain ⟨⟨rfl, rfl⟩, heq⟩ := hsend
      cases heq
      exact ⟨mode, ha⟩
    | recv => cases hsend
    | wait => cases hsend
    | barrier => cases hsend
  · rintro ⟨mode, ha⟩
    exact ⟨_, ha, by simp [Instr.sendTo?]⟩

theorem State.mem_openRecvs {q r : ι} {k : κ} {j : ℕ} :
    j ∈ s.openRecvs q r k ↔ .recv j r k ∈ s.done q ∧
      (q, j) ∉ s.delivered.map fun d ↦ (d.dest, d.recvSlot) := by
  rw [State.openRecvs, Delivery.mem_openRecvs, List.mem_filterMap]
  refine and_congr_left' ⟨?_, ?_⟩
  · rintro ⟨a, ha, hrecv⟩
    cases a with
    | recv slot source key =>
      simp only [Instr.recvFrom?, Option.ite_none_right_eq_some, Option.some_inj] at hrecv
      obtain ⟨⟨rfl, rfl⟩, rfl⟩ := hrecv
      exact ha
    | send => cases hrecv
    | wait => cases hrecv
    | barrier => cases hrecv
  · intro ha
    exact ⟨_, ha, by simp [Instr.recvFrom?]⟩

theorem Genuine.deliver (h : Genuine prog s) {r q : ι} {k : κ} {i : ℕ} {x : π} {j : ℕ}
    (hsend : (i, x) ∈ s.openSends r q k) (hrecv : j ∈ s.openRecvs q r k) :
    Genuine prog (s.deliver ⟨r, i, q, j, k, x⟩) := by
  obtain ⟨hstarted, hopen⟩ := State.mem_openSends.mp hsend
  obtain ⟨hposted, hfree⟩ := State.mem_openRecvs.mp hrecv
  have hold : ∀ d ∈ s.delivered, d ∈ (s.deliver ⟨r, i, q, j, k, x⟩).delivered :=
    fun _ hd ↦ List.mem_append_left _ hd
  refine ⟨h.split, fun d hd ↦ ?_, fun d hd ↦ ?_, h.distinct.concat hopen hfree, h.buffered,
    fun r' slots hwait i' hi' ↦ ?_, h.inBarrier, h.synchronized⟩
  · rcases Delivery.mem_concat.mp hd with hd | rfl
    · exact h.sent d hd
    · exact hstarted
  · rcases Delivery.mem_concat.mp hd with hd | rfl
    · exact h.received d hd
    · exact hposted
  · rcases h.waited r' slots hwait i' hi' with ⟨d, hd, hslot⟩ | ⟨d, hd, hslot⟩ | hbuffered
    · exact Or.inl ⟨d, hold d hd, hslot⟩
    · exact Or.inr (Or.inl ⟨d, hold d hd, hslot⟩)
    · exact Or.inr (Or.inr hbuffered)

theorem Genuine.step (h : Genuine prog s) (hstep : Step s s') : Genuine prog s' := by
  cases hstep with
  | @start r a rest hprog hslot =>
    cases a with
    | send => exact h.execute hprog nofun nofun
    | recv => exact h.execute hprog nofun nofun
    | wait => cases hslot
    | barrier => cases hslot
  | wait hprog hcomplete =>
    exact h.execute hprog (fun slots ha i hi ↦ hcomplete i (Instr.wait.inj ha ▸ hi)) nofun
  | enter hprog => exact h.enter hprog
  | leave hprog hin hall => exact h.execute hprog nofun fun _ ↦ ⟨hin, hall⟩
  | deliver hsend hrecv =>
    exact h.deliver (List.mem_of_head? hsend) (List.mem_of_head? hrecv)

/-- **Every run.** -/
theorem Reachable.genuine (h : Reachable prog s) : Genuine prog s := by
  induction h with
  | refl => exact .init
  | tail _ hnext ih =>
    rcases hnext with hstep | hbuffer
    · exact ih.step hstep
    · obtain ⟨hsend⟩ := hbuffer
      exact ih.buffer hsend

end

end

/-! ## Programs in which every send has its receive -/

/-- What is asked of the programs. -/
structure Paired (prog : ι → List (Instr ι κ π)) : Prop where
  /-- No slot is used twice. -/
  slots : ∀ r, (prog r).Pairwise fun a b ↦ ∀ i ∈ a.slot?, i ∉ b.slot?
  /-- No two sends of a process have the same destination and key, and no two receives the same
  source and key. -/
  envelopes : ∀ r, (prog r).Pairwise fun a b ↦ ∀ e ∈ a.envelope?, e ∉ b.envelope?
  /-- Every send has a receive, and every receive a send. -/
  partner : ∀ r q k, (∃ i mode x, .send i mode q k x ∈ prog r) ↔ ∃ j, .recv j r k ∈ prog q

namespace Paired

variable {r q : ι} {a b : Instr ι κ π}

/-- Instructions that share something no two of them share are the same. -/
theorem eq_of_pairwise {α β : Type*} {l : List α} {f : α → Option β}
    (h : l.Pairwise fun a b ↦ ∀ i ∈ f a, i ∉ f b) {a b : α} (ha : a ∈ l) (hb : b ∈ l) {i : β}
    (hai : i ∈ f a) (hbi : i ∈ f b) : a = b := by
  by_contra hne
  have hsymm : Std.Symm fun a b ↦ ∀ i ∈ f a, i ∉ f b :=
    ⟨fun a b hab i hb ha ↦ hab i ha hb⟩
  exact h.forall ha hb hne i hai hbi

/-- There is one of them. -/
theorem countP_eq_one {α β : Type*} {l : List α} {f : α → Option β}
    (h : l.Pairwise fun a b ↦ ∀ i ∈ f a, i ∉ f b) {i : β} {P : α → Bool}
    (hP : ∀ a ∈ l, P a = true ↔ i ∈ f a) {a : α} (ha : a ∈ l) (hai : i ∈ f a) :
    l.countP P = 1 := by
  induction l with
  | nil => cases ha
  | cons b l ih =>
    obtain ⟨hb, hl⟩ := List.pairwise_cons.mp h
    rcases List.mem_cons.mp ha with rfl | ha
    · have hnone : l.countP P = 0 := List.countP_eq_zero.mpr fun c hc hp ↦
        hb c hc i hai ((hP c (List.mem_cons_of_mem a hc)).mp hp)
      rw [List.countP_cons_of_pos ((hP a List.mem_cons_self).mpr hai), hnone]
    · have hnot : ¬P b = true := fun hp ↦ hb a ha i ((hP b List.mem_cons_self).mp hp) hai
      rw [List.countP_cons_of_neg hnot]
      exact ih hl (fun c hc ↦ hP c (List.mem_cons_of_mem b hc)) ha

theorem eq_of_slot (h : Paired prog) (ha : a ∈ prog r) (hb : b ∈ prog r) {i : ℕ}
    (hai : a.slot? = some i) (hbi : b.slot? = some i) : a = b :=
  eq_of_pairwise (h.slots r) ha hb hai hbi

theorem eq_of_envelope (h : Paired prog) (ha : a ∈ prog r) (hb : b ∈ prog r) {e : Bool × ι × κ}
    (hae : a.envelope? = some e) (hbe : b.envelope? = some e) : a = b :=
  eq_of_pairwise (h.envelopes r) ha hb hae hbe

end Paired

/-- A receive that has got something is complete. -/
theorem State.complete_of_got [DecidableEq ι] {q : ι} {j : ℕ} {y : ι × κ × π}
    (h : s.got q j = some y) : s.Complete q j := .inr (.inl (Delivery.exists_of_got h))

namespace Genuine

variable {r q : ι} {k : κ} {i j : ℕ} {x : π}

theorem mem_of_done (h : Genuine prog s) {a : Instr ι κ π} (ha : a ∈ s.done r) : a ∈ prog r :=
  h.split r ▸ List.mem_append_left _ ha

theorem mem_of_todo (h : Genuine prog s) {a : Instr ι κ π} (ha : a ∈ s.todo r) : a ∈ prog r :=
  h.split r ▸ List.mem_append_right _ ha

theorem done_eq (h : Genuine prog s) (hr : s.todo r = []) : s.done r = prog r := by
  have hsplit := h.split r
  rwa [hr, List.append_nil] at hsplit

/-- What a process has waited for is complete when it is through. -/
theorem complete_of_todo (h : Genuine prog s) (hr : s.todo r = []) {slots : List ℕ}
    (hwait : .wait slots ∈ prog r) (hi : i ∈ slots) : s.Complete r i :=
  h.waited r slots (h.done_eq hr ▸ hwait) i hi

/-- **Receives.** A receive that is complete has got what was sent to it, and nothing else. -/
theorem exists_delivery (h : Genuine prog s) (hpaired : Paired prog) (hrecv : .recv j r k ∈ prog q)
    (hcomplete : s.Complete q j) :
    ∃ d ∈ s.delivered, (d.source = r ∧ d.dest = q ∧ d.recvSlot = j ∧ d.key = k) ∧
      (∃ mode, .send d.sendSlot mode q k d.payload ∈ prog r) ∧
      ∀ d' ∈ s.delivered, d'.dest = q → d'.recvSlot = j → d' = d := by
  -- a slot of a receive is not one of a send
  have hnosend : ∀ mode q' k' x', .send j mode q' k' x' ∉ prog q := by
    intro mode q' k' x' hsend
    cases hpaired.eq_of_slot hsend hrecv rfl rfl
  rcases hcomplete with ⟨d, hd, rfl, rfl⟩ | ⟨d, hd, rfl, rfl⟩ | hbuffered
  · obtain ⟨mode, hsend⟩ := h.sent d hd
    exact absurd (h.mem_of_done hsend) (hnosend _ _ _ _)
  · cases hpaired.eq_of_slot (h.mem_of_done (h.received d hd)) hrecv rfl rfl
    obtain ⟨mode, hsend⟩ := h.sent d hd
    refine ⟨d, hd, ⟨rfl, rfl, rfl, rfl⟩, ⟨mode, h.mem_of_done hsend⟩, fun d' hd' hdest hslot ↦ ?_⟩
    exact h.distinct.eq_of_recv hd hd' hdest hslot
  · obtain ⟨q', k', x', hsend⟩ := h.buffered _ hbuffered
    exact absurd (h.mem_of_done hsend) (hnosend _ _ _ _)

/-- What is seen of it. -/
theorem got_eq [DecidableEq ι] (h : Genuine prog s) (hpaired : Paired prog) {mode : Mode}
    (hsend : .send i mode q k x ∈ prog r) (hrecv : .recv j r k ∈ prog q)
    (hcomplete : s.Complete q j) : s.got q j = some (r, k, x) := by
  obtain ⟨d, hd, ⟨rfl, rfl, rfl, rfl⟩, ⟨mode', hsent⟩, -⟩ :=
    h.exists_delivery hpaired hrecv hcomplete
  cases hpaired.eq_of_envelope hsent hsend rfl rfl
  exact h.distinct.got_eq hd

/-- It has got it once. -/
theorem countP_delivered (h : Genuine prog s) (hpaired : Paired prog)
    (hrecv : .recv j r k ∈ prog q) (hcomplete : s.Complete q j) {P : Delivery ι κ π → Bool}
    (hP : ∀ d ∈ s.delivered, P d = true ↔ d.dest = q ∧ d.recvSlot = j) :
    s.delivered.countP P = 1 := by
  obtain ⟨d, hd, ⟨-, rfl, rfl, -⟩, -⟩ := h.exists_delivery hpaired hrecv hcomplete
  exact h.distinct.countP_eq_one hd hP

/-- It is the only one from its sender, if all messages have the same key. -/
theorem countP_source (h : Genuine prog s) (hpaired : Paired prog)
    (hrecv : .recv j r k ∈ prog q) (hcomplete : s.Complete q j)
    (hkey : ∀ d ∈ s.delivered, d.key = k) {P : Delivery ι κ π → Bool}
    (hP : ∀ d ∈ s.delivered, P d = true ↔ d.source = r ∧ d.dest = q) :
    s.delivered.countP P = 1 := by
  refine h.countP_delivered hpaired hrecv hcomplete fun d hd ↦ (hP d hd).trans ?_
  have hreceived := h.mem_of_done (h.received d hd)
  constructor
  · rintro ⟨rfl, rfl⟩
    rw [hkey d hd] at hreceived
    exact ⟨rfl, (Instr.recv.inj (hpaired.eq_of_envelope hreceived hrecv rfl rfl)).1⟩
  · rintro ⟨rfl, rfl⟩
    exact ⟨(Instr.recv.inj (hpaired.eq_of_slot hreceived hrecv rfl rfl)).2.1, rfl⟩

/-- What is complete on one side of a message is matched with the other side. -/
theorem partner_slot (h : Genuine prog s) (hpaired : Paired prog) {d : Delivery ι κ π}
    (hd : d ∈ s.delivered) {mode : Mode} (hsend : .send i mode q k x ∈ prog r)
    (hrecv : .recv j r k ∈ prog q) :
    (d.source = r ∧ d.sendSlot = i) ↔ (d.dest = q ∧ d.recvSlot = j) := by
  obtain ⟨mode', hsent⟩ := h.sent d hd
  have hreceived := h.received d hd
  constructor
  · rintro ⟨rfl, rfl⟩
    cases hpaired.eq_of_slot (h.mem_of_done hsent) hsend rfl rfl
    cases hpaired.eq_of_envelope (h.mem_of_done hreceived) hrecv rfl rfl
    exact ⟨rfl, rfl⟩
  · rintro ⟨rfl, rfl⟩
    cases hpaired.eq_of_slot (h.mem_of_done hreceived) hrecv rfl rfl
    cases hpaired.eq_of_envelope (h.mem_of_done hsent) hsend rfl rfl
    exact ⟨rfl, rfl⟩

/-! ## Ready sends -/

/-- A process that has left a barrier or is in one has come to it with all that stands in front. -/
theorem recv_mem_done (h : Genuine prog s)
    (hphases : (prog q).Pairwise fun a b ↦ a.isBarrier → b.isRecv = false)
    (hentered : 0 < s.entered q) (hrecv : .recv j r k ∈ prog q) : .recv j r k ∈ s.done q := by
  rw [← h.split q] at hphases hrecv
  obtain ⟨-, htodo, hboth⟩ := List.pairwise_append.mp hphases
  rcases List.mem_append.mp hrecv with hdone | hrest
  · exact hdone
  by_cases hin : s.inBarrier q = true
  · obtain ⟨rest, hprog⟩ := h.inBarrier q hin
    rw [hprog] at htodo hrest
    rcases List.mem_cons.mp hrest with heq | hrest
    · cases heq
    · cases (List.pairwise_cons.mp htodo).1 _ hrest rfl
  · rw [State.entered, Bool.eq_false_iff.mpr hin, Bool.toNat_false, Nat.add_zero,
      List.countP_pos_iff] at hentered
    obtain ⟨b, hb, hbarrier⟩ := hentered
    cases hboth b hb _ hrest hbarrier

/-- **Ready sends.** If all start their receives in front of a barrier and their ready sends behind
it, then no ready send is started before its receive. -/
theorem readyInTime [DecidableEq ι] [DecidableEq κ] (h : Genuine prog s) (hpaired : Paired prog)
    (hbarrier : ∀ r, ∀ a ∈ prog r, a.isReady → ∃ b ∈ prog r, b.isBarrier)
    (hsends : ∀ r, (prog r).Pairwise fun a b ↦ a.isReady → b.isBarrier = false)
    (hrecvs : ∀ q, (prog q).Pairwise fun a b ↦ a.isBarrier → b.isRecv = false) :
    s.ReadyInTime := by
  intro r i q k x rest hprog
  have hsend : .send i .ready q k x ∈ prog r :=
    h.mem_of_todo (by rw [hprog]; exact List.mem_cons_self)
  obtain ⟨j, hrecv⟩ := (hpaired.partner r q k).mp ⟨i, .ready, x, hsend⟩
  -- the sender has left the barrier
  have hleft : 0 < (s.done r).countP Instr.isBarrier := by
    obtain ⟨b, hb, hisBarrier⟩ := hbarrier r _ hsend rfl
    have hphases := hsends r
    rw [← h.split r] at hphases hb
    obtain ⟨-, htodo, -⟩ := List.pairwise_append.mp hphases
    rw [hprog] at htodo hb
    rcases List.mem_append.mp hb with hdone | hrest
    · exact List.countP_pos_iff.mpr ⟨b, hdone, hisBarrier⟩
    rcases List.mem_cons.mp hrest with rfl | hrest
    · cases hisBarrier
    · rw [(List.pairwise_cons.mp htodo).1 b hrest rfl] at hisBarrier
      cases hisBarrier
  have hdone : .recv j r k ∈ s.done q :=
    h.recv_mem_done (hrecvs q) (Nat.lt_of_lt_of_le hleft (h.synchronized r q)) hrecv
  -- and its message is not there before it is sent
  refine List.ne_nil_of_mem (State.mem_openRecvs.mpr ⟨hdone, fun hmem ↦ ?_⟩)
  obtain ⟨d, hd, heq⟩ := List.mem_map.mp hmem
  obtain ⟨rfl, rfl⟩ := (h.partner_slot hpaired hd hsend hrecv).mpr (Prod.mk.inj heq)
  obtain ⟨mode, hsent⟩ := h.sent d hd
  have hslots := hpaired.slots d.source
  rw [← h.split d.source, hprog] at hslots
  exact (List.pairwise_append.mp hslots).2.2 _ hsent _ List.mem_cons_self d.sendSlot rfl rfl

end Genuine

end Requests

end Runs

end MpiTestSuite

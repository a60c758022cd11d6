import Mathlib.Algebra.Order.BigOperators.Group.Finset
import MpiTestSuite.Runs.Conditions
import MpiTestSuite.Runs.Deliveries
import MpiTestSuite.Runs.Outline

/-!
# Processes with several threads

Every process has several threads, each of which executes a list of instructions. The threads of a
process share its requests, which are numbered by slots, its signals, and the buffer it may have
attached. A message goes to a process, not to a thread: a send is matched with a receive of the
other process that names the sender and the key, whichever thread has started it. Messages of one
thread do not overtake each other.

A request may name no partner, and then ends at once. So does a send that uses the attached buffer.
Other sends may end before they are matched if the system has room for them (`May`), but nobody can
rely on that (`Step`). A signal that has been sent stays; whoever waits for it goes on then.

## What is kept

What has been matched has been started on both sides, and nothing is matched twice (`Genuine`). If
the requests of a process all have different slots and envelopes (`Paired`), a receive gets what was
sent to it (`Genuine.got_eq`). If besides every request has its partner (`Served`), and the
instructions have levels as in `Conditions.Leveled`, nobody is ever stuck (`Genuine.exists_step`).
Whatever the programs are, every run can be continued to a state in which nothing can happen any
more (`Reachable.exists_rest`).
-/

open Relation

namespace MpiTestSuite

namespace Runs

namespace Threads

variable {ρ θ σ κ π : Type*}

/-! ## The system -/

/-- What a thread does. -/
inductive Instr (ρ σ κ π : Type*)
  | send (slot : σ) (buffered : Bool) (dest : Option ρ) (key : κ) (payload : π)
  | recv (slot : σ) (source : Option ρ) (key : κ)
  /-- Wait until all of these slots are complete. -/
  | wait (slots : List σ)
  | signal (tag : ℕ)
  /-- Wait for a signal. -/
  | await (tag : ℕ)
  /-- Attach a buffer to the process. -/
  | attach
  /-- Wait until the messages in the buffer have been received, and detach it. -/
  | detach

namespace Instr

/-- The slot of a send or receive. -/
def slot? : Instr ρ σ κ π → Option σ
  | send slot _ _ _ _ => some slot
  | recv slot _ _ => some slot
  | _ => none

/-- Whether it is a send, the other process, and the key. -/
def envelope? : Instr ρ σ κ π → Option (Bool × ρ × κ)
  | send _ _ (some dest) key _ => some (true, dest, key)
  | recv _ (some source) key => some (false, source, key)
  | _ => none

/-- The request ends without another process. -/
def isLocal : Instr ρ σ κ π → Bool
  | send _ buffered dest _ _ => buffered || dest.isNone
  | recv _ source _ => source.isNone
  | _ => false

theorem mem_envelope?_send {q : ρ} {k : κ} {a : Instr ρ σ κ π} :
    (true, q, k) ∈ a.envelope? ↔ ∃ i m x, a = .send i m (some q) k x := by
  cases a with
  | send i m dest => cases dest <;> simp [envelope?, eq_comm]
  | recv i source => cases source <;> simp [envelope?]
  | _ => simp [envelope?]

theorem mem_envelope?_recv {r : ρ} {k : κ} {a : Instr ρ σ κ π} :
    (false, r, k) ∈ a.envelope? ↔ ∃ j, a = .recv j (some r) k := by
  cases a with
  | send i m dest => cases dest <;> simp [envelope?]
  | recv i source => cases source <;> simp [envelope?, eq_comm]
  | _ => simp [envelope?]

/-- A request that does not end on its own has a partner. -/
theorem exists_envelope {a : Instr ρ σ κ π} {i : σ} (hslot : a.slot? = some i)
    (hlocal : a.isLocal = false) : ∃ e, a.envelope? = some e := by
  cases a with
  | send j m dest =>
    cases dest with
    | none => simp [isLocal] at hlocal
    | some q => exact ⟨_, rfl⟩
  | recv j source =>
    cases source with
    | none => cases hlocal
    | some r => exact ⟨_, rfl⟩
  | _ => cases hslot

section

variable [DecidableEq ρ] [DecidableEq κ]

/-- The slot and the payload of a send to `q` with key `k`. -/
def sendTo? (q : ρ) (k : κ) : Instr ρ σ κ π → Option (σ × π)
  | send slot _ dest key payload => if dest = some q ∧ key = k then some (slot, payload) else none
  | _ => none

/-- The slot of a receive from `r` with key `k`. -/
def recvFrom? (r : ρ) (k : κ) : Instr ρ σ κ π → Option σ
  | recv slot source key => if source = some r ∧ key = k then some slot else none
  | _ => none

theorem sendTo?_eq_some {q : ρ} {k : κ} {a : Instr ρ σ κ π} {i : σ} {x : π} :
    a.sendTo? q k = some (i, x) ↔ ∃ m, a = .send i m (some q) k x := by
  cases a with
  | send j m dest key payload =>
    simp only [sendTo?, Option.ite_none_right_eq_some, Option.some_inj, Prod.mk.injEq,
      send.injEq]
    constructor
    · rintro ⟨⟨rfl, rfl⟩, rfl, rfl⟩
      exact ⟨m, rfl, rfl, rfl, rfl, rfl⟩
    · rintro ⟨m', rfl, -, rfl, rfl, rfl⟩
      exact ⟨⟨rfl, rfl⟩, rfl, rfl⟩
  | _ => simp [sendTo?]

theorem recvFrom?_eq_some {r : ρ} {k : κ} {a : Instr ρ σ κ π} {j : σ} :
    a.recvFrom? r k = some j ↔ a = .recv j (some r) k := by
  cases a with
  | recv i source key =>
    simp only [recvFrom?, Option.ite_none_right_eq_some, Option.some_inj, recv.injEq]
    constructor
    · rintro ⟨⟨rfl, rfl⟩, rfl⟩
      exact ⟨rfl, rfl, rfl⟩
    · rintro ⟨rfl, rfl, rfl⟩
      exact ⟨⟨rfl, rfl⟩, rfl⟩
  | _ => simp [recvFrom?]

end

end Instr

/-- The state of the system. A party is a thread of a process. -/
structure State (ρ θ σ κ π : Type*) where
  /-- What each party has executed. -/
  done : ρ × θ → List (Instr ρ σ κ π)
  /-- What it has yet to do. -/
  todo : ρ × θ → List (Instr ρ σ κ π)
  delivered : List (Delivery ρ σ κ π)
  /-- The sends that have ended without being matched. -/
  copied : List (ρ × σ)

namespace State

/-- The initial state. -/
def init (prog : ρ × θ → List (Instr ρ σ κ π)) : State ρ θ σ κ π where
  done _ := []
  todo := prog
  delivered := []
  copied := []

variable (s : State ρ θ σ κ π)

/-- The message of a send has been received. -/
def Taken (r : ρ) (slot : σ) : Prop := ∃ d ∈ s.delivered, d.source = r ∧ d.sendSlot = slot

/-- A receive has got a message. -/
def Got (q : ρ) (slot : σ) : Prop := ∃ d ∈ s.delivered, d.dest = q ∧ d.recvSlot = slot

/-- The request in a slot of a process has ended. -/
def Complete (r : ρ) (slot : σ) : Prop :=
  s.Taken r slot ∨ s.Got r slot ∨ (r, slot) ∈ s.copied ∨
    ∃ t, ∃ a ∈ s.done (r, t), a.slot? = some slot ∧ a.isLocal = true

/-- A thread of the process has sent a signal. -/
def Signaled (r : ρ) (tag : ℕ) : Prop := ∃ t, .signal tag ∈ s.done (r, t)

/-- The process has attached a buffer, and has not detached it. -/
def Attached (r : ρ) : Prop := (∃ t, .attach ∈ s.done (r, t)) ∧ ∀ t, .detach ∉ s.done (r, t)

/-- What a party waits for before it has executed an instruction. -/
def Ready (x : ρ × θ) : Instr ρ σ κ π → Prop
  | .wait slots => ∀ i ∈ slots, s.Complete x.1 i
  | .await tag => s.Signaled x.1 tag
  | .detach => ∀ t i q k y, .send i true (some q) k y ∈ s.done (x.1, t) → s.Taken x.1 i
  | _ => True

/-- A send and a receive are matched. -/
def deliver (d : Delivery ρ σ κ π) : State ρ θ σ κ π := { s with delivered := s.delivered ++ [d] }

/-- The system has copied a message. -/
def copy (r : ρ) (slot : σ) : State ρ θ σ κ π := { s with copied := s.copied ++ [(r, slot)] }

section

variable [DecidableEq ρ] [DecidableEq θ]

/-- Party `x` has executed `a`. -/
def execute (x : ρ × θ) (a : Instr ρ σ κ π) (rest : List (Instr ρ σ κ π)) : State ρ θ σ κ π :=
  { s with
    done := Function.update s.done x (s.done x ++ [a])
    todo := Function.update s.todo x rest }

end

section

variable [DecidableEq ρ] [DecidableEq σ]

/-- What the receive in a slot has got: the sender, the key and the payload. -/
def got (q : ρ) (slot : σ) : Option (ρ × κ × π) := Delivery.got s.delivered q slot

variable [DecidableEq κ]

/-- The sends of a party to `q` with key `k` that have been started and not matched, in order. -/
def openSends (x : ρ × θ) (q : ρ) (k : κ) : List (σ × π) :=
  Delivery.openSends s.delivered x.1 ((s.done x).filterMap (Instr.sendTo? q k))

/-- The receives of a party from `r` with key `k` that have been started and not matched, in
order. -/
def openRecvs (x : ρ × θ) (r : ρ) (k : κ) : List σ :=
  Delivery.openRecvs s.delivered x.1 ((s.done x).filterMap (Instr.recvFrom? r k))

end

end State

section

variable [DecidableEq ρ] [DecidableEq θ] [DecidableEq σ] [DecidableEq κ]

/-- The steps that the system takes sooner or later. -/
inductive Step (s : State ρ θ σ κ π) : State ρ θ σ κ π → Prop
  | execute {x a rest} : s.todo x = a :: rest → s.Ready x a → Step s (s.execute x a rest)
  | deliver {x y i j k payload} : (s.openSends x y.1 k).head? = some (i, payload) →
      (s.openRecvs y x.1 k).head? = some j → Step s (s.deliver ⟨x.1, i, y.1, j, k, payload⟩)

omit [DecidableEq ρ] [DecidableEq θ] [DecidableEq σ] [DecidableEq κ] in
/-- What the system may do. -/
inductive May (s : State ρ θ σ κ π) : State ρ θ σ κ π → Prop
  | copy {x i q k payload} : .send i false (some q) k payload ∈ s.done x → May s (s.copy x.1 i)

/-- Whatever happens. -/
def Next (s s' : State ρ θ σ κ π) : Prop := Step s s' ∨ May s s'

/-- The states that are reached from the initial one. -/
def Reachable (prog : ρ × θ → List (Instr ρ σ κ π)) (s : State ρ θ σ κ π) : Prop :=
  ReflTransGen Next (State.init prog) s

end

/-! ## What is kept -/

/-- What is known of every state that is reached. -/
structure Genuine (prog : ρ × θ → List (Instr ρ σ κ π)) (s : State ρ θ σ κ π) : Prop where
  split : ∀ x, s.done x ++ s.todo x = prog x
  sent : ∀ d ∈ s.delivered, ∃ t m,
    .send d.sendSlot m (some d.dest) d.key d.payload ∈ s.done (d.source, t)
  received : ∀ d ∈ s.delivered, ∃ t, .recv d.recvSlot (some d.source) d.key ∈ s.done (d.dest, t)
  distinct : Delivery.Distinct s.delivered
  copied : ∀ y ∈ s.copied, ∃ t q k payload,
    .send y.2 false (some q) k payload ∈ s.done (y.1, t)
  /-- Nobody has waited in vain. -/
  waited : ∀ x, ∀ a ∈ s.done x, ∀ slots, a = .wait slots → ∀ i ∈ slots, s.Complete x.1 i
  signaled : ∀ x tag, .await tag ∈ s.done x → s.Signaled x.1 tag

variable {prog : ρ × θ → List (Instr ρ σ κ π)} {s s' : State ρ θ σ κ π}

theorem Genuine.init : Genuine prog (State.init prog) where
  split _ := rfl
  sent _ h := absurd h List.not_mem_nil
  received _ h := absurd h List.not_mem_nil
  distinct := .nil
  copied _ h := absurd h List.not_mem_nil
  waited _ _ h := absurd h List.not_mem_nil
  signaled _ _ h := absurd h List.not_mem_nil

/-- What has happened stays. -/
structure State.Before (s s' : State ρ θ σ κ π) : Prop where
  done : ∀ x, ∀ a ∈ s.done x, a ∈ s'.done x
  delivered : ∀ d ∈ s.delivered, d ∈ s'.delivered
  copied : ∀ y ∈ s.copied, y ∈ s'.copied

namespace State.Before

theorem complete (h : s.Before s') {r : ρ} {i : σ} (hi : s.Complete r i) : s'.Complete r i := by
  rcases hi with ⟨d, hd, hslot⟩ | ⟨d, hd, hslot⟩ | hcopied | ⟨t, a, ha, hslot⟩
  · exact .inl ⟨d, h.delivered d hd, hslot⟩
  · exact .inr (.inl ⟨d, h.delivered d hd, hslot⟩)
  · exact .inr (.inr (.inl (h.copied _ hcopied)))
  · exact .inr (.inr (.inr ⟨t, a, h.done _ a ha, hslot⟩))

theorem signaled (h : s.Before s') {r : ρ} {tag : ℕ} (htag : s.Signaled r tag) :
    s'.Signaled r tag := by
  obtain ⟨t, ht⟩ := htag
  exact ⟨t, h.done _ _ ht⟩

end State.Before

section

variable [DecidableEq ρ] [DecidableEq θ]

theorem State.mem_done_execute {x y : ρ × θ} {a b : Instr ρ σ κ π}
    {rest : List (Instr ρ σ κ π)} :
    b ∈ (s.execute x a rest).done y ↔ b ∈ s.done y ∨ y = x ∧ b = a := by
  rw [State.execute]
  rcases eq_or_ne y x with rfl | hy
  · simp
  · simp [hy]

theorem State.before_execute (s : State ρ θ σ κ π) (x : ρ × θ) (a : Instr ρ σ κ π)
    (rest : List (Instr ρ σ κ π)) : s.Before (s.execute x a rest) where
  done _ _ ha := State.mem_done_execute.mpr (.inl ha)
  delivered _ hd := hd
  copied _ hy := hy

/-- An instruction has been executed. -/
theorem Genuine.execute (h : Genuine prog s) {x : ρ × θ} {a : Instr ρ σ κ π}
    {rest : List (Instr ρ σ κ π)} (htodo : s.todo x = a :: rest) (hready : s.Ready x a) :
    Genuine prog (s.execute x a rest) := by
  have hbefore := s.before_execute x a rest
  refine ⟨fun y ↦ ?_, fun d hd ↦ ?_, fun d hd ↦ ?_, h.distinct, fun y hy ↦ ?_,
    fun y b hb slots hslots i hi ↦ ?_, fun y tag htag ↦ ?_⟩
  · have hsplit := h.split y
    rw [State.execute]
    rcases eq_or_ne y x with rfl | hy
    · simpa [htodo] using hsplit
    · simpa [hy] using hsplit
  · obtain ⟨t, m, hsent⟩ := h.sent d hd
    exact ⟨t, m, hbefore.done _ _ hsent⟩
  · obtain ⟨t, hreceived⟩ := h.received d hd
    exact ⟨t, hbefore.done _ _ hreceived⟩
  · obtain ⟨t, q, k, payload, hsent⟩ := h.copied y hy
    exact ⟨t, q, k, payload, hbefore.done _ _ hsent⟩
  · rcases State.mem_done_execute.mp hb with hold | ⟨rfl, rfl⟩
    · exact hbefore.complete (h.waited y b hold slots hslots i hi)
    · subst hslots
      exact hbefore.complete (hready i hi)
  · rcases State.mem_done_execute.mp htag with hold | ⟨rfl, rfl⟩
    · exact hbefore.signaled (h.signaled y tag hold)
    · exact hbefore.signaled hready

end

theorem State.before_deliver (s : State ρ θ σ κ π) (d : Delivery ρ σ κ π) :
    s.Before (s.deliver d) where
  done _ _ ha := ha
  delivered _ hd := List.mem_append_left _ hd
  copied _ hy := hy

theorem State.before_copy (s : State ρ θ σ κ π) (r : ρ) (i : σ) : s.Before (s.copy r i) where
  done _ _ ha := ha
  delivered _ hd := hd
  copied _ hy := List.mem_append_left _ hy

theorem Genuine.copy (h : Genuine prog s) {x : ρ × θ} {i : σ} {q : ρ} {k : κ} {payload : π}
    (hsend : .send i false (some q) k payload ∈ s.done x) : Genuine prog (s.copy x.1 i) where
  split := h.split
  sent := h.sent
  received := h.received
  distinct := h.distinct
  copied y hy := by
    rcases List.mem_append.mp hy with hold | hnew
    · exact h.copied y hold
    · obtain rfl := List.mem_singleton.mp hnew
      exact ⟨x.2, q, k, payload, hsend⟩
  waited y b hb slots hslots j hj :=
    (s.before_copy x.1 i).complete (h.waited y b hb slots hslots j hj)
  signaled y tag htag := (s.before_copy x.1 i).signaled (h.signaled y tag htag)

section

variable [DecidableEq ρ] [DecidableEq σ] [DecidableEq κ]

theorem State.mem_openSends {x : ρ × θ} {q : ρ} {k : κ} {i : σ} {payload : π} :
    (i, payload) ∈ s.openSends x q k ↔
      (∃ m, .send i m (some q) k payload ∈ s.done x) ∧ ¬s.Taken x.1 i := by
  rw [State.openSends, Delivery.mem_openSends, List.mem_filterMap]
  refine and_congr ⟨?_, ?_⟩ (not_congr ?_)
  · rintro ⟨a, ha, hsend⟩
    obtain ⟨m, rfl⟩ := Instr.sendTo?_eq_some.mp hsend
    exact ⟨m, ha⟩
  · rintro ⟨m, ha⟩
    exact ⟨_, ha, Instr.sendTo?_eq_some.mpr ⟨m, rfl⟩⟩
  · rw [List.mem_map]
    exact exists_congr fun d ↦ and_congr_right fun _ ↦ Prod.mk_inj

theorem State.mem_openRecvs {y : ρ × θ} {r : ρ} {k : κ} {j : σ} :
    j ∈ s.openRecvs y r k ↔ .recv j (some r) k ∈ s.done y ∧ ¬s.Got y.1 j := by
  rw [State.openRecvs, Delivery.mem_openRecvs, List.mem_filterMap]
  refine and_congr ⟨?_, ?_⟩ (not_congr ?_)
  · rintro ⟨a, ha, hrecv⟩
    obtain rfl := Instr.recvFrom?_eq_some.mp hrecv
    exact ha
  · intro ha
    exact ⟨_, ha, Instr.recvFrom?_eq_some.mpr rfl⟩
  · rw [List.mem_map]
    exact exists_congr fun d ↦ and_congr_right fun _ ↦ Prod.mk_inj

theorem Genuine.deliver (h : Genuine prog s) {x y : ρ × θ} {i j : σ} {k : κ} {payload : π}
    (hsend : (i, payload) ∈ s.openSends x y.1 k) (hrecv : j ∈ s.openRecvs y x.1 k) :
    Genuine prog (s.deliver ⟨x.1, i, y.1, j, k, payload⟩) := by
  obtain ⟨⟨m, hstarted⟩, hopen⟩ := State.mem_openSends.mp hsend
  obtain ⟨hposted, hfree⟩ := State.mem_openRecvs.mp hrecv
  have hbefore := s.before_deliver ⟨x.1, i, y.1, j, k, payload⟩
  refine ⟨h.split, fun d hd ↦ ?_, fun d hd ↦ ?_, h.distinct.concat ?_ ?_, h.copied,
    fun z b hb slots hslots i' hi' ↦ hbefore.complete (h.waited z b hb slots hslots i' hi'),
    fun z tag htag ↦ hbefore.signaled (h.signaled z tag htag)⟩
  · rcases Delivery.mem_concat.mp hd with hold | rfl
    · exact h.sent d hold
    · exact ⟨x.2, m, hstarted⟩
  · rcases Delivery.mem_concat.mp hd with hold | rfl
    · exact h.received d hold
    · exact ⟨y.2, hposted⟩
  · intro hold
    obtain ⟨d, hd, heq⟩ := List.mem_map.mp hold
    exact hopen ⟨d, hd, Prod.mk_inj.mp heq⟩
  · intro hold
    obtain ⟨d, hd, heq⟩ := List.mem_map.mp hold
    exact hfree ⟨d, hd, Prod.mk_inj.mp heq⟩

variable [DecidableEq θ]

theorem Genuine.step (h : Genuine prog s) (hstep : Step s s') : Genuine prog s' := by
  cases hstep with
  | execute htodo hready => exact h.execute htodo hready
  | deliver hsend hrecv =>
    exact h.deliver (List.mem_of_head? hsend) (List.mem_of_head? hrecv)

/-- **Every run.** -/
theorem Reachable.genuine (h : Reachable prog s) : Genuine prog s := by
  induction h with
  | refl => exact .init
  | tail _ hnext ih =>
    rcases hnext with hstep | hmay
    · exact ih.step hstep
    · cases hmay with
      | copy hsend => exact ih.copy hsend

end

namespace Genuine

theorem mem_of_done (h : Genuine prog s) {x : ρ × θ} {a : Instr ρ σ κ π} (ha : a ∈ s.done x) :
    a ∈ prog x := h.split x ▸ List.mem_append_left _ ha

theorem done_eq (h : Genuine prog s) {x : ρ × θ} (hx : s.todo x = []) : s.done x = prog x := by
  have hsplit := h.split x
  rwa [hx, List.append_nil] at hsplit

/-- What has ended has been started. -/
theorem started_of_complete (h : Genuine prog s) {r : ρ} {i : σ} (hi : s.Complete r i) :
    ∃ t, ∃ a ∈ s.done (r, t), a.slot? = some i := by
  rcases hi with ⟨d, hd, rfl, rfl⟩ | ⟨d, hd, rfl, rfl⟩ | hcopied | ⟨t, a, ha, hslot, -⟩
  · obtain ⟨t, m, hsent⟩ := h.sent d hd
    exact ⟨t, _, hsent, rfl⟩
  · obtain ⟨t, hreceived⟩ := h.received d hd
    exact ⟨t, _, hreceived, rfl⟩
  · obtain ⟨t, q, k, payload, hsent⟩ := h.copied _ hcopied
    exact ⟨t, _, hsent, rfl⟩
  · exact ⟨t, a, ha, hslot⟩

/-- If no request has a partner, nothing is ever matched. -/
theorem delivered_eq_nil (h : Genuine prog s) (hlocal : ∀ x, ∀ a ∈ prog x, a.envelope? = none) :
    s.delivered = [] := by
  refine List.eq_nil_iff_forall_not_mem.mpr fun d hd ↦ ?_
  obtain ⟨t, m, hsent⟩ := h.sent d hd
  cases hlocal _ _ (h.mem_of_done hsent)

end Genuine

/-! ## Programs whose requests differ -/

/-- No two requests of a process have the same slot, or go to the same process or come from the same
one with the same key. -/
structure Paired (prog : ρ × θ → List (Instr ρ σ κ π)) : Prop where
  slots : ∀ r t u, ∀ a ∈ prog (r, t), ∀ b ∈ prog (r, u), ∀ i ∈ a.slot?, i ∈ b.slot? →
    t = u ∧ a = b
  envelopes : ∀ r t u, ∀ a ∈ prog (r, t), ∀ b ∈ prog (r, u), ∀ e ∈ a.envelope?,
    e ∈ b.envelope? → t = u ∧ a = b

namespace Genuine

variable {r q : ρ} {t u : θ} {i j : σ} {m : Bool} {k : κ} {payload : π}

/-- A send that has been matched has been matched with the receive that has its envelope. -/
theorem partner_slot (h : Genuine prog s) (hpaired : Paired prog)
    (hsend : .send i m (some q) k payload ∈ prog (r, t)) (hrecv : .recv j (some r) k ∈ prog (q, u))
    {d : Delivery ρ σ κ π} (hd : d ∈ s.delivered) :
    d.source = r ∧ d.sendSlot = i ↔ d.dest = q ∧ d.recvSlot = j := by
  obtain ⟨t', m', hsent⟩ := h.sent d hd
  obtain ⟨u', hreceived⟩ := h.received d hd
  constructor
  · rintro ⟨rfl, rfl⟩
    obtain ⟨-, heq⟩ := hpaired.slots _ _ _ _ (h.mem_of_done hsent) _ hsend _ rfl rfl
    obtain ⟨-, -, hdest, hkey, -⟩ := Instr.send.inj heq
    rw [hkey, Option.some_inj.mp hdest] at hreceived
    obtain ⟨-, heq⟩ := hpaired.envelopes _ _ _ _ (h.mem_of_done hreceived) _ hrecv _ rfl rfl
    exact ⟨Option.some_inj.mp hdest, (Instr.recv.inj heq).1⟩
  · rintro ⟨rfl, rfl⟩
    obtain ⟨-, heq⟩ := hpaired.slots _ _ _ _ (h.mem_of_done hreceived) _ hrecv _ rfl rfl
    obtain ⟨-, hsource, hkey⟩ := Instr.recv.inj heq
    rw [hkey, Option.some_inj.mp hsource] at hsent
    obtain ⟨-, heq⟩ := hpaired.envelopes _ _ _ _ (h.mem_of_done hsent) _ hsend _ rfl rfl
    exact ⟨Option.some_inj.mp hsource, (Instr.send.inj heq).1⟩

/-- A receive that is complete has got a message. -/
theorem got_of_complete (h : Genuine prog s) (hpaired : Paired prog)
    (hrecv : .recv j (some r) k ∈ prog (q, u)) (hcomplete : s.Complete q j) : s.Got q j := by
  have hslot : ∀ t, ∀ a ∈ s.done (q, t), a.slot? = some j → a = .recv j (some r) k :=
    fun t a ha hj ↦ (hpaired.slots _ _ _ _ (h.mem_of_done ha) _ hrecv j hj rfl).2
  rcases hcomplete with ⟨d, hd, rfl, rfl⟩ | hgot | hcopied | ⟨t, a, ha, hj, hlocal⟩
  · obtain ⟨t, m, hsent⟩ := h.sent d hd
    cases hslot t _ hsent rfl
  · exact hgot
  · obtain ⟨t, q', k', payload, hsent⟩ := h.copied _ hcopied
    cases hslot t _ hsent rfl
  · obtain rfl := hslot t a ha hj
    cases hlocal

/-- **Messages.** What a receive has got is what was sent to it. -/
theorem got_eq [DecidableEq ρ] [DecidableEq σ] (h : Genuine prog s) (hpaired : Paired prog)
    (hsend : .send i m (some q) k payload ∈ prog (r, t)) (hrecv : .recv j (some r) k ∈ prog (q, u))
    (hcomplete : s.Complete q j) : s.got q j = some (r, k, payload) := by
  obtain ⟨d, hd, rfl, rfl⟩ := h.got_of_complete hpaired hrecv hcomplete
  obtain ⟨rfl, rfl⟩ := (h.partner_slot hpaired hsend hrecv hd).mpr ⟨rfl, rfl⟩
  obtain ⟨t', m', hsent⟩ := h.sent d hd
  obtain ⟨-, heq⟩ := hpaired.slots _ _ _ _ (h.mem_of_done hsent) _ hsend _ rfl rfl
  obtain ⟨-, -, -, hkey, hpayload⟩ := Instr.send.inj heq
  rw [State.got, h.distinct.got_eq hd, hkey, hpayload]

/-- A receive that is complete has got one message. -/
theorem countP_delivered [DecidableEq ρ] [DecidableEq σ] (h : Genuine prog s)
    (hpaired : Paired prog) (hrecv : .recv j (some r) k ∈ prog (q, u))
    (hcomplete : s.Complete q j) :
    s.delivered.countP (fun d ↦ d.dest = q ∧ d.recvSlot = j) = 1 := by
  obtain ⟨d, hd, rfl, rfl⟩ := h.got_of_complete hpaired hrecv hcomplete
  exact h.distinct.countP_eq_one hd fun _ _ ↦ decide_eq_true_iff

end Genuine

/-! ## Freedom from deadlock -/

/-- One of the two is a send, and the other one the receive that it can be matched with. -/
def Partners (r : ρ) (a : Instr ρ σ κ π) (q : ρ) (b : Instr ρ σ κ π) : Prop :=
  ∃ k, (true, q, k) ∈ a.envelope? ∧ (false, r, k) ∈ b.envelope? ∨
    (false, q, k) ∈ a.envelope? ∧ (true, r, k) ∈ b.envelope?

/-- A partner is a request. -/
theorem Partners.exists_slot {r q : ρ} {a b : Instr ρ σ κ π} (h : Partners r a q b) :
    ∃ j, b.slot? = some j := by
  obtain ⟨k, ⟨-, hrecv⟩ | ⟨-, hsend⟩⟩ := h
  · obtain ⟨j, rfl⟩ := Instr.mem_envelope?_recv.mp hrecv
    exact ⟨j, rfl⟩
  · obtain ⟨j, m, payload, rfl⟩ := Instr.mem_envelope?_send.mp hsend
    exact ⟨j, rfl⟩

/-- What a party waits for. -/
inductive Condition (ρ σ : Type*)
  /-- The request in a slot has ended. -/
  | complete (r : ρ) (slot : σ)
  | signaled (r : ρ) (tag : ℕ)
  /-- The message of a send has been received. -/
  | taken (r : ρ) (slot : σ)

namespace Condition

def Holds (s : State ρ θ σ κ π) : Condition ρ σ → Prop
  | complete r slot => s.Complete r slot
  | signaled r tag => s.Signaled r tag
  | taken r slot => s.Taken r slot

/-- What an instruction waits for. -/
def waits (prog : ρ × θ → List (Instr ρ σ κ π)) (x : ρ × θ) :
    Instr ρ σ κ π → Set (Condition ρ σ)
  | .wait slots => {c | ∃ i ∈ slots, c = complete x.1 i}
  | .await tag => {signaled x.1 tag}
  | .detach => {c | ∃ t i q k payload, .send i true (some q) k payload ∈ prog (x.1, t) ∧
      c = taken x.1 i}
  | _ => ∅

/-- Who has to do what for it: start the request and, unless it ends on its own, the partner, or
send the signal. -/
def needs (prog : ρ × θ → List (Instr ρ σ κ π)) : Condition ρ σ → Set ((ρ × θ) × Instr ρ σ κ π)
  | complete r slot => {x | x.2 ∈ prog x.1 ∧ (x.1.1 = r ∧ x.2.slot? = some slot ∨
      ∃ t, ∃ a ∈ prog (r, t), a.slot? = some slot ∧ a.isLocal = false ∧ Partners r a x.1.1 x.2)}
  | signaled r tag => {x | x.2 ∈ prog x.1 ∧ x.1.1 = r ∧ x.2 = .signal tag}
  | taken r slot => {x | x.2 ∈ prog x.1 ∧ (x.1.1 = r ∧ x.2.slot? = some slot ∨
      ∃ t, ∃ a ∈ prog (r, t), a.slot? = some slot ∧ Partners r a x.1.1 x.2)}

end Condition

/-- Every request that is waited for is started, every signal is sent, and every request has its
partner. -/
structure Served (prog : ρ × θ → List (Instr ρ σ κ π)) : Prop extends Paired prog where
  requested : ∀ x slots, .wait slots ∈ prog x → ∀ i ∈ slots,
    ∃ t, ∃ a ∈ prog (x.1, t), a.slot? = some i
  sent : ∀ x tag, .await tag ∈ prog x → ∃ t, .signal tag ∈ prog (x.1, t)
  partner : ∀ x, ∀ a ∈ prog x, ∀ e ∈ a.envelope?, ∃ u, ∃ b ∈ prog (e.2.1, u),
    Partners x.1 a e.2.1 b

section

variable [DecidableEq ρ] [DecidableEq θ] [DecidableEq σ] [DecidableEq κ]

omit [DecidableEq ρ] [DecidableEq θ] [DecidableEq σ] [DecidableEq κ] in
/-- Who has what it waits for is ready. -/
theorem Genuine.ready (h : Genuine prog s) {x : ρ × θ} {a : Instr ρ σ κ π}
    (hall : ∀ c ∈ Condition.waits prog x a, c.Holds s) : s.Ready x a := by
  cases a with
  | wait slots => exact fun i hi ↦ hall _ ⟨i, hi, rfl⟩
  | await tag => exact hall _ rfl
  | detach =>
    exact fun t i q k payload hsend ↦ hall _ ⟨t, i, q, k, payload, h.mem_of_done hsend, rfl⟩
  | send | recv | signal | attach => trivial

/-- A message of which both parts have been started is delivered. -/
theorem Genuine.exists_deliver (h : Genuine prog s) (hpaired : Paired prog) {x y : ρ × θ} {i j : σ}
    {m : Bool} {k : κ} {payload : π} (hsend : .send i m (some y.1) k payload ∈ s.done x)
    (hrecv : .recv j (some x.1) k ∈ s.done y) (hnot : ¬s.Taken x.1 i ∨ ¬s.Got y.1 j) :
    ∃ s', Step s s' := by
  have hiff : s.Taken x.1 i ↔ s.Got y.1 j := exists_congr fun d ↦ and_congr_right fun hd ↦
    h.partner_slot hpaired (h.mem_of_done hsend) (h.mem_of_done hrecv) hd
  have hopen : (i, payload) ∈ s.openSends x y.1 k :=
    State.mem_openSends.mpr ⟨⟨m, hsend⟩, hnot.elim id (mt hiff.mp)⟩
  have hfree : j ∈ s.openRecvs y x.1 k :=
    State.mem_openRecvs.mpr ⟨hrecv, hnot.elim (mt hiff.mpr) id⟩
  obtain ⟨⟨i', payload'⟩, sends, hsends⟩ := List.exists_cons_of_ne_nil (List.ne_nil_of_mem hopen)
  obtain ⟨j', recvs, hrecvs⟩ := List.exists_cons_of_ne_nil (List.ne_nil_of_mem hfree)
  exact ⟨_, .deliver (by rw [hsends, List.head?_cons]) (by rw [hrecvs, List.head?_cons])⟩

/-- The same for the partners. -/
theorem Genuine.exists_deliver_of_partners (h : Genuine prog s) (hpaired : Paired prog)
    {x y : ρ × θ} {a b : Instr ρ σ κ π} {i : σ} (ha : a ∈ s.done x) (hb : b ∈ s.done y)
    (hpartners : Partners x.1 a y.1 b) (hslot : a.slot? = some i) (htaken : ¬s.Taken x.1 i)
    (hgot : ∀ source key, a = .recv i source key → ¬s.Got x.1 i) : ∃ s', Step s s' := by
  obtain ⟨k, ⟨hsend, hrecv⟩ | ⟨hrecv, hsend⟩⟩ := hpartners
  · obtain ⟨i', m, payload, rfl⟩ := Instr.mem_envelope?_send.mp hsend
    obtain ⟨j, rfl⟩ := Instr.mem_envelope?_recv.mp hrecv
    obtain rfl := Option.some_inj.mp hslot
    exact h.exists_deliver hpaired ha hb (.inl htaken)
  · obtain ⟨j, rfl⟩ := Instr.mem_envelope?_recv.mp hrecv
    obtain ⟨i', m, payload, rfl⟩ := Instr.mem_envelope?_send.mp hsend
    obtain rfl := Option.some_inj.mp hslot
    exact h.exists_deliver hpaired hb ha (.inr (hgot _ _ rfl))

/-- **No deadlock.** As long as something is left to be done, there is a step. -/
theorem Genuine.exists_step (h : Genuine prog s) (hserved : Served prog)
    {level : ρ × θ → Instr ρ σ κ π → ℕ}
    (hlevel : Conditions.Leveled (Condition.waits prog) (Condition.needs prog) level prog)
    {x : ρ × θ} (hx : s.todo x ≠ []) : ∃ s', Step s s' := by
  obtain ⟨y, a, rest, htodo, hready | ⟨c, hc, hnot, hneeds⟩⟩ :=
    hlevel.exists_ready h.split (Condition.Holds s) hx
  · exact ⟨_, .execute htodo (h.ready hready)⟩
  have ha : a ∈ prog y := by
    rw [← h.split y, htodo]
    exact List.mem_append_right _ List.mem_cons_self
  cases a with
  | wait slots =>
    obtain ⟨i, hi, rfl⟩ := hc
    obtain ⟨t, b, hb, hslot⟩ := hserved.requested y slots ha i hi
    have hstarted : b ∈ s.done (y.1, t) := hneeds ((y.1, t), b) ⟨hb, .inl ⟨rfl, hslot⟩⟩
    have hlocal : b.isLocal = false := by
      refine Bool.eq_false_iff.mpr fun hlocal ↦ hnot ?_
      exact .inr (.inr (.inr ⟨t, b, hstarted, hslot, hlocal⟩))
    obtain ⟨e, he⟩ := Instr.exists_envelope hslot hlocal
    obtain ⟨u, b', hb', hpartners⟩ := hserved.partner (y.1, t) b hb e he
    have hpartner : b' ∈ s.done (e.2.1, u) :=
      hneeds ((e.2.1, u), b') ⟨hb', .inr ⟨t, b, hb, hslot, hlocal, hpartners⟩⟩
    exact h.exists_deliver_of_partners hserved.toPaired hstarted hpartner hpartners hslot
      (fun htaken ↦ hnot (.inl htaken)) fun _ _ _ hgot ↦ hnot (.inr (.inl hgot))
  | await tag =>
    obtain rfl := hc
    obtain ⟨t, ht⟩ := hserved.sent y tag ha
    exact absurd ⟨t, hneeds ((y.1, t), .signal tag) ⟨ht, rfl, rfl⟩⟩ hnot
  | detach =>
    obtain ⟨t, i, q, k, payload, hsend, rfl⟩ := hc
    obtain ⟨u, b, hb, hpartners⟩ := hserved.partner (y.1, t) _ hsend (true, q, k) rfl
    have hstarted := hneeds ((y.1, t), .send i true (some q) k payload) ⟨hsend, .inl ⟨rfl, rfl⟩⟩
    have hpartner : b ∈ s.done (q, u) :=
      hneeds ((q, u), b) ⟨hb, .inr ⟨t, _, hsend, rfl, hpartners⟩⟩
    exact h.exists_deliver_of_partners hserved.toPaired hstarted hpartner hpartners rfl hnot
      fun _ _ heq ↦ by cases heq
  | send | recv | signal | attach => exact absurd hc (Set.notMem_empty c)

end

/-! ## Programs without partners -/

section

variable (hlocal : ∀ x, ∀ a ∈ prog x, a.envelope? = none)

include hlocal

theorem Partners.not_local {r q : ρ} {t : θ} {a b : Instr ρ σ κ π} (ha : a ∈ prog (r, t)) :
    ¬Partners r a q b := by
  rintro ⟨k, ⟨hsend, -⟩ | ⟨hrecv, -⟩⟩
  · rw [hlocal _ a ha] at hsend
    cases hsend
  · rw [hlocal _ a ha] at hrecv
    cases hrecv

theorem served_of_local
    (hslots : ∀ r t u, ∀ a ∈ prog (r, t), ∀ b ∈ prog (r, u), ∀ i ∈ a.slot?, i ∈ b.slot? →
      t = u ∧ a = b)
    (hrequested : ∀ x slots, .wait slots ∈ prog x → ∀ i ∈ slots,
      ∃ t, ∃ a ∈ prog (x.1, t), a.slot? = some i)
    (hsent : ∀ x tag, .await tag ∈ prog x → ∃ t, .signal tag ∈ prog (x.1, t)) : Served prog where
  slots := hslots
  envelopes r t u a ha b hb e he := by
    rw [hlocal _ a ha] at he
    cases he
  requested := hrequested
  sent := hsent
  partner x a ha e he := by
    rw [hlocal x a ha] at he
    cases he

/-- Only the requests and the signals of the same process are waited for. -/
theorem leveled_of_local {level : ρ × θ → Instr ρ σ κ π → ℕ}
    (hsorted : ∀ x, (prog x).Pairwise fun a b ↦ level x a ≤ level x b)
    (hwait : ∀ r t u slots, .wait slots ∈ prog (r, t) → ∀ i ∈ slots, ∀ a ∈ prog (r, u),
      a.slot? = some i → level (r, u) a < level (r, t) (.wait slots))
    (hawait : ∀ r t u tag, .await tag ∈ prog (r, t) → .signal tag ∈ prog (r, u) →
      level (r, u) (.signal tag) < level (r, t) (.await tag)) :
    Conditions.Leveled (Condition.waits prog) (Condition.needs prog) level prog where
  sorted := hsorted
  needed x a ha c hc y hy := by
    cases a with
    | wait slots =>
      obtain ⟨i, hi, rfl⟩ := hc
      obtain ⟨hmem, ⟨hrank, hslot⟩ | ⟨t, b, hb, -, -, hpartners⟩⟩ := hy
      · obtain ⟨⟨r, u⟩, b⟩ := y
        obtain rfl : r = x.1 := hrank
        exact ⟨hmem, hwait x.1 x.2 u slots ha i hi b hmem hslot⟩
      · exact absurd hpartners (Partners.not_local hlocal hb)
    | await tag =>
      obtain rfl := hc
      obtain ⟨hmem, hrank, htag⟩ := hy
      obtain ⟨⟨r, u⟩, b⟩ := y
      obtain rfl : r = x.1 := hrank
      obtain rfl : b = .signal tag := htag
      exact ⟨hmem, hawait x.1 x.2 u tag ha hmem⟩
    | detach =>
      obtain ⟨t, i, q, k, payload, hsend, -⟩ := hc
      cases hlocal _ _ hsend
    | send | recv | signal | attach => exact absurd hc (Set.notMem_empty c)

end

/-! ## Termination -/

section

variable {S : Finset (ρ × θ)}

/-- Nothing is matched that has not been started. -/
theorem Genuine.length_delivered_le (h : Genuine prog s) (hS : ∀ x ∉ S, prog x = []) :
    s.delivered.length ≤ ∑ x ∈ S, (s.done x).length := by
  let started := S.toList.flatMap fun x ↦ (s.done x).filterMap fun a ↦ a.slot?.map (x.1, ·)
  have hsub : s.delivered.map (fun d ↦ (d.source, d.sendSlot)) ⊆ started := by
    intro y hy
    obtain ⟨d, hd, rfl⟩ := List.mem_map.mp hy
    obtain ⟨t, m, hsent⟩ := h.sent d hd
    have hx : (d.source, t) ∈ S := by
      by_contra hnot
      have hprog := h.mem_of_done hsent
      rw [hS _ hnot] at hprog
      cases hprog
    exact List.mem_flatMap.mpr ⟨_, Finset.mem_toList.mpr hx,
      List.mem_filterMap.mpr ⟨_, hsent, rfl⟩⟩
  have hlength : started.length ≤ ∑ x ∈ S, (s.done x).length := by
    rw [List.length_flatMap, Finset.sum_map_toList]
    exact Finset.sum_le_sum fun x _ ↦ List.length_filterMap_le _ _
  calc s.delivered.length = (s.delivered.map fun d ↦ (d.source, d.sendSlot)).length :=
        (List.length_map _).symm
    _ ≤ started.length := (h.distinct.sendSlots.subperm hsub).length_le
    _ ≤ _ := hlength

/-- What is left: an instruction counts twice, as it may start a request that is matched later. -/
def State.work (S : Finset (ρ × θ)) (s : State ρ θ σ κ π) : ℕ :=
  (∑ x ∈ S, (2 * (s.todo x).length + (s.done x).length)) - s.delivered.length

variable [DecidableEq ρ] [DecidableEq θ] [DecidableEq σ] [DecidableEq κ]

theorem Genuine.work_lt (h : Genuine prog s) (hS : ∀ x ∉ S, prog x = []) (hstep : Step s s') :
    s'.work S < s.work S := by
  have hle := (h.step hstep).length_delivered_le hS
  have hsum : ∀ s : State ρ θ σ κ π, ∑ x ∈ S, (s.done x).length
      ≤ ∑ x ∈ S, (2 * (s.todo x).length + (s.done x).length) := fun s ↦
    Finset.sum_le_sum fun x _ ↦ Nat.le_add_left _ _
  have hbound := hle.trans (hsum s')
  rw [State.work, State.work]
  cases hstep with
  | @execute x a rest htodo hready =>
    have hx : x ∈ S := by
      by_contra hnot
      have hsplit := h.split x
      rw [hS x hnot, htodo] at hsplit
      simp at hsplit
    have hrest : ∑ y ∈ S.erase x,
          (2 * ((s.execute x a rest).todo y).length + ((s.execute x a rest).done y).length)
        = ∑ y ∈ S.erase x, (2 * (s.todo y).length + (s.done y).length) :=
      Finset.sum_congr rfl fun y hy ↦ by
        simp [State.execute, Finset.ne_of_mem_erase hy]
    have hdone : ((s.execute x a rest).done x).length = (s.done x).length + 1 := by
      simp [State.execute]
    have htodo' : ((s.execute x a rest).todo x).length + 1 = (s.todo x).length := by
      simp [State.execute, htodo]
    have hdelivered : (s.execute x a rest).delivered = s.delivered := rfl
    rw [← Finset.add_sum_erase S _ hx, hrest] at hbound ⊢
    rw [← Finset.add_sum_erase S (fun y ↦ 2 * (s.todo y).length + (s.done y).length) hx]
    rw [hdelivered] at hbound ⊢
    omega
  | @deliver x y i j k payload hsend hrecv =>
    have hlength : (s.deliver ⟨x.1, i, y.1, j, k, payload⟩).delivered.length
        = s.delivered.length + 1 := by
      simp [State.deliver]
    rw [hlength] at hbound ⊢
    have hsame : (∑ z ∈ S, (2 * ((s.deliver ⟨x.1, i, y.1, j, k, payload⟩).todo z).length
          + ((s.deliver ⟨x.1, i, y.1, j, k, payload⟩).done z).length))
        = ∑ z ∈ S, (2 * (s.todo z).length + (s.done z).length) := rfl
    rw [hsame] at hbound ⊢
    omega

/-- **Rest.** Every run can be continued until nothing can happen any more. -/
theorem Reachable.exists_rest (h : Reachable prog s) (hS : ∀ x ∉ S, prog x = []) :
    ∃ s', Reachable prog s' ∧ ∀ u, ¬Step s' u := by
  have hacc : Acc (fun t s ↦ Step s t) s :=
    acc_of_measure (I := Genuine prog) (State.work S) (fun _ _ hs hstep ↦ hs.step hstep)
      (fun _ _ hs hstep ↦ hs.work_lt hS hstep) h.genuine
  obtain ⟨s', hrun, hrest⟩ := exists_final_of_acc hacc
  exact ⟨s', h.trans (hrun.lift id fun _ _ ↦ .inl), hrest⟩

/-- If nobody is ever stuck, some run comes to its end. -/
theorem exists_finished (hS : ∀ x ∉ S, prog x = [])
    (hstep : ∀ s, Reachable prog s → ∀ x, s.todo x ≠ [] → ∃ s', Step s s') :
    ∃ s, Reachable prog s ∧ ∀ x, s.todo x = [] := by
  obtain ⟨s, hreach, hrest⟩ := Reachable.exists_rest .refl hS
  refine ⟨s, hreach, fun x ↦ ?_⟩
  by_contra hx
  obtain ⟨s', hs'⟩ := hstep s hreach x hx
  exact hrest s' hs'

end

end Threads

end Runs

end MpiTestSuite

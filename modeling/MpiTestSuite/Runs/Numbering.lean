import Mathlib.Data.Nat.Pairing
import MpiTestSuite.Runs.Levels

/-!
# Messages in their order

If a process sends several messages with one key to another, the system matches them in the order
in which the sends and the receives have been started. Programs in which this is known to be the
right order can be written with a number in every key, which grows along each program, and every
message has a number of its own. The system does not see the numbers. Whatever it does without them
it might have done with them as well (`exists_lift`), so that what is known of programs in which no
two messages have the same key is known of those in which many have.

## One exchange after the other

In a sequence of exchanges the number of a message is that of the exchange it belongs to. If each
exchange has levels, the sequence has levels (`leveled_sequence`): those of a later exchange are
above those of an earlier one. No process waits for another to be through with an exchange.
-/

open Relation

namespace MpiTestSuite

namespace Runs

namespace Requests

variable {ι κ π : Type*}

/-! ## Without the numbers -/

/-- The instruction that the system sees. -/
def Instr.forget : Instr ι (ℕ × κ) π → Instr ι κ π
  | send slot mode dest key payload => .send slot mode dest key.2 payload
  | recv slot source key => .recv slot source key.2
  | wait slots => .wait slots
  | barrier => .barrier

/-- The number of a send or receive. -/
def Instr.number? : Instr ι (ℕ × κ) π → Option ℕ
  | send _ _ _ key _ => some key.1
  | recv _ _ key => some key.1
  | _ => none

/-- The match that the system makes. -/
def Delivery.forget (d : Delivery ι (ℕ × κ) π) : Delivery ι κ π :=
  ⟨d.source, d.sendSlot, d.dest, d.recvSlot, d.key.2, d.payload⟩

/-- The state that the system is in. -/
def State.forget (t : State ι (ℕ × κ) π) : State ι κ π where
  done r := (t.done r).map Instr.forget
  todo r := (t.todo r).map Instr.forget
  inBarrier := t.inBarrier
  delivered := t.delivered.map Delivery.forget
  buffered := t.buffered

@[simp] theorem Instr.slot?_forget (a : Instr ι (ℕ × κ) π) : a.forget.slot? = a.slot? := by
  cases a <;> rfl

@[simp] theorem Instr.isBarrier_forget (a : Instr ι (ℕ × κ) π) :
    a.forget.isBarrier = a.isBarrier := by
  cases a <;> rfl

theorem Instr.forget_eq_wait {a : Instr ι (ℕ × κ) π} {slots : List ℕ} :
    a.forget = .wait slots ↔ a = .wait slots := by
  cases a <;> simp [Instr.forget]

theorem Instr.forget_eq_barrier {a : Instr ι (ℕ × κ) π} : a.forget = .barrier ↔ a = .barrier := by
  cases a <;> simp [Instr.forget]

theorem State.forget_init (prog : ι → List (Instr ι (ℕ × κ) π)) :
    (State.init prog).forget = State.init fun r ↦ (prog r).map Instr.forget := rfl

section

variable (t : State ι (ℕ × κ) π) (r : ι)

@[simp] theorem State.entered_forget : t.forget.entered r = t.entered r := by
  simp [State.entered, State.forget, Function.comp_def]

@[simp] theorem State.complete_forget (slot : ℕ) :
    t.forget.Complete r slot ↔ t.Complete r slot := by
  simp [State.Complete, State.forget, Delivery.forget]

variable [DecidableEq ι]

theorem State.forget_execute (a : Instr ι (ℕ × κ) π) (rest : List (Instr ι (ℕ × κ) π)) :
    (t.execute r a rest).forget = t.forget.execute r a.forget (rest.map Instr.forget) := by
  have hupdate : ∀ (f : ι → List (Instr ι (ℕ × κ) π)) l,
      (fun q ↦ (Function.update f r l q).map Instr.forget)
        = Function.update (fun q ↦ (f q).map Instr.forget) r (l.map Instr.forget) := by
    intro f l
    funext q
    rcases eq_or_ne q r with rfl | hq
    · simp
    · simp [hq]
  rw [State.execute, State.execute, State.forget]
  simp only [hupdate, State.forget, List.map_append, List.map_cons, List.map_nil]

omit [DecidableEq ι] in
theorem State.forget_deliver (d : Delivery ι (ℕ × κ) π) :
    (t.deliver d).forget = t.forget.deliver d.forget := by
  simp [State.deliver, State.forget]

/-- What the system sees of what has been received. -/
theorem State.got_forget (slot : ℕ) :
    t.forget.got r slot = (t.got r slot).map fun x ↦ (x.1, x.2.1.2, x.2.2) := by
  simp only [State.got, Delivery.got, State.forget, List.find?_map, Option.map_map]
  rfl

end

/-! ## First in, first out -/

/-- The first of those that are picked from a list and have not been excluded. -/
theorem exists_split_of_head? {α β : Type*} {f : α → Option β} {P : β → Bool} {l : List α} {y : β}
    (h : ((l.filterMap f).filter P).head? = some y) :
    ∃ pre a post, l = pre ++ a :: post ∧ f a = some y ∧ P y = true ∧
      ∀ b ∈ pre, ∀ z, f b = some z → P z = false := by
  induction l with
  | nil => cases h
  | cons a l ih =>
    cases hfa : f a with
    | none =>
      rw [List.filterMap_cons_none hfa] at h
      obtain ⟨pre, b, post, rfl, hb, hy, hpre⟩ := ih h
      refine ⟨a :: pre, b, post, rfl, hb, hy, List.forall_mem_cons.mpr ⟨fun z hz ↦ ?_, hpre⟩⟩
      rw [hfa] at hz
      cases hz
    | some x =>
      rw [List.filterMap_cons_some hfa] at h
      cases hx : P x with
      | true =>
        rw [List.filter_cons_of_pos hx, List.head?_cons, Option.some_inj] at h
        subst h
        exact ⟨[], a, l, rfl, hfa, hx, nofun⟩
      | false =>
        rw [List.filter_cons_of_neg (Bool.eq_false_iff.mp hx)] at h
        obtain ⟨pre, b, post, rfl, hb, hy, hpre⟩ := ih h
        refine ⟨a :: pre, b, post, rfl, hb, hy, List.forall_mem_cons.mpr ⟨fun z hz ↦ ?_, hpre⟩⟩
        rw [hfa, Option.some_inj] at hz
        exact hz ▸ hx

/-- The numbers of the messages grow along the programs. -/
def InOrder (prog : ι → List (Instr ι (ℕ × κ) π)) : Prop :=
  ∀ r, (prog r).Pairwise fun a b ↦ ∀ m ∈ a.number?, ∀ n ∈ b.number?, m ≤ n

variable {prog : ι → List (Instr ι (ℕ × κ) π)} {t : State ι (ℕ × κ) π}

/-- What has a smaller number stands in front of what has been started. -/
theorem InOrder.mem_front (horder : InOrder prog) (h : Genuine prog t) {r : ι}
    {a b : Instr ι (ℕ × κ) π} {pre post : List (Instr ι (ℕ × κ) π)}
    (hdone : t.done r = pre ++ a :: post) {m n : ℕ} (ha : a.number? = some n)
    (hb : b.number? = some m) (hlt : m < n) (hmem : b ∈ prog r) : b ∈ pre := by
  have hprog : prog r = pre ++ a :: (post ++ t.todo r) := by
    rw [← h.split r, hdone, List.append_assoc, List.cons_append]
  have hpairwise := horder r
  rw [hprog] at hmem hpairwise
  obtain ⟨-, hbehind, -⟩ := List.pairwise_append.mp hpairwise
  rcases List.mem_append.mp hmem with hpre | hrest
  · exact hpre
  rcases List.mem_cons.mp hrest with rfl | hrest
  · exact absurd (Option.some_inj.mp (hb.symm.trans ha)) (Nat.ne_of_lt hlt)
  · exact absurd ((List.pairwise_cons.mp hbehind).1 b hrest n ha m hb) (Nat.not_le.mpr hlt)

section

variable [DecidableEq ι] [DecidableEq κ]

/-- A send that the system sees. -/
theorem Instr.sendTo?_forget {q : ι} {k : κ} {a : Instr ι (ℕ × κ) π} {x : ℕ × π} :
    a.forget.sendTo? q k = some x ↔ ∃ m mode, a = .send x.1 mode q (m, k) x.2 := by
  cases a with
  | send slot mode dest key payload =>
    obtain ⟨m, k'⟩ := key
    obtain ⟨i, y⟩ := x
    simp only [Instr.forget, Instr.sendTo?, Option.ite_none_right_eq_some, Option.some_inj,
      Prod.mk.injEq, Instr.send.injEq]
    constructor
    · rintro ⟨⟨rfl, rfl⟩, rfl, rfl⟩
      exact ⟨m, mode, rfl, rfl, rfl, ⟨rfl, rfl⟩, rfl⟩
    · rintro ⟨m', mode', rfl, rfl, rfl, ⟨rfl, rfl⟩, rfl⟩
      exact ⟨⟨rfl, rfl⟩, rfl, rfl⟩
  | recv => simp [Instr.forget, Instr.sendTo?]
  | wait => simp [Instr.forget, Instr.sendTo?]
  | barrier => simp [Instr.forget, Instr.sendTo?]

/-- A receive that the system sees. -/
theorem Instr.recvFrom?_forget {r : ι} {k : κ} {a : Instr ι (ℕ × κ) π} {j : ℕ} :
    a.forget.recvFrom? r k = some j ↔ ∃ n, a = .recv j r (n, k) := by
  cases a with
  | recv slot source key =>
    obtain ⟨n, k'⟩ := key
    simp only [Instr.forget, Instr.recvFrom?, Option.ite_none_right_eq_some, Option.some_inj,
      Instr.recv.injEq, Prod.mk.injEq]
    constructor
    · rintro ⟨⟨rfl, rfl⟩, rfl⟩
      exact ⟨n, rfl, rfl, rfl, rfl⟩
    · rintro ⟨n', rfl, rfl, rfl, rfl⟩
      exact ⟨⟨rfl, rfl⟩, rfl⟩
  | send => simp [Instr.forget, Instr.recvFrom?]
  | wait => simp [Instr.forget, Instr.recvFrom?]
  | barrier => simp [Instr.forget, Instr.recvFrom?]

/-- The first send that is open, by its number. -/
theorem exists_send_of_head? {r q : ι} {k : κ} {i : ℕ} {x : π}
    (h : (t.forget.openSends r q k).head? = some (i, x)) :
    ∃ pre m mode post, t.done r = pre ++ .send i mode q (m, k) x :: post ∧
      (i, x) ∈ t.openSends r q (m, k) ∧
      ∀ i' mode' m' x', .send i' mode' q (m', k) x' ∈ pre →
        (r, i') ∈ t.delivered.map fun d ↦ (d.source, d.sendSlot) := by
  have hslots : (t.forget.delivered.map fun d ↦ (d.source, d.sendSlot))
      = t.delivered.map fun d ↦ (d.source, d.sendSlot) := by
    simp [State.forget, Delivery.forget, Function.comp_def]
  rw [State.openSends, Delivery.openSends, hslots] at h
  simp only [State.forget, List.filterMap_map] at h
  obtain ⟨pre, a, post, hdone, ha, hopen, hpre⟩ := exists_split_of_head? h
  obtain ⟨m, mode, rfl⟩ := Instr.sendTo?_forget.mp ha
  refine ⟨pre, m, mode, post, hdone, State.mem_openSends.mpr ⟨⟨mode, ?_⟩, ?_⟩,
    fun i' mode' m' x' hmem ↦ ?_⟩
  · rw [hdone]
    exact List.mem_append_right _ List.mem_cons_self
  · exact of_decide_eq_true hopen
  · have hclosed := hpre _ hmem (i', x') (Instr.sendTo?_forget.mpr ⟨m', mode', rfl⟩)
    exact not_not.mp (of_decide_eq_false hclosed)

/-- The first receive that is open, by its number. -/
theorem exists_recv_of_head? {q r : ι} {k : κ} {j : ℕ}
    (h : (t.forget.openRecvs q r k).head? = some j) :
    ∃ pre n post, t.done q = pre ++ .recv j r (n, k) :: post ∧ j ∈ t.openRecvs q r (n, k) ∧
      ∀ j' n', .recv j' r (n', k) ∈ pre →
        (q, j') ∈ t.delivered.map fun d ↦ (d.dest, d.recvSlot) := by
  have hslots : (t.forget.delivered.map fun d ↦ (d.dest, d.recvSlot))
      = t.delivered.map fun d ↦ (d.dest, d.recvSlot) := by
    simp [State.forget, Delivery.forget, Function.comp_def]
  rw [State.openRecvs, Delivery.openRecvs, hslots] at h
  simp only [State.forget, List.filterMap_map] at h
  obtain ⟨pre, a, post, hdone, ha, hopen, hpre⟩ := exists_split_of_head? h
  obtain ⟨n, rfl⟩ := Instr.recvFrom?_forget.mp ha
  refine ⟨pre, n, post, hdone, State.mem_openRecvs.mpr ⟨?_, ?_⟩, fun j' n' hmem ↦ ?_⟩
  · rw [hdone]
    exact List.mem_append_right _ List.mem_cons_self
  · exact of_decide_eq_true hopen
  · have hclosed := hpre _ hmem j' (Instr.recvFrom?_forget.mpr ⟨n', rfl⟩)
    exact not_not.mp (of_decide_eq_false hclosed)

/-- **Matching in order.** What the system matches first has the same number on both sides. -/
theorem number_eq (horder : InOrder prog) (hpaired : Paired prog) (h : Genuine prog t) {r q : ι}
    {k : κ} {i : ℕ} {x : π} {j : ℕ} (hsends : (t.forget.openSends r q k).head? = some (i, x))
    (hrecvs : (t.forget.openRecvs q r k).head? = some j) :
    ∃ m, (i, x) ∈ t.openSends r q (m, k) ∧ j ∈ t.openRecvs q r (m, k) := by
  obtain ⟨pre, m, mode, post, hdone, hopen, hpre⟩ := exists_send_of_head? hsends
  obtain ⟨pre', n, post', hdone', hopen', hpre'⟩ := exists_recv_of_head? hrecvs
  have hsend : .send i mode q (m, k) x ∈ prog r :=
    h.mem_of_done (hdone ▸ List.mem_append_right _ List.mem_cons_self)
  have hrecv : .recv j r (n, k) ∈ prog q :=
    h.mem_of_done (hdone' ▸ List.mem_append_right _ List.mem_cons_self)
  have hnot := (State.mem_openSends.mp hopen).2
  have hnot' := (State.mem_openRecvs.mp hopen').2
  rcases Nat.lt_trichotomy m n with hlt | rfl | hlt
  · -- the partner of the send has been matched before, so the send has been matched
    obtain ⟨j', hpartner⟩ := (hpaired.partner r q (m, k)).mp ⟨i, mode, x, hsend⟩
    have hfront := horder.mem_front h hdone' rfl rfl hlt hpartner
    obtain ⟨d, hd, heq⟩ := List.mem_map.mp (hpre' j' m hfront)
    have hslot := (h.partner_slot hpaired hd hsend hpartner).mpr (Prod.mk.inj heq)
    exact absurd (List.mem_map.mpr ⟨d, hd, Prod.ext hslot.1 hslot.2⟩) hnot
  · exact ⟨m, hopen, hopen'⟩
  · obtain ⟨i', mode', x', hpartner⟩ := (hpaired.partner r q (n, k)).mpr ⟨j, hrecv⟩
    have hfront := horder.mem_front h hdone rfl rfl hlt hpartner
    obtain ⟨d, hd, heq⟩ := List.mem_map.mp (hpre i' mode' n x' hfront)
    have hslot := (h.partner_slot hpaired hd hpartner hrecv).mp (Prod.mk.inj heq)
    exact absurd (List.mem_map.mpr ⟨d, hd, Prod.ext hslot.1 hslot.2⟩) hnot'

omit [DecidableEq ι] [DecidableEq κ] in
/-- All elements of a list are the same. -/
theorem head?_of_forall_eq {α : Type*} {l : List α} {a : α} (ha : a ∈ l) (h : ∀ b ∈ l, b = a) :
    l.head? = some a := by
  obtain ⟨b, l', rfl⟩ := List.exists_cons_of_ne_nil (List.ne_nil_of_mem ha)
  rw [List.head?_cons, h b List.mem_cons_self]

/-- **Steps.** Whatever the system does without the numbers it might have done with them. -/
theorem exists_step_lift (horder : InOrder prog) (hpaired : Paired prog) (h : Genuine prog t)
    {s' : State ι κ π} (hstep : Step t.forget s') : ∃ t', Step t t' ∧ t'.forget = s' := by
  have hsplit : ∀ {r : ι} {a : Instr ι κ π} {rest : List (Instr ι κ π)},
      t.forget.todo r = a :: rest → ∃ a' rest', t.todo r = a' :: rest' ∧ a'.forget = a ∧
        rest'.map Instr.forget = rest := fun heq ↦ by
    obtain ⟨a', rest', htodo, ha, hrest⟩ := List.map_eq_cons_iff.mp heq
    exact ⟨a', rest', htodo, ha, hrest⟩
  cases hstep with
  | @start r a rest hprog hslot =>
    obtain ⟨a', rest', htodo, rfl, rfl⟩ := hsplit hprog
    rw [Instr.slot?_forget] at hslot
    exact ⟨_, .start htodo hslot, t.forget_execute r a' rest'⟩
  | @wait r slots rest hprog hcomplete =>
    obtain ⟨a', rest', htodo, ha, rfl⟩ := hsplit hprog
    obtain rfl := Instr.forget_eq_wait.mp ha
    exact ⟨_, .wait htodo fun i hi ↦ (t.complete_forget r i).mp (hcomplete i hi),
      t.forget_execute r _ rest'⟩
  | @enter r rest hprog hin =>
    obtain ⟨a', rest', htodo, ha, rfl⟩ := hsplit hprog
    obtain rfl := Instr.forget_eq_barrier.mp ha
    exact ⟨_, .enter htodo hin, rfl⟩
  | @leave r rest hprog hin hall =>
    obtain ⟨a', rest', htodo, ha, rfl⟩ := hsplit hprog
    obtain rfl := Instr.forget_eq_barrier.mp ha
    refine ⟨_, .leave htodo hin fun q ↦ ?_, t.forget_execute r _ rest'⟩
    rw [← t.entered_forget r, ← t.entered_forget q]
    exact hall q
  | @deliver r q k i x j hsends hrecvs =>
    obtain ⟨m, hsend, hrecv⟩ := number_eq horder hpaired h hsends hrecvs
    refine ⟨t.deliver ⟨r, i, q, j, (m, k), x⟩, .deliver (head?_of_forall_eq hsend fun y hy ↦ ?_)
      (head?_of_forall_eq hrecv fun j' hj' ↦ ?_), t.forget_deliver _⟩
    · obtain ⟨⟨mode, hy⟩, -⟩ := State.mem_openSends.mp hy
      obtain ⟨⟨mode', hx⟩, -⟩ := State.mem_openSends.mp hsend
      cases hpaired.eq_of_envelope (h.mem_of_done hy) (h.mem_of_done hx) rfl rfl
      rfl
    · exact (Instr.recv.inj (hpaired.eq_of_envelope (h.mem_of_done (State.mem_openRecvs.mp hj').1)
        (h.mem_of_done (State.mem_openRecvs.mp hrecv).1) rfl rfl)).1

/-- **Every run.** A state that the system reaches without the numbers is one that it might have
reached with them. -/
theorem exists_lift (horder : InOrder prog) (hpaired : Paired prog) {s : State ι κ π}
    (h : Reachable (fun r ↦ (prog r).map Instr.forget) s) :
    ∃ t, Reachable prog t ∧ t.forget = s := by
  induction h with
  | refl => exact ⟨_, .refl, State.forget_init prog⟩
  | @tail s s' _ hnext ih =>
    obtain ⟨t, hreach, rfl⟩ := ih
    rcases hnext with hstep | hbuffer
    · obtain ⟨t', hstep', rfl⟩ := exists_step_lift horder hpaired hreach.genuine hstep
      exact ⟨t', hreach.tail (Or.inl hstep'), rfl⟩
    · obtain ⟨hsend⟩ := hbuffer
      obtain ⟨a, ha, heq⟩ := List.mem_map.mp hsend
      cases a with
      | send slot mode dest key payload =>
        cases heq
        exact ⟨_, hreach.tail (Or.inr (.buffer ha)), rfl⟩
      | recv => cases heq
      | wait => cases heq
      | barrier => cases heq

/-- If something can be done with the numbers, something can be done without them. -/
theorem exists_step_forget {t' : State ι (ℕ × κ) π} (hstep : Step t t') :
    ∃ s', Step t.forget s' := by
  have hhead : ∀ {r : ι} {a : Instr ι (ℕ × κ) π} {rest : List (Instr ι (ℕ × κ) π)},
      t.todo r = a :: rest → t.forget.todo r = a.forget :: rest.map Instr.forget := fun heq ↦ by
    show (t.todo _).map Instr.forget = _
    rw [heq, List.map_cons]
  cases hstep with
  | start hprog hslot => exact ⟨_, .start (hhead hprog) (by rwa [Instr.slot?_forget])⟩
  | wait hprog hcomplete =>
    exact ⟨_, .wait (hhead hprog) fun i hi ↦ (t.complete_forget _ i).mpr (hcomplete i hi)⟩
  | enter hprog hin => exact ⟨_, .enter (hhead hprog) hin⟩
  | leave hprog hin hall =>
    exact ⟨_, .leave (hhead hprog) hin fun q ↦ by
      rw [t.entered_forget, t.entered_forget]
      exact hall q⟩
  | @deliver r q k i x j hsends hrecvs =>
    obtain ⟨m, k⟩ := k
    obtain ⟨⟨mode, hsend⟩, hnot⟩ := State.mem_openSends.mp (List.mem_of_head? hsends)
    obtain ⟨hrecv, hnot'⟩ := State.mem_openRecvs.mp (List.mem_of_head? hrecvs)
    have hopen : (i, x) ∈ t.forget.openSends r q k :=
      State.mem_openSends.mpr ⟨⟨mode, List.mem_map.mpr ⟨_, hsend, rfl⟩⟩, by
        simpa [State.forget, Delivery.forget, Function.comp_def] using hnot⟩
    have hopen' : j ∈ t.forget.openRecvs q r k :=
      State.mem_openRecvs.mpr ⟨List.mem_map.mpr ⟨_, hrecv, rfl⟩, by
        simpa [State.forget, Delivery.forget, Function.comp_def] using hnot'⟩
    obtain ⟨⟨i', x'⟩, sends, hcons⟩ := List.exists_cons_of_ne_nil (List.ne_nil_of_mem hopen)
    obtain ⟨j', recvs, hcons'⟩ := List.exists_cons_of_ne_nil (List.ne_nil_of_mem hopen')
    exact ⟨_, .deliver (by rw [hcons, List.head?_cons]) (by rw [hcons', List.head?_cons])⟩

end

/-! ## Exchanges one after the other -/

/-- An instruction of the exchange with number `c`. -/
def Instr.inExchange (c : ℕ) : Instr ι κ π → Instr ι (ℕ × κ) π
  | send slot mode dest key payload => .send (Nat.pair c slot) mode dest (c, key) payload
  | recv slot source key => .recv (Nat.pair c slot) source (c, key)
  | wait slots => .wait (slots.map (Nat.pair c))
  | barrier => .barrier

/-- The first `n` exchanges. -/
def sequence (n : ℕ) (exchange : ℕ → ι → List (Instr ι κ π)) (r : ι) :
    List (Instr ι (ℕ × κ) π) :=
  (List.range n).flatMap fun c ↦ (exchange c r).map (Instr.inExchange c)

/-- The levels of a sequence, where all levels of the exchanges are below `M`. -/
def sequenceLevel (M : ℕ) (level : ℕ → ι → ι → κ → ℕ) (r q : ι) (key : ℕ × κ) : ℕ :=
  key.1 * M + level key.1 r q key.2

namespace Instr

variable (c : ℕ) (a : Instr ι κ π)

@[simp] theorem slot?_inExchange : (a.inExchange c).slot? = a.slot?.map (Nat.pair c) := by
  cases a <;> rfl

@[simp] theorem envelope?_inExchange :
    (a.inExchange c).envelope? = a.envelope?.map fun e ↦ (e.1, e.2.1, c, e.2.2) := by
  cases a <;> rfl

@[simp] theorem isBarrier_inExchange : (a.inExchange c).isBarrier = a.isBarrier := by
  cases a <;> rfl

@[simp] theorem level?_inExchange (M : ℕ) (level : ℕ → ι → ι → κ → ℕ) (r : ι) :
    (a.inExchange c).level? (sequenceLevel M level) r
      = (a.level? (level c) r).map (c * M + ·) := by
  cases a <;> rfl

theorem number?_inExchange : ∀ m ∈ (a.inExchange c).number?, m = c := by
  cases a with
  | send => exact fun m hm ↦ (Option.some_inj.mp hm).symm
  | recv => exact fun m hm ↦ (Option.some_inj.mp hm).symm
  | wait => exact nofun
  | barrier => exact nofun

theorem inExchange_eq_wait {slots : List ℕ} :
    a.inExchange c = .wait slots ↔
      ∃ slots', a = .wait slots' ∧ slots'.map (Nat.pair c) = slots := by
  cases a <;> simp [inExchange]

end Instr

section

variable {n : ℕ} {exchange : ℕ → ι → List (Instr ι κ π)} {r : ι}

theorem mem_sequence {a : Instr ι (ℕ × κ) π} :
    a ∈ sequence n exchange r ↔ ∃ c < n, ∃ b ∈ exchange c r, b.inExchange c = a := by
  simp only [sequence, List.mem_flatMap, List.mem_range, List.mem_map]

theorem inExchange_mem {c : ℕ} (hc : c < n) {b : Instr ι κ π} (hb : b ∈ exchange c r) :
    b.inExchange c ∈ sequence n exchange r :=
  mem_sequence.mpr ⟨c, hc, b, hb, rfl⟩

/-- What holds within the exchanges, and between an earlier and a later one. -/
theorem pairwise_sequence {R : Instr ι (ℕ × κ) π → Instr ι (ℕ × κ) π → Prop}
    (hwithin : ∀ c < n, (exchange c r).Pairwise fun a b ↦ R (a.inExchange c) (b.inExchange c))
    (hbetween : ∀ c c', c < c' → c' < n → ∀ a ∈ exchange c r, ∀ b ∈ exchange c' r,
      R (a.inExchange c) (b.inExchange c')) : (sequence n exchange r).Pairwise R := by
  rw [sequence, List.pairwise_flatMap]
  refine ⟨fun c hc ↦ List.pairwise_map.mpr (hwithin c (List.mem_range.mp hc)), ?_⟩
  refine List.pairwise_lt_range.imp_of_mem fun {c c'} _ hc' hlt a ha b hb ↦ ?_
  obtain ⟨a, hain, rfl⟩ := List.mem_map.mp ha
  obtain ⟨b, hbin, rfl⟩ := List.mem_map.mp hb
  exact hbetween c c' hlt (List.mem_range.mp hc') a hain b hbin

theorem inOrder_sequence : InOrder (sequence n exchange) := by
  refine fun r ↦ pairwise_sequence (fun c _ ↦ ?_) fun c c' hlt _ a _ b _ m hm k hk ↦ ?_
  · refine List.pairwise_of_forall fun a b m hm k hk ↦ ?_
    rw [a.number?_inExchange c m hm, b.number?_inExchange c k hk]
  · rw [a.number?_inExchange c m hm, b.number?_inExchange c' k hk]
    exact hlt.le

/-- A slot belongs to one exchange. -/
theorem eq_of_slot_inExchange {c c' i : ℕ} {a : Instr ι κ π}
    (h : (a.inExchange c').slot? = some (Nat.pair c i)) : c' = c ∧ a.slot? = some i := by
  rw [Instr.slot?_inExchange] at h
  obtain ⟨j, hj, heq⟩ := Option.map_eq_some_iff.mp h
  obtain ⟨rfl, rfl⟩ := Nat.pair_eq_pair.mp heq
  exact ⟨rfl, hj⟩

theorem paired_sequence (hpaired : ∀ c < n, Paired (exchange c)) :
    Paired (sequence n exchange) where
  slots r := by
    refine pairwise_sequence (fun c hc ↦ ((hpaired c hc).slots r).imp fun {a b} hab i hi hi' ↦ ?_)
      fun c c' hlt _ a _ b _ i hi hi' ↦ ?_
    · rw [Instr.slot?_inExchange] at hi
      obtain ⟨j, hj, rfl⟩ := Option.map_eq_some_iff.mp hi
      exact hab j hj (eq_of_slot_inExchange hi').2
    · rw [Instr.slot?_inExchange] at hi
      obtain ⟨j, hj, rfl⟩ := Option.map_eq_some_iff.mp hi
      exact hlt.ne' (eq_of_slot_inExchange hi').1
  envelopes r := by
    refine pairwise_sequence
      (fun c hc ↦ ((hpaired c hc).envelopes r).imp fun {a b} hab e he he' ↦ ?_)
      fun c c' hlt _ a _ b _ e he he' ↦ ?_
    · rw [Instr.envelope?_inExchange] at he he'
      obtain ⟨e, hea, rfl⟩ := Option.map_eq_some_iff.mp he
      obtain ⟨e', heb, heq⟩ := Option.map_eq_some_iff.mp he'
      have heq' : e' = e := by simpa [Prod.ext_iff] using heq
      exact hab e hea (heq' ▸ heb)
    · rw [Instr.envelope?_inExchange] at he he'
      obtain ⟨e, -, rfl⟩ := Option.map_eq_some_iff.mp he
      obtain ⟨e', -, heq⟩ := Option.map_eq_some_iff.mp he'
      simp only [Prod.mk.injEq] at heq
      exact hlt.ne' heq.2.2.1
  partner r q key := by
    obtain ⟨c, k⟩ := key
    constructor
    · rintro ⟨i, mode, x, hsend⟩
      obtain ⟨c', hc, b, hb, heq⟩ := mem_sequence.mp hsend
      cases b with
      | send slot mode' dest k' x' =>
        cases heq
        obtain ⟨j, hrecv⟩ := ((hpaired c hc).partner r q k).mp ⟨slot, mode, x, hb⟩
        exact ⟨_, inExchange_mem hc hrecv⟩
      | recv => cases heq
      | wait => cases heq
      | barrier => cases heq
    · rintro ⟨j, hrecv⟩
      obtain ⟨c', hc, b, hb, heq⟩ := mem_sequence.mp hrecv
      cases b with
      | recv slot source k' =>
        cases heq
        obtain ⟨i, mode, x, hsend⟩ := ((hpaired c hc).partner r q k).mpr ⟨slot, hb⟩
        exact ⟨_, _, _, inExchange_mem hc hsend⟩
      | send => cases heq
      | wait => cases heq
      | barrier => cases heq

/-- What a process waits for in an exchange is below all that follows. -/
theorem behind_sequence {M : ℕ} {level : ℕ → ι → ι → κ → ℕ} {c c' : ℕ} {w b : Instr ι κ π}
    (hbarrier : b.isBarrier = false)
    (h : ∀ slots, w = .wait slots → ∀ i ∈ slots, ¬(c' = c ∧ b.slot? = some i) ∧
      ∀ a ∈ exchange c r, a.slot? = some i → ∀ m ∈ a.level? (level c) r,
        ∀ k ∈ b.level? (level c') r, c * M + m < c' * M + k) :
    Behind (sequenceLevel M level) (sequence n exchange) r (w.inExchange c) (b.inExchange c') := by
  intro slots hw
  obtain ⟨slots, rfl, rfl⟩ := (w.inExchange_eq_wait c).mp hw
  refine ⟨by rw [Instr.isBarrier_inExchange, hbarrier], List.forall_mem_map.mpr fun i hi ↦ ?_⟩
  obtain ⟨hslot, hlevel⟩ := h slots rfl i hi
  refine ⟨fun heq ↦ hslot (eq_of_slot_inExchange heq), fun a ha hai m hm k hk ↦ ?_⟩
  obtain ⟨c'', -, a, hmem, rfl⟩ := mem_sequence.mp ha
  obtain ⟨rfl, hslot'⟩ := eq_of_slot_inExchange hai
  rw [Instr.level?_inExchange] at hm hk
  obtain ⟨m, hma, rfl⟩ := Option.map_eq_some_iff.mp hm
  obtain ⟨k, hkb, rfl⟩ := Option.map_eq_some_iff.mp hk
  exact hlevel a hmem hslot' m hma k hkb

/-- **Sequences.** Exchanges with levels, one after the other, have levels. -/
theorem leveled_sequence {M : ℕ} {level : ℕ → ι → ι → κ → ℕ}
    (hlevel : ∀ c < n, Leveled (level c) (exchange c))
    (hbarrier : ∀ c < n, ∀ r, ∀ a ∈ exchange c r, a.isBarrier = false)
    (hbound : ∀ c < n, ∀ r, ∀ a ∈ exchange c r, ∀ m ∈ a.level? (level c) r, m < M) :
    Leveled (sequenceLevel M level) (sequence n exchange) := by
  refine ⟨paired_sequence fun c hc ↦ (hlevel c hc).toPaired, fun r slots hwait i hi ↦ ?_,
    fun r ↦ ?_, fun r q ↦ ?_⟩
  · obtain ⟨c, hc, b, hb, heq⟩ := mem_sequence.mp hwait
    obtain ⟨slots, rfl, rfl⟩ := (b.inExchange_eq_wait c).mp heq
    obtain ⟨i, hmem, rfl⟩ := List.mem_map.mp hi
    obtain ⟨a, ha, hai⟩ := (hlevel c hc).started r slots hb i hmem
    exact ⟨_, inExchange_mem hc ha, by rw [Instr.slot?_inExchange, hai, Option.map_some]⟩
  · refine pairwise_sequence (fun c hc ↦ ?_) fun c c' hlt hc' w hw b hb ↦ ?_
    · refine ((hlevel c hc).behind r).imp_of_mem fun {w b} _ hb hwb ↦ ?_
      refine behind_sequence (hbarrier c hc r b hb) fun slots hw i hi ↦ ?_
      obtain ⟨hslot, hlt⟩ := (hwb slots hw).2 i hi
      exact ⟨fun heq ↦ hslot heq.2, fun a ha hai m hm k hk ↦
        Nat.add_lt_add_left (hlt a ha hai m hm k hk) _⟩
    · refine behind_sequence (hbarrier c' hc' r b hb) fun slots hw' i hi ↦
        ⟨fun heq ↦ hlt.ne' heq.1, fun a ha hai m hm k hk ↦ ?_⟩
      calc c * M + m < c * M + M := Nat.add_lt_add_left (hbound c (hlt.trans hc') r a ha m hm) _
        _ = (c + 1) * M := (Nat.succ_mul c M).symm
        _ ≤ c' * M := Nat.mul_le_mul_right M hlt
        _ ≤ c' * M + k := Nat.le_add_right _ _
  · have hnone : ∀ q, (sequence n exchange q).countP Instr.isBarrier = 0 := fun q ↦ by
      refine List.countP_eq_zero.mpr fun a ha ↦ ?_
      obtain ⟨c, hc, b, hb, rfl⟩ := mem_sequence.mp ha
      rw [Instr.isBarrier_inExchange, hbarrier c hc q b hb]
      exact Bool.false_ne_true
    rw [hnone, hnone]

end

/-! ## Runs of sequences -/

/-- What the system sees of a sequence. -/
def plainSequence (n : ℕ) (exchange : ℕ → ι → List (Instr ι κ π)) (r : ι) : List (Instr ι κ π) :=
  (sequence n exchange r).map Instr.forget

section

variable [DecidableEq ι] [DecidableEq κ] {n : ℕ} {exchange : ℕ → ι → List (Instr ι κ π)}
  {s : State ι κ π}

/-- Nobody is ever stuck. -/
theorem exists_step_sequence {M : ℕ} {level : ℕ → ι → ι → κ → ℕ}
    (hlevel : ∀ c < n, Leveled (level c) (exchange c))
    (hbarrier : ∀ c < n, ∀ r, ∀ a ∈ exchange c r, a.isBarrier = false)
    (hbound : ∀ c < n, ∀ r, ∀ a ∈ exchange c r, ∀ m ∈ a.level? (level c) r, m < M)
    (h : Reachable (plainSequence n exchange) s) {r : ι} (hr : s.todo r ≠ []) :
    ∃ s', Step s s' := by
  have hleveled := leveled_sequence hlevel hbarrier hbound
  obtain ⟨t, hreach, rfl⟩ := exists_lift inOrder_sequence hleveled.toPaired h
  have htodo : t.todo r ≠ [] := fun hnil ↦ hr (by
    show (t.todo r).map Instr.forget = []
    rw [hnil, List.map_nil])
  obtain ⟨t', hstep⟩ := hleveled.exists_step hreach.genuine htodo
  exact exists_step_forget hstep

variable (hpaired : ∀ c < n, Paired (exchange c)) (h : Reachable (plainSequence n exchange) s)

include hpaired h

/-- **Exchanges keep to themselves.** Both sides of a match belong to the same exchange. -/
theorem exists_exchange_of_delivered {d : Delivery ι κ π} (hd : d ∈ s.delivered) :
    ∃ c < n, ∃ i j mode, d.sendSlot = Nat.pair c i ∧ d.recvSlot = Nat.pair c j ∧
      .send i mode d.dest d.key d.payload ∈ exchange c d.source ∧
      .recv j d.source d.key ∈ exchange c d.dest := by
  obtain ⟨t, hreach, rfl⟩ := exists_lift inOrder_sequence (paired_sequence hpaired) h
  obtain ⟨d', hd', rfl⟩ := List.mem_map.mp hd
  have hgenuine := hreach.genuine
  obtain ⟨mode, hsent⟩ := hgenuine.sent d' hd'
  obtain ⟨c, hc, a, ha, heq⟩ := mem_sequence.mp (hgenuine.mem_of_done hsent)
  obtain ⟨c', -, b, hb, heq'⟩ := mem_sequence.mp
    (hgenuine.mem_of_done (hgenuine.received d' hd'))
  obtain ⟨source, sendSlot, dest, recvSlot, key, payload⟩ := d'
  cases a with
  | send slot mode' dest' k x =>
    cases b with
    | recv slot' source' k' =>
      cases heq
      cases heq'
      exact ⟨c, hc, slot, slot', mode, rfl, rfl, ha, hb⟩
    | send => cases heq'
    | wait => cases heq'
    | barrier => cases heq'
  | recv => cases heq
  | wait => cases heq
  | barrier => cases heq

/-- What has been received in an exchange is what was sent in it. -/
theorem got_sequence {c : ℕ} (hc : c < n) {r q : ι} {i j : ℕ} {mode : Mode} {k : κ} {x : π}
    (hsend : .send i mode q k x ∈ exchange c r) (hrecv : .recv j r k ∈ exchange c q)
    (hcomplete : s.Complete q (Nat.pair c j)) : s.got q (Nat.pair c j) = some (r, k, x) := by
  obtain ⟨t, hreach, rfl⟩ := exists_lift inOrder_sequence (paired_sequence hpaired) h
  rw [t.got_forget, hreach.genuine.got_eq (paired_sequence hpaired) (inExchange_mem hc hsend)
    (inExchange_mem hc hrecv) ((t.complete_forget _ _).mp hcomplete)]
  rfl

/-- Who is through has not waited in vain. -/
theorem complete_sequence {c : ℕ} (hc : c < n) {r : ι} (hr : s.todo r = []) {slots : List ℕ}
    (hwait : .wait slots ∈ exchange c r) {i : ℕ} (hi : i ∈ slots) :
    s.Complete r (Nat.pair c i) := by
  obtain ⟨t, hreach, rfl⟩ := exists_lift inOrder_sequence (paired_sequence hpaired) h
  rw [t.complete_forget]
  refine hreach.genuine.complete_of_todo ?_ (inExchange_mem hc hwait) (List.mem_map_of_mem hi)
  exact List.map_eq_nil_iff.mp hr

end

end Requests

end Runs

end MpiTestSuite

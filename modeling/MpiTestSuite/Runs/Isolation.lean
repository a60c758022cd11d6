import MpiTestSuite.Runs.Network

/-!
# Isolated rounds

For a set of keys with which, in every round, as many messages are sent to every receiver as it
receives, every message with such a key is received in the round in which it was sent, and none is
lost (`Orderly`), as long as nobody sends one while another sender is behind (`State.Timely`).

This can fail only where one receiver has several senders and several rounds with one key. Without
these every step is timely (`timely_of_separated`).
-/

open Relation

namespace MpiTestSuite

namespace Runs

namespace Network

variable {ι κ π : Type*} [Fintype ι]

/-! ## The next message -/

/-- If the next message of a sender is not behind those of the others, and as many messages are
expected in every round as are pending, it belongs to the round in which the next one is
expected. -/
theorem round_eq {pending : ι → List ℕ} {expected l l' : List ℕ} {r : ι} {i j : ℕ}
    (hpending : (pending r).Pairwise (· ≤ ·)) (hexpected : expected.Pairwise (· ≤ ·))
    (hbalanced : ∀ i, ∑ r, (pending r).count i = expected.count i) (hj : pending r = j :: l)
    (hi : expected = i :: l') (htimely : ∀ r' ≠ r, ∀ i' ∈ pending r', j ≤ i') : j = i := by
  subst hi
  rw [hj] at hpending
  apply le_antisymm
  · -- somebody's message is for round `i`
    have hsum : 0 < ∑ r, (pending r).count i := by
      rw [hbalanced, List.count_cons_self]
      exact Nat.succ_pos _
    obtain ⟨r', -, hr'⟩ := Finset.exists_ne_zero_of_sum_ne_zero hsum.ne'
    have hmem : i ∈ pending r' := List.count_pos_iff.mp (Nat.pos_of_ne_zero hr')
    rcases eq_or_ne r' r with rfl | hne
    · rw [hj] at hmem
      rcases List.mem_cons.mp hmem with rfl | hmem
      · exact le_refl _
      · exact List.rel_of_pairwise_cons hpending hmem
    · exact htimely r' hne i hmem
  · -- a message is expected in round `j`
    have hcount : 0 < (i :: l').count j := by
      rw [← hbalanced]
      refine lt_of_lt_of_le ?_ (Finset.single_le_sum (fun _ _ ↦ Nat.zero_le _) (Finset.mem_univ r))
      rw [hj, List.count_cons_self]
      exact Nat.succ_pos _
    rcases List.mem_cons.mp (List.count_pos_iff.mp hcount) with rfl | hmem
    · exact le_refl _
    · exact List.rel_of_pairwise_cons hexpected hmem

/-! ## Timely steps -/

variable [DecidableEq ι]

section

variable [DecidableEq κ]

/-- Nobody but `r` has a message that is sent to where this one is, with the same key, but in an
earlier round, and that has not been received yet. -/
def State.InTime (K : List κ) (s : State ι κ π) (r : ι) : ℕ × Instr ι κ π → Prop
  | (j, .send dest key _) => key ∈ K → ∀ r', r' ≠ r → ∀ i ∈ s.pending dest key r', j ≤ i
  | _ => True

instance (K : List κ) (s : State ι κ π) (r : ι) :
    (l : ℕ × Instr ι κ π) → Decidable (s.InTime K r l)
  | (j, .send dest key _) =>
    inferInstanceAs (Decidable (key ∈ K → ∀ r', r' ≠ r → ∀ i ∈ s.pending dest key r', j ≤ i))
  | (_, .recv ..) | (_, .barrier) => .isTrue trivial

/-- Nobody sends a message with one of the keys `K` while another sender is behind. -/
def State.Timely (K : List κ) (s : State ι κ π) : Move ι → Prop
  | .advance r => ∀ l ∈ (s.prog r).head?, s.InTime K r l
  | .receive _ _ => True

instance (K : List κ) (s : State ι κ π) : (v : Move ι) → Decidable (s.Timely K v)
  | .advance r => inferInstanceAs (Decidable (∀ l ∈ (s.prog r).head?, s.InTime K r l))
  | .receive _ _ => .isTrue trivial

/-- A timely step. -/
def TimelyNext (K : List κ) (s s' : State ι κ π) : Prop := ∃ v, s.Timely K v ∧ Step s v s'

end

/-- Any step. -/
def Next (s s' : State ι κ π) : Prop := ∃ v, Step s v s'

/-- The state after a list of moves, if all of them are possible and satisfy `P`. -/
def State.moves (P : State ι κ π → Move ι → Bool) : List (Move ι) → State ι κ π →
    Option (State ι κ π)
  | [], s => some s
  | v :: vs, s => if P s v then (s.move v).bind (State.moves P vs) else none

theorem reflTransGen_of_moves {P : State ι κ π → Move ι → Bool}
    {R : State ι κ π → State ι κ π → Prop}
    (hR : ∀ s v s', P s v = true → Step s v s' → R s s') {vs : List (Move ι)} {s s' : State ι κ π}
    (h : s.moves P vs = some s') : ReflTransGen R s s' := by
  induction vs generalizing s with
  | nil =>
    cases h
    exact .refl
  | cons v vs ih =>
    rw [State.moves] at h
    split_ifs at h with hP
    obtain ⟨t, ht, hrest⟩ := Option.bind_eq_some_iff.mp h
    exact .head (hR s v t hP (Step.of_move ht)) (ih hrest)

/-! ## Orderly states -/

variable [DecidableEq κ]

/-- What a process does in a round. -/
def instrsAt (rounds : ι → List (List (Instr ι κ π))) (r : ι) (i : ℕ) : List (Instr ι κ π) :=
  (rounds r)[i]?.getD []

/-- What has yet to be done and what is on its way comes from the programs. -/
structure Genuine (rounds : ι → List (List (Instr ι κ π))) (s : State ι κ π) : Prop where
  suffix : ∀ r, s.prog r <:+ numbered 0 (rounds r)
  sent : ∀ r q, ∀ m ∈ s.channel (r, q), .send q m.key m.payload ∈ instrsAt rounds r m.round
  logged : ∀ q, ∀ x ∈ s.log q,
    .send q x.message.key x.message.payload ∈ instrsAt rounds x.source x.message.round ∧
      ∃ source wants accept, .recv source wants accept ∈ instrsAt rounds q x.round ∧
        wants x.message.key = true

/-- In every round the messages with the keys `K` are sent to those who receive them. -/
structure Exchange (K : List κ) (rounds : ι → List (List (Instr ι κ π))) : Prop where
  /-- Everybody receives as many messages as are sent. -/
  balanced : ∀ k ∈ K, ∀ q i, ∑ r, (instrsAt rounds r i).countP (Instr.sendsTo q k)
    = (instrsAt rounds q i).countP (Instr.wantsKey k)
  /-- Whoever wants a message with such a key wants no other key. -/
  single : ∀ q i source wants accept, .recv source wants accept ∈ instrsAt rounds q i →
    ∀ k ∈ K, wants k = true → ∀ k', wants k' = true → k' = k
  /-- Nobody gives up because of a message of the round that it is in. -/
  accepts : ∀ q i source wants accept, .recv source wants accept ∈ instrsAt rounds q i →
    ∀ m : Message κ π, wants m.key = true →
      (m.key ∈ K → m.round = i ∧ ∃ r, .send q m.key m.payload ∈ instrsAt rounds r i) →
      accept m = true

/-- What is preserved by timely steps. -/
structure Orderly (K : List κ) (rounds : ι → List (List (Instr ι κ π))) (s : State ι κ π) :
    Prop extends Genuine rounds s where
  sorted : ∀ q k r, (s.pending q k r).Pairwise (· ≤ ·)
  balanced : ∀ k ∈ K, ∀ q i, ∑ r, (s.pending q k r).count i = (s.expected q k).count i
  /-- Nobody is behind somebody whose message is on its way. -/
  timely : ∀ r q, ∀ m ∈ s.channel (r, q), m.key ∈ K →
    ∀ r' ≠ r, ∀ i ∈ s.pending q m.key r', m.round ≤ i
  /-- Every message is received in its round. -/
  own : ∀ q, ∀ x ∈ s.log q, x.message.key ∈ K → x.message.round = x.round
  /-- What is not pending any more has been received. -/
  conserved : ∀ q k r i,
    (s.log q).countP (fun x ↦ x.source = r ∧ x.message.key = k ∧ x.message.round = i)
        + (s.pending q k r).count i
      = (instrsAt rounds r i).countP (Instr.sendsTo q k)

variable {K : List κ} {rounds : ι → List (List (Instr ι κ π))} {s s' : State ι κ π}

omit [Fintype ι] in
theorem count_pending_init (q : ι) (k : κ) (r : ι) (i : ℕ) :
    ((State.init rounds).pending q k r).count i
      = (instrsAt rounds r i).countP (Instr.sendsTo q k) := by
  have hcount := count_roundsOf_numbered (Instr.sendsTo q k) 0 i (rounds r)
  rwa [zero_add] at hcount

section

omit [Fintype ι] [DecidableEq κ]

theorem mem_sent {r dest : ι} {m : Message κ π} {rest : List (ℕ × Instr ι κ π)} {r' q : ι}
    {m' : Message κ π} (h : m' ∈ (s.sent r dest m rest).channel (r', q)) :
    m' ∈ s.channel (r', q) ∨ r' = r ∧ q = dest ∧ m' = m := by
  rw [State.sent_channel] at h
  by_cases hpair : (r', q) = (r, dest)
  · obtain ⟨rfl, rfl⟩ := Prod.mk.injEq _ _ _ _ ▸ hpair
    rw [Function.update_self] at h
    rcases List.mem_append.mp h with h | h
    · exact Or.inl h
    · exact Or.inr ⟨rfl, rfl, List.mem_singleton.mp h⟩
  · rw [Function.update_of_ne hpair] at h
    exact Or.inl h

theorem mem_of_mem_received {q : ι} {wants : κ → Bool} {x : Receipt ι κ π}
    {rest : List (ℕ × Instr ι κ π)} {r' q' : ι} {m : Message κ π}
    (h : m ∈ (s.received q wants x rest).channel (r', q')) : m ∈ s.channel (r', q') := by
  rw [State.received_channel] at h
  rcases eq_or_ne (r', q') (x.source, q) with hpair | hpair
  · rw [hpair, Function.update_self] at h
    exact hpair ▸ List.mem_of_mem_eraseP h
  · rwa [Function.update_of_ne hpair] at h

theorem mem_log_received {q : ι} {wants : κ → Bool} {x : Receipt ι κ π}
    {rest : List (ℕ × Instr ι κ π)} {q' : ι} {y : Receipt ι κ π}
    (h : y ∈ (s.received q wants x rest).log q') : y ∈ s.log q' ∨ q' = q ∧ y = x := by
  rw [State.received_log] at h
  rcases eq_or_ne q' q with rfl | hq
  · rw [Function.update_self] at h
    rcases List.mem_append.mp h with h | h
    · exact Or.inl h
    · exact Or.inr ⟨rfl, List.mem_singleton.mp h⟩
  · rw [Function.update_of_ne hq] at h
    exact Or.inl h

namespace Genuine

omit [DecidableEq ι] in
theorem init : Genuine rounds (State.init rounds) where
  suffix _ := List.suffix_refl _
  sent _ _ _ hm := absurd hm List.not_mem_nil
  logged _ _ hx := absurd hx List.not_mem_nil

omit [DecidableEq ι] in
theorem mem_instrsAt (h : Genuine rounds s) {r : ι} {i : ℕ} {a : Instr ι κ π}
    {rest : List (ℕ × Instr ι κ π)} (hprog : s.prog r = (i, a) :: rest) :
    a ∈ instrsAt rounds r i := by
  have hmem : (i, a) ∈ numbered 0 (rounds r) :=
    (h.suffix r).subset (by rw [hprog]; exact List.mem_cons_self)
  exact mem_numbered hmem

theorem suffix_update (h : Genuine rounds s) {r : ι} {l : ℕ × Instr ι κ π}
    {rest rest' : List (ℕ × Instr ι κ π)} (hprog : s.prog r = l :: rest) (hrest : rest' <:+ rest)
    (r' : ι) : Function.update s.prog r rest' r' <:+ numbered 0 (rounds r') := by
  rcases eq_or_ne r' r with rfl | hr
  · rw [Function.update_self]
    exact (hrest.trans (List.suffix_cons l rest)).trans (hprog ▸ h.suffix r')
  · rw [Function.update_of_ne hr]
    exact h.suffix r'

theorem step (h : Genuine rounds s) {v : Move ι} (hstep : Step s v s') : Genuine rounds s' := by
  cases hstep with
  | @send r j dest key payload rest hprog =>
    refine ⟨h.suffix_update hprog (List.suffix_refl _), fun r' q' m hm ↦ ?_, h.logged⟩
    rcases mem_sent hm with hm | ⟨rfl, rfl, rfl⟩
    · exact h.sent r' q' m hm
    · exact h.mem_instrsAt hprog
  | enter => exact ⟨h.suffix, h.sent, h.logged⟩
  | leave hprog => exact ⟨h.suffix_update hprog (List.suffix_refl _), h.sent, h.logged⟩
  | @recv q r i source wants accept rest m hprog _ hfind =>
    have hrest : (if accept m then rest else []) <:+ rest := by
      split_ifs
      · exact List.suffix_refl _
      · exact List.nil_suffix
    refine ⟨h.suffix_update hprog hrest,
      fun r' q' m' hm' ↦ h.sent r' q' m' (mem_of_mem_received hm'), fun q' x hx ↦ ?_⟩
    rcases mem_log_received hx with hx | ⟨rfl, rfl⟩
    · exact h.logged q' x hx
    · exact ⟨h.sent r q' m (List.mem_of_find?_eq_some hfind), source, wants, accept,
        h.mem_instrsAt hprog,
        List.find?_some (p := fun m : Message κ π ↦ wants m.key) hfind⟩

end Genuine

end

theorem orderly_init (hK : Exchange K rounds) : Orderly K rounds (State.init rounds) where
  toGenuine := .init
  sorted _ _ r := pairwise_roundsOf _ (pairwise_numbered 0 (rounds r))
  balanced k hk q i := by
    have hcount := count_roundsOf_numbered (Instr.wantsKey k) 0 i (rounds q)
    rw [zero_add] at hcount
    rw [Finset.sum_congr rfl fun r _ ↦ count_pending_init q k r i]
    exact (hK.balanced k hk q i).trans hcount.symm
  timely _ _ _ hm := absurd hm List.not_mem_nil
  own _ _ hx := absurd hx List.not_mem_nil
  conserved q k r i := by
    rw [count_pending_init]
    exact Nat.zero_add _

namespace Orderly

theorem expected_pairwise (h : Orderly K rounds s) (q : ι) (k : κ) :
    (s.expected q k).Pairwise (· ≤ ·) :=
  pairwise_roundsOf _ ((pairwise_numbered 0 (rounds q)).sublist (h.suffix q).sublist)

/-- A step that changes neither what is pending nor what is expected. -/
theorem frame (h : Orderly K rounds s) (hpending : ∀ q k r, s'.pending q k r = s.pending q k r)
    (hexpected : ∀ q k, s'.expected q k = s.expected q k) (hlog : s'.log = s.log)
    (hgenuine : Genuine rounds s')
    (hchannel : ∀ r q, ∀ m ∈ s'.channel (r, q), m ∈ s.channel (r, q) ∨
      (m.key ∈ K → ∀ r' ≠ r, ∀ i ∈ s.pending q m.key r', m.round ≤ i)) :
    Orderly K rounds s' where
  toGenuine := hgenuine
  sorted q k r := by
    rw [hpending]
    exact h.sorted q k r
  balanced k hk q i := by
    rw [hexpected, ← h.balanced k hk q i]
    exact Finset.sum_congr rfl fun r _ ↦ by rw [hpending]
  timely r q m hm hk r' hr' i hi := by
    rw [hpending] at hi
    rcases hchannel r q m hm with hold | hnew
    · exact h.timely r q m hold hk r' hr' i hi
    · exact hnew hk r' hr' i hi
  own := hlog ▸ h.own
  conserved q k r i := by
    rw [hlog, hpending]
    exact h.conserved q k r i

/-- The message that is received next is of the round that the receiver is in. -/
theorem round_eq_of_recv (h : Orderly K rounds s) {q r : ι} {i : ℕ}
    {source : Option ι} {wants : κ → Bool} {accept : Message κ π → Bool}
    {rest : List (ℕ × Instr ι κ π)} {m : Message κ π}
    (hprog : s.prog q = (i, .recv source wants accept) :: rest)
    (hfind : (s.channel (r, q)).find? (fun m ↦ wants m.key) = some m) (hk : m.key ∈ K) :
    m.round = i := by
  have hwants : wants m.key = true := List.find?_some (p := fun m : Message κ π ↦ wants m.key) hfind
  have hpending := pending_received hprog hfind q m.key r
  have hexpected := expected_received (m := m) (r := r) hprog q m.key
  rw [if_pos ⟨⟨rfl, rfl⟩, rfl⟩] at hpending
  rw [if_pos ⟨rfl, hwants⟩] at hexpected
  exact round_eq (h.sorted q m.key r) (h.expected_pairwise q m.key) (h.balanced m.key hk q)
    hpending hexpected (h.timely r q m (List.mem_of_find?_eq_some hfind) hk)

omit [Fintype ι] in
/-- The log after a receive. -/
theorem count_received {q r : ι} {i : ℕ} {wants : κ → Bool} {m : Message κ π}
    {rest : List (ℕ × Instr ι κ π)} (q' : ι) (k : κ) (r' : ι) (j : ℕ) :
    ((s.received q wants ⟨i, r, m⟩ rest).log q').countP
        (fun x ↦ x.source = r' ∧ x.message.key = k ∧ x.message.round = j)
      = (s.log q').countP (fun x ↦ x.source = r' ∧ x.message.key = k ∧ x.message.round = j)
        + (if (q' = q ∧ m.key = k) ∧ r' = r then [m.round] else []).count j := by
  rw [State.received_log]
  rcases eq_or_ne q' q with rfl | hq
  · rw [Function.update_self, List.countP_append, List.countP_singleton]
    by_cases hmine : m.key = k ∧ r' = r
    · simp [hmine, List.count_singleton]
    · have hother : ¬(r = r' ∧ m.key = k ∧ m.round = j) := fun h ↦ hmine ⟨h.2.1, h.1.symm⟩
      simp [hmine, hother]
  · simp [hq]

/-- A step that takes the first pending message off one list, and the first expected one. -/
theorem take (h : Orderly K rounds s) {q r : ι} {i : ℕ} {wants : κ → Bool} {m : Message κ π}
    {rest : List (ℕ × Instr ι κ π)} (hround : m.key ∈ K → m.round = i)
    (hgenuine : Genuine rounds (s.received q wants ⟨i, r, m⟩ rest))
    (hpending : ∀ q' k r', s.pending q' k r'
      = (if (q' = q ∧ m.key = k) ∧ r' = r then [m.round] else [])
        ++ (s.received q wants ⟨i, r, m⟩ rest).pending q' k r')
    (hexpected : ∀ k ∈ K, ∀ q', s.expected q' k
      = (if q' = q ∧ m.key = k then [m.round] else [])
        ++ (s.received q wants ⟨i, r, m⟩ rest).expected q' k) :
    Orderly K rounds (s.received q wants ⟨i, r, m⟩ rest) where
  toGenuine := hgenuine
  sorted q' k r' := by
    have hsorted := h.sorted q' k r'
    rw [hpending] at hsorted
    exact (List.pairwise_append.mp hsorted).2.1
  balanced k hk q' j := by
    have hbalanced := h.balanced k hk q' j
    simp only [hpending, hexpected k hk, List.count_append, Finset.sum_add_distrib] at hbalanced
    by_cases hmine : q' = q ∧ m.key = k
    · -- the same number is taken off both sides
      simp only [hmine, true_and, and_self, if_true, apply_ite (List.count j), List.count_nil,
        Finset.sum_ite_eq', Finset.mem_univ] at hbalanced
      rw [hmine.1]
      exact Nat.add_left_cancel hbalanced
    · simpa [hmine] using hbalanced
  timely r' q' m' hm' hk r'' hr'' j hj := by
    refine h.timely r' q' m' (mem_of_mem_received hm') hk r'' hr'' j ?_
    rw [hpending]
    exact List.mem_append_right _ hj
  own q' x hx hk := by
    rcases mem_log_received hx with hx | ⟨rfl, rfl⟩
    · exact h.own q' x hx hk
    · exact hround hk
  conserved q' k r' j := by
    have hconserved := h.conserved q' k r' j
    rw [hpending, List.count_append] at hconserved
    rw [count_received, ← hconserved]
    exact Nat.add_assoc _ _ _

/-- A receive. -/
theorem recv (hK : Exchange K rounds) (h : Orderly K rounds s) {q r : ι} {i : ℕ}
    {source : Option ι} {wants : κ → Bool} {accept : Message κ π → Bool}
    {rest : List (ℕ × Instr ι κ π)} {m : Message κ π}
    (hprog : s.prog q = (i, .recv source wants accept) :: rest)
    (hfind : (s.channel (r, q)).find? (fun m ↦ wants m.key) = some m)
    (hgenuine : Genuine rounds (s.received q wants ⟨i, r, m⟩ (if accept m then rest else []))) :
    Orderly K rounds (s.received q wants ⟨i, r, m⟩ (if accept m then rest else [])) := by
  have hinstr := h.mem_instrsAt hprog
  have hwants : wants m.key = true := List.find?_some (p := fun m : Message κ π ↦ wants m.key) hfind
  have hround : m.key ∈ K → m.round = i := h.round_eq_of_recv hprog hfind
  have haccept : accept m = true :=
    hK.accepts q i source wants accept hinstr m hwants fun hk ↦
      ⟨hround hk, r, hround hk ▸ h.sent r q m (List.mem_of_find?_eq_some hfind)⟩
  rw [if_pos haccept] at hgenuine ⊢
  refine h.take hround hgenuine (pending_received hprog hfind) fun k hk q' ↦ ?_
  rw [expected_received (m := m) (r := r) hprog q' k]
  by_cases hkey : m.key = k
  · subst hkey
    rw [hround hk]
    simp [hwants]
  · -- whoever wants a key in `K` wants no other key
    have hnot : ¬wants k = true := fun hwk ↦
      hkey (hK.single q i source wants accept hinstr k hk hwk m.key hwants)
    simp [hkey, hnot]

/-- A timely step. -/
theorem step (hK : Exchange K rounds) (h : Orderly K rounds s) (hnext : TimelyNext K s s') :
    Orderly K rounds s' := by
  obtain ⟨v, htimely, hstep⟩ := hnext
  have hgenuine := h.toGenuine.step hstep
  cases hstep with
  | @send r j dest key payload rest hprog =>
    refine h.frame (pending_sent hprog) (expected_sent hprog) rfl hgenuine fun r' q' m hm ↦ ?_
    have hin : s.InTime K r (j, .send dest key payload) := htimely _ (by rw [hprog]; rfl)
    rcases mem_sent hm with hm | ⟨rfl, rfl, rfl⟩
    · exact Or.inl hm
    · exact Or.inr hin
  | enter => exact h.frame (fun _ _ _ ↦ rfl) (fun _ _ ↦ rfl) rfl hgenuine fun _ _ _ ↦ Or.inl
  | leave hprog =>
    exact h.frame (pending_leaving hprog) (expected_leaving hprog) rfl hgenuine
      fun _ _ _ ↦ Or.inl
  | recv hprog _ hfind => exact h.recv hK hprog hfind hgenuine

theorem run (hK : Exchange K rounds) (h : Orderly K rounds s)
    (hrun : ReflTransGen (TimelyNext K) s s') : Orderly K rounds s' := by
  induction hrun with
  | refl => exact h
  | tail _ hstep ih => exact ih.step hK hstep

/-- Once `q` has come to the end of round `i`, it has received the messages of this round. -/
theorem received_of_done (h : Orderly K rounds s) {k : κ} (hk : k ∈ K) {q : ι} {i : ℕ}
    (hdone : ∀ l ∈ s.prog q, i < l.1) (r : ι) :
    (s.log q).countP (fun x ↦ x.round = i ∧ x.source = r ∧ x.message.key = k ∧ x.message.round = i)
      = (instrsAt rounds r i).countP (Instr.sendsTo q k) := by
  have hexpected : (s.expected q k).count i = 0 := by
    refine List.count_eq_zero.mpr fun hmem ↦ ?_
    obtain ⟨l, hl, rfl⟩ := List.mem_map.mp hmem
    exact lt_irrefl _ (hdone l (List.mem_of_mem_filter hl))
  have hpending : (s.pending q k r).count i = 0 := by
    have hsum := h.balanced k hk q i
    rw [hexpected, Finset.sum_eq_zero_iff] at hsum
    exact hsum r (Finset.mem_univ r)
  rw [← h.conserved q k r i, hpending, Nat.add_zero]
  refine List.countP_congr fun x hx ↦ ?_
  simp only [decide_eq_true_eq]
  constructor
  · exact And.right
  · rintro ⟨hsource, hkey, hround⟩
    exact ⟨(h.own q x hx (hkey ▸ hk)).symm.trans hround, hsource, hkey, hround⟩

end Orderly

/-! ## Keys that keep rounds or senders apart -/

/-- No two processes send to the same receiver with one of the keys in different rounds. -/
def Separated (K : List κ) (rounds : ι → List (List (Instr ι κ π))) : Prop :=
  ∀ k ∈ K, ∀ q r r' i j, r ≠ r' → (∃ a ∈ instrsAt rounds r i, a.sendsTo q k = true) →
    (∃ a ∈ instrsAt rounds r' j, a.sendsTo q k = true) → i = j

omit [Fintype ι] in
/-- What is pending is sent by the program. -/
theorem Genuine.exists_of_mem_pending (h : Genuine rounds s) {q : ι} {k : κ} {r : ι} {i : ℕ}
    (hi : i ∈ s.pending q k r) : ∃ a ∈ instrsAt rounds r i, a.sendsTo q k = true := by
  rcases List.mem_append.mp hi with hi | hi
  · obtain ⟨m, hm, rfl⟩ := List.mem_map.mp hi
    obtain ⟨hm, hkey⟩ := List.mem_filter.mp hm
    exact ⟨_, h.sent r q m hm, by simp [Instr.sendsTo, of_decide_eq_true hkey]⟩
  · obtain ⟨l, hl, rfl⟩ := List.mem_map.mp hi
    obtain ⟨hl, hsends⟩ := List.mem_filter.mp hl
    exact ⟨l.2, mem_numbered ((h.suffix r).subset hl), hsends⟩

omit [Fintype ι] in
/-- Then every step is timely. -/
theorem timely_of_separated (hsep : Separated K rounds) (h : Genuine rounds s) (v : Move ι) :
    s.Timely K v := by
  cases v with
  | receive => trivial
  | advance r =>
    rintro ⟨j, a⟩ hl
    cases a with
    | send dest key payload =>
      intro hkey r' hr' i hi
      obtain ⟨rest, hprog⟩ := List.head?_eq_some_iff.mp hl
      have hsends : ∃ a ∈ instrsAt rounds r j, a.sendsTo dest key = true :=
        ⟨_, h.mem_instrsAt hprog, by simp [Instr.sendsTo]⟩
      exact (hsep key hkey dest r r' j i hr'.symm hsends (h.exists_of_mem_pending hi)).le
    | recv => trivial
    | barrier => trivial

omit [Fintype ι] in
theorem reflTransGen_timelyNext (hsep : Separated K rounds)
    (h : ReflTransGen Next (State.init rounds) s) :
    ReflTransGen (TimelyNext K) (State.init rounds) s := by
  suffices hboth : ReflTransGen (TimelyNext K) (State.init rounds) s ∧ Genuine rounds s from hboth.1
  induction h with
  | refl => exact ⟨.refl, .init⟩
  | tail _ hnext ih =>
    obtain ⟨v, hstep⟩ := hnext
    exact ⟨ih.1.tail ⟨v, timely_of_separated hsep ih.2 v, hstep⟩, ih.2.step hstep⟩

end Network

end Runs

end MpiTestSuite

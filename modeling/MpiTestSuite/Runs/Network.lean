import Mathlib.Algebra.Order.BigOperators.Group.Finset
import Mathlib.Data.Fintype.BigOperators
import Mathlib.Logic.Relation

/-!
# Processes that exchange messages in rounds

Every process goes through the same sequence of rounds and in each of them through a list of its own
of sends, receives and barriers. Messages carry a key. A receive takes, from a process that it may
receive from, the first message with a key that it wants, so that messages of one sender with one
key do not overtake each other; which sender it takes one from is open. Processes are synchronized
by nothing else, and one of them can be many rounds ahead of another.

## Isolation

Whether a message is received in the round in which it was sent is decided, for one receiver and one
key, by two kinds of lists alone: for every sender the rounds of the messages that the receiver has
yet to receive (`State.pending`), and the rounds in which it is yet to receive one
(`State.expected`). A message enters and leaves its list at the ends. If as many messages are
expected in each round as are pending, the one that is received next is of the right round
(`round_eq`), provided that nobody has sent it while another sender was behind (`State.Timely`).
-/

open Relation

namespace MpiTestSuite

namespace Runs

/-! ## Numbered rounds -/

section

variable {α : Type*}

/-- What is done in the rounds, one after another, each with the number of its round. -/
def numbered : ℕ → List (List α) → List (ℕ × α)
  | _, [] => []
  | n, l :: ls => l.map (n, ·) ++ numbered (n + 1) ls

/-- The numbers of the rounds in which something is done that satisfies `P`. -/
def roundsOf (P : α → Bool) (lines : List (ℕ × α)) : List ℕ :=
  (lines.filter fun l ↦ P l.2).map Prod.fst

theorem roundsOf_cons (P : α → Bool) (i : ℕ) (a : α) (lines : List (ℕ × α)) :
    roundsOf P ((i, a) :: lines) = (if P a then [i] else []) ++ roundsOf P lines := by
  rw [roundsOf, List.filter_cons]
  split <;> simp_all [roundsOf]

theorem roundsOf_append (P : α → Bool) (l₁ l₂ : List (ℕ × α)) :
    roundsOf P (l₁ ++ l₂) = roundsOf P l₁ ++ roundsOf P l₂ := by
  rw [roundsOf, List.filter_append, List.map_append]
  rfl

theorem le_of_mem_numbered {n : ℕ} {ls : List (List α)} {l : ℕ × α} (h : l ∈ numbered n ls) :
    n ≤ l.1 := by
  induction ls generalizing n with
  | nil => cases h
  | cons l' ls ih =>
    rcases List.mem_append.mp h with h | h
    · obtain ⟨a, -, rfl⟩ := List.mem_map.mp h
      exact le_refl n
    · exact (Nat.le_succ n).trans (ih h)

theorem pairwise_numbered (n : ℕ) (ls : List (List α)) :
    (numbered n ls).Pairwise fun a b ↦ a.1 ≤ b.1 := by
  induction ls generalizing n with
  | nil => exact List.Pairwise.nil
  | cons l ls ih =>
    refine List.pairwise_append.mpr ⟨?_, ih (n + 1), fun a ha b hb ↦ ?_⟩
    · exact List.pairwise_map.mpr (List.pairwise_of_forall fun _ _ ↦ le_refl n)
    · obtain ⟨x, -, rfl⟩ := List.mem_map.mp ha
      exact (Nat.le_succ n).trans (le_of_mem_numbered hb)

theorem mem_numbered {n : ℕ} {ls : List (List α)} {i : ℕ} {a : α}
    (h : (i, a) ∈ numbered n ls) : a ∈ ls[i - n]?.getD [] := by
  induction ls generalizing n with
  | nil => cases h
  | cons l ls ih =>
    rcases List.mem_append.mp h with h | h
    · obtain ⟨x, hx, heq⟩ := List.mem_map.mp h
      cases heq
      simpa using hx
    · have hlt := le_of_mem_numbered h
      have hsub : i - n = (i - (n + 1)) + 1 := by
        simp only at hlt
        omega
      rw [hsub, List.getElem?_cons_succ]
      exact ih h

theorem pairwise_roundsOf (P : α → Bool) {lines : List (ℕ × α)}
    (h : lines.Pairwise fun a b ↦ a.1 ≤ b.1) : (roundsOf P lines).Pairwise (· ≤ ·) :=
  List.pairwise_map.mpr (h.filter _)

/-- How often something is done in a round. -/
theorem count_roundsOf_numbered (P : α → Bool) (n i : ℕ) (ls : List (List α)) :
    (roundsOf P (numbered n ls)).count (n + i) = (ls[i]?.getD []).countP P := by
  induction ls generalizing n i with
  | nil => simp [numbered, roundsOf]
  | cons l ls ih =>
    -- the first list has one number, and those behind it have larger ones
    have hhead : ∀ j, (roundsOf P (l.map (n, ·))).count j = if j = n then l.countP P else 0 := by
      intro j
      rw [roundsOf, List.filter_map, List.map_map]
      simp only [Function.comp_def, List.map_const', List.count_replicate,
        ← List.countP_eq_length_filter, beq_iff_eq]
      exact if_congr eq_comm rfl rfl
    rw [numbered, roundsOf_append, List.count_append, hhead]
    cases i with
    | zero =>
      have hrest : (roundsOf P (numbered (n + 1) ls)).count n = 0 := by
        refine List.count_eq_zero.mpr fun hmem ↦ ?_
        obtain ⟨l, hl, rfl⟩ := List.mem_map.mp hmem
        exact absurd (le_of_mem_numbered (List.mem_of_mem_filter hl)) (by omega)
      simp [hrest]
    | succ i =>
      rw [if_neg (by omega), zero_add, show n + (i + 1) = n + 1 + i by omega, ih,
        List.getElem?_cons_succ]

end

/-! ## The system -/

namespace Network

variable {ι κ π : Type*}

/-- A message, with the number of the round in which it was sent. -/
structure Message (κ π : Type*) where
  round : ℕ
  key : κ
  payload : π

/-- What a process does. -/
inductive Instr (ι κ π : Type*)
  /-- Send a message, without waiting for it to be received. -/
  | send (dest : ι) (key : κ) (payload : π)
  /-- Receive a message, from `source` or, if that is `none`, from anybody. A process that gets one
  that it does not accept gives up. -/
  | recv (source : Option ι) (wants : κ → Bool) (accept : Message κ π → Bool)
  /-- Wait until everybody has come to as many barriers. -/
  | barrier

/-- A message that has been received in round `round`. -/
structure Receipt (ι κ π : Type*) where
  round : ℕ
  source : ι
  message : Message κ π

/-- The state of the system. -/
structure State (ι κ π : Type*) where
  /-- What each process has yet to do. -/
  prog : ι → List (ℕ × Instr ι κ π)
  /-- The messages on their way from one process to another. -/
  channel : ι × ι → List (Message κ π)
  /-- What each process has received. -/
  log : ι → List (Receipt ι κ π)
  /-- The number of barriers that each process has come to. -/
  entered : ι → ℕ
  /-- Whether it is in the last one of them. -/
  waiting : ι → Bool

/-- The initial state. -/
def State.init (rounds : ι → List (List (Instr ι κ π))) : State ι κ π where
  prog r := numbered 0 (rounds r)
  channel _ := []
  log _ := []
  entered _ := 0
  waiting _ := false

variable [DecidableEq ι]

/-- Process `r` has sent `m`. -/
def State.sent (s : State ι κ π) (r dest : ι) (m : Message κ π) (rest : List (ℕ × Instr ι κ π)) :
    State ι κ π :=
  { s with
    prog := Function.update s.prog r rest
    channel := Function.update s.channel (r, dest) (s.channel (r, dest) ++ [m]) }

/-- Process `r` has come to a barrier. -/
def State.entering (s : State ι κ π) (r : ι) : State ι κ π :=
  { s with
    entered := Function.update s.entered r (s.entered r + 1)
    waiting := Function.update s.waiting r true }

/-- Process `r` has left a barrier. -/
def State.leaving (s : State ι κ π) (r : ι) (rest : List (ℕ × Instr ι κ π)) : State ι κ π :=
  { s with
    prog := Function.update s.prog r rest
    waiting := Function.update s.waiting r false }

/-- Process `q` has received the message of the receipt `x`, the first with a key it wanted. -/
def State.received (s : State ι κ π) (q : ι) (wants : κ → Bool) (x : Receipt ι κ π)
    (rest : List (ℕ × Instr ι κ π)) : State ι κ π :=
  { s with
    prog := Function.update s.prog q rest
    channel := Function.update s.channel (x.source, q)
      ((s.channel (x.source, q)).eraseP fun m ↦ wants m.key)
    log := Function.update s.log q (s.log q ++ [x]) }

section

variable (s : State ι κ π) (q r dest : ι) (m : Message κ π) (rest : List (ℕ × Instr ι κ π))
  (wants : κ → Bool) (x : Receipt ι κ π)

@[simp] theorem State.sent_prog : (s.sent r dest m rest).prog = Function.update s.prog r rest := rfl

@[simp] theorem State.sent_channel : (s.sent r dest m rest).channel
    = Function.update s.channel (r, dest) (s.channel (r, dest) ++ [m]) := rfl

@[simp] theorem State.leaving_prog : (s.leaving r rest).prog = Function.update s.prog r rest := rfl

@[simp] theorem State.leaving_channel : (s.leaving r rest).channel = s.channel := rfl

@[simp] theorem State.received_prog :
    (s.received q wants x rest).prog = Function.update s.prog q rest := rfl

@[simp] theorem State.received_channel : (s.received q wants x rest).channel
    = Function.update s.channel (x.source, q)
      ((s.channel (x.source, q)).eraseP fun m ↦ wants m.key) := rfl

@[simp] theorem State.received_log :
    (s.received q wants x rest).log = Function.update s.log q (s.log q ++ [x]) := rfl

end

/-- Who moves, and in the case of a receive, whose message it is. -/
inductive Move (ι : Type*)
  | advance (r : ι)
  | receive (q r : ι)

/-- The steps. -/
inductive Step (s : State ι κ π) : Move ι → State ι κ π → Prop
  | send {r j dest key payload rest} : s.prog r = (j, .send dest key payload) :: rest →
      Step s (.advance r) (s.sent r dest ⟨j, key, payload⟩ rest)
  | enter {r j rest} : s.prog r = (j, .barrier) :: rest → s.waiting r = false →
      Step s (.advance r) (s.entering r)
  | leave {r j rest} : s.prog r = (j, .barrier) :: rest → s.waiting r = true →
      (∀ q, s.entered r ≤ s.entered q) → Step s (.advance r) (s.leaving r rest)
  | recv {q r i source wants accept rest m} :
      s.prog q = (i, .recv source wants accept) :: rest → (∀ r' ∈ source, r' = r) →
      (s.channel (r, q)).find? (fun m ↦ wants m.key) = some m →
      Step s (.receive q r) (s.received q wants ⟨i, r, m⟩ (if accept m then rest else []))

/-- The state after a move, if it is possible. -/
def State.move [Fintype ι] (s : State ι κ π) : Move ι → Option (State ι κ π)
  | .advance r =>
    match s.prog r with
    | (j, .send dest key payload) :: rest => some (s.sent r dest ⟨j, key, payload⟩ rest)
    | (_, .barrier) :: rest =>
      if s.waiting r then
        if ∀ q, s.entered r ≤ s.entered q then some (s.leaving r rest) else none
      else some (s.entering r)
    | _ => none
  | .receive q r =>
    match s.prog q with
    | (i, .recv source wants accept) :: rest =>
      if ∀ r' ∈ source, r' = r then
        ((s.channel (r, q)).find? fun m ↦ wants m.key).map fun m ↦
          s.received q wants ⟨i, r, m⟩ (if accept m then rest else [])
      else none
    | _ => none

theorem Step.of_move [Fintype ι] {s s' : State ι κ π} {v : Move ι} (h : s.move v = some s') :
    Step s v s' := by
  cases v with
  | advance r =>
    simp only [State.move] at h
    split at h
    · cases h
      exact .send ‹_›
    · split_ifs at h with hwaiting hall
      · cases h
        exact .leave ‹_› hwaiting hall
      · cases h
        exact .enter ‹_› (Bool.eq_false_iff.mpr hwaiting)
    · cases h
  | receive q r =>
    simp only [State.move] at h
    split at h
    · split_ifs at h with hsource
      obtain ⟨m, hm, rfl⟩ := Option.map_eq_some_iff.mp h
      exact .recv ‹_› hsource hm
    · cases h

/-! ## What is pending and what is expected -/

/-- The instruction receives messages with key `k`. -/
def Instr.wantsKey (k : κ) : Instr ι κ π → Bool
  | .recv _ wants _ => wants k
  | _ => false

/-- The rounds in which `q` is yet to receive a message with key `k`. -/
def State.expected (s : State ι κ π) (q : ι) (k : κ) : List ℕ :=
  roundsOf (Instr.wantsKey k) (s.prog q)

theorem expected_sent {s : State ι κ π} {r dest : ι} {j : ℕ} {key : κ} {payload : π}
    {rest : List (ℕ × Instr ι κ π)} (h : s.prog r = (j, .send dest key payload) :: rest) (q : ι)
    (k : κ) : (s.sent r dest ⟨j, key, payload⟩ rest).expected q k = s.expected q k := by
  rw [State.expected, State.expected, State.sent_prog]
  rcases eq_or_ne q r with rfl | hq
  · rw [Function.update_self, h, roundsOf_cons]
    simp [Instr.wantsKey]
  · rw [Function.update_of_ne hq]

theorem expected_leaving {s : State ι κ π} {r : ι} {j : ℕ} {rest : List (ℕ × Instr ι κ π)}
    (h : s.prog r = (j, .barrier) :: rest) (q : ι) (k : κ) :
    (s.leaving r rest).expected q k = s.expected q k := by
  rw [State.expected, State.expected, State.leaving_prog]
  rcases eq_or_ne q r with rfl | hq
  · rw [Function.update_self, h, roundsOf_cons]
    simp [Instr.wantsKey]
  · rw [Function.update_of_ne hq]

/-- A receive is the first expected one. -/
theorem expected_received {s : State ι κ π} {q r : ι} {i : ℕ} {source : Option ι}
    {wants : κ → Bool} {accept : Message κ π → Bool} {rest : List (ℕ × Instr ι κ π)}
    {m : Message κ π} (hprog : s.prog q = (i, .recv source wants accept) :: rest) (q' : ι)
    (k : κ) : s.expected q' k = (if q' = q ∧ wants k = true then [i] else [])
      ++ (s.received q wants ⟨i, r, m⟩ rest).expected q' k := by
  rw [State.expected, State.expected, State.received_prog]
  rcases eq_or_ne q' q with rfl | hq
  · rw [Function.update_self, hprog, roundsOf_cons]
    cases hwants : wants k <;> simp [Instr.wantsKey, hwants]
  · simp [hq]

variable [DecidableEq κ]

/-- The instruction sends `q` a message with key `k`. -/
def Instr.sendsTo (q : ι) (k : κ) : Instr ι κ π → Bool
  | .send dest key _ => dest = q && key = k
  | _ => false

/-- The rounds of the messages on their way with key `k`. -/
def onTheWay (k : κ) (l : List (Message κ π)) : List ℕ :=
  (l.filter fun m ↦ m.key = k).map Message.round

/-- The rounds of the messages with key `k` that `q` has yet to receive from `r`. -/
def State.pending (s : State ι κ π) (q : ι) (k : κ) (r : ι) : List ℕ :=
  onTheWay k (s.channel (r, q)) ++ roundsOf (Instr.sendsTo q k) (s.prog r)

omit [DecidableEq ι] in
theorem onTheWay_append (k : κ) (l₁ l₂ : List (Message κ π)) :
    onTheWay k (l₁ ++ l₂) = onTheWay k l₁ ++ onTheWay k l₂ := by
  rw [onTheWay, List.filter_append, List.map_append]
  rfl

/-- Whoever takes the first message with a key that is wanted takes the first one with its key. -/
theorem onTheWay_eraseP {wants : κ → Bool} {l : List (Message κ π)} {m : Message κ π}
    (h : l.find? (fun m ↦ wants m.key) = some m) (k : κ) :
    onTheWay k l
      = (if m.key = k then [m.round] else []) ++ onTheWay k (l.eraseP fun m ↦ wants m.key) := by
  obtain ⟨hm, l₁, l₂, rfl, hl₁⟩ := List.find?_eq_some_iff_append.mp h
  have herase : (l₁ ++ m :: l₂).eraseP (fun m ↦ wants m.key) = l₁ ++ l₂ := by
    rw [List.eraseP_append_right _ (fun x hx ↦ by simpa using hl₁ x hx),
      List.eraseP_cons_of_pos (p := fun m : Message κ π ↦ wants m.key) hm]
  rw [herase, onTheWay_append, onTheWay_append]
  split_ifs with hkey
  · -- no message with this key is in front
    have hnil : onTheWay k l₁ = [] := by
      rw [onTheWay, List.map_eq_nil_iff, List.filter_eq_nil_iff]
      intro x hx hxk
      have hwants := hl₁ x hx
      rw [of_decide_eq_true hxk, ← hkey, hm] at hwants
      cases hwants
    rw [hnil]
    simp [onTheWay, hkey]
  · simp [onTheWay, hkey]

theorem pending_sent {s : State ι κ π} {r dest : ι} {j : ℕ} {key : κ} {payload : π}
    {rest : List (ℕ × Instr ι κ π)} (h : s.prog r = (j, .send dest key payload) :: rest) (q : ι)
    (k : κ) (r' : ι) :
    (s.sent r dest ⟨j, key, payload⟩ rest).pending q k r' = s.pending q k r' := by
  rw [State.pending, State.pending, State.sent_prog, State.sent_channel]
  rcases eq_or_ne r' r with rfl | hr
  · rw [Function.update_self, h, roundsOf_cons]
    rcases eq_or_ne q dest with rfl | hq
    · rw [Function.update_self, onTheWay_append, List.append_assoc]
      simp [onTheWay, Instr.sendsTo, List.filter_cons, apply_ite (List.map Message.round)]
    · rw [Function.update_of_ne fun heq ↦ hq (congrArg Prod.snd heq)]
      simp [Instr.sendsTo, hq.symm]
  · rw [Function.update_of_ne hr, Function.update_of_ne fun heq ↦ hr (congrArg Prod.fst heq)]

theorem pending_leaving {s : State ι κ π} {r : ι} {j : ℕ} {rest : List (ℕ × Instr ι κ π)}
    (h : s.prog r = (j, .barrier) :: rest) (q : ι) (k : κ) (r' : ι) :
    (s.leaving r rest).pending q k r' = s.pending q k r' := by
  rw [State.pending, State.pending, State.leaving_prog, State.leaving_channel]
  rcases eq_or_ne r' r with rfl | hr
  · rw [Function.update_self, h, roundsOf_cons]
    simp [Instr.sendsTo]
  · rw [Function.update_of_ne hr]

section

variable {s : State ι κ π} {q r : ι} {i : ℕ} {source : Option ι} {wants : κ → Bool}
  {accept : Message κ π → Bool} {rest : List (ℕ × Instr ι κ π)} {m : Message κ π}

/-- A receive takes the first pending message of its key. -/
theorem pending_received (hprog : s.prog q = (i, .recv source wants accept) :: rest)
    (hfind : (s.channel (r, q)).find? (fun m ↦ wants m.key) = some m) (q' : ι) (k : κ) (r' : ι) :
    s.pending q' k r' = (if (q' = q ∧ m.key = k) ∧ r' = r then [m.round] else [])
      ++ (s.received q wants ⟨i, r, m⟩ rest).pending q' k r' := by
  -- a receive takes no send off a program, and one message off one channel
  have hsends : roundsOf (Instr.sendsTo q' k) (s.prog r')
      = roundsOf (Instr.sendsTo q' k) ((s.received q wants ⟨i, r, m⟩ rest).prog r') := by
    rw [State.received_prog]
    rcases eq_or_ne r' q with rfl | hr
    · rw [Function.update_self, hprog, roundsOf_cons]
      simp [Instr.sendsTo]
    · rw [Function.update_of_ne hr]
  have hway : onTheWay k (s.channel (r', q'))
      = (if (q' = q ∧ m.key = k) ∧ r' = r then [m.round] else [])
        ++ onTheWay k ((s.received q wants ⟨i, r, m⟩ rest).channel (r', q')) := by
    rw [State.received_channel]
    by_cases hpair : (r', q') = (r, q)
    · obtain ⟨rfl, rfl⟩ := Prod.mk.injEq _ _ _ _ ▸ hpair
      rw [Function.update_self, onTheWay_eraseP hfind k]
      simp
    · rw [Function.update_of_ne hpair, if_neg fun h ↦ hpair (by rw [h.1.1, h.2]), List.nil_append]
  rw [State.pending, State.pending, hsends, hway, List.append_assoc]

end

end Network

end Runs

end MpiTestSuite

import MpiTestSuite.Runs.Windows

/-!
# Access and exposure epochs

Every party has *windows* that others may access. It opens one to a group of others (`Bound.post`)
and waits for all of them to be done with it (`Bound.wait`). Who wants to access the windows of
others begins with `Bound.start`, which waits until they are open, and ends with `Bound.complete`.
Creating and freeing windows are things that all parties do together. What an access moves is moved
some time after it, but before the epoch is over.

Whatever the programs are, epochs match (`matching`): the accesses of a party to a window of another
one are opened and closed one by one with the exposures of that window, and never without one.

## Programs of blocks

A program is a list of *blocks*, each of which is an epoch as a whole or a call that all parties
make together. If the levels of the blocks increase along the programs, and whenever one party has a
block in which it accesses a window of another one, that one has a block of the same level in which
it exposes the window to it, and vice versa, then nobody waits forever (`Paired.exists_ready`).
-/

open Relation

namespace MpiTestSuite

namespace Runs

namespace Epochs

open Meetings Windows

variable {ρ ω τ σ : Type*}

/-! ## Calls -/

/-- The calls at the ends of exposures and accesses. -/
inductive Bound
  | post
  | wait
  | start
  | complete
  deriving DecidableEq, Repr

/-- The calls of a party. A call that ends an epoch has the same group as the one that begins it.
What an access moves is moved with `deliver`, which is not a call of the party. -/
inductive Call (ρ ω : Type*)
  | create (window : ω)
  | free (window : ω)
  | bound (b : Bound) (window : ω) (group : List ρ)
  | access (window : ω) (target : ρ)
  | deliver
  deriving DecidableEq, Repr

/-- Calls with numbers. -/
abbrev Numbered (ρ ω : Type*) : Type _ := Windows.Numbered (Call ρ ω)

/-- What is moved by accesses. `early` says that `complete` waits for it. -/
structure Transfers (ρ ω τ : Type*) extends Windows.Transfers ρ ω τ where
  early : Prop

/-- The epochs of a party that are open, with their groups. -/
structure Open (ρ ω : Type*) where
  access : ω → Option (List ρ)
  exposure : ω → Option (List ρ)

namespace Open

/-- No epoch is open. -/
def closed : Open ρ ω := ⟨fun _ ↦ none, fun _ ↦ none⟩

section

variable [DecidableEq ρ] [DecidableEq ω]

/-- The epochs that are open after a call; `none` if the call may not be made. -/
def next (e : Open ρ ω) : Call ρ ω → Option (Open ρ ω)
  | .bound .post w g =>
    if e.exposure w = none then some { e with exposure := Function.update e.exposure w (some g) }
    else none
  | .bound .wait w g =>
    if e.exposure w = some g then some { e with exposure := Function.update e.exposure w none }
    else none
  | .bound .start w g =>
    if e.access w = none then some { e with access := Function.update e.access w (some g) }
    else none
  | .bound .complete w g =>
    if e.access w = some g then some { e with access := Function.update e.access w none } else none
  | .access w t => if (e.access w).any (t ∈ ·) then some e else none
  | .free w => if e.access w = none ∧ e.exposure w = none then some e else none
  | .create _ | .deliver => some e

end

end Open

section

variable [DecidableEq ρ] [DecidableEq ω]

/-- A call that begins or ends an epoch that another party takes part in. -/
def Call.names (b : Bound) (w : ω) (r : ρ) : Call ρ ω → Bool
  | bound b' w' g => decide (b' = b ∧ w' = w ∧ r ∈ g)
  | _ => false

theorem Call.names_iff {c : Call ρ ω} {b : Bound} {w : ω} {r : ρ} :
    c.names b w r = true ↔ ∃ g, c = .bound b w g ∧ r ∈ g := by
  cases c with
  | bound b' w' g =>
    simp only [names, decide_eq_true_eq, Call.bound.injEq]
    constructor
    · rintro ⟨rfl, rfl, hr⟩
      exact ⟨g, ⟨rfl, rfl, rfl⟩, hr⟩
    · rintro ⟨g, ⟨rfl, rfl, rfl⟩, hr⟩
      exact ⟨rfl, rfl, hr⟩
  | _ => simp [names]

/-- How often that has happened. -/
def tally (b : Bound) (l : List (Numbered ρ ω)) (w : ω) (r : ρ) : ℕ :=
  l.countP fun c ↦ c.call.names b w r

theorem tally_concat (b : Bound) (l : List (Numbered ρ ω)) (c : Numbered ρ ω) (w : ω) (r : ρ) :
    tally b (l ++ [c]) w r = tally b l w r + if c.call.names b w r then 1 else 0 := by
  rw [tally, List.countP_append, List.countP_singleton]
  rfl

/-- A party takes part in the epoch that is open. -/
def takesPart (group : Option (List ρ)) (r : ρ) : ℕ := if group.any (r ∈ ·) then 1 else 0

/-- One more epoch has been begun than ended after a call, if one is open. -/
theorem takesPart_next {e e' : Open ρ ω} {c : Call ρ ω} (h : e.next c = some e') (w : ω) (r : ρ) :
    (takesPart (e.access w) r + (if c.names .start w r then 1 else 0)
        = (if c.names .complete w r then 1 else 0) + takesPart (e'.access w) r) ∧
      takesPart (e.exposure w) r + (if c.names .post w r then 1 else 0)
        = (if c.names .wait w r then 1 else 0) + takesPart (e'.exposure w) r := by
  cases c with
  | bound b w' g =>
    by_cases hw : w' = w
    · subst hw
      cases b <;> simp only [Open.next] at h <;> split_ifs at h with hopen <;>
        obtain rfl := Option.some_inj.mp h <;>
        simp [Call.names, takesPart, hopen]
    · cases b <;> simp only [Open.next] at h <;> split_ifs at h with hopen <;>
        obtain rfl := Option.some_inj.mp h <;>
        simp [Call.names, hw, Function.update_of_ne (Ne.symm hw)]
  | access w' t =>
    simp only [Open.next] at h
    split_ifs at h
    obtain rfl := Option.some_inj.mp h
    simp [Call.names]
  | free w' =>
    simp only [Open.next] at h
    split_ifs at h
    obtain rfl := Option.some_inj.mp h
    simp [Call.names]
  | create w' =>
    obtain rfl := Option.some_inj.mp h
    simp [Call.names]
  | deliver =>
    obtain rfl := Option.some_inj.mp h
    simp [Call.names]

/-- The epochs that have been begun and not been ended. -/
theorem tally_of_follow {l : List (Numbered ρ ω)} {e : Open ρ ω}
    (h : follow Open.next Open.closed l = some e) (w : ω) (r : ρ) :
    tally .start l w r = tally .complete l w r + takesPart (e.access w) r ∧
      tally .post l w r = tally .wait l w r + takesPart (e.exposure w) r := by
  induction l using List.reverseRecOn generalizing e with
  | nil =>
    obtain rfl := Option.some_inj.mp h
    exact ⟨rfl, rfl⟩
  | append_singleton l c ih =>
    rw [follow_concat, Option.bind_eq_some_iff] at h
    obtain ⟨e', he', hnext⟩ := h
    obtain ⟨haccess, hexposure⟩ := ih he'
    obtain ⟨haccess', hexposure'⟩ := takesPart_next hnext w r
    simp only [tally_concat]
    omega

/-! ## What is waited for -/

variable (T : Transfers ρ ω τ)

/-- The programs of the parties and those of what is moved by accesses. -/
abbrev parties (calls : ρ → List (Numbered ρ ω)) : ρ ⊕ τ → List (Numbered ρ ω) :=
  Windows.parties T.toTransfers .access .deliver calls

section

variable (s : State (ρ ⊕ τ) (Numbered ρ ω) σ)

/-- All that has been accessed has been moved. -/
def Moved (x : τ) : Prop :=
  ∀ a ∈ s.done (.inl (T.origin x)), a.call = .access (T.window x) (T.target x) →
    ⟨a.level + 1, .deliver⟩ ∈ s.done (.inr x)

/-- What a call waits for. -/
def Waited (r : ρ) (c : Numbered ρ ω) : Prop :=
  match c.call with
  | .create _ | .free _ => ∀ q, s.Reached (.inl q) c
  | .bound .start w g => ∀ t ∈ g,
    tally .start (s.done (.inl r)) w t < tally .post (s.done (.inl t)) w r
  | .bound .complete w g => T.early →
    ∀ x, T.origin x = r → T.window x = w → T.target x ∈ g → Moved T s x
  | .bound .wait w g => ∀ o ∈ g,
    tally .post (s.done (.inl r)) w o ≤ tally .complete (s.done (.inl o)) w r ∧
      ∀ x, T.origin x = o → T.target x = r → T.window x = w → Moved T s x
  | _ => True

/-- A call may be made and has nothing to wait for, and something is moved when it has been
accessed. -/
def Ready : ρ ⊕ τ → Numbered ρ ω → Prop
  | .inl r, c => (follow Open.next Open.closed (s.done (.inl r) ++ [c])).isSome ∧ Waited T s r c
  | .inr x, c => ∃ a ∈ s.done (.inl (T.origin x)),
    a.call = .access (T.window x) (T.target x) ∧ c.level = a.level + 1

/-- The epochs in which `o` accesses window `w` of `t`: none is begun before `t` has opened the
window, nor closed by `t` before it has been completed. -/
structure Matching (w : ω) (o t : ρ) : Prop where
  wait_le : tally .wait (s.done (.inl t)) w o ≤ tally .complete (s.done (.inl o)) w t
  complete_le : tally .complete (s.done (.inl o)) w t ≤ tally .start (s.done (.inl o)) w t
  start_le : tally .start (s.done (.inl o)) w t ≤ tally .post (s.done (.inl t)) w o
  post_le : tally .post (s.done (.inl t)) w o ≤ tally .wait (s.done (.inl t)) w o + 1

end

variable {T} [DecidableEq τ] {exec : ρ ⊕ τ → Numbered ρ ω → σ → Option σ}
  {calls : ρ → List (Numbered ρ ω)} {vars : σ} {s : State (ρ ⊕ τ) (Numbered ρ ω) σ}

/-- No party makes a call that it may not make. -/
theorem exists_open
    (hrun : ReflTransGen (Step (Ready T) exec) (State.start (parties T calls) vars) s) (r : ρ) :
    ∃ e, follow Open.next Open.closed (s.done (.inl r)) = some e :=
  follow_done (fun _ _ _ hready ↦ hready.1) hrun r

/-- A call counts once it has been made. -/
theorem tally_execute (s : State (ρ ⊕ τ) (Numbered ρ ω) σ) (i : ρ ⊕ τ) (a : Numbered ρ ω)
    (rest : List (Numbered ρ ω)) (vars : σ) (b : Bound) (q : ρ) (w : ω) (r : ρ) :
    tally b ((s.execute i a rest vars).done (.inl q)) w r
      = tally b (s.done (.inl q)) w r
        + if i = .inl q ∧ a.call.names b w r = true then 1 else 0 := by
  by_cases hi : .inl q = i
  · subst hi
    simp only [State.execute, Function.update_self, tally_concat, true_and]
  · simp only [State.execute, Function.update_of_ne hi, Ne.symm hi, false_and, if_false, add_zero]

/-- **Epochs match**, whatever the programs are. -/
theorem matching (hrun : ReflTransGen (Step (Ready T) exec) (State.start (parties T calls) vars) s)
    (w : ω) (o t : ρ) : Matching s w o t := by
  induction hrun with
  | refl => exact ⟨le_rfl, le_rfl, le_rfl, Nat.zero_le _⟩
  | @tail s s' hrun hstep ih =>
    have hrun' := hrun.tail hstep
    obtain ⟨htodo, hready, -⟩ := hstep
    rename_i i a rest vars
    obtain ⟨e, he⟩ := exists_open hrun' o
    obtain ⟨e', he'⟩ := exists_open hrun' t
    obtain ⟨haccess, -⟩ := tally_of_follow he w t
    obtain ⟨-, hexposure⟩ := tally_of_follow he' w o
    have hone : takesPart (e'.exposure w) o ≤ 1 := by
      rw [takesPart]
      split_ifs <;> omega
    refine ⟨?_, by omega, ?_, by omega⟩
    · rw [tally_execute, tally_execute]
      by_cases hwait : i = .inl t ∧ a.call.names .wait w o = true
      · -- everything that was to be done has been completed, and one more exposure had been begun
        obtain ⟨rfl, hnames⟩ := hwait
        obtain ⟨g, hcall, ho⟩ := Call.names_iff.mp hnames
        have hwaited := hready.2
        rw [Waited, hcall] at hwaited
        have hle := (hwaited o ho).1
        rw [tally_execute, tally_execute] at hexposure
        simp only [hcall] at hexposure ⊢
        simp [Call.names, ho] at hexposure ⊢
        omega
      · rw [if_neg hwait]
        have hle := ih.wait_le
        omega
    · rw [tally_execute, tally_execute]
      by_cases hstart : i = .inl o ∧ a.call.names .start w t = true
      · obtain ⟨rfl, hnames⟩ := hstart
        obtain ⟨g, hcall, ht⟩ := Call.names_iff.mp hnames
        have hwaited := hready.2
        rw [Waited, hcall] at hwaited
        have hlt := hwaited t ht
        rw [if_pos ⟨rfl, hnames⟩]
        omega
      · rw [if_neg hstart]
        have hle := ih.start_le
        omega

end

/-! ## Blocks -/

/-- An epoch as a whole, or a call that all parties make together. -/
inductive Block (ρ ω : Type*)
  | create (level : ℕ) (window : ω)
  | free (level : ℕ) (window : ω)
  | expose (level : ℕ) (window : ω) (group : List ρ)
  | access (level : ℕ) (window : ω) (target : ρ)
  deriving DecidableEq, Repr

namespace Block

def level : Block ρ ω → ℕ
  | create n _ | free n _ | expose n _ _ | access n _ _ => n

/-- The calls of a block. What is moved by an access is moved between the access and its end. -/
def calls : Block ρ ω → List (Numbered ρ ω)
  | create n w => [⟨n, .create w⟩]
  | free n w => [⟨n, .free w⟩]
  | expose n w g => [⟨n + 1, .bound .post w g⟩, ⟨n + 6, .bound .wait w g⟩]
  | access n w t =>
    [⟨n + 2, .bound .start w [t]⟩, ⟨n + 3, .access w t⟩, ⟨n + 5, .bound .complete w [t]⟩]

theorem level_mem {b : Block ρ ω} {c : Numbered ρ ω} (hc : c ∈ b.calls) :
    b.level ≤ c.level ∧ c.level ≤ b.level + 6 := by
  cases b <;> simp only [calls, List.mem_cons, List.not_mem_nil, or_false] at hc <;>
    rcases hc with rfl | rfl | rfl <;> simp [level]

theorem pairwise_calls (b : Block ρ ω) : b.calls.Pairwise fun c d ↦ c.level < d.level := by
  cases b <;> simp [calls]

end Block

/-- The calls of some blocks. -/
def program (l : List (Block ρ ω)) : List (Numbered ρ ω) := l.flatMap Block.calls

section

variable [DecidableEq ρ] [DecidableEq ω]

/-- Blocks end all epochs that they begin. -/
theorem follow_program (l : List (Block ρ ω)) :
    follow Open.next Open.closed (program l) = some Open.closed := by
  have hblock : ∀ b : Block ρ ω, follow Open.next Open.closed b.calls = some Open.closed := by
    intro b
    cases b <;> simp [Block.calls, follow, Open.next, Open.closed, Function.update_eq_self]
  induction l with
  | nil => rfl
  | cons b l ih =>
    rw [program, List.flatMap_cons, follow_append, hblock, Option.bind_some]
    exact ih

/-- The level of a block that exposes a window to a party. -/
def Block.exposes (w : ω) (r : ρ) : Block ρ ω → Option ℕ
  | expose n w' g => if w' = w ∧ r ∈ g then some n else none
  | _ => none

/-- The level of a block that accesses a window of a party. -/
def Block.accesses (w : ω) (r : ρ) : Block ρ ω → Option ℕ
  | access n w' t => if w' = w ∧ r = t then some n else none
  | _ => none

/-- The level of a block with a call, and where the call is in it. -/
def Bound.within : Bound → ω → ρ → Block ρ ω → Option ℕ
  | post | wait => Block.exposes
  | start | complete => Block.accesses

def Bound.offset : Bound → ℕ
  | post => 1
  | start => 2
  | complete => 5
  | wait => 6

theorem Block.countP_calls (b : Bound) (block : Block ρ ω) (w : ω) (r : ρ) (n : ℕ) :
    block.calls.countP (fun c ↦ c.call.names b w r && decide (c.level < n))
      = (b.within w r block).toList.countP fun m ↦ decide (m + b.offset < n) := by
  cases block with
  | create | free => cases b <;> simp [calls, Call.names, Bound.within, exposes, accesses]
  | expose m w' g =>
    by_cases h : w' = w ∧ r ∈ g <;>
      cases b <;> simp [calls, Call.names, Bound.within, exposes, accesses, Bound.offset, h,
        List.countP_cons] <;> exact if_congr decide_eq_true_iff.symm rfl rfl
  | access m w' t =>
    by_cases h : w' = w ∧ r = t <;>
      cases b <;> simp [calls, Call.names, Bound.within, exposes, accesses, Bound.offset, h,
        List.countP_cons] <;> exact if_congr decide_eq_true_iff.symm rfl rfl

/-- The calls of a program can be counted by blocks. -/
theorem countP_program (b : Bound) (l : List (Block ρ ω)) (w : ω) (r : ρ) (n : ℕ) :
    (program l).countP (fun c ↦ c.call.names b w r && decide (c.level < n))
      = (l.filterMap (b.within w r)).countP fun m ↦ decide (m + b.offset < n) := by
  induction l with
  | nil => rfl
  | cons block l ih =>
    rw [program, List.flatMap_cons, List.countP_append, block.countP_calls]
    change _ + (program l).countP _ = _
    rw [ih, List.filterMap_cons]
    cases b.within w r block with
    | none => exact Nat.zero_add _
    | some m =>
      rw [List.countP_cons, add_comm]
      exact congrArg _ (List.countP_singleton)

/-- Whenever one party has a block in which it accesses a window of another one, that one has a
block of the same level in which it exposes the window to it, and vice versa. -/
structure Paired (blocks : ρ → List (Block ρ ω)) : Prop where
  apart : ∀ r, (blocks r).Pairwise fun a b ↦ a.level + 7 ≤ b.level
  create : ∀ r q n w, .create n w ∈ blocks r → .create n w ∈ blocks q
  free : ∀ r q n w, .free n w ∈ blocks r → .free n w ∈ blocks q
  access_iff : ∀ n w o t, .access n w t ∈ blocks o ↔ ∃ g, .expose n w g ∈ blocks t ∧ o ∈ g

theorem mem_exposes {l : List (Block ρ ω)} {w : ω} {r : ρ} {n : ℕ} :
    n ∈ l.filterMap (Block.exposes w r) ↔ ∃ g, .expose n w g ∈ l ∧ r ∈ g := by
  rw [List.mem_filterMap]
  constructor
  · rintro ⟨b, hb, hn⟩
    cases b with
    | expose m w' g =>
      rw [Block.exposes] at hn
      split_ifs at hn with hcond
      obtain rfl := Option.some_inj.mp hn
      obtain ⟨rfl, hr⟩ := hcond
      exact ⟨g, hb, hr⟩
    | _ => cases hn
  · rintro ⟨g, hb, hr⟩
    exact ⟨_, hb, if_pos ⟨rfl, hr⟩⟩

theorem mem_accesses {l : List (Block ρ ω)} {w : ω} {r : ρ} {n : ℕ} :
    n ∈ l.filterMap (Block.accesses w r) ↔ .access n w r ∈ l := by
  rw [List.mem_filterMap]
  constructor
  · rintro ⟨b, hb, hn⟩
    cases b with
    | access m w' t =>
      rw [Block.accesses] at hn
      split_ifs at hn with hcond
      obtain rfl := Option.some_inj.mp hn
      obtain ⟨rfl, rfl⟩ := hcond
      exact hb
    | _ => cases hn
  · intro hb
    exact ⟨_, hb, if_pos ⟨rfl, rfl⟩⟩

namespace Paired

variable {blocks : ρ → List (Block ρ ω)}

/-- The levels of blocks increase. -/
theorem pairwise_within (h : Paired blocks) (b : Bound) (r : ρ) (w : ω) (q : ρ) :
    ((blocks r).filterMap (b.within w q)).Pairwise fun m n ↦ m + 7 ≤ n := by
  have hlevel : ∀ (block : Block ρ ω) n, b.within w q block = some n → n = block.level := by
    intro block n hn
    cases b <;> cases block <;>
      simp only [Bound.within, Block.exposes, Block.accesses, reduceCtorEq] at hn <;>
      split_ifs at hn <;> exact (Option.some_inj.mp hn).symm
  refine List.pairwise_filterMap.mpr ((h.apart r).imp fun {a b} hab m hm n hn ↦ ?_)
  rw [hlevel a m hm, hlevel b n hn]
  exact hab

/-- The blocks in which a window of a party is exposed to another one and accessed by it have the
same levels. -/
theorem perm (h : Paired blocks) (w : ω) (o t : ρ) :
    ((blocks o).filterMap (Block.accesses w t)).Perm
      ((blocks t).filterMap (Block.exposes w o)) := by
  have hnodup : ∀ b r q, ((blocks r).filterMap (Bound.within b w q)).Nodup := fun b r q ↦
    (h.pairwise_within b r w q).imp fun hle ↦ by omega
  refine (List.perm_ext_iff_of_nodup (hnodup .start o t) (hnodup .post t o)).mpr fun n ↦ ?_
  rw [Bound.within, Bound.within, mem_exposes, mem_accesses]
  exact h.access_iff n w o t

/-- Two blocks at which a window of a party is exposed to another one do not come close. -/
theorem eq_of_near (h : Paired blocks) {w : ω} {o t : ρ} {m n : ℕ}
    (hm : m ∈ (blocks o).filterMap (Block.accesses w t))
    (hn : n ∈ (blocks o).filterMap (Block.accesses w t)) (hlow : m < n + 7) (hhigh : n < m + 7) :
    m = n := by
  by_contra hne
  have hpairwise := (h.pairwise_within .start o w t).imp fun {a b} hle ↦ (Or.inl hle :
    a + 7 ≤ b ∨ b + 7 ≤ a)
  have : Std.Symm fun a b : ℕ ↦ a + 7 ≤ b ∨ b + 7 ≤ a := ⟨fun _ _ ↦ Or.symm⟩
  rcases hpairwise.forall hm hn hne with hle | hle <;> omega

/-- The numbers of the calls increase. -/
theorem ordered (h : Paired blocks) (T : Transfers ρ ω τ) :
    Ordered (fun _ c ↦ c.level) (parties T fun r ↦ program (blocks r)) := by
  have hcalls : ∀ r, (program (blocks r)).Pairwise fun c d ↦ c.level < d.level := by
    intro r
    refine List.pairwise_flatMap.mpr ⟨fun b _ ↦ b.pairwise_calls, (h.apart r).imp ?_⟩
    intro a b hab c hc d hd
    have hlow := (Block.level_mem hd).1
    have hhigh := (Block.level_mem hc).2
    omega
  exact ordered_parties hcalls

end Paired

/-- Of what is counted, one kind includes another one and something else. -/
theorem countP_lt_countP {α : Type*} {p q : α → Bool} {l : List α} (h : ∀ x ∈ l, p x → q x) {a : α}
    (ha : a ∈ l) (hq : q a = true) (hp : p a = false) : l.countP p < l.countP q := by
  obtain ⟨s, t, rfl⟩ := List.append_of_mem ha
  have hs : s.countP p ≤ s.countP q := List.countP_mono_left fun x hx ↦
    h x (List.mem_append_left _ hx)
  have ht : t.countP p ≤ t.countP q := List.countP_mono_left fun x hx ↦
    h x (List.mem_append_right _ (List.mem_cons_of_mem _ hx))
  rw [List.countP_append, List.countP_append, List.countP_cons_of_pos hq,
    List.countP_cons_of_neg (by rw [hp]; exact Bool.false_ne_true)]
  omega

section

variable {T : Transfers ρ ω τ} {blocks : ρ → List (Block ρ ω)}
  {s : State (ρ ⊕ τ) (Numbered ρ ω) σ}

/-- What a party has executed below some number has been counted. -/
theorem tally_le (hs : Genuine (parties T fun r ↦ program (blocks r)) s) {r : ρ} {n : ℕ}
    (hbelow : ∀ c ∈ s.done (.inl r), c.level < n) (b : Bound) (w : ω) (q : ρ) :
    tally b (s.done (.inl r)) w q
      ≤ ((blocks r).filterMap (b.within w q)).countP fun m ↦ decide (m + b.offset < n) := by
  have hprog : program (blocks r) = s.done (.inl r) ++ s.todo (.inl r) := (hs (.inl r)).symm
  rw [← countP_program, hprog, List.countP_append, tally]
  refine (List.countP_mono_left fun c hc hnames ↦ ?_).trans (Nat.le_add_right _ _)
  rw [hnames, Bool.true_and]
  exact decide_eq_true (hbelow c hc)

/-- If all below some number has been executed, it is counted at least. -/
theorem Paired.le_tally (h : Paired blocks)
    (hs : Genuine (parties T fun r ↦ program (blocks r)) s) {r : ρ} {n : ℕ}
    (hbelow : ∀ c ∈ program (blocks r), c.level < n → c ∈ s.done (.inl r)) (b : Bound) (w : ω)
    (q : ρ) :
    ((blocks r).filterMap (b.within w q)).countP (fun m ↦ decide (m + b.offset < n))
      ≤ tally b (s.done (.inl r)) w q := by
  have hprog : program (blocks r) = s.done (.inl r) ++ s.todo (.inl r) := (hs (.inl r)).symm
  -- what is left to do is not below it
  have hzero : (s.todo (.inl r)).countP
      (fun c ↦ c.call.names b w q && decide (c.level < n)) = 0 := by
    refine List.countP_eq_zero.mpr fun c hc hboth ↦ ?_
    have hlt := of_decide_eq_true (Bool.and_eq_true_iff.mp hboth).2
    have hdone := hbelow c (hprog ▸ List.mem_append_right _ hc) hlt
    have hsorted := h.ordered T (.inl r)
    change (program (blocks r)).Pairwise _ at hsorted
    rw [hprog] at hsorted
    exact lt_irrefl _ ((List.pairwise_append.mp hsorted).2.2 c hdone c hc)
  rw [← countP_program, hprog, List.countP_append, hzero, add_zero, tally]
  exact List.countP_mono_left fun c _ hboth ↦ (Bool.and_eq_true_iff.mp hboth).1

omit [DecidableEq ρ] [DecidableEq ω] in
/-- An access is in a block. -/
theorem access_mem {l : List (Block ρ ω)} {a : Numbered ρ ω} (ha : a ∈ program l) {w : ω} {t : ρ}
    (hcall : a.call = .access w t) : ∃ n, .access n w t ∈ l ∧ a.level = n + 3 := by
  obtain ⟨b, hb, ha⟩ := List.mem_flatMap.mp ha
  cases b <;> simp only [Block.calls, List.mem_cons, List.not_mem_nil, or_false] at ha <;>
    rcases ha with rfl | rfl | rfl <;> cases hcall
  exact ⟨_, hb, rfl⟩

namespace Paired

variable {r : ρ} {a : Numbered ρ ω} {rest : List (Numbered ρ ω)}

section

variable (h : Paired blocks) (hs : Genuine (parties T fun r ↦ program (blocks r)) s)
  (htodo : s.todo (.inl r) = a :: rest)
  (hlow : ∀ k, ∀ b ∈ parties T (fun r ↦ program (blocks r)) k, b.level < a.level → b ∈ s.done k)

include h hs htodo hlow

/-- Who begins to access a window finds it open. -/
theorem waited_start {n : ℕ} {w : ω} {t : ρ} (hb : .access n w t ∈ blocks r)
    (ha : a = ⟨n + 2, .bound .start w [t]⟩) : Waited T s r a := by
  subst ha
  intro q hq
  obtain rfl := List.mem_singleton.mp hq
  have hstarted := tally_le hs (fun c hc ↦ (h.ordered T).lt_of_mem_done hs htodo hc) .start w q
  have hposted := h.le_tally hs (fun c hc hlt ↦ hlow (.inl q) c hc hlt) .post w r
  have hmore := countP_lt_countP (l := (blocks r).filterMap (Block.accesses w q))
    (p := fun m ↦ decide (m + 2 < n + 2)) (q := fun m ↦ decide (m + 1 < n + 2))
    (fun m _ hm ↦ by simp only [decide_eq_true_eq] at hm ⊢; omega) (mem_accesses.mpr hb)
    (by simp) (by simp)
  rw [(h.perm w r q).countP_eq fun m ↦ decide (m + 1 < n + 2)] at hmore
  exact hstarted.trans_lt (hmore.trans_le hposted)

/-- Who ends an access has received what was accessed. -/
theorem waited_complete {n : ℕ} {w : ω} {t : ρ} (hb : .access n w t ∈ blocks r)
    (ha : a = ⟨n + 5, .bound .complete w [t]⟩) : Waited T s r a := by
  subst ha
  intro _ x hr hw ht c hc hcall
  subst hr hw
  obtain rfl := List.mem_singleton.mp ht
  obtain ⟨m, hm, hlevel⟩ := access_mem (hs.mem_of_done hc) hcall
  have hlt := (h.ordered T).lt_of_mem_done hs htodo hc
  simp only at hlt
  have hmn : m ≤ n := by
    by_contra hnot
    have heq := h.eq_of_near (mem_accesses.mpr hm) (mem_accesses.mpr hb) (by omega) (by omega)
    omega
  refine hlow (.inr x) _ (mem_parties (hs.mem_of_done hc) hcall) ?_
  simp only
  omega

/-- Who closes a window has nothing to wait for: all have completed their accesses, and what they
have accessed has been moved. -/
theorem waited_wait (hmatching : ∀ w o t, Matching s w o t) {n : ℕ} {w : ω} {g : List ρ}
    (hb : .expose n w g ∈ blocks r) (ha : a = ⟨n + 6, .bound .wait w g⟩) : Waited T s r a := by
  subst ha
  intro o ho
  have hn : n ∈ (blocks o).filterMap (Block.accesses w r) :=
    mem_accesses.mpr ((h.access_iff n w o r).mpr ⟨g, hb, ho⟩)
  have hnear : ∀ m ∈ (blocks o).filterMap (Block.accesses w r), m < n + 5 → m ≤ n := by
    intro m hm hlt
    by_contra hnot
    have heq := h.eq_of_near hm hn (by omega) (by omega)
    omega
  have hposted := tally_le hs (fun c hc ↦ (h.ordered T).lt_of_mem_done hs htodo hc) .post w o
  rw [Bound.within, ← (h.perm w o r).countP_eq] at hposted
  refine ⟨?_, fun x hx ht hw c hc hcall ↦ ?_⟩
  · have hcompleted := h.le_tally hs (fun c hc hlt ↦ hlow (.inl o) c hc hlt) .complete w r
    refine hposted.trans (le_trans (List.countP_mono_left fun m hm hlt ↦ ?_) hcompleted)
    simp only [decide_eq_true_eq] at hlt ⊢
    have hle := hnear m hm (by simp only [Bound.offset] at hlt; omega)
    simp only [Bound.offset]
    omega
  · subst hx ht hw
    obtain ⟨m, hm, hlevel⟩ := access_mem (hs.mem_of_done hc) hcall
    have hmem := mem_accesses.mpr hm
    have hmn : m ≤ n := by
      by_contra hnot
      have hfar : n + 7 ≤ m := by
        by_contra hnear'
        exact hnot (h.eq_of_near hmem hn (by omega) (by omega)).le
      -- otherwise more accesses than exposures would have been begun
      have hstarted := h.le_tally hs
        (fun c' hc' hlt ↦ (h.ordered T).mem_done_of_done hs hc hc' hlt) .start (T.window x)
        (T.target x)
      have hmore := countP_lt_countP
        (l := (blocks (T.origin x)).filterMap (Block.accesses (T.window x) (T.target x)))
        (p := fun k ↦ decide (k + 1 < n + 6)) (q := fun k ↦ decide (k + 2 < c.level))
        (fun k _ hk ↦ by simp only [decide_eq_true_eq] at hk ⊢; omega) hmem
        (by simp only [decide_eq_true_eq]; omega) (by simp only [decide_eq_false_iff_not]; omega)
      have hstart := (hmatching (T.window x) (T.origin x) (T.target x)).start_le
      exact absurd (hstarted.trans (hstart.trans hposted)) (not_le.mpr hmore)
    refine hlow (.inr x) _ (mem_parties (hs.mem_of_done hc) hcall) ?_
    simp only
    omega

end

variable [DecidableEq τ] {exec : ρ ⊕ τ → Numbered ρ ω → σ → Option σ} {vars : σ}

/-- **Nobody waits forever.** As long as somebody has something left to do, somebody has nothing to
wait for. -/
theorem exists_ready (h : Paired blocks)
    (hrun : ReflTransGen (Step (Ready T) exec)
      (State.start (parties T fun r ↦ program (blocks r)) vars) s)
    {i : ρ ⊕ τ} (hi : s.todo i ≠ []) :
    ∃ j a rest, s.todo j = a :: rest ∧ Ready T s j a := by
  have hs : Genuine (parties T fun r ↦ program (blocks r)) s := (genuine_start vars).run hrun
  obtain ⟨j, a, rest, htodo, hlow⟩ := (h.ordered T).exists_lowest hs hi
  refine ⟨j, a, rest, htodo, ?_⟩
  have hmem := hs.mem_of_next htodo
  cases j with
  | inr x =>
    obtain ⟨c, hc, hcall, rfl⟩ := exists_access_of_mem hmem
    exact ⟨c, hlow (.inl (T.origin x)) c hc (Nat.lt_succ_self _), hcall, rfl⟩
  | inl r =>
    -- what has been executed is the beginning of a program that ends all its epochs
    refine ⟨isSome_follow hs (follow_program (blocks r)) htodo, ?_⟩
    have hreached : ∀ q, a ∈ program (blocks q) → s.Reached (.inl q) a := fun q hq ↦
      (h.ordered T).reached hs hq fun b hb hlt ↦ hlow (.inl q) b hb hlt
    obtain ⟨b, hb, ha⟩ := List.mem_flatMap.mp hmem
    cases b with
    | create n w =>
      obtain rfl := List.mem_singleton.mp ha
      exact fun q ↦ hreached q (List.mem_flatMap.mpr ⟨_, h.create r q n w hb, ha⟩)
    | free n w =>
      obtain rfl := List.mem_singleton.mp ha
      exact fun q ↦ hreached q (List.mem_flatMap.mpr ⟨_, h.free r q n w hb, ha⟩)
    | expose n w g =>
      simp only [Block.calls, List.mem_cons, List.not_mem_nil, or_false] at ha
      rcases ha with rfl | rfl
      · trivial
      · exact h.waited_wait hs htodo hlow (matching hrun) hb rfl
    | access n w t =>
      simp only [Block.calls, List.mem_cons, List.not_mem_nil, or_false] at ha
      rcases ha with rfl | rfl | rfl
      · exact h.waited_start hs htodo hlow hb rfl
      · trivial
      · exact h.waited_complete hs htodo hlow hb rfl

end Paired

end

/-! ## The end of runs -/

section

variable {T : Transfers ρ ω τ} [DecidableEq τ] {exec : ρ ⊕ τ → Numbered ρ ω → σ → Option σ}
  {vars : σ} {s : State (ρ ⊕ τ) (Numbered ρ ω) σ}

/-- At the end of two programs their epochs are the same ones. -/
theorem matched_of_over {blocks : ρ → List (Block ρ ω)}
    (hrun : ReflTransGen (Step (Ready T) exec)
      (State.start (parties T fun r ↦ program (blocks r)) vars) s) {o t : ρ}
    (ho : s.todo (.inl o) = []) (ht : s.todo (.inl t) = []) (w : ω) :
    tally .start (s.done (.inl o)) w t = tally .post (s.done (.inl t)) w o ∧
      tally .complete (s.done (.inl o)) w t = tally .wait (s.done (.inl t)) w o := by
  have hs : Genuine (parties T fun r ↦ program (blocks r)) s := (genuine_start vars).run hrun
  have hclosed : ∀ r, s.todo (.inl r) = [] →
      follow Open.next Open.closed (s.done (.inl r)) = some Open.closed := by
    intro r hr
    have hprog : s.done (.inl r) ++ s.todo (.inl r) = program (blocks r) := hs (.inl r)
    rw [hr, List.append_nil] at hprog
    rw [hprog]
    exact follow_program (blocks r)
  obtain ⟨haccess, -⟩ := tally_of_follow (hclosed o ho) w t
  obtain ⟨-, hexposure⟩ := tally_of_follow (hclosed t ht) w o
  obtain ⟨hwait, hcomplete, hstart, -⟩ := matching hrun w o t
  simp only [Open.closed, takesPart, Option.any_none, Bool.false_eq_true, if_false,
    add_zero] at haccess hexposure
  omega

end

end

end Epochs

end Runs

end MpiTestSuite

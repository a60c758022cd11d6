import MpiTestSuite.OneSided.Arrivals
import MpiTestSuite.OneSided.WindowCalls

/-!
# Runs of the tests with locks and fences

Locks of a window exclude each other, nothing is moved without the lock that the test takes, or
outside of fences if it takes none, and nobody waits forever (`Works`). When a rank has done its
part, all that is to arrive in its buffers has arrived.

As the windows begin where the first element has its origin, the tests of all datatypes fail like
those with post and start, here even on one rank.
-/

open Relation

namespace MpiTestSuite

open Runs Meetings Windows Locks

namespace WindowTest

/-! ## What works -/

section

variable (w : WindowTest) (cfg : Config) (t : TypeSlot) (env : Env) (p : ℕ)

/-- The calls that have been made, and the buffers of all ranks. -/
abbrev Calls (p n : ℕ) : Type :=
  State (Fin p ⊕ Fin p × Fin p × Fin n) (Numbered (Fin p) ℕ) (Fin p → Buffer → Memory)

/-- A call of some rank, or the transfer of an element. -/
abbrev Steps : Calls p env.valuesNum.toNat → Calls p env.valuesNum.toNat → Prop :=
  Step (Ready (w.transfers p env.valuesNum.toNat)) (w.exec t env.valuesNum)

/-- All ranks call `init` and then `run`. -/
def begin (buffers : Fin p → Buffer → Memory) : Calls p env.valuesNum.toNat :=
  .start (parties (w.transfers p env.valuesNum.toNat) (w.calls p)) buffers

/-- A rank has nothing left to do but `cleanup`. -/
def Finished {p n : ℕ} (s : Calls p n) (r : Fin p) : Prop :=
  ∀ c ∈ s.todo (.inl r), c ∈ w.cleanup p

/-- In every run locks exclude each other, what is moved under locks is moved by who holds one,
everything else is moved between fences, somebody can go on until all are done, which they are some
time, and whoever has done its part has what it expects. -/
structure Works (buffers : Fin p → Buffer → Memory) : Prop where
  exclusion : ∀ s, ReflTransGen (w.Steps t env p) (w.begin env p buffers) s →
    ∀ o q, o ≠ q → ∀ window r k k', lockOf s o = some (k, window, r) →
      lockOf s q = some (k', window, r) → k = .shared ∧ k' = .shared
  guarded : ∀ s, ReflTransGen (w.Steps t env p) (w.begin env p buffers) s →
    ∀ k, w.guard = some k → ∀ x c rest, s.todo (.inr x) = c :: rest →
      Ready (w.transfers p env.valuesNum.toNat) s (.inr x) c →
        lockOf s x.1 = some (k, w.window x.1, x.2.1)
  fenced : ∀ s, ReflTransGen (w.Steps t env p) (w.begin env p buffers) s →
    w.guard = none → ∀ x c rest, s.todo (.inr x) = c :: rest →
      Ready (w.transfers p env.valuesNum.toNat) s (.inr x) c →
        fenceOf s x.1 (w.window x.1) = some .used
  exists_step : ∀ s, ReflTransGen (w.Steps t env p) (w.begin env p buffers) s →
    ∀ i, s.todo i ≠ [] → ∃ s', w.Steps t env p s s'
  terminates : ∀ s, ReflTransGen (w.Steps t env p) (w.begin env p buffers) s →
    Acc (fun s' s ↦ w.Steps t env p s s') s
  checked : ∀ s, ReflTransGen (w.Steps t env p) (w.begin env p buffers) s →
    ∀ r, w.Finished s r → ∀ c ∈ w.checks p r,
      IsStandardArray cfg t env.valuesNum.toNat c.2 (s.vars r c.1) ∧
        tstTestCheckstandardarray cfg t env (s.vars r c.1) c.2 = some []

/-- The blocks of the buffers have sizes of type `int`, elements have a size, and the windows have
all of their data, if there is somebody to access them. -/
structure Fits : Prop where
  size_pos : 0 < t.size
  room : (env.valuesNum + overhead) * t.size < 2 ^ 31
  behind : (∃ o q : Fin p, w.Active p o q) →
    env.valuesNum = 0 ∨ ∀ b ∈ t.datatype.typemap.bytes, 0 ≤ b

end

variable {w : WindowTest} {cfg : Config} {t : TypeSlot} {env : Env} {p : ℕ}
  {buffers : Fin p → Buffer → Memory} {s : Calls p env.valuesNum.toNat}

/-! ## Calls -/

/-- Who moves something holds the lock of the test. -/
theorem Admissible.guarded (h : w.Admissible p)
    (hrun : ReflTransGen (w.Steps t env p) (w.begin env p buffers) s) {k : LockType}
    (hguard : w.guard = some k) {x : Fin p × Fin p × Fin env.valuesNum.toNat}
    {c : Numbered (Fin p) ℕ} {rest : List (Numbered (Fin p) ℕ)}
    (htodo : s.todo (.inr x) = c :: rest)
    (hready : Ready (w.transfers p env.valuesNum.toNat) s (.inr x) c) :
    lockOf s x.1 = some (k, w.window x.1, x.2.1) := by
  obtain ⟨e, he, hcovers⟩ := h.regular.covers_of_deliver hrun htodo hready
  have hfences := h.fences (by simp [hguard]) x.1
  have hs : Genuine (parties (w.transfers p env.valuesNum.toNat) (w.calls p)) s :=
    (genuine_start buffers).run hrun
  have hmem : ∀ {a}, a ∈ s.done (.inl x.1) → a ∈ w.calls p x.1 := fun ha ↦ hs.mem_of_done ha
  rcases hcovers with ⟨k', hlocked⟩ | hused
  · obtain ⟨n, hn⟩ := Held.exists_lock he hlocked
    obtain rfl := Option.some_inj.mp (hguard.symm.trans (h.lock_type (hmem hn)))
    exact (lockOf_eq he).trans hlocked
  · -- a fence would stand in front of the access
    have hsorted : (s.done (.inl x.1)).Pairwise fun a b ↦ a.level < b.level := by
      have hprog : s.done (.inl x.1) ++ s.todo (.inl x.1) = w.calls p x.1 := hs (.inl x.1)
      have hcalls := h.regular.lt x.1
      rw [← hprog] at hcalls
      exact (List.pairwise_append.mp hcalls).1
    obtain ⟨f, hf, a, ha, hfence, haccess, hlt⟩ := (Held.exists_fence he hsorted).2 hused
    obtain ⟨b, b', hfence⟩ := hfence
    obtain ⟨q, haccess⟩ := haccess
    exact absurd (hfences f (hmem hf) a (hmem ha) ⟨_, b, b', hfence⟩ ⟨_, q, haccess⟩)
      (lt_asymm hlt)

/-- If the test takes no locks, it is between fences. -/
theorem Admissible.fenced (h : w.Admissible p)
    (hrun : ReflTransGen (w.Steps t env p) (w.begin env p buffers) s) (hguard : w.guard = none)
    {x : Fin p × Fin p × Fin env.valuesNum.toNat} {c : Numbered (Fin p) ℕ}
    {rest : List (Numbered (Fin p) ℕ)} (htodo : s.todo (.inr x) = c :: rest)
    (hready : Ready (w.transfers p env.valuesNum.toNat) s (.inr x) c) :
    fenceOf s x.1 (w.window x.1) = some .used := by
  obtain ⟨e, he, hcovers⟩ := h.regular.covers_of_deliver hrun htodo hready
  have hs : Genuine (parties (w.transfers p env.valuesNum.toNat) (w.calls p)) s :=
    (genuine_start buffers).run hrun
  rcases hcovers with ⟨k, hlocked⟩ | hused
  · obtain ⟨n, hn⟩ := Held.exists_lock he hlocked
    have hsome := h.lock_type (hs.mem_of_done hn)
    rw [hguard] at hsome
    cases hsome
  · exact (fenceOf_eq he _).trans hused

/-- All calls of the programs have a result. -/
theorem Admissible.exists_exec (h : w.Admissible p) {fields : List FieldStore}
    (hsend : Sendable cfg t fields) (hvalues : 0 ≤ env.valuesNum) (hfits : w.Fits t env p)
    (hmove : ∀ e sent received, (w.op.move t.datatype.typemap e sent received).isSome)
    {i : Fin p ⊕ Fin p × Fin p × Fin env.valuesNum.toNat} {c : Numbered (Fin p) ℕ}
    (hc : c ∈ parties (w.transfers p env.valuesNum.toNat) (w.calls p) i)
    (b : Fin p → Buffer → Memory) : ∃ b', w.exec t env.valuesNum i c b = some b' := by
  refine h.roomy.exists_exec hsend hvalues hfits.room hmove (fun r hi hkind ↦ ?_) b
  subst hi
  obtain ⟨k, q, hcall⟩ : ∃ k q, c.call = .access k q := by
    cases hcase : c.call <;> simp_all [kind]
  have hmem : (⟨c.level, .access k q⟩ : Numbered (Fin p) ℕ) ∈ w.calls p r := by
    rw [← hcall]
    exact hc
  obtain rfl := h.access_window hmem
  exact hfits.behind ⟨r, q, _, hmem⟩

/-- What is left to show of a test is what the ranks have in the end. -/
theorem Admissible.works (h : w.Admissible p) {fields : List FieldStore}
    (hsend : Sendable cfg t fields) (hvalues : 0 ≤ env.valuesNum) (hfits : w.Fits t env p)
    (hmove : ∀ e sent received, (w.op.move t.datatype.typemap e sent received).isSome)
    (hchecked : ∀ s, ReflTransGen (w.Steps t env p) (w.begin env p buffers) s →
      ∀ r, w.Finished s r → ∀ c ∈ w.checks p r,
        c.2 + env.valuesNum.toNat ≤ 2 ^ 32 ∧
          IsStandardArray cfg t env.valuesNum.toNat c.2 (s.vars r c.1)) :
    w.Works cfg t env p buffers where
  exclusion s hrun o q hne window r k k' ho hq := Locks.exclusion hrun hne ho hq
  guarded s hrun k hguard x c rest htodo hready := h.guarded hrun hguard htodo hready
  fenced s hrun hguard x c rest htodo hready := h.fenced hrun hguard htodo hready
  exists_step s hrun i hi := by
    obtain ⟨j, a, rest, htodo, hready⟩ := h.regular.exists_ready hrun hi
    have hs : Genuine (parties (w.transfers p env.valuesNum.toNat) (w.calls p)) s :=
      (genuine_start buffers).run hrun
    obtain ⟨b, hexec⟩ := h.exists_exec hsend hvalues hfits hmove (hs.mem_of_next htodo) s.vars
    exact ⟨_, .execute htodo hready hexec⟩
  terminates s _ := acc_step s
  checked s hrun r hr c hc := by
    obtain ⟨hbound, harray⟩ := hchecked s hrun r hr c hc
    exact ⟨harray, AccessTest.check_of_isStandardArray hsend.settable hbound harray⟩

/-! ## What the ranks have in the end -/

section

variable (h : w.Admissible p) (hfits : w.Fits t env p) (hvalues : 0 ≤ env.valuesNum)
  (hp : p < 2 ^ 31)

include h hfits hvalues hp

end

/-! ## What the tests need -/

end WindowTest

end MpiTestSuite

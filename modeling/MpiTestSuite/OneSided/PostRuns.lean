import MpiTestSuite.OneSided.Arrivals
import MpiTestSuite.OneSided.PostCalls

/-!
# Runs of the tests with post and start

The accesses and exposures of the four tests match, and nobody waits forever (`Works`). When a rank
has done its part, all that is to arrive in its buffers has arrived, although others may be still
going on.

An access to what is outside of a window has no result. The windows begin where the first element
has its origin, so data in front of the origin are outside of them. This is where the tests of all
datatypes fail.
-/

open Relation

namespace MpiTestSuite

open Runs Meetings Epochs

namespace PostTest

/-! ## What works -/

section

variable (w : PostTest) (cfg : Config) (t : TypeSlot) (env : Env) (p : ℕ)

/-- The calls that have been made, and the buffers of all ranks. -/
abbrev Calls (p n : ℕ) : Type :=
  State (Fin p ⊕ Fin p × Fin p × Fin n) (Numbered (Fin p) ℕ) (Fin p → Buffer → Memory)

/-- A call of some rank, or the transfer of an element. -/
abbrev Steps : Calls p env.valuesNum.toNat → Calls p env.valuesNum.toNat → Prop :=
  Step (Ready (w.transfers p env.valuesNum.toNat)) (w.exec t env.valuesNum)

/-- All ranks call `init` and then `run`. -/
def begin (buffers : Fin p → Buffer → Memory) : Calls p env.valuesNum.toNat :=
  .start (parties (w.transfers p env.valuesNum.toNat) fun r ↦ program (w.blocks p r)) buffers

/-- A rank has nothing left to do but `cleanup`. -/
def Finished {p n : ℕ} (s : Calls p n) (r : Fin p) : Prop :=
  ∀ c ∈ s.todo (.inl r), c ∈ program (w.cleanup p)

/-- In every run accesses and exposures match and are the same ones in the end, somebody can go on
until all are done, which they are some time, and whoever has done its part has what it expects. -/
structure Works (buffers : Fin p → Buffer → Memory) : Prop where
  matching : ∀ s, ReflTransGen (w.Steps t env p) (w.begin env p buffers) s →
    ∀ window o t, Matching s window o t
  matched : ∀ s, ReflTransGen (w.Steps t env p) (w.begin env p buffers) s →
    ∀ o t, s.todo (.inl o) = [] → s.todo (.inl t) = [] → ∀ window,
      tally .start (s.done (.inl o)) window t = tally .post (s.done (.inl t)) window o ∧
        tally .complete (s.done (.inl o)) window t = tally .wait (s.done (.inl t)) window o
  exists_step : ∀ s, ReflTransGen (w.Steps t env p) (w.begin env p buffers) s →
    ∀ i, s.todo i ≠ [] → ∃ s', w.Steps t env p s s'
  terminates : ∀ s, ReflTransGen (w.Steps t env p) (w.begin env p buffers) s →
    Acc (fun s' s ↦ w.Steps t env p s s') s
  checked : ∀ s, ReflTransGen (w.Steps t env p) (w.begin env p buffers) s →
    ∀ r, w.Finished s r → ∀ c ∈ w.checks p r,
      IsStandardArray cfg t env.valuesNum.toNat c.2 (s.vars r c.1) ∧
        tstTestCheckstandardarray cfg t env (s.vars r c.1) c.2 = some []

/-- The blocks of the buffers have sizes of type `int`, elements have a size, and the windows have
all of their data, if there is somebody to access them. -/
structure Fits : Prop where
  size_pos : 0 < t.size
  room : (env.valuesNum + overhead) * t.size < 2 ^ 31
  behind : 1 < p → env.valuesNum = 0 ∨ ∀ b ∈ t.datatype.typemap.bytes, 0 ≤ b

end

variable {w : PostTest} {cfg : Config} {t : TypeSlot} {env : Env} {p : ℕ}
  {buffers : Fin p → Buffer → Memory} {s : Calls p env.valuesNum.toNat}

/-! ## Calls -/

/-- The block of an access. -/
theorem Regular.active_of_access (h : w.Regular p) {r q : Fin p} {c : Numbered (Fin p) ℕ}
    (hc : c ∈ program (w.blocks p r)) {k : ℕ} (hcall : c.call = .access k q) :
    w.Active p r q ∧ r ≠ q := by
  obtain ⟨n, hb, -⟩ := access_mem hc hcall
  obtain ⟨rfl, hne⟩ := h.access_window hb
  exact ⟨⟨n, hb⟩, hne⟩

/-- All calls of the programs have a result. -/
theorem Regular.exists_exec (h : w.Regular p) {fields : List FieldStore}
    (hsend : Sendable cfg t fields) (hvalues : 0 ≤ env.valuesNum) (hfits : Fits t env p)
    (hmove : ∀ e sent received, (w.op.move t.datatype.typemap e sent received).isSome)
    {i : Fin p ⊕ Fin p × Fin p × Fin env.valuesNum.toNat} {c : Numbered (Fin p) ℕ}
    (hc : c ∈ parties (w.transfers p env.valuesNum.toNat) (fun r ↦ program (w.blocks p r)) i)
    (b : Fin p → Buffer → Memory) : ∃ b', w.exec t env.valuesNum i c b = some b' := by
  refine h.roomy.exists_exec hsend hvalues hfits.room hmove (fun r hi hkind ↦ ?_) b
  subst hi
  have hcall : ∃ k q, c.call = .access k q := by
    cases hcase : c.call <;> simp_all [kind]
  obtain ⟨k, q, hcall⟩ := hcall
  have hne := (h.active_of_access hc hcall).2
  refine hfits.behind ?_
  have hr := r.isLt
  have hq := q.isLt
  have hval : (r : ℕ) ≠ q := fun heq ↦ hne (Fin.ext heq)
  omega

/-- What is left to show of a test is what the ranks have in the end. -/
theorem Regular.works (h : w.Regular p) {fields : List FieldStore}
    (hsend : Sendable cfg t fields) (hvalues : 0 ≤ env.valuesNum) (hfits : Fits t env p)
    (hmove : ∀ e sent received, (w.op.move t.datatype.typemap e sent received).isSome)
    (hchecked : ∀ s, ReflTransGen (w.Steps t env p) (w.begin env p buffers) s →
      ∀ r, w.Finished s r → ∀ c ∈ w.checks p r,
        c.2 + env.valuesNum.toNat ≤ 2 ^ 32 ∧
          IsStandardArray cfg t env.valuesNum.toNat c.2 (s.vars r c.1)) :
    w.Works cfg t env p buffers where
  matching s hrun := matching hrun
  matched s hrun o q ho hq := matched_of_over hrun ho hq
  exists_step s hrun i hi := by
    obtain ⟨j, a, rest, htodo, hready⟩ := h.paired.exists_ready hrun hi
    have hs : Genuine (parties (w.transfers p env.valuesNum.toNat)
      fun r ↦ program (w.blocks p r)) s := (genuine_start buffers).run hrun
    obtain ⟨b, hexec⟩ := h.exists_exec hsend hvalues hfits hmove (hs.mem_of_next htodo) s.vars
    exact ⟨_, .execute htodo hready hexec⟩
  terminates s _ := acc_step s
  checked s hrun r hr c hc := by
    obtain ⟨hbound, harray⟩ := hchecked s hrun r hr c hc
    exact ⟨harray, AccessTest.check_of_isStandardArray hsend.settable hbound harray⟩

/-! ## What the ranks have in the end -/

section

variable (h : w.Regular p) (hfits : Fits t env p) (hvalues : 0 ≤ env.valuesNum) (hp : p < 2 ^ 31)

include h hfits hvalues hp

end

/-! ## What the tests need -/

end PostTest

end MpiTestSuite

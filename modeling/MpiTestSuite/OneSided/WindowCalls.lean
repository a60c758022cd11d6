import MpiTestSuite.OneSided.Accesses
import MpiTestSuite.Runs.Locks

/-!
# The tests with locks and fences

Three tests access the windows of others under locks: every rank gets the arrays of all ranks, or
takes part in a maximum at all others, under exclusive locks, or each rank in turn puts its array
into windows of all ranks under shared locks. Four tests do so between two fences: every rank gets
the arrays of all ranks or puts its own one there, or exchanges arrays with its neighbours.

Other than in the tests with post and start, ranks access windows of their own, too.
-/

namespace MpiTestSuite

open Runs Windows Locks

/-! ## The calls of the loops -/

section

variable {p : ℕ}

end

/-! ## The tests -/

/-- What the seven tests differ in. -/
structure WindowTest extends AccessTest where
  /-- The locks that the windows are accessed under. If there are none, it is between fences. -/
  guard : Option LockType
  /-- The calls of `run`, with those of `init`. -/
  run : (p : ℕ) → Fin p → List (Numbered (Fin p) ℕ)
  /-- The calls of `cleanup`. -/
  cleanup : (p : ℕ) → List (Numbered (Fin p) ℕ)

namespace WindowTest

section

variable (w : WindowTest)

/-- All calls of a rank. -/
def calls (p : ℕ) (r : Fin p) : List (Numbered (Fin p) ℕ) := w.run p r ++ w.cleanup p

/-- What calls do to windows. -/
def kind {p : ℕ} : Locks.Call (Fin p) ℕ → CallKind
  | .create _ => .create
  | .access _ _ => .access
  | _ => .other

/-- What calls do to the buffers. -/
abbrev exec {p : ℕ} (t : TypeSlot) (valuesNum : ℤ) :
    Fin p ⊕ Fin p × Fin p × Fin valuesNum.toNat → Numbered (Fin p) ℕ →
      (Fin p → Buffer → Memory) → Option (Fin p → Buffer → Memory) :=
  w.toAccessTest.exec t valuesNum kind

end

/-- A rank accesses another one, or itself. -/
def Active (w : WindowTest) (p : ℕ) (o t : Fin p) : Prop :=
  ∃ n, ⟨n, .access (w.window o) t⟩ ∈ w.calls p o

/-- What is known of the calls of the tests. -/
structure Admissible (w : WindowTest) (p : ℕ) : Prop where
  regular : Regular (w.calls p)
  exists_create : ∀ r, ∃ n k, ⟨n, .create k⟩ ∈ w.calls p r
  /-- Nobody accesses another window. -/
  access_window : ∀ {n k o t}, ⟨n, .access k t⟩ ∈ w.calls p o → k = w.window o
  /-- All locks are those of the test. -/
  lock_type : ∀ {n k v o t}, ⟨n, .lock k v t⟩ ∈ w.calls p o → w.guard = some k
  /-- There are no fences in front of what is accessed under locks. -/
  fences : w.guard ≠ none → ∀ o, ∀ f ∈ w.calls p o, ∀ a ∈ w.calls p o,
    (∃ v b b', f.call = .fence v b b') → (∃ v t, a.call = .access v t) → a.level < f.level
  /-- At the end of `run` the rank that an access writes to has waited for it. -/
  ended : ∀ {o t}, w.Active p o t → ∃ a ∈ w.calls p o, a.call = .access (w.window o) t ∧
    ∃ c ∈ w.run p (w.dest o t).1, c ∉ w.cleanup p ∧
      ((∃ b, c.call = .fence (w.window o) true b ∧ a.level < c.level) ∨
        c.call.IsBarrier ∧ ∃ b ∈ w.calls p o, b.call = .unlock (w.window o) t ∧
          a.level < b.level ∧ b.level < c.level)
  roomy : w.Roomy

end WindowTest

/-! ## Parts of the programs -/

section

variable {p : ℕ}

/-- There is no window but one. -/
abbrev only (w : ℕ) (f : Fenced) : Held (Fin p) ℕ := Held.nothing.set w (some f)

variable {n k v : ℕ} {o t : Fin p} {c : Numbered (Fin p) ℕ}

end

namespace WindowTest

variable {p : ℕ} {o t : Fin p}

/-! ## Who accesses whom -/

end WindowTest

end MpiTestSuite

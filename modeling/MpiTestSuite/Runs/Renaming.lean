import Mathlib.Data.Set.Function
import MpiTestSuite.Runs.Levels

/-!
# Programs under other names

The programs of a few processes, which know each other by numbers of their own, may be part of a
larger system in which they have other names. What has to be checked of a process for the freedom
from deadlock, apart from the partners of its messages, is in its own program (`Part`), so it is not
lost if everybody is renamed (`Part.rename`).
-/

namespace MpiTestSuite

namespace Runs

namespace Requests

variable {ι ι' κ κ' π : Type*}

/-- An instruction under other names. -/
def Instr.rename (f : ι → ι') (g : κ → κ') : Instr ι κ π → Instr ι' κ' π
  | send slot mode dest key payload => .send slot mode (f dest) (g key) payload
  | recv slot source key => .recv slot (f source) (g key)
  | wait slots => .wait slots
  | barrier => .barrier

section

variable {f : ι → ι'} {g : κ → κ'} (a : Instr ι κ π)

@[simp] theorem Instr.slot?_rename : (a.rename f g).slot? = a.slot? := by
  cases a <;> rfl

@[simp] theorem Instr.isBarrier_rename : (a.rename f g).isBarrier = a.isBarrier := by
  cases a <;> rfl

@[simp] theorem Instr.envelope?_rename :
    (a.rename f g).envelope? = a.envelope?.map fun e ↦ (e.1, f e.2.1, g e.2.2) := by
  cases a <;> rfl

theorem Instr.rename_eq_wait {slots : List ℕ} :
    a.rename f g = .wait slots ↔ a = .wait slots := by
  cases a <;> simp [Instr.rename]

theorem Instr.rename_eq_send {i : ℕ} {mode : Mode} {q : ι'} {k : κ'} {x : π} :
    a.rename f g = .send i mode q k x ↔
      ∃ q' k', a = .send i mode q' k' x ∧ f q' = q ∧ g k' = k := by
  cases a with
  | send =>
    simp only [Instr.rename, Instr.send.injEq]
    constructor
    · rintro ⟨rfl, rfl, rfl, rfl, rfl⟩
      exact ⟨_, _, ⟨rfl, rfl, rfl, rfl, rfl⟩, rfl, rfl⟩
    · rintro ⟨q', k', ⟨rfl, rfl, rfl, rfl, rfl⟩, rfl, rfl⟩
      exact ⟨rfl, rfl, rfl, rfl, rfl⟩
  | recv => simp [Instr.rename]
  | wait => simp [Instr.rename]
  | barrier => simp [Instr.rename]

theorem Instr.rename_eq_recv {j : ℕ} {q : ι'} {k : κ'} :
    a.rename f g = .recv j q k ↔ ∃ q' k', a = .recv j q' k' ∧ f q' = q ∧ g k' = k := by
  cases a with
  | recv =>
    simp only [Instr.rename, Instr.recv.injEq]
    constructor
    · rintro ⟨rfl, rfl, rfl⟩
      exact ⟨_, _, ⟨rfl, rfl, rfl⟩, rfl, rfl⟩
    · rintro ⟨q', k', ⟨rfl, rfl, rfl⟩, rfl, rfl⟩
      exact ⟨rfl, rfl, rfl⟩
  | send => simp [Instr.rename]
  | wait => simp [Instr.rename]
  | barrier => simp [Instr.rename]

end

/-- What is asked of the program of a process without barriers, apart from the partners of its
messages. -/
structure Part (level : ι → ι → κ → ℕ) (r : ι) (l : List (Instr ι κ π)) : Prop where
  slots : l.Pairwise fun a b ↦ ∀ i ∈ a.slot?, i ∉ b.slot?
  envelopes : l.Pairwise fun a b ↦ ∀ e ∈ a.envelope?, e ∉ b.envelope?
  started : ∀ slots, .wait slots ∈ l → ∀ i ∈ slots, ∃ a ∈ l, a.slot? = some i
  behind : l.Pairwise (Behind level (fun _ ↦ l) r)
  noBarrier : ∀ a ∈ l, a.isBarrier = false

variable {level : ι → ι → κ → ℕ}

theorem Part.nil {r : ι} : Part level r ([] : List (Instr ι κ π)) where
  slots := .nil
  envelopes := .nil
  started _ h := absurd h List.not_mem_nil
  behind := .nil
  noBarrier _ h := absurd h List.not_mem_nil

/-- Programs whose messages have partners. -/
theorem Leveled.of_parts {prog : ι → List (Instr ι κ π)} (hparts : ∀ r, Part level r (prog r))
    (hpartner : ∀ r q k, (∃ i mode x, .send i mode q k x ∈ prog r) ↔ ∃ j, .recv j r k ∈ prog q) :
    Leveled level prog := by
  refine ⟨⟨fun r ↦ (hparts r).slots, fun r ↦ (hparts r).envelopes, hpartner⟩,
    fun r ↦ (hparts r).started, fun r ↦ (hparts r).behind, fun r q ↦ ?_⟩
  have hnone : ∀ r, (prog r).countP Instr.isBarrier = 0 := fun r ↦
    List.countP_eq_zero.mpr fun a ha ↦ by
      rw [(hparts r).noBarrier a ha]
      exact Bool.false_ne_true
  rw [hnone, hnone]

/-- A process of a system without barriers. -/
theorem Leveled.part {prog : ι → List (Instr ι κ π)} (h : Leveled level prog) (r : ι)
    (hbarrier : ∀ a ∈ prog r, a.isBarrier = false) : Part level r (prog r) :=
  ⟨h.slots r, h.envelopes r, h.started r, h.behind r, hbarrier⟩

/-- **Renaming.** Nothing is lost if the processes that are meant keep apart and the messages keep
their levels. -/
theorem Part.rename {level' : ι' → ι' → κ' → ℕ} {r : ι} {q : ι'} {l : List (Instr ι κ π)}
    (h : Part level r l) {f : ι → ι'} {g : κ → κ'} (hg : Function.Injective g)
    (hf : Set.InjOn f {x | ∃ a ∈ l, ∃ b k, a.envelope? = some (b, x, k)})
    (hlevel : ∀ a ∈ l, (a.rename f g).level? level' q = a.level? level r) :
    Part level' q (l.map (Instr.rename f g)) where
  slots := by
    refine List.pairwise_map.mpr (h.slots.imp fun {a b} hab ↦ ?_)
    rwa [Instr.slot?_rename, Instr.slot?_rename]
  envelopes := by
    refine List.pairwise_map.mpr (h.envelopes.imp_of_mem fun {a b} ha hb hab e he he' ↦ ?_)
    rw [Instr.envelope?_rename] at he he'
    obtain ⟨⟨d, x, k⟩, hx, rfl⟩ := Option.map_eq_some_iff.mp he
    obtain ⟨⟨d', y, k'⟩, hy, heq⟩ := Option.map_eq_some_iff.mp he'
    obtain ⟨rfl, hxy, hkey⟩ : d' = d ∧ f y = f x ∧ g k' = g k := by simpa using heq
    obtain rfl := hf ⟨b, hb, d', k', hy⟩ ⟨a, ha, d', k, hx⟩ hxy
    obtain rfl := hg hkey
    exact hab _ hx hy
  started slots hwait i hi := by
    obtain ⟨w, hw, heq⟩ := List.mem_map.mp hwait
    obtain rfl := w.rename_eq_wait.mp heq
    obtain ⟨a, ha, hai⟩ := h.started slots hw i hi
    exact ⟨_, List.mem_map_of_mem ha, (a.slot?_rename).trans hai⟩
  behind := by
    refine List.pairwise_map.mpr (h.behind.imp_of_mem fun {w b} _ hb hwb slots hw ↦ ?_)
    obtain rfl := w.rename_eq_wait.mp hw
    obtain ⟨hbarrier, hbelow⟩ := hwb slots rfl
    refine ⟨(b.isBarrier_rename).trans hbarrier, fun i hi ↦ ?_⟩
    obtain ⟨hbi, hlt⟩ := hbelow i hi
    refine ⟨by rwa [Instr.slot?_rename], fun a ha hai m hm n hn ↦ ?_⟩
    obtain ⟨a, hmem, rfl⟩ := List.mem_map.mp ha
    rw [Instr.slot?_rename] at hai
    rw [hlevel a hmem] at hm
    rw [hlevel b hb] at hn
    exact hlt a hmem hai m hm n hn
  noBarrier := by
    refine List.forall_mem_map.mpr fun a ha ↦ ?_
    rw [Instr.isBarrier_rename]
    exact h.noBarrier a ha

end Requests

end Runs

end MpiTestSuite

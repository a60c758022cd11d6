import Mathlib.Algebra.Order.Group.Int
import Mathlib.Data.List.Basic

/-!
# Byte memory

Memory as a function from addresses to bytes, with the two ways the program writes to it: `memset`
and stores of several bytes. A list of stores relative to one address is a `Patch`, and what matters
about a patch is which offsets it covers: there the result does not depend on the memory before
(`patch_congr`), elsewhere the memory is left alone (`patch_frame`).
-/

namespace MpiTestSuite

/-- Bytes by address. -/
abbrev Memory := ℤ → UInt8

/-- `memset (m + a, byte, n)`. -/
def memset (m : Memory) (a : ℤ) (byte : UInt8) (n : ℕ) : Memory :=
  fun p ↦ if a ≤ p ∧ p < a + n then byte else m p

/-- Store bytes from address `a` on. -/
def store (m : Memory) (a : ℤ) (bytes : List UInt8) : Memory :=
  fun p ↦ if a ≤ p ∧ p < a + bytes.length then bytes.getD (p - a).toNat 0 else m p

/-- The bytes at the addresses `a, …, a + n - 1`. -/
def load (m : Memory) (a : ℤ) (n : ℕ) : List UInt8 := (List.range n).map fun i : ℕ ↦ m (a + i)

/-- The memory as it is seen from the address `a` on: the buffer `m + a`. -/
def Memory.shift (m : Memory) (a : ℤ) : Memory := fun p ↦ m (a + p)

/-- Stores at offsets from a common address. -/
abbrev Patch := List (ℤ × List UInt8)

/-- Carry out the stores of a patch at address `a`, in order. -/
def patch (m : Memory) (a : ℤ) (ws : Patch) : Memory :=
  ws.foldl (fun m w ↦ store m (a + w.1) w.2) m

/-- Some store of the patch writes the byte at offset `k`. -/
def Covers (ws : Patch) (k : ℤ) : Prop := ∃ w ∈ ws, w.1 ≤ k ∧ k < w.1 + w.2.length

@[simp] theorem patch_cons (m : Memory) (a : ℤ) (w : ℤ × List UInt8) (ws : Patch) :
    patch m a (w :: ws) = patch (store m (a + w.1) w.2) a ws := rfl

theorem covers_cons {w : ℤ × List UInt8} {ws : Patch} {k : ℤ} :
    Covers (w :: ws) k ↔ (w.1 ≤ k ∧ k < w.1 + w.2.length) ∨ Covers ws k := by
  simp [Covers]

/-- Equal bytes stored at corresponding addresses. -/
theorem store_congr {m m' : Memory} {a b k : ℤ} {w : ℤ × List UInt8}
    (h : (w.1 ≤ k ∧ k < w.1 + w.2.length) ∨ m (a + k) = m' (b + k)) :
    store m (a + w.1) w.2 (a + k) = store m' (b + w.1) w.2 (b + k) := by
  have ha : a + w.1 ≤ a + k ∧ a + k < a + w.1 + w.2.length ↔ w.1 ≤ k ∧ k < w.1 + w.2.length := by
    omega
  have hb : b + w.1 ≤ b + k ∧ b + k < b + w.1 + w.2.length ↔ w.1 ≤ k ∧ k < w.1 + w.2.length := by
    omega
  rw [store, store]
  by_cases hin : w.1 ≤ k ∧ k < w.1 + w.2.length
  · rw [if_pos (ha.mpr hin), if_pos (hb.mpr hin), add_sub_add_left_eq_sub,
      add_sub_add_left_eq_sub]
  · rw [if_neg (fun hc ↦ hin (ha.mp hc)), if_neg (fun hc ↦ hin (hb.mp hc))]
    exact h.resolve_left hin

/-- **Independence.** Two memories agree at an offset of a patch if they did before, or if the
patch covers it. -/
theorem patch_congr {m m' : Memory} {a b k : ℤ} {ws : Patch}
    (h : Covers ws k ∨ m (a + k) = m' (b + k)) : patch m a ws (a + k) = patch m' b ws (b + k) := by
  induction ws generalizing m m' with
  | nil =>
    rcases h with ⟨w, hw, -⟩ | h
    · cases hw
    · exact h
  | cons w ws ih =>
    rw [patch_cons, patch_cons]
    refine ih ?_
    rcases h with h | h
    · rcases covers_cons.mp h with hin | hws
      · exact Or.inr (store_congr (Or.inl hin))
      · exact Or.inl hws
    · exact Or.inr (store_congr (Or.inr h))

/-- **Frame.** Outside the offsets it covers, a patch leaves the memory alone. -/
theorem patch_frame {m : Memory} {a p : ℤ} {ws : Patch} (h : ¬Covers ws (p - a)) :
    patch m a ws p = m p := by
  induction ws generalizing m with
  | nil => rfl
  | cons w ws ih =>
    rw [covers_cons, not_or] at h
    have hout : ¬(a + w.1 ≤ p ∧ p < a + w.1 + w.2.length) := by
      have h1 := h.1
      omega
    rw [patch_cons, ih h.2, store, if_neg hout]

theorem memset_of_mem {m : Memory} {a p : ℤ} {n : ℕ} (byte : UInt8) (h : a ≤ p ∧ p < a + n) :
    memset m a byte n p = byte := if_pos h

theorem memset_of_notMem {m : Memory} {a p : ℤ} {n : ℕ} (byte : UInt8)
    (h : ¬(a ≤ p ∧ p < a + n)) : memset m a byte n p = m p := if_neg h

theorem load_congr {m m' : Memory} {a b : ℤ} {n : ℕ}
    (h : ∀ i : ℕ, i < n → m (a + i) = m' (b + i)) : load m a n = load m' b n :=
  List.map_congr_left fun i hi ↦ h i (List.mem_range.mp hi)

/-- What is loaded differs if one of the bytes does. -/
theorem load_ne_of_ne {m m' : Memory} {a b : ℤ} {n i : ℕ} (hi : i < n)
    (hne : m (a + i) ≠ m' (b + i)) : load m a n ≠ load m' b n :=
  fun heq ↦ hne (List.map_inj_left.mp heq i (List.mem_range.mpr hi))

/-- What has been stored is loaded. -/
theorem load_store (m : Memory) (a : ℤ) (bytes : List UInt8) :
    load (store m a bytes) a bytes.length = bytes := by
  refine List.ext_getElem (by simp [load]) fun i hi hi' ↦ ?_
  have hin : a ≤ a + i ∧ a + (i : ℤ) < a + bytes.length := by omega
  simp only [load, List.getElem_map, List.getElem_range, store, if_pos hin]
  rw [add_sub_cancel_left, Int.toNat_natCast, List.getD_eq_getElem?_getD,
    List.getElem?_eq_getElem hi', Option.getD_some]

@[simp] theorem Memory.shift_zero (m : Memory) : m.shift 0 = m := by
  funext p
  rw [Memory.shift, zero_add]

theorem Memory.shift_shift (m : Memory) (a b : ℤ) : (m.shift a).shift b = m.shift (a + b) := by
  funext p
  rw [Memory.shift, Memory.shift, Memory.shift, add_assoc]

theorem memset_shift (m : Memory) (c a : ℤ) (byte : UInt8) (n : ℕ) :
    memset (m.shift c) a byte n = (memset m (c + a) byte n).shift c := by
  funext p
  have hin : c + a ≤ c + p ∧ c + p < c + a + n ↔ a ≤ p ∧ p < a + n := by omega
  simp only [Memory.shift, memset, hin]

/-- A patch of a part of a buffer is one of the buffer. -/
theorem patch_shift (m : Memory) (c a : ℤ) (ws : Patch) :
    patch (m.shift c) a ws = (patch m (c + a) ws).shift c := by
  induction ws generalizing m with
  | nil => rfl
  | cons w ws ih =>
    have hstore : store (m.shift c) (a + w.1) w.2 = (store m (c + a + w.1) w.2).shift c := by
      funext p
      have hin : c + a + w.1 ≤ c + p ∧ c + p < c + a + w.1 + w.2.length ↔
          a + w.1 ≤ p ∧ p < a + w.1 + w.2.length := by omega
      have hoffset : c + p - (c + a + w.1) = p - (a + w.1) := by omega
      simp only [Memory.shift, store, hin, hoffset]
    rw [patch_cons, patch_cons, hstore, ih]

end MpiTestSuite

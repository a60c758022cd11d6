import Mathlib.Logic.Function.Basic
import MpiTestSuite.Coding.Memory
import MpiTestSuite.Coding.Typemap

/-!
# Files and views

A file is read and written through a *view*, which shows the bytes of data of a type map that is
repeated from the beginning of the file on. What is transferred to or from memory is numbered in the
same way by the datatype of the buffer, so that byte `k` of a transfer that begins at byte `start`
of the view goes between `view.position (start + k)` in the file and `type.position k` in memory.

A transfer in either direction is thus determined by where its bytes are, provided that no two of
them are at the same place (`File.write_apply`, `File.read_apply`); the order of the writes, and of
the processes that make them, is of no importance then.
-/

namespace MpiTestSuite

/-- The bytes of a file and their number. -/
structure File where
  bytes : Memory
  length : ℕ

namespace File

/-- A new file. What is found in a gap between written bytes is unknown. -/
def new (gap : Memory) : File := ⟨gap, 0⟩

/-- Write a byte. -/
def put (f : File) (w : ℤ × UInt8) : File where
  bytes := Function.update f.bytes w.1 w.2
  length := max f.length (w.1 + 1).toNat

/-- Write bytes, one after another. -/
def write (f : File) (ws : List (ℤ × UInt8)) : File := ws.foldl put f

/-- Read byte `k` of a transfer. There is nothing to be read behind the end of the file. -/
def readByte (f : File) (view : Typemap) (start : ℕ) (type : Typemap) (buf : Memory) (k : ℕ) :
    Memory :=
  if view.position (start + k) < f.length then
    Function.update buf (type.position k) (f.bytes (view.position (start + k)))
  else buf

/-- Read `n` elements through a view. -/
def read (f : File) (view : Typemap) (start : ℕ) (type : Typemap) (n : ℕ) (buf : Memory) : Memory :=
  (List.range (n * type.size)).foldl (f.readByte view start type) buf

end File

/-- The bytes of `n` elements in memory, with their places in a file that is written through a
view. -/
def fileWrites (view : Typemap) (start : ℕ) (type : Typemap) (n : ℕ) (buf : Memory) :
    List (ℤ × UInt8) :=
  (List.range (n * type.size)).map fun k ↦ (view.position (start + k), buf (type.position k))

namespace File

/-! ## Writing -/

theorem write_append (f : File) (ws ws' : List (ℤ × UInt8)) :
    f.write (ws ++ ws') = (f.write ws).write ws' := List.foldl_append

theorem write_frame {ws : List (ℤ × UInt8)} {p : ℤ} (h : p ∉ ws.map Prod.fst) (f : File) :
    (f.write ws).bytes p = f.bytes p := by
  induction ws generalizing f with
  | nil => rfl
  | cons w ws ih =>
    rw [List.map_cons, List.mem_cons, not_or] at h
    rw [write, List.foldl_cons, ← write, ih h.2]
    exact Function.update_of_ne h.1 _ _

theorem le_length_write (f : File) (ws : List (ℤ × UInt8)) : f.length ≤ (f.write ws).length := by
  induction ws generalizing f with
  | nil => exact le_rfl
  | cons w ws ih => exact (le_max_left _ _).trans (ih (f.put w))

/-- **Writing.** If no two bytes are written to the same place, each is found at its place. -/
theorem write_apply {ws : List (ℤ × UInt8)} (hws : (ws.map Prod.fst).Nodup) {w : ℤ × UInt8}
    (hw : w ∈ ws) (f : File) : (f.write ws).bytes w.1 = w.2 ∧ w.1 < (f.write ws).length := by
  induction ws generalizing f with
  | nil => exact absurd hw List.not_mem_nil
  | cons v ws ih =>
    obtain ⟨hnew, hrest⟩ := List.nodup_cons.mp hws
    rcases List.mem_cons.mp hw with rfl | hw
    · refine ⟨?_, ?_⟩
      · rw [write, List.foldl_cons, ← write, write_frame hnew]
        exact Function.update_self _ _ _
      · have hle := le_length_write (f.put w) ws
        have hput : (w.1 + 1).toNat ≤ (f.put w).length := le_max_right _ _
        change w.1 < ((f.put w).write ws).length
        omega
    · exact ih hrest hw (f.put v)

/-! ## Reading -/

variable {view type : Typemap} {f : File} {buf : Memory} {start n : ℕ}

theorem foldl_readByte_frame {ks : List ℕ} {p : ℤ} (h : ∀ k ∈ ks, type.position k ≠ p) :
    ks.foldl (f.readByte view start type) buf p = buf p := by
  induction ks generalizing buf with
  | nil => rfl
  | cons k ks ih =>
    rw [List.foldl_cons, ih fun j hj ↦ h j (List.mem_cons_of_mem k hj), readByte]
    split_ifs
    · exact Function.update_of_ne (h k List.mem_cons_self).symm _ _
    · rfl

/-- Reading changes nothing but the data of the elements. -/
theorem read_frame {p : ℤ} (h : ∀ k < n * type.size, type.position k ≠ p) :
    f.read view start type n buf p = buf p :=
  foldl_readByte_frame fun k hk ↦ h k (List.mem_range.mp hk)

/-- **Reading.** If no two bytes are read to the same place, each is found at its place. -/
theorem read_apply (htype : Function.Injective type.position) {k : ℕ} (hk : k < n * type.size)
    (hlength : view.position (start + k) < f.length) :
    f.read view start type n buf (type.position k) = f.bytes (view.position (start + k)) := by
  obtain ⟨j, hj⟩ := Nat.exists_eq_add_of_le (Nat.succ_le_of_lt hk)
  rw [read, hj, List.range_add, List.foldl_append, List.range_succ, List.foldl_append,
    List.foldl_cons, List.foldl_nil, foldl_readByte_frame, readByte, if_pos hlength,
    Function.update_self]
  -- what is read later goes to other places
  intro i hi heq
  obtain ⟨i, -, rfl⟩ := List.mem_map.mp hi
  have hsame := htype heq
  omega

end File

end MpiTestSuite

import Mathlib.Data.List.Basic
import Mathlib.Data.Nat.Basic

/-!
# Scalars and structs in memory

Sizes, alignments and field offsets as a 64-bit x86 compiler lays them out (LP64, with the 80-bit
extended format in 16 bytes for `long double`): members in order, each at the next offset its
alignment divides, the whole padded to a multiple of the largest alignment.

A `Layout` carries the proof that its scalars lie within its size, so stores through it cannot
leave the object.
-/

namespace MpiTestSuite

/-- The scalar types of C the datatypes are made of. -/
inductive Scalar
  | char
  | unsignedChar
  | signedChar
  | short
  | unsignedShort
  | int
  | unsigned
  | long
  | unsignedLong
  | longLong
  | float
  | double
  | longDouble
  deriving DecidableEq, Repr

/-- `sizeof`, which is also the alignment of a scalar. -/
def Scalar.sizeof : Scalar → ℕ
  | char | unsignedChar | signedChar => 1
  | short | unsignedShort => 2
  | int | unsigned | float => 4
  | long | unsignedLong | longLong | double => 8
  | longDouble => 16

/-- `n`, rounded up to a multiple of `a`. -/
def roundUp (n a : ℕ) : ℕ := n + (a - n % a) % a

theorem le_roundUp (n a : ℕ) : n ≤ roundUp n a := Nat.le_add_right _ _

/-- The scalars of an object with their offsets. -/
structure Layout where
  size : ℕ
  align : ℕ
  scalars : List (ℕ × Scalar)
  within : ∀ p ∈ scalars, p.1 + p.2.sizeof ≤ size

namespace Layout

/-- A single scalar. -/
def scalar (s : Scalar) : Layout where
  size := s.sizeof
  align := s.sizeof
  scalars := [(0, s)]
  within := by simp

/-- A struct without members, before padding. -/
def empty : Layout where
  size := 0
  align := 1
  scalars := []
  within := by simp

/-- The members so far and one more. -/
def append (l member : Layout) : Layout where
  size := roundUp l.size member.align + member.size
  align := max l.align member.align
  scalars := l.scalars ++ member.scalars.map fun p ↦ (roundUp l.size member.align + p.1, p.2)
  within p hp := by
    rcases List.mem_append.mp hp with hl | hm
    · have h1 := l.within p hl
      have h2 := le_roundUp l.size member.align
      omega
    · obtain ⟨q, hq, rfl⟩ := List.mem_map.mp hm
      have h1 := member.within q hq
      simp only
      omega

/-- `struct { members }`. -/
def struct (members : List Layout) : Layout where
  size := roundUp (members.foldl append empty).size (members.foldl append empty).align
  align := (members.foldl append empty).align
  scalars := (members.foldl append empty).scalars
  within p hp := le_trans ((members.foldl append empty).within p hp) (le_roundUp _ _)

/-- `n` objects in a row. -/
def array (n : ℕ) (l : Layout) : Layout where
  size := n * l.size
  align := l.align
  scalars := (List.range n).flatMap fun i ↦ l.scalars.map fun p ↦ (i * l.size + p.1, p.2)
  within p hp := by
    obtain ⟨i, hi, hp⟩ := List.mem_flatMap.mp hp
    obtain ⟨q, hq, rfl⟩ := List.mem_map.mp hp
    have hin : i < n := List.mem_range.mp hi
    calc i * l.size + q.1 + q.2.sizeof ≤ i * l.size + l.size := by
          have := l.within q hq
          omega
      _ = (i + 1) * l.size := (Nat.succ_mul i l.size).symm
      _ ≤ n * l.size := Nat.mul_le_mul_right _ hin

end Layout

example : (Layout.struct [.scalar .char, .scalar .short, .scalar .longDouble, .scalar .int]).scalars
    = [(0, .char), (2, .short), (16, .longDouble), (32, .int)] := by decide

end MpiTestSuite

import Mathlib.Data.Nat.Bitwise
import Mathlib.Data.Nat.Log
import Mathlib.Tactic.Linarith
import MpiTestSuite.Coding.Layout
import MpiTestSuite.Coding.Memory

/-!
# Scalars as bytes

`tst_type_setvalue` stores zero, the largest value, the smallest value or a given number in every
scalar of a datatype. This file computes the bytes of these values on x86-64: two's complement for
the integers, IEEE single and double precision, and the 80-bit extended format, of which a store to
a `long double` writes ten bytes out of sixteen. A number is converted to a floating type by
rounding to nearest, ties to even.

## Comparing values of type `long double`

Comparing two values with `!=` is not comparing bytes: zeros of both signs are equal, a subnormal
number with the leading bit set equals the normal number it denotes, and what is not a number
differs from everything, itself included (`longDoubleNe`). The values the program stores are numbers
(`longDoubleValue_scalarBits`), so they equal themselves.
-/

namespace MpiTestSuite

/-- `TST_TYPE_SET_ZERO`, `TST_TYPE_SET_MAX`, `TST_TYPE_SET_MIN` and `TST_TYPE_SET_VALUE`. -/
inductive TypeSet
  | zero
  | max
  | min
  | value
  deriving DecidableEq, Repr

/-! ## Bytes -/

/-- The lowest `n` bytes of `x`, the lowest first. -/
def leBytes : ℕ → ℕ → List UInt8
  | 0, _ => []
  | n + 1, x => UInt8.ofNat (x % 256) :: leBytes n (x / 256)

/-- The number that bytes stand for, the lowest first. -/
def ofLeBytes : List UInt8 → ℕ
  | [] => 0
  | b :: bs => b.toNat + 256 * ofLeBytes bs

@[simp] theorem length_leBytes (n x : ℕ) : (leBytes n x).length = n := by
  induction n generalizing x with
  | zero => rfl
  | succ n ih => rw [leBytes, List.length_cons, ih]

theorem ofLeBytes_leBytes (n x : ℕ) : ofLeBytes (leBytes n x) = x % 256 ^ n := by
  induction n generalizing x with
  | zero => rw [leBytes, ofLeBytes, pow_zero, Nat.mod_one]
  | succ n ih =>
    have hbyte : (UInt8.ofNat (x % 256)).toNat = x % 256 := by
      rw [UInt8.toNat_ofNat']
      exact Nat.mod_mod x 256
    rw [leBytes, ofLeBytes, ih, hbyte, pow_succ', Nat.mod_mul]

/-! ## Integers -/

/-- Whether an integer type is signed, and its width; `none` for a floating type. -/
def Scalar.integer : Scalar → Option (Bool × ℕ)
  | char | signedChar => some (true, 8)
  | unsignedChar => some (false, 8)
  | short => some (true, 16)
  | unsignedShort => some (false, 16)
  | int => some (true, 32)
  | unsigned => some (false, 32)
  | long | longLong => some (true, 64)
  | unsignedLong => some (false, 64)
  | float | double | longDouble => none

/-- The largest value of an integer type. -/
def intMax : Bool × ℕ → ℤ
  | (true, w) => 2 ^ (w - 1) - 1
  | (false, w) => 2 ^ w - 1

/-- The smallest value of an integer type. -/
def intMin : Bool × ℕ → ℤ
  | (true, w) => -2 ^ (w - 1)
  | (false, _) => 0

/-! ## Floating types -/

/-- Significand and exponent of the number with `p` significant bits that is nearest to `n > 0`; the
value is `significand * 2 ^ (exponent - (p - 1))`. -/
def roundBits (p n : ℕ) : ℕ × ℕ :=
  let e := Nat.log 2 n
  if e < p then
    (n * 2 ^ (p - 1 - e), e)
  else
    let shift := e - (p - 1)
    let q := n / 2 ^ shift
    let r := n % 2 ^ shift
    let half := 2 ^ (shift - 1)
    let q' := if half < r ∨ r = half ∧ q % 2 = 1 then q + 1 else q
    if q' = 2 ^ p then (2 ^ (p - 1), e + 1) else (q', e)

/-- The bits of an integer in an IEEE format of `p` significant bits, the leading one of which is
not stored. -/
def ieeeBits (p bias width : ℕ) (v : ℤ) : ℕ :=
  if v = 0 then 0
  else
    let (m, e) := roundBits p v.natAbs
    (if v < 0 then 2 ^ (width - 1) else 0) + (e + bias) * 2 ^ (p - 1) + (m - 2 ^ (p - 1))

/-- The bits of an integer in the extended format, which stores all 64 significant bits. -/
def extendedBits (v : ℤ) : ℕ :=
  if v = 0 then 0
  else
    let (m, e) := roundBits 64 v.natAbs
    (if v < 0 then 2 ^ 79 else 0) + (e + 16383) * 2 ^ 64 + m

/-- The bits of `FLT_MAX`, `DBL_MAX` or `LDBL_MAX`. -/
def floatMax : Scalar → ℕ
  | .float => 0x7f7fffff
  | .double => 0x7fefffffffffffff
  | _ => 0x7ffe * 2 ^ 64 + 0xffffffffffffffff

/-- The bits of `FLT_MIN`, `DBL_MIN` or `LDBL_MIN`, the smallest positive normal number. -/
def floatMin : Scalar → ℕ
  | .float => 0x00800000
  | .double => 0x0010000000000000
  | _ => 0x0001 * 2 ^ 64 + 0x8000000000000000

/-- The bits of an integer converted to a floating type. -/
def floatOfInt (s : Scalar) (v : ℤ) : ℕ :=
  match s with
  | .float => ieeeBits 24 127 32 v
  | .double => ieeeBits 53 1023 64 v
  | _ => extendedBits v

/-! ## What is stored -/

/-- The number of bytes a store to a scalar writes. -/
def Scalar.stored : Scalar → ℕ
  | .longDouble => 10
  | s => s.sizeof

theorem Scalar.stored_le (s : Scalar) : s.stored ≤ s.sizeof := by cases s <;> decide

/-- The bits of `c_type_caps##_MAX`. -/
def maxBits (s : Scalar) : ℕ :=
  match s.integer with
  | some t => (intMax t).toNat
  | none => floatMax s

/-- The bits of `c_type_caps##_MIN`. -/
def minBits (s : Scalar) : ℕ :=
  match s.integer with
  | some t => (intMin t % 2 ^ t.2).toNat
  | none => floatMin s

/-- The bits of `(c_type) direct_value`. -/
def convertBits (s : Scalar) (v : ℤ) : ℕ :=
  match s.integer with
  | some t => (v % 2 ^ t.2).toNat
  | none => floatOfInt s v

/-- `direct_value > c_type_caps##_MAX`. No `long long` exceeds the largest floating value. -/
def aboveMax (s : Scalar) (v : ℤ) : Bool :=
  match s.integer with
  | some t => decide (intMax t < v)
  | none => false

/-- `direct_value < c_type_caps##_MIN`. An integer is below the smallest positive floating value
exactly if it is not positive. -/
def belowMin (s : Scalar) (v : ℤ) : Bool :=
  match s.integer with
  | some t => decide (v < intMin t)
  | none => decide (v ≤ 0)

/-- The bits that a scalar is set to; `clamped` where the code compares with the bounds first. -/
def scalarBits (s : Scalar) (clamped : Bool) (typeSet : TypeSet) (v : ℤ) : ℕ :=
  match typeSet with
  | .zero => 0
  | .max => maxBits s
  | .min => minBits s
  | .value =>
    if clamped && aboveMax s v then maxBits s
    else if clamped && belowMin s v then minBits s
    else convertBits s v

/-- The bytes that a scalar is set to. -/
def scalarBytes (s : Scalar) (clamped : Bool) (typeSet : TypeSet) (v : ℤ) : List UInt8 :=
  leBytes s.stored (scalarBits s clamped typeSet v)

/-! ## Comparing values of type `long double` -/

/-- The value of an extended number in a form in which equal values are equal: the sign, the
exponent and the significand, or `none` for what is not a number. -/
def longDoubleValue (bits : ℕ) : Option (Bool × ℕ × ℕ) :=
  let sign := decide (bits / 2 ^ 79 % 2 = 1)
  let e := bits / 2 ^ 64 % 2 ^ 15
  let m := bits % 2 ^ 64
  if e = 0x7fff then
    -- an infinity has only the leading bit, anything else is not a number
    if m = 2 ^ 63 then some (sign, e, m) else none
  else if m = 0 ∧ e = 0 then some (false, 0, 0)
  else if e ≠ 0 ∧ m < 2 ^ 63 then none
  else some (sign, max e 1, m)

/-- `*((long double*) a) != *((long double*) b)`, on the bytes of the two objects. -/
def longDoubleNe (a b : List UInt8) : Bool :=
  match longDoubleValue (ofLeBytes (a.take 10)), longDoubleValue (ofLeBytes (b.take 10)) with
  | some x, some y => x != y
  | _, _ => true

theorem longDoubleNe_self {a : List UInt8}
    (h : (longDoubleValue (ofLeBytes (a.take 10))).isSome) : longDoubleNe a a = false := by
  obtain ⟨x, hx⟩ := Option.isSome_iff_exists.mp h
  rw [longDoubleNe, hx]
  exact bne_self_eq_false x

/-- The format has 80 bits. -/
theorem longDoubleValue_mod (bits : ℕ) :
    longDoubleValue (bits % 256 ^ 10) = longDoubleValue bits := by
  have hsign : bits % 256 ^ 10 / 2 ^ 79 % 2 = bits / 2 ^ 79 % 2 := by omega
  have hexp : bits % 256 ^ 10 / 2 ^ 64 % 2 ^ 15 = bits / 2 ^ 64 % 2 ^ 15 := by omega
  have hman : bits % 256 ^ 10 % 2 ^ 64 = bits % 2 ^ 64 := by omega
  rw [longDoubleValue, hsign, hexp, hman, longDoubleValue]

/-- A number with the leading bit set and an exponent below the largest is a number. -/
theorem longDoubleValue_normal {e m : ℕ} (sign : Bool) (he : e < 0x7fff) (hm : 2 ^ 63 ≤ m)
    (hm' : m < 2 ^ 64) :
    (longDoubleValue ((if sign then 2 ^ 79 else 0) + e * 2 ^ 64 + m)).isSome := by
  have hexp : ((if sign then 2 ^ 79 else 0) + e * 2 ^ 64 + m) / 2 ^ 64 % 2 ^ 15 = e := by
    cases sign <;> simp only [Bool.false_eq_true, if_false, if_true] <;> omega
  have hman : ((if sign then 2 ^ 79 else 0) + e * 2 ^ 64 + m) % 2 ^ 64 = m := by
    cases sign <;> simp only [Bool.false_eq_true, if_false, if_true] <;> omega
  unfold longDoubleValue
  simp only [hexp, hman]
  rw [if_neg (by omega), if_neg (by omega), if_neg (by omega)]
  rfl

/-- A positive integer of at most 64 bits is represented exactly, with the leading bit set. -/
theorem roundBits_exact {n : ℕ} (hn : 0 < n) (hlt : n < 2 ^ 64) :
    (roundBits 64 n).2 < 64 ∧ 2 ^ 63 ≤ (roundBits 64 n).1 ∧ (roundBits 64 n).1 < 2 ^ 64 := by
  have he : Nat.log 2 n < 64 := Nat.log_lt_of_lt_pow hn.ne' hlt
  have hlow : 2 ^ Nat.log 2 n ≤ n := Nat.pow_log_le_self 2 hn.ne'
  have hhigh : n < 2 ^ (Nat.log 2 n + 1) := Nat.lt_pow_succ_log_self (by decide) n
  rw [roundBits]
  simp only [if_pos he]
  refine ⟨he, ?_, ?_⟩
  · calc 2 ^ 63 = 2 ^ Nat.log 2 n * 2 ^ (64 - 1 - Nat.log 2 n) := by
          rw [← pow_add]
          congr 1
          omega
      _ ≤ n * 2 ^ (64 - 1 - Nat.log 2 n) := Nat.mul_le_mul_right _ hlow
  · calc n * 2 ^ (64 - 1 - Nat.log 2 n)
        < 2 ^ (Nat.log 2 n + 1) * 2 ^ (64 - 1 - Nat.log 2 n) :=
          Nat.mul_lt_mul_of_pos_right hhigh (Nat.two_pow_pos _)
      _ = 2 ^ 64 := by
          rw [← pow_add]
          congr 1
          omega

theorem longDoubleValue_extendedBits {v : ℤ} (hv : v.natAbs < 2 ^ 64) :
    (longDoubleValue (extendedBits v)).isSome := by
  rw [extendedBits]
  by_cases h0 : v = 0
  · rw [if_pos h0]
    decide
  · obtain ⟨he, hm, hm'⟩ := roundBits_exact (Int.natAbs_pos.mpr h0) hv
    rw [if_neg h0]
    have hnormal := longDoubleValue_normal (decide (v < 0))
      (e := (roundBits 64 v.natAbs).2 + 16383) (by omega) hm hm'
    simpa using hnormal

/-- Every value that the program stores in a `long double` is a number. -/
theorem longDoubleValue_scalarBits {v : ℤ} (hv : v.natAbs < 2 ^ 64) (clamped : Bool)
    (typeSet : TypeSet) :
    (longDoubleValue (scalarBits .longDouble clamped typeSet v)).isSome := by
  have hmin : (longDoubleValue (minBits .longDouble)).isSome := by decide +kernel
  have hmax : (longDoubleValue (maxBits .longDouble)).isSome := by decide +kernel
  cases typeSet with
  | zero => exact (by decide : (longDoubleValue 0).isSome)
  | max => exact hmax
  | min => exact hmin
  | value =>
    rw [scalarBits]
    split
    · exact hmax
    · split
      · exact hmin
      · exact longDoubleValue_extendedBits hv

end MpiTestSuite

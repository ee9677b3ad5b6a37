import Defsheet.Number.Numeral
import Defsheet.Number.Binary64

/-!
# Values of written numbers

Numbers are compared by the double nearest to what is written, so two numerals that differ beyond
the precision of a double count as equal. A port of type `int` takes the integers of 32 bits, and
one of type `float` the numbers whose double does not exceed the largest single-precision number.
-/

namespace Defsheet

namespace Numeral

/-- The double nearest to what is written. -/
def value (n : Numeral) : Binary64 :=
  .ofDecimal n.negative n.scaled (-(n.places : Int))

/-- Whether the numeral is written without a point and is an integer of 32 bits. -/
def fitsInt (n : Numeral) : Bool :=
  match n.toInt? with
  | some i => -2147483648 ≤ i && i ≤ 2147483647
  | none => false

/-- The magnitude of the largest single-precision number as a double. -/
def largestFloat : Nat := 0x47efffffe0000000

/-- Whether the absolute value does not exceed the largest single-precision number. -/
def fitsFloat (n : Numeral) : Bool :=
  n.value.magnitude ≤ largestFloat

end Numeral

end Defsheet

/-!
# Double-precision numbers

A double is a sign and a magnitude, the magnitude being its exponent and fraction bits read as one
number. Magnitudes are ordered as the absolute values are, so comparing two doubles is comparing
integers, and rounding up past the largest fraction carries into the exponent by itself.

## Main definitions

* `Binary64.ofRatio` rounds a fraction to the nearest double, a tie going to the even magnitude.
* `Binary64.ofDecimal` does the same for a decimal with an exponent.
* `Binary64.mantissa` and `Binary64.exponent` take a finite double apart again.
-/

namespace Defsheet

/-- A double: its sign bit, and the 63 bits below it as a number. -/
structure Binary64 where
  negative : Bool
  magnitude : Nat
deriving DecidableEq

/-- A power of two. -/
def twoPow (n : Nat) : Nat := Nat.pow 2 n

/-- A power of ten. -/
def tenPow (n : Nat) : Nat := Nat.pow 10 n

/-- The quotient rounded to the nearest integer, a tie going to the even one. -/
def roundQuotient (num den : Nat) : Nat :=
  let q := num / den
  let r := num % den
  if 2 * r < den then q
  else if den < 2 * r then q + 1
  else if q % 2 = 0 then q else q + 1

namespace Binary64

/-- The magnitude of the infinities; those above it are not numbers. -/
def infinite : Nat := 0x7ff0000000000000

/-- The infinity of the given sign. -/
def infinity (negative : Bool) : Binary64 := ⟨negative, infinite⟩

/-- The result of a computation that has none. -/
def nan : Binary64 := ⟨false, 0x7ff8000000000000⟩

/-- The zero of the given sign. -/
def zero (negative : Bool) : Binary64 := ⟨negative, 0⟩

/-- The double one. -/
def one : Binary64 := ⟨false, 0x3ff0000000000000⟩

/-- Whether the double is a number other than the infinities. -/
def isFinite (x : Binary64) : Bool := x.magnitude < infinite

/-- Whether the double is no number. -/
def isNaN (x : Binary64) : Bool := infinite < x.magnitude

/-- An integer that orders the doubles that are numbers; both zeros have the same. -/
def rank (x : Binary64) : Int :=
  if x.negative then -(x.magnitude : Int) else x.magnitude

/-- Whether `x` is less than `y`. What is no number is neither less nor greater. -/
def lt (x y : Binary64) : Bool :=
  !x.isNaN && !y.isNaN && x.rank < y.rank

/-- The 64 bits as a number. -/
def bits (x : Binary64) : Nat :=
  (if x.negative then twoPow 63 else 0) + x.magnitude

/-! ### Taking a finite double apart -/

/-- The exponent field. -/
def biased (x : Binary64) : Nat := x.magnitude / twoPow 52

/-- The fraction field. -/
def fraction (x : Binary64) : Nat := x.magnitude % twoPow 52

/-- The integer `m` with absolute value `m * 2 ^ exponent`. -/
def mantissa (x : Binary64) : Nat :=
  if x.biased = 0 then x.fraction else twoPow 52 + x.fraction

/-- The power of two that the mantissa is multiplied with. -/
def exponent (x : Binary64) : Int :=
  if x.biased = 0 then -1074 else x.biased - 1075

/-! ### Rounding -/

/-- The fraction `num / den` divided by `2 ^ e`, as a fraction. -/
def unscale (num den : Nat) (e : Int) : Nat × Nat :=
  if 0 ≤ e then (num, den * twoPow e.toNat) else (num * twoPow (-e).toNat, den)

/-- The largest `e` with `2 ^ e ≤ num / den`, for a positive fraction. -/
def ratioLog2 (num den : Nat) : Int :=
  let e : Int := (Nat.log2 num : Int) - Nat.log2 den
  let (a, b) := unscale num den e
  if b ≤ a then e else e - 1

/-- The double nearest to `num / den`, a tie going to the even magnitude. A mantissa has 53 bits,
and no unit is below `2 ^ (-1074)`. -/
def ofRatio (negative : Bool) (num den : Nat) : Binary64 :=
  if num = 0 then zero negative
  else
    let e := max (ratioLog2 num den - 52) (-1074)
    let (a, b) := unscale num den e
    let magnitude := (e + 1074).toNat * twoPow 52 + roundQuotient a b
    ⟨negative, min magnitude infinite⟩

/-- A number within one of the number of decimal digits of a positive `n`. -/
def decimalSize (n : Nat) : Nat :=
  Nat.log2 n * 30103 / 100000 + 1

/-- The double nearest to `digits * 10 ^ e`. Well beyond the largest double and well below half the
smallest one the answer is known without computing the power. -/
def ofDecimal (negative : Bool) (digits : Nat) (e : Int) : Binary64 :=
  let size : Int := decimalSize digits + e
  if digits = 0 then zero negative
  else if 311 < size then infinity negative
  else if size < -330 then zero negative
  else if 0 ≤ e then ofRatio negative (digits * tenPow e.toNat) 1
  else ofRatio negative digits (tenPow (-e).toNat)

/-- The double nearest to an integer. -/
def ofInt (n : Int) : Binary64 :=
  ofRatio (decide (n < 0)) n.natAbs 1

end Binary64

end Defsheet

/-!
# Numerals

A number in a document is kept as it was written: a sign, at least one digit, and perhaps a point
followed by at least one digit. Leading and trailing zeros survive, because generated code repeats
the text. The value of a numeral is an exact decimal fraction.

## Main definitions

* `Numeral.spelling` is the text of a numeral.
* `Numeral.scaled` and `Numeral.places` give its absolute value as `scaled / 10 ^ places`.
* `Numeral.toInt?` is its value when it is written without a point.
-/

namespace Defsheet

/-- A decimal digit. -/
abbrev Digit := Fin 10

namespace Digit

/-- The character of a digit. -/
def char (d : Digit) : Char := Char.ofNat (48 + d.val)

/-- The digit that a character stands for; meant for the characters `0` to `9`. -/
def ofChar (c : Char) : Digit := Fin.ofNat 10 (c.toNat - 48)

end Digit

/-- A non-empty run of digits. -/
structure Digits where
  first : Digit
  rest : List Digit
deriving DecidableEq

namespace Digits

/-- The digits in order. -/
def toList (ds : Digits) : List Digit := ds.first :: ds.rest

/-- The text of a run of digits. -/
def spelling (ds : Digits) : List Char := ds.toList.map Digit.char

/-- The number that a list of digits stands for in base ten, continuing from `n`. -/
def valueFrom (n : Nat) (ds : List Digit) : Nat :=
  ds.foldl (fun acc d => 10 * acc + d.val) n

/-- Reads a first digit character and the digit characters after it. -/
def ofChars (c : Char) (cs : List Char) : Digits :=
  ⟨Digit.ofChar c, cs.map Digit.ofChar⟩

end Digits

/-- A number as written. -/
structure Numeral where
  negative : Bool
  whole : Digits
  fraction : Option Digits
deriving DecidableEq

namespace Numeral

/-- The text of the sign. -/
def signText (negative : Bool) : List Char :=
  if negative then ['-'] else []

/-- The text of the part from the point on. -/
def fractionText : Option Digits → List Char
  | none => []
  | some ds => '.' :: ds.spelling

/-- The text of a numeral. -/
def spelling (n : Numeral) : List Char :=
  signText n.negative ++ n.whole.spelling ++ fractionText n.fraction

/-- The text of a numeral. -/
def text (n : Numeral) : String := String.ofList n.spelling

/-- The digits behind the point. -/
def fractionDigits (n : Numeral) : List Digit :=
  match n.fraction with
  | none => []
  | some ds => ds.toList

/-- The number of digits behind the point. -/
def places (n : Numeral) : Nat := n.fractionDigits.length

/-- All digits read as one number: the absolute value times `10 ^ places`. -/
def scaled (n : Numeral) : Nat :=
  Digits.valueFrom 0 (n.whole.toList ++ n.fractionDigits)

/-- Whether the numeral is written without a point. -/
def isIntegral (n : Numeral) : Bool := n.fraction.isNone

/-- The value of a numeral that is written without a point. -/
def toInt? (n : Numeral) : Option Int :=
  if n.isIntegral then
    some (if n.negative then -(n.scaled : Int) else n.scaled)
  else none

end Numeral

end Defsheet

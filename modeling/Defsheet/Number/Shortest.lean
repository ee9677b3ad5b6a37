import Defsheet.Number.Binary64

/-!
# The shortest decimal of a double

A double is written with the fewest digits that read back as the same double; of two such decimals
the nearer one is taken, and of two equally near ones the larger. The search goes through the
decimal grids from coarse to fine and looks at the two grid points next to the value: if any point
of a grid reads back, one of these two does.

Numbers are written positionally, however large or small they are, and an integral value has no
point.
-/

namespace Defsheet

/-- A positive decimal `digits * 10 ^ exponent`. -/
structure Decimal where
  digits : Nat
  exponent : Int
deriving DecidableEq

namespace Binary64

/-- The reals that round to a positive finite double, in units of a quarter of its last place. -/
structure Window where
  below : Nat
  value : Nat
  above : Nat
  closed : Bool
  /-- The unit as a fraction. -/
  unitNum : Nat
  unitDen : Nat

/-- The window of a positive finite double. The gap to the next double below is only half as wide
when the mantissa is a power of two, and the ends belong to the window when the mantissa is even. -/
def window (x : Binary64) : Window :=
  let m := x.mantissa
  let e := x.exponent - 2
  { below := if x.fraction = 0 && 1 < x.biased then 4 * m - 1 else 4 * m - 2
    value := 4 * m
    above := 4 * m + 2
    closed := m % 2 = 0
    unitNum := if 0 ≤ e then twoPow e.toNat else 1
    unitDen := if 0 ≤ e then 1 else twoPow (-e).toNat }

namespace Window

/-- Multiplies a number of units by `10 ^ (-p)`: the result over `gridDen` counts grid steps. -/
def gridNum (w : Window) (p : Int) (units : Nat) : Nat :=
  units * w.unitNum * (if 0 ≤ p then 1 else tenPow (-p).toNat)

/-- The common denominator of `gridNum`. -/
def gridDen (w : Window) (p : Int) : Nat :=
  w.unitDen * (if 0 ≤ p then tenPow p.toNat else 1)

/-- Whether the grid point `c * 10 ^ p` lies in the window. -/
def accepts (w : Window) (p : Int) (c : Nat) : Bool :=
  let lo := w.gridNum p w.below
  let hi := w.gridNum p w.above
  let point := c * w.gridDen p
  if w.closed then lo ≤ point && point ≤ hi else lo < point && point < hi

/-- The point next to the value on the grid of step `10 ^ p` that lies in the window, if any. -/
def nearest? (w : Window) (p : Int) : Option Nat :=
  let v := w.gridNum p w.value
  let den := w.gridDen p
  let c := v / den
  match w.accepts p c, w.accepts p (c + 1) with
  | true, true => some (if 2 * (v % den) < den then c else c + 1)
  | true, false => some c
  | false, true => some (c + 1)
  | false, false => none

/-- The `k` with `10 ^ (k - 1) ≤ value < 10 ^ k`. -/
def magnitude10 (w : Window) : Int :=
  let num := w.value * w.unitNum
  let den := w.unitDen
  if den ≤ num then (Nat.toDigits 10 (num / den)).length
  else
    match (List.range 400).find? fun j => den ≤ num * tenPow j with
    | some j => 1 - (j : Int)
    | none => 0

/-- The shortest decimal in the window. Seventeen digits always suffice. -/
def shortest (w : Window) : Decimal :=
  let k := w.magnitude10
  let hit := (List.range 17).findSome? fun (i : Nat) =>
    let p : Int := k - (i + 1)
    (w.nearest? p).map fun c => (⟨c, p⟩ : Decimal)
  match hit with
  | some d => if d.digits % 10 = 0 then ⟨d.digits / 10, d.exponent + 1⟩ else d
  | none => ⟨w.value * w.unitNum / w.unitDen, 0⟩

end Window

end Binary64

/-- The decimal written without an exponent. -/
def Decimal.positional (d : Decimal) : List Char :=
  let ds := Nat.toDigits 10 d.digits
  if 0 ≤ d.exponent then ds ++ List.replicate d.exponent.toNat '0'
  else
    let places := (-d.exponent).toNat
    if places < ds.length then
      ds.take (ds.length - places) ++ '.' :: ds.drop (ds.length - places)
    else '0' :: '.' :: (List.replicate (places - ds.length) '0' ++ ds)

/-- The text of a double. -/
def Binary64.text (x : Binary64) : String :=
  if x.isNaN then "NaN"
  else
    let body :=
      if !x.isFinite then ['i', 'n', 'f']
      else if x.magnitude = 0 then ['0']
      else x.window.shortest.positional
    String.ofList (if x.negative then '-' :: body else body)

end Defsheet

import Defsheet.Number.Reading
import Defsheet.Yaml.Node

/-!
# Values of YAML

A plain scalar without a tag is what it looks like: nothing, a truth value, a number or a text. A
tag of the standard set says which of these a scalar is. References are followed here, up to a depth
and a number of times that keep the work within bounds.

## Main definitions

* `scalarValue` is the value of a scalar.
* `Document.value` is the value of a node.
-/

namespace Defsheet.Yaml

/-- A value. Of collections nothing is kept. -/
inductive Value where
  | null
  | bool (b : Bool)
  | int (n : Int)
  | float (x : Binary64)
  | text (s : String)
  | collection
deriving DecidableEq

/-! ### Scalars -/

/-- Whether a text stands for nothing. -/
def isNull (s : String) : Bool := ["null", "Null", "NULL", "~"].contains s

/-- The truth value that a text stands for. -/
def bool? (s : String) : Option Bool :=
  if ["true", "True", "TRUE"].contains s then some true
  else if ["false", "False", "FALSE"].contains s then some false
  else none

/-- Whether the text is a digit zero before other digits, which makes it a text and not a number. -/
def isPaddedNumber (cs : List Char) : Bool :=
  let digits := (splitSign cs).2
  1 < digits.length && digits.head? = some '0' && (digits.drop 1).all Char.isDigit

/-- The number after a mark for its base. -/
def basedNat? : List Char → Option Nat
  | '0' :: 'x' :: cs => natOfDigits? 16 cs
  | '0' :: 'o' :: cs => natOfDigits? 8 cs
  | '0' :: 'b' :: cs => natOfDigits? 2 cs
  | _ => none

/-- The absolute value of an integer without its sign. -/
def magnitude? (cs : List Char) : Option Nat :=
  (basedNat? cs).or (if isPaddedNumber cs then none else natOfDigits? 10 cs)

/-- The integer that a text stands for. -/
def int? (cs : List Char) : Option Int :=
  let (negative, body) := splitSign cs
  (magnitude? body).map fun n => if negative then -(n : Int) else n

/-- Whether an integer has a place among 64-bit words, signed or not. -/
def isWord (n : Int) : Bool := -(twoPow 63 : Int) ≤ n && n < twoPow 64

/-- Whether an integer has a place among 128-bit words, signed or not. -/
def isDoubleWord (n : Int) : Bool := -(twoPow 127 : Int) ≤ n && n < twoPow 128

/-- The value of an integer. Words are values, integers beyond them are refused, and what is beyond
double words is no integer. -/
def intValue? (s : String) : Option (Except Fault Value) :=
  match int? s.toList with
  | none => none
  | some n =>
    if isWord n then some (.ok (.int n))
    else if isDoubleWord n then some (.error .integerTooLarge)
    else none

/-- The names of infinity and of what is no number. -/
def specialFloat? (s : String) : Option Binary64 :=
  if [".inf", ".Inf", ".INF", "+.inf", "+.Inf", "+.INF"].contains s then some (.infinity false)
  else if ["-.inf", "-.Inf", "-.INF"].contains s then some (.infinity true)
  else if [".nan", ".NaN", ".NAN"].contains s then some .nan
  else none

/-- The floating-point number that a text stands for; one that is too large is none. -/
def float? (s : String) : Option Binary64 :=
  (specialFloat? s).or ((Binary64.ofText? s.toList).filter Binary64.isFinite)

/-- The value of a plain scalar without a tag. -/
def plainValue (s : String) : Except Fault Value :=
  if s = "" || isNull s then .ok .null
  else
    match bool? s with
    | some b => .ok (.bool b)
    | none =>
      match intValue? s with
      | some value => value
      | none =>
        match if isPaddedNumber s.toList then none else float? s with
        | some x => .ok (.float x)
        | none => .ok (.text s)

/-- The value that a tag demands. -/
def demanded (value : Option Value) : Except Fault Value :=
  match value with
  | some v => .ok v
  | none => .error .tagMismatch

/-- The tags of the standard set begin with this. -/
def standardTag (name : String) : String := "tag:yaml.org,2002:" ++ name

/-- Whether a tag is one that only the author of the text knows. -/
def isLocalTag (tag : Option String) : Bool := tag.any fun t => t.toList.head? = some '!'

/-- The value of a scalar. -/
def scalarValue (s : String) (plain : Bool) (tag : Option String) : Except Fault Value :=
  match tag with
  | none => if plain then plainValue s else .ok (.text s)
  | some t =>
    if t = standardTag "bool" then demanded ((bool? s).map .bool)
    else if t = standardTag "int" then (intValue? s).getD (.error .tagMismatch)
    else if t = standardTag "float" then demanded ((float? s).map .float)
    else if t = standardTag "null" then demanded (if isNull s then some .null else none)
    else .ok (.text s)

/-! ### Nodes -/

/-- The depth to which collections may be nested. -/
def maxDepth : Nat := 128

/-- Following references, while counting how often that was done. -/
abbrev Following := StateT Nat (Except Fault)

/-- The node itself, or the one that a reference stands for. -/
def Document.follow (d : Document) (n : Node) : Following Node := do
  match n with
  | .reference number =>
    modify (· + 1)
    if 100 * d.size < (← get) then throw .tooManyReferences
    match d.anchors.get? number with
    | some target => return target
    | none => throw .unknownAnchor
  | n => return n

/-- The value of a node that may contain collections nested to a depth. -/
def Document.value (d : Document) : Nat → Node → Following Value
  | depth, n => do
    match ← d.follow n with
    | .scalar s plain tag =>
      if isLocalTag tag then throw .localTag
      scalarValue s plain tag
    | .sequence tag items =>
      if isLocalTag tag then throw .localTag
      match depth with
      | 0 => throw .tooDeep
      | depth + 1 =>
        items.forM fun item => discard (d.value depth item)
        return .collection
    | .mapping tag pairs =>
      if isLocalTag tag then throw .localTag
      match depth with
      | 0 => throw .tooDeep
      | depth + 1 =>
        pairs.forM fun (key, value) => do
          discard (d.value depth key)
          discard (d.value depth value)
        return .collection
    | .reference _ => throw .unknownAnchor

/-- The text of a scalar, whatever it looks like. -/
def Document.scalarText (d : Document) (n : Node) : Following String := do
  match ← d.follow n with
  | .scalar s _ _ => return s
  | _ => throw .notAScalar

end Defsheet.Yaml

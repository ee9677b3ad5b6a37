/-!
# The layout of a text

How a text is laid out decides little about its meaning: blanks part tokens, line feeds part lines,
and a position says where in this layout something stands.

A set of characters that is data of a standard is a list of inclusive ranges of code points; the
blanks are such a set. A line ends at a line feed, with or without a carriage return before it. What
follows the last line feed is a line of its own unless it is empty, so the empty text has no line.
Positions count lines and columns from one. For them only a line feed ends a line, and a column
counts characters, so the position of a place is determined by the text before it:
`Position.advance` reads it off.
-/

namespace Defsheet

/-! ### Sets of characters -/

/-- An inclusive range of code points, written as its first and its last member. -/
abbrev CodeRange := Nat × Nat

/-- Whether the code point lies in the range. -/
def CodeRange.has (r : CodeRange) (n : Nat) : Bool :=
  r.1 ≤ n && n ≤ r.2

/-- Whether the character lies in one of the ranges. -/
def inRanges (ranges : List CodeRange) (c : Char) : Bool :=
  ranges.any fun r => r.has c.toNat

/-! ### Blanks -/

/-- The blank code points: those with the White_Space property of the standard. They part tokens,
and they carry no text at the end of a comment line. -/
def blankRanges : List CodeRange :=
  [(0x9, 0xd), (0x20, 0x20), (0x85, 0x85), (0xa0, 0xa0), (0x1680, 0x1680), (0x2000, 0x200a),
   (0x2028, 0x2029), (0x202f, 0x202f), (0x205f, 0x205f), (0x3000, 0x3000)]

/-- Whether the character is blank. -/
def isBlank (c : Char) : Bool :=
  inRanges blankRanges c

/-- The text without the blanks at its end. -/
def trimEnd (cs : List Char) : List Char :=
  (cs.reverse.dropWhile isBlank).reverse

/-! ### Lines -/

/-- The lines of a text, without their endings. -/
def lines : List Char → List (List Char)
  | [] => []
  | '\n' :: cs => [] :: lines cs
  | '\r' :: '\n' :: cs => [] :: lines cs
  | c :: cs =>
    match lines cs with
    | [] => [[c]]
    | l :: ls => (c :: l) :: ls

/-! ### Positions -/

/-- A place in a text. -/
structure Position where
  line : Nat
  col : Nat
deriving DecidableEq, Inhabited

namespace Position

/-- The place where a text begins. -/
def start : Position := ⟨1, 1⟩

/-- The place after one more character. -/
def next (p : Position) (c : Char) : Position :=
  if c = '\n' then ⟨p.line + 1, 1⟩ else ⟨p.line, p.col + 1⟩

/-- The place after a stretch of text. -/
def advance (p : Position) (cs : List Char) : Position :=
  cs.foldl next p

@[simp] theorem advance_nil (p : Position) : p.advance [] = p := rfl

@[simp] theorem advance_cons (p : Position) (c : Char) (cs : List Char) :
    p.advance (c :: cs) = (p.next c).advance cs := rfl

/-- To go past two texts is to go past one, and from there past the other. -/
theorem advance_append (p : Position) (cs ds : List Char) :
    p.advance (cs ++ ds) = (p.advance cs).advance ds := by
  simp [advance]

/-- The first column of a line. -/
def ofLine (line : Nat) : Position := ⟨line, 1⟩

end Position

end Defsheet

import Defsheet.Issue
import Defsheet.Text.Layout

/-!
# Reading a text as tokens

A text falls into pieces, one after the other and without a gap: blanks, comments, lexemes, and
stretches that are skipped because no lexeme begins there. `pieces` finds them from left to right.
The position of a piece follows from the text before it, so tokens and findings are read off the
pieces once these are known.

## Main definitions

* `Piece.text` is the stretch of text that a piece covers.
* `pieces` cuts a text into pieces.
* `Scan.ofText` lists the tokens of a text, the end of file included, and its lexical findings.
-/

namespace Defsheet

/-! ### Character classes -/

/-- Whether a word can begin with the character. -/
def isWordStart (c : Char) : Bool := c.isAlpha || c == '_'

/-- Whether a word can go on with the character. -/
def isWordChar (c : Char) : Bool := c.isAlphanum || c == '_'

/-- The lexeme that the character is by itself. -/
def punctuation? : Char → Option Lexeme
  | '\x7b' => some .openBrace
  | '\x7d' => some .closeBrace
  | '(' => some .openParen
  | ')' => some .closeParen
  | '.' => some .dot
  | '=' => some .equals
  | _ => none

/-- Whether a skipped stretch ends before the character. -/
def endsStray (c : Char) : Bool :=
  isBlank c || (punctuation? c).isSome || c == '"'

/-! ### Pieces -/

/-- A stretch of text. -/
inductive Piece where
  /-- A blank between lexemes. -/
  | blank (c : Char)
  /-- Two slashes and the rest of the line. -/
  | comment (body : List Char)
  /-- A lexeme as it is spelled. -/
  | lexeme (l : Lexeme)
  /-- A character that begins no lexeme, and what is skipped with it. -/
  | stray (c : Char) (rest : List Char)
  /-- A quote without a partner, and the rest of its line. -/
  | unclosed (rest : List Char)
deriving DecidableEq

namespace Piece

/-- The text that the piece covers. -/
def text : Piece → List Char
  | blank c => [c]
  | comment body => '/' :: '/' :: body
  | lexeme l => l.spelling
  | stray c rest => c :: rest
  | unclosed rest => '"' :: rest

/-- The lexeme that the piece is. -/
def lexeme? : Piece → Option Lexeme
  | lexeme l => some l
  | _ => none

/-- What is wrong with the piece. -/
def issue? : Piece → Option Issue
  | stray c _ => some (.strayCharacter c)
  | unclosed _ => some .unclosedString
  | _ => none

end Piece

/-- The lexeme of a whole word. -/
def wordLexeme (cs : List Char) : Lexeme :=
  let w := String.ofList cs
  match Keyword.ofWord? w with
  | some k => .keyword k
  | none => .ident w

/-- A string runs to the next quote, across lines if need be. Without a next quote the rest of the
line is skipped. The text is what follows the opening quote. -/
def readString (cs : List Char) : Piece × List Char :=
  match cs.dropWhile (· != '"') with
  | _ :: rest => (.lexeme (.string (String.ofList (cs.takeWhile (· != '"')))), rest)
  | [] => (.unclosed (cs.takeWhile (· != '\n')), cs.dropWhile (· != '\n'))

/-- The fraction of a numeral: a point counts only if a digit follows. -/
def readFraction (cs : List Char) : Option Digits × List Char :=
  match cs with
  | '.' :: d :: rest =>
    if d.isDigit then (some (.ofChars d (rest.takeWhile Char.isDigit)), rest.dropWhile Char.isDigit)
    else (none, cs)
  | _ => (none, cs)

/-- A numeral whose first digit is known. -/
def readNumeral (negative : Bool) (d : Char) (cs : List Char) : Piece × List Char :=
  let (fraction, rest) := readFraction (cs.dropWhile Char.isDigit)
  (.lexeme (.number ⟨negative, .ofChars d (cs.takeWhile Char.isDigit), fraction⟩), rest)

/-- A character that begins no lexeme is skipped together with what sticks to it. -/
def readStray (c : Char) (cs : List Char) : Piece × List Char :=
  (.stray c (cs.takeWhile fun d => !endsStray d), cs.dropWhile fun d => !endsStray d)

/-- Two slashes begin a comment; a single one begins nothing. -/
def readSlash (cs : List Char) : Piece × List Char :=
  match cs with
  | '/' :: rest => (.comment (rest.takeWhile (· != '\n')), rest.dropWhile (· != '\n'))
  | _ => readStray '/' cs

/-- A minus belongs to the numeral after it; by itself it begins nothing. -/
def readMinus (cs : List Char) : Piece × List Char :=
  match cs with
  | d :: rest => if d.isDigit then readNumeral true d rest else readStray '-' cs
  | [] => readStray '-' cs

/-- The piece that begins a text, and the text after it. -/
def readPiece (c : Char) (cs : List Char) : Piece × List Char :=
  if isBlank c then (.blank c, cs)
  else if isWordStart c then
    (.lexeme (wordLexeme (c :: cs.takeWhile isWordChar)), cs.dropWhile isWordChar)
  else if c.isDigit then readNumeral false c cs
  else if c = '"' then readString cs
  else if c = '/' then readSlash cs
  else if c = '-' then readMinus cs
  else
    match punctuation? c with
    | some l => (.lexeme l, cs)
    | none => readStray c cs

/-! ### Each piece takes something away -/

/-- To drop characters from the front does not make a text longer. -/
private theorem length_dropWhile_le (p : Char → Bool) (cs : List Char) :
    (cs.dropWhile p).length ≤ cs.length :=
  (List.dropWhile_suffix p).length_le

/-- A string takes its characters from the text. -/
private theorem length_readString_le (cs : List Char) :
    (readString cs).2.length ≤ cs.length := by
  have hdrop := length_dropWhile_le (· != '"') cs
  unfold readString
  split
  · next c rest heq =>
    rw [heq] at hdrop
    exact Nat.le_of_succ_le hdrop
  · exact length_dropWhile_le _ cs

private theorem length_readFraction_le (cs : List Char) :
    (readFraction cs).2.length ≤ cs.length := by
  unfold readFraction
  split
  · next d rest =>
    split
    · exact Nat.le_trans (length_dropWhile_le _ rest) (by simp; omega)
    · exact Nat.le_refl _
  · exact Nat.le_refl _

private theorem length_readNumeral_le (negative : Bool) (d : Char) (cs : List Char) :
    (readNumeral negative d cs).2.length ≤ cs.length :=
  Nat.le_trans (length_readFraction_le _) (length_dropWhile_le _ cs)

private theorem length_readStray_le (c : Char) (cs : List Char) :
    (readStray c cs).2.length ≤ cs.length :=
  length_dropWhile_le _ cs

private theorem length_readSlash_le (cs : List Char) : (readSlash cs).2.length ≤ cs.length := by
  unfold readSlash
  split
  · next rest => exact Nat.le_succ_of_le (length_dropWhile_le _ rest)
  · exact length_readStray_le '/' cs

private theorem length_readMinus_le (cs : List Char) : (readMinus cs).2.length ≤ cs.length := by
  unfold readMinus
  split
  · next d rest =>
    split
    · exact Nat.le_succ_of_le (length_readNumeral_le true d rest)
    · exact length_readStray_le '-' (d :: rest)
  · exact length_readStray_le '-' []

/-- A piece is never empty, so what is left is shorter. -/
theorem length_readPiece_le (c : Char) (cs : List Char) :
    (readPiece c cs).2.length ≤ cs.length := by
  unfold readPiece
  split
  · exact Nat.le_refl _
  split
  · exact length_dropWhile_le _ cs
  split
  · exact length_readNumeral_le false c cs
  split
  · exact length_readString_le cs
  split
  · exact length_readSlash_le cs
  split
  · exact length_readMinus_le cs
  split
  · exact Nat.le_refl _
  · exact length_readStray_le c cs

/-- The pieces of a text, from left to right. -/
def pieces : List Char → List Piece
  | [] => []
  | c :: cs => (readPiece c cs).1 :: pieces (readPiece c cs).2
termination_by cs => cs.length
decreasing_by exact Nat.lt_succ_of_le (length_readPiece_le c cs)

/-- Pieces with the positions that they have when the first one stands at `p`. -/
def located (p : Position) : List Piece → List (Located Piece)
  | [] => []
  | x :: xs => ⟨x, p⟩ :: located (p.advance x.text) xs

/-- What reading a text as tokens gives. -/
structure Scan where
  tokens : List Token
  findings : List Finding

namespace Scan

/-- The lexemes among located pieces. -/
def tokensOf (ps : List (Located Piece)) : List Token :=
  ps.filterMap fun p => p.value.lexeme?.map fun l => ⟨l, p.position⟩

/-- The issues among located pieces. -/
def findingsOf (ps : List (Located Piece)) : List Finding :=
  ps.filterMap fun p => p.value.issue?.map fun i => ⟨i, p.position⟩

/-- The tokens of a text, closed by the end of file, and its lexical findings. -/
def ofText (text : String) : Scan :=
  let cs := text.toList
  let ps := located .start (pieces cs)
  ⟨tokensOf ps ++ [⟨.endOfFile, Position.start.advance cs⟩], findingsOf ps⟩

/-- The findings as diagnostics of a document. -/
def diagnostics (s : Scan) (document : String) : List Diagnostic :=
  s.findings.map (Finding.diagnostic document)

end Scan

end Defsheet

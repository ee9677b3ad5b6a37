/-!
# Reading YAML text

A cursor is a place in a YAML text: what is left of it, and the line and column where that begins.
Lines end at any of five characters, and a carriage return goes together with a line feed after it.

## Main definitions

* `Cursor.past` and `Cursor.newLine` move a cursor.
* `Fault` says why a text is not read.
-/

namespace Defsheet.Yaml

/-- Why a YAML text is not read. -/
inductive Fault where
  | forbiddenCharacter
  | strayCharacter
  | tabIndentation
  | unclosedQuote
  | badEscape
  | badBlockHeader
  | badAnchor
  | badTag
  | badDirective
  | strayColon
  | keyWithoutColon
  | misplacedEntry
  | misplacedKey
  | misplacedValue
  | unknownAnchor
  | unknownTagHandle
  | unexpectedToken
  | severalDocuments
  | tooDeep
  | tooManyReferences
  | localTag
  | tagMismatch
  | integerTooLarge
  | notAMapping
  | notAScalar
deriving DecidableEq

/-- The wording of a fault. -/
def Fault.message : Fault → String
  | forbiddenCharacter => "control characters are not allowed"
  | strayCharacter => "found character that cannot start any token"
  | tabIndentation => "found a tab where indentation is expected"
  | unclosedQuote => "found unexpected end of a quoted scalar"
  | badEscape => "found unknown escape"
  | badBlockHeader => "found malformed header of a block scalar"
  | badAnchor => "found malformed anchor"
  | badTag => "found malformed tag"
  | badDirective => "found malformed directive"
  | strayColon => "found unexpected ':'"
  | keyWithoutColon => "could not find expected ':'"
  | misplacedEntry => "block sequence entries are not allowed in this context"
  | misplacedKey => "mapping keys are not allowed in this context"
  | misplacedValue => "mapping values are not allowed in this context"
  | unknownAnchor => "unknown anchor"
  | unknownTagHandle => "found undefined tag handle"
  | unexpectedToken => "did not find expected node"
  | severalDocuments => "deserializing from YAML containing more than one document is not supported"
  | tooDeep => "recursion limit exceeded"
  | tooManyReferences => "repetition limit exceeded"
  | localTag => "unexpected tag"
  | tagMismatch => "value does not fit its tag"
  | integerTooLarge => "integer is too large"
  | notAMapping => "invalid type: expected a mapping"
  | notAScalar => "invalid type: expected a scalar"

/-! ### Characters -/

/-- Whether the character is a space or a tab. -/
def isWhite (c : Char) : Bool := c = ' ' || c = '\t'

/-- Whether the character ends a line. -/
def isBreak (c : Char) : Bool :=
  c = '\n' || c = '\r' || c = '\x85' || c = '\u2028' || c = '\u2029'

/-- Whether a word ends before what is left. -/
def atWordEnd : List Char → Bool
  | [] => true
  | c :: _ => isWhite c || isBreak c

/-- Whether the character may stand in the names of anchors, tags and directives. -/
def isNameChar (c : Char) : Bool := c.isAlphanum || c = '_' || c = '-'

/-- Whether the character may stand in a YAML text at all. -/
def isAllowed (c : Char) : Bool :=
  c = '\t' || c = '\n' || c = '\r' || (0x20 ≤ c.toNat && c.toNat ≤ 0x7e) || c = '\x85'
    || (0xa0 ≤ c.toNat && c.toNat ≤ 0xfffd) || 0x10000 ≤ c.toNat

/-- The mark that may begin a text. -/
def byteOrderMark : Char := '\ufeff'

/-- What the line break at the front counts as, if there is one. -/
def break? : List Char → Option Char
  | c :: _ =>
    if c = '\u2028' || c = '\u2029' then some c else if isBreak c then some '\n' else none
  | [] => none

/-! ### Cursors -/

/-- A place in a text. -/
structure Cursor where
  rest : List Char
  /-- The number of characters before the place. -/
  index : Nat := 0
  line : Nat := 0
  column : Nat := 0

namespace Cursor

/-- Moves over characters of the same line. -/
def past (c : Cursor) (n : Nat) : Cursor :=
  { c with rest := c.rest.drop n, index := c.index + n, column := c.column + n }

/-- Moves over the characters at the front that satisfy a condition, all on the same line. -/
def pastWhile (c : Cursor) (p : Char → Bool) : Cursor := c.past (c.rest.takeWhile p).length

/-- Moves to `rest`, which begins on the same line. -/
def goTo (c : Cursor) (rest : List Char) : Cursor := c.past (c.rest.length - rest.length)

/-- Moves over the line break at the front. -/
def newLine (c : Cursor) : Cursor :=
  match c.rest with
  | '\r' :: '\n' :: rest => ⟨rest, c.index + 2, c.line + 1, 0⟩
  | _ :: rest => ⟨rest, c.index + 1, c.line + 1, 0⟩
  | [] => c

/-- Whether a line begins here with a mark that begins or ends a document. -/
def atDocumentMark (c : Cursor) : Bool :=
  c.column = 0 &&
    match c.rest with
    | '-' :: '-' :: '-' :: rest => atWordEnd rest
    | '.' :: '.' :: '.' :: rest => atWordEnd rest
    | _ => false

end Cursor

end Defsheet.Yaml

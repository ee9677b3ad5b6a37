import Defsheet.Keyword
import Defsheet.Number.Numeral
import Defsheet.Text.Layout

/-!
# Tokens

A document is read as a sequence of lexemes, each at the position of its first character.
`Lexeme.spelling` is the text that a lexeme takes up, and `Lexeme.describe` the way messages speak
of it. The end of the document is a lexeme too, so that there is always something to point at.
-/

namespace Defsheet

/-- A value together with the place where it stands. -/
structure Located (α : Type) where
  value : α
  position : Position
deriving DecidableEq

namespace Located

/-- The line on which the value stands. -/
def line {α : Type} (x : Located α) : Nat := x.position.line

end Located

/-- The smallest meaningful piece of a document. -/
inductive Lexeme where
  | keyword (k : Keyword)
  | ident (name : String)
  | string (text : String)
  | number (n : Numeral)
  | openBrace
  | closeBrace
  | openParen
  | closeParen
  | dot
  | equals
  | endOfFile
deriving DecidableEq

namespace Lexeme

/-- How messages speak of the lexeme. -/
def describe : Lexeme → String
  | keyword k => "'" ++ k.word ++ "'"
  | ident name => "identifier '" ++ name ++ "'"
  | string text => "string \"" ++ text ++ "\""
  | number n => "number " ++ n.text
  | openBrace => "'\x7b'"
  | closeBrace => "'\x7d'"
  | openParen => "'('"
  | closeParen => "')'"
  | dot => "'.'"
  | equals => "'='"
  | endOfFile => "end of file"

/-- The text that the lexeme takes up in a document. -/
def spelling : Lexeme → List Char
  | keyword k => k.word.toList
  | ident name => name.toList
  | string text => '"' :: (text.toList ++ ['"'])
  | number n => n.spelling
  | openBrace => ['\x7b']
  | closeBrace => ['\x7d']
  | openParen => ['(']
  | closeParen => [')']
  | dot => ['.']
  | equals => ['=']
  | endOfFile => []

end Lexeme

/-- A lexeme and the position of its first character. -/
abbrev Token := Located Lexeme

end Defsheet

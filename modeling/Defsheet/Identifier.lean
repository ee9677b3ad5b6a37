/-!
# Identifiers of generated code

Names written in documents give rise to identifiers in generated Rust code: constants in upper case,
modules in lower case, types as they are. Most reserved words of that language can still be written
as raw identifiers; five identifiers cannot be written at all.

## Main definitions

* `constName` is the constant for a name.
* `moduleName` is the module for a document.
* `foldAcronym` is the module for one segment of a type id.
* `isUnspellable` and `writtenIdent` say whether and how an identifier is written.
-/

namespace Defsheet

/-! ### Spelling -/

/-- The reserved words of generated code. -/
def reservedWords : List String :=
  ["as", "async", "await", "break", "const", "continue", "crate", "dyn", "else", "enum", "extern",
   "false", "fn", "for", "if", "impl", "in", "let", "loop", "match", "mod", "move", "mut", "pub",
   "ref", "return", "self", "Self", "static", "struct", "super", "trait", "true", "type", "unsafe",
   "use", "where", "while", "abstract", "become", "box", "do", "final", "macro", "override", "priv",
   "typeof", "unsized", "virtual", "yield", "try", "gen"]

/-- Whether the word is reserved in generated code. -/
def isReserved (ident : String) : Bool := reservedWords.contains ident

/-- The identifiers that not even a raw identifier can stand for. -/
def unspellableIdents : List String := ["self", "Self", "super", "crate", "_"]

/-- Whether generated code cannot contain the identifier at all. -/
def isUnspellable (ident : String) : Bool := unspellableIdents.contains ident

/-- The identifier as it is written: a reserved word becomes a raw identifier. -/
def writtenIdent (ident : String) : String :=
  if isReserved ident then "r#" ++ ident else ident

/-! ### Constants -/

/-- Whether a word begins at `c`, given the characters around it: after a lower-case letter or a
digit, or at the last capital of a run of capitals. -/
def beginsWord (previous c : Char) (next : Option Char) : Bool :=
  c.isUpper &&
    (previous.isLower || previous.isDigit || (previous.isUpper && next.any Char.isLower))

/-- The part of a constant that comes from the characters after `previous`. -/
def constCharsAfter (previous : Char) : List Char → List Char
  | [] => []
  | c :: cs =>
    let rest := c.toUpper :: constCharsAfter c cs
    if beginsWord previous c cs.head? then '_' :: rest else rest

/-- The characters of the constant for a name. -/
def constChars : List Char → List Char
  | [] => []
  | c :: cs => c.toUpper :: constCharsAfter c cs

/-- The constant for a name: upper case, with an underscore where a word begins. -/
def constName (name : String) : String := String.ofList (constChars name.toList)

/-! ### Modules -/

/-- Whether two neighbouring characters belong to one word of a module name. A word consists of
letters and digits, and a capital after a lower-case letter begins a new one. -/
def sameWord (a b : Char) : Bool :=
  a.isAlphanum && b.isAlphanum && !(a.isLower && b.isUpper)

/-- The words of a document's name, in lower case. -/
def moduleWords (cs : List Char) : List (List Char) :=
  ((cs.splitBy sameWord).filter fun w => w.all Char.isAlphanum).map fun w => w.map Char.toLower

/-- The words joined by underscores. -/
def joinWords (cs : List Char) : List Char :=
  ['_'].intercalate (moduleWords cs)

/-- The module name for a document: its words joined by underscores, kept from beginning with a
digit and from being reserved. It is empty if the name has no letter or digit. -/
def moduleName (document : String) : String :=
  let cs := joinWords document.toList
  let guarded := if (cs.head?.any Char.isDigit) then '_' :: cs else cs
  let name := String.ofList guarded
  if isReserved name then name ++ "_" else name

/-- The module for a segment of a type id: all capitals after the first become lower case if the
segment has no lower-case letter. -/
def foldAcronym (segment : String) : String :=
  let cs := segment.toList
  if cs.any Char.isUpper && !cs.any Char.isLower then
    String.ofList (cs.take 1 ++ (cs.drop 1).map Char.toLower)
  else segment

end Defsheet

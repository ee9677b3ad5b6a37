import Defsheet.Yaml.Scalar

/-!
# Tokens of YAML

In block style the structure of a YAML text lies in its indentation. The scanner makes it explicit:
it puts tokens where a block begins and ends, and a `key` token before a scalar or collection that a
colon turns out to follow on the same line.

## Main definitions

* `Token` is a token.
* `Scanner.fetch` reads one token.
* `tokens` reads a text.
-/

namespace Defsheet.Yaml

/-- A token. -/
inductive Token where
  /-- The version of a directive. -/
  | version (major minor : Nat)
  /-- The short form of tags that a directive introduces. -/
  | handle (name uri : String)
  | documentStart
  | documentEnd
  | sequenceStart
  | mappingStart
  | blockEnd
  | openBracket
  | closeBracket
  | openBrace
  | closeBrace
  | entry
  | comma
  | key
  | value
  | reference (name : String)
  | anchor (name : String)
  | tag (handle suffix : String)
  | scalar (text : String) (plain : Bool)
deriving DecidableEq

/-- A place where a key may have begun: it has, if a colon follows on the same line. -/
structure KeyMark where
  /-- Whether there has to be a key, because the line begins here. -/
  required : Bool
  /-- The number of tokens before it. -/
  tokens : Nat
  index : Nat
  line : Nat
  column : Nat

/-- The state of scanning. -/
structure Scanner where
  cursor : Cursor
  /-- The tokens so far, the last one first. -/
  tokens : List Token := []
  /-- The columns of the blocks around the cursor, the innermost first. -/
  indents : List Int := []
  /-- For each bracket around the cursor, and for what is outside of them, where a key may have
  begun; the innermost first. -/
  keys : List (Option KeyMark) := [none]
  /-- Whether a key may begin here. -/
  keyAllowed : Bool := true

namespace Scanner

/-- Whether there is a bracket around the cursor. -/
def inFlow (s : Scanner) : Bool := 1 < s.keys.length

/-- The column of the innermost block. -/
def indent (s : Scanner) : Int := s.indents.headD (-1)

/-- Adds a token. -/
def emit (s : Scanner) (t : Token) : Scanner := { s with tokens := t :: s.tokens }

/-- Adds a token after the first `n` ones. -/
def insert (s : Scanner) (n : Nat) (t : Token) : Scanner :=
  let later := s.tokens.length - n
  { s with tokens := s.tokens.take later ++ t :: s.tokens.drop later }

/-- Moves on by `n` characters of the line and adds a token. -/
def take (s : Scanner) (n : Nat) (t : Token) : Scanner :=
  { s.emit t with cursor := s.cursor.past n }

/-- Says whether a key may begin next. -/
def allowKey (s : Scanner) (allowed : Bool) : Scanner := { s with keyAllowed := allowed }

/-! ### Blocks and keys -/

/-- Ends the blocks that begin after a column. -/
def closeBlocks (s : Scanner) (column : Int) : Scanner :=
  if s.inFlow then s
  else
    let closed := s.indents.takeWhile fun i => column < i
    { s with
      indents := s.indents.drop closed.length
      tokens := List.replicate closed.length .blockEnd ++ s.tokens }

/-- Begins a block at a column after the first `n` tokens, unless one has begun there. -/
def openBlock (s : Scanner) (column n : Nat) (t : Token) : Scanner :=
  if !s.inFlow && s.indent < column then { s.insert n t with indents := column :: s.indents }
  else s

/-- Gives up the place where a key may have begun. -/
def dropKey (s : Scanner) : Except Fault Scanner :=
  match s.keys with
  | some k :: outer =>
    if k.required then .error .keyWithoutColon else .ok { s with keys := none :: outer }
  | _ => .ok s

/-- Notes that a key may begin at the cursor. -/
def markKey (s : Scanner) : Except Fault Scanner :=
  if s.keyAllowed then
    match s.dropKey with
    | .error e => .error e
    | .ok s =>
      let c := s.cursor
      let k : KeyMark :=
        ⟨!s.inFlow && s.indent = c.column, s.tokens.length, c.index, c.line, c.column⟩
      .ok { s with keys := some k :: s.keys.drop 1 }
  else .ok s

/-- Gives up the places that are on another line or too far away. -/
def dropStaleKeys (s : Scanner) : Except Fault Scanner :=
  let isStale := fun (k : KeyMark) => k.line < s.cursor.line || k.index + 1024 < s.cursor.index
  if s.keys.any fun k => k.any fun k => isStale k && k.required then .error .keyWithoutColon
  else .ok { s with keys := s.keys.map fun k => k.filter fun k => !isStale k }

/-! ### Tokens -/

/-- Moves to the next token, over white space, comments and line breaks. -/
def skipLayout : Nat → Scanner → Scanner
  | 0, s => s
  | fuel + 1, s =>
    let c := s.cursor
    let c := if c.column = 0 && c.rest.head? = some byteOrderMark then c.past 1 else c
    let c := c.pastWhile fun ch => ch = ' ' || ((s.inFlow || !s.keyAllowed) && ch = '\t')
    let c := if c.rest.head? = some '#' then c.pastWhile fun ch => !isBreak ch else c
    if (break? c.rest).isSome then
      skipLayout fuel { s with cursor := c.newLine, keyAllowed := s.keyAllowed || !s.inFlow }
    else { s with cursor := c }

/-- Reads a token that begins or ends a document. -/
def fetchDocumentMark (s : Scanner) (t : Token) : Except Fault Scanner := do
  let s ← (s.closeBlocks (-1)).dropKey
  pure ((s.allowKey false).take 3 t)

/-- Reads an opening bracket. -/
def fetchOpening (s : Scanner) (t : Token) : Except Fault Scanner := do
  let s ← s.markKey
  pure { (s.allowKey true).take 1 t with keys := none :: s.keys }

/-- Reads a closing bracket. -/
def fetchClosing (s : Scanner) (t : Token) : Except Fault Scanner := do
  let s ← s.dropKey
  let keys := if s.inFlow then s.keys.drop 1 else s.keys
  pure { (s.allowKey false).take 1 t with keys := keys }

/-- Reads a comma. -/
def fetchComma (s : Scanner) : Except Fault Scanner := do
  let s ← s.dropKey
  pure ((s.allowKey true).take 1 .comma)

/-- Reads the dash of a block entry. -/
def fetchEntry (s : Scanner) : Except Fault Scanner := do
  if !s.inFlow && !s.keyAllowed then throw .misplacedEntry
  let s ← (s.openBlock s.cursor.column s.tokens.length .sequenceStart).dropKey
  pure ((s.allowKey true).take 1 .entry)

/-- Reads a question mark before a key. -/
def fetchKey (s : Scanner) : Except Fault Scanner := do
  if !s.inFlow && !s.keyAllowed then throw .misplacedKey
  let s ← (s.openBlock s.cursor.column s.tokens.length .mappingStart).dropKey
  pure ((s.allowKey !s.inFlow).take 1 .key)

/-- Reads the colon before a value. -/
def fetchValue (s : Scanner) : Except Fault Scanner := do
  match s.keys with
  | some k :: outer =>
    let s := (s.insert k.tokens .key).openBlock k.column k.tokens .mappingStart
    pure { (s.allowKey false).take 1 .value with keys := none :: outer }
  | _ =>
    if !s.inFlow && !s.keyAllowed then throw .misplacedValue
    let s := s.openBlock s.cursor.column s.tokens.length .mappingStart
    pure ((s.allowKey !s.inFlow).take 1 .value)

/-- Reads an anchor or a reference to one. -/
def fetchAnchor (s : Scanner) (t : String → Token) : Except Fault Scanner := do
  let s ← s.markKey
  let name := (s.cursor.rest.drop 1).takeWhile isNameChar
  let rest := s.cursor.rest.drop (name.length + 1)
  let ended := atWordEnd rest || rest.head?.any fun c => "?:,]\x7d%@`".toList.contains c
  if name.isEmpty || !ended then throw .badAnchor
  pure ((s.allowKey false).take (name.length + 1) (t (String.ofList name)))

/-! ### Tags and directives -/

/-- Whether the character may stand in a tag. Commas and brackets may only where the tag is written
between angle brackets. -/
def isTagChar (verbatim : Bool) (c : Char) : Bool :=
  isNameChar c || ";/?:@&=+$.!~*'()%".toList.contains c || (verbatim && ",[]".toList.contains c)

/-- Replaces percent escapes by the bytes that they stand for. -/
def tagBytes : List Char → Option (List UInt8)
  | '%' :: a :: b :: cs =>
    match hexValue? a, hexValue? b, tagBytes cs with
    | some x, some y, some more => some (UInt8.ofNat (16 * x + y) :: more)
    | _, _, _ => none
  | c :: cs => if c = '%' then none else (tagBytes cs).map (UInt8.ofNat c.toNat :: ·)
  | [] => some []

/-- The text of a tag whose characters were read. -/
def tagText (cs : List Char) : Except Fault String :=
  match (tagBytes cs).bind fun bytes => String.fromUTF8? ⟨bytes.toArray⟩ with
  | some text => .ok text
  | none => .error .badTag

/-- A tag and the number of its characters. -/
structure WrittenTag where
  handle : String
  suffix : String
  size : Nat

/-- Reads a tag from its exclamation mark on. -/
def readTag (cs : List Char) : Except Fault WrittenTag := do
  let body := cs.drop 1
  match body with
  | '<' :: inner =>
    let uri := inner.takeWhile (isTagChar true)
    if uri.isEmpty || (inner.drop uri.length).head? ≠ some '>' then throw .badTag
    pure ⟨"", ← tagText uri, uri.length + 3⟩
  | _ =>
    let name := body.takeWhile isNameChar
    match body.drop name.length with
    | '!' :: rest =>
      let suffix := rest.takeWhile (isTagChar false)
      if suffix.isEmpty then throw .badTag
      pure ⟨String.ofList ('!' :: name ++ ['!']), ← tagText suffix, name.length + suffix.length + 2⟩
    | _ =>
      let suffix := body.takeWhile (isTagChar false)
      if suffix.isEmpty then pure ⟨"", "!", 1⟩
      else pure ⟨"!", ← tagText suffix, suffix.length + 1⟩

/-- Reads a tag. -/
def fetchTag (s : Scanner) : Except Fault Scanner := do
  let s ← s.markKey
  let t ← readTag s.cursor.rest
  let rest := s.cursor.rest.drop t.size
  if !(atWordEnd rest || (s.inFlow && rest.head? = some ',')) then throw .badTag
  pure ((s.allowKey false).take t.size (.tag t.handle t.suffix))

/-- Reads a number of at most nine digits. -/
def readVersionPart (cs : List Char) : Except Fault (Nat × List Char) :=
  let digits := cs.takeWhile Char.isDigit
  if digits.isEmpty || 9 < digits.length then .error .badDirective
  else .ok (digits.foldl (fun n c => 10 * n + (c.toNat - '0'.toNat)) 0, cs.drop digits.length)

/-- Reads the version of a directive. -/
def readVersion (cs : List Char) : Except Fault (Token × List Char) := do
  let (major, rest) ← readVersionPart cs
  match rest with
  | '.' :: rest =>
    let (minor, rest) ← readVersionPart rest
    pure (.version major minor, rest)
  | _ => throw .badDirective

/-- Reads the handle and the meaning of a directive for tags. -/
def readHandle (cs : List Char) : Except Fault (Token × List Char) := do
  match cs with
  | '!' :: rest =>
    let name := rest.takeWhile isNameChar
    let rest := rest.drop name.length
    let closed := rest.head? = some '!'
    if !name.isEmpty && !closed then throw .badDirective
    let rest := if closed then rest.drop 1 else rest
    if !rest.head?.any isWhite then throw .badDirective
    let rest := rest.dropWhile isWhite
    let uri := rest.takeWhile (isTagChar true)
    let rest := rest.drop uri.length
    if uri.isEmpty || !atWordEnd rest then throw .badDirective
    let handle := '!' :: (name ++ if closed then ['!'] else [])
    pure (.handle (String.ofList handle) (← tagText uri), rest)
  | _ => throw .badDirective

/-- Reads a directive. -/
def fetchDirective (s : Scanner) : Except Fault Scanner := do
  let s ← (s.closeBlocks (-1)).dropKey
  let body := s.cursor.rest.drop 1
  let name := body.takeWhile isNameChar
  let rest := body.drop name.length
  if !atWordEnd rest then throw .badDirective
  let value := rest.dropWhile isWhite
  let (token, rest) ← match String.ofList name with
    | "YAML" => readVersion value
    | "TAG" => readHandle value
    | _ => throw .badDirective
  let rest := rest.dropWhile isWhite
  let rest := if rest.head? = some '#' then rest.dropWhile fun ch => !isBreak ch else rest
  if !rest.isEmpty && (break? rest).isNone then throw .badDirective
  pure { (s.allowKey false).emit token with cursor := (s.cursor.goTo rest).newLine }

/-! ### Scalars -/

/-- Reads a plain scalar. -/
def fetchPlain (s : Scanner) : Except Fault Scanner := do
  let s ← s.markKey
  let p ← plainScalar s.inFlow (s.indent + 1).toNat s.cursor
  pure { s.emit (.scalar (String.ofList p.text) true) with
    cursor := p.cursor
    keyAllowed := p.leftLine }

/-- Reads a quoted scalar. -/
def fetchQuoted (s : Scanner) (q : Quote) : Except Fault Scanner := do
  let s ← s.markKey
  let (text, after) ← quotedScalar q s.cursor
  pure { s.emit (.scalar (String.ofList text) false) with
    cursor := after
    keyAllowed := false }

/-- Reads a block scalar. -/
def fetchBlock (s : Scanner) (literal : Bool) : Except Fault Scanner := do
  let s ← s.dropKey
  let (text, after) ← blockScalar literal s.indent s.cursor
  pure { s.emit (.scalar (String.ofList text) false) with
    cursor := after
    keyAllowed := true }

/-- Whether a plain scalar may begin with `c`, which `rest` follows. -/
def beginsPlain (inFlow : Bool) (c : Char) (rest : List Char) : Bool :=
  !(isWhite c || isBreak c || isFlowMark c || "-?:#&*!|>'\"%@`".toList.contains c)
    || (c = '-' && !rest.head?.any isWhite)
    || (!inFlow && (c = '?' || c = ':') && !atWordEnd rest)

/-- Reads the token that begins with `c`, which `rest` follows. -/
def fetch (s : Scanner) (c : Char) (rest : List Char) : Except Fault Scanner :=
  let spaced := atWordEnd rest
  if s.cursor.column = 0 && c = '%' then s.fetchDirective
  else if s.cursor.atDocumentMark then
    s.fetchDocumentMark (if c = '-' then .documentStart else .documentEnd)
  else if c = '[' then s.fetchOpening .openBracket
  else if c = '\x7b' then s.fetchOpening .openBrace
  else if c = ']' then s.fetchClosing .closeBracket
  else if c = '\x7d' then s.fetchClosing .closeBrace
  else if c = ',' then s.fetchComma
  else if c = '-' && spaced then s.fetchEntry
  else if c = '?' && (s.inFlow || spaced) then s.fetchKey
  else if c = ':' && (s.inFlow || spaced) then s.fetchValue
  else if c = '*' then s.fetchAnchor .reference
  else if c = '&' then s.fetchAnchor .anchor
  else if c = '!' then s.fetchTag
  else if c = '|' && !s.inFlow then s.fetchBlock true
  else if c = '>' && !s.inFlow then s.fetchBlock false
  else if c = '\'' then s.fetchQuoted .single
  else if c = '"' then s.fetchQuoted .double
  else if beginsPlain s.inFlow c rest then s.fetchPlain
  else .error .strayCharacter

/-- Reads tokens to the end. -/
def run : Nat → Scanner → Except Fault (List Token)
  | 0, s => .ok s.tokens.reverse
  | fuel + 1, s => do
    let s ← (skipLayout (s.cursor.rest.length + 1) s).dropStaleKeys
    let s := s.closeBlocks s.cursor.column
    match s.cursor.rest with
    | [] =>
      let s ← (s.closeBlocks (-1)).dropKey
      pure s.tokens.reverse
    | c :: rest => run fuel (← s.fetch c rest)

end Scanner

/-- The tokens of a text. -/
def tokens (text : String) : Except Fault (List Token) :=
  let cs := text.toList
  let cs := if cs.head? = some byteOrderMark then cs.drop 1 else cs
  if cs.all isAllowed then Scanner.run (cs.length + 1) { cursor := { rest := cs } }
  else .error .forbiddenCharacter

end Defsheet.Yaml

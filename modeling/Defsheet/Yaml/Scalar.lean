import Defsheet.Yaml.Cursor

/-!
# Scalars of YAML

A scalar is plain, quoted or a block. Plain and quoted scalars fold lines: a single line break
becomes a space, and of several ones the first is dropped. A block keeps its lines or folds those
that are not indented further.

## Main definitions

* `plainScalar`, `quotedScalar` and `blockScalar` read a scalar at a cursor.
-/

namespace Defsheet.Yaml

/-! ### Gaps between words -/

/-- The line breaks at a cursor, each with the white space that begins the next line. -/
def lineStarts : Nat → Cursor → List (Char × List Char) × Cursor
  | 0, c => ([], c)
  | fuel + 1, c =>
    match break? c.rest with
    | none => ([], c)
    | some b =>
      let next := c.newLine
      let (more, after) := lineStarts fuel (next.pastWhile isWhite)
      ((b, next.rest.takeWhile isWhite) :: more, after)

/-- White space and line breaks between two words of a scalar. -/
structure Gap where
  spaces : List Char := []
  starts : List (Char × List Char) := []

namespace Gap

/-- The gap at a cursor. -/
def read (c : Cursor) : Gap × Cursor :=
  let (starts, after) := lineStarts c.rest.length (c.pastWhile isWhite)
  (⟨c.rest.takeWhile isWhite, starts⟩, after)

/-- The line breaks of a gap. -/
def breaks (g : Gap) : List Char := g.starts.map Prod.fst

/-- What a gap stands for. -/
def folded (g : Gap) : List Char :=
  match g.breaks with
  | [] => g.spaces
  | ['\n'] => [' ']
  | '\n' :: more => more
  | all => all

/-- Whether a line of the gap has a tab before the given column. -/
def hasTabBefore (g : Gap) (column : Nat) : Bool :=
  g.starts.any fun (_, white) => (white.take column).contains '\t'

end Gap

/-! ### Plain scalars -/

/-- The characters with a meaning of their own between brackets. -/
def isFlowMark (c : Char) : Bool :=
  c = ',' || c = '[' || c = ']' || c = '\x7b' || c = '\x7d'

/-- Whether a plain scalar ends before `c`, which `rest` follows. -/
def endsPlain (inFlow : Bool) (c : Char) (rest : List Char) : Bool :=
  isWhite c || isBreak c || (inFlow && isFlowMark c)
    || (c = ':' && (atWordEnd rest || (inFlow && rest.head?.any fun n => isFlowMark n || n = '?')))

/-- The word of a plain scalar at the front. -/
def plainWord (inFlow : Bool) : List Char → List Char
  | [] => []
  | c :: cs => if endsPlain inFlow c cs then [] else c :: plainWord inFlow cs

/-- A scalar, where it ends, and whether the line it ended on was left. -/
structure PlainScalar where
  text : List Char
  cursor : Cursor
  leftLine : Bool

/-- Reads on in a plain scalar; `gap` stands between `text` and the cursor. -/
def plainFrom (inFlow : Bool) (indent : Nat) :
    Nat → List Char → Gap → Cursor → Except Fault PlainScalar
  | 0, text, gap, c => .ok ⟨text, c, !gap.starts.isEmpty⟩
  | fuel + 1, text, gap, c =>
    if c.atDocumentMark || c.rest.head? = some '#' then .ok ⟨text, c, !gap.starts.isEmpty⟩
    else
      let word := plainWord inFlow c.rest
      let after := c.past word.length
      match after.rest with
      | ':' :: next =>
        if atWordEnd next then
          if word.isEmpty then .ok ⟨text, c, !gap.starts.isEmpty⟩
          else .ok ⟨text ++ gap.folded ++ word, after, false⟩
        else .error .strayColon
      | rest =>
        if word.isEmpty then .ok ⟨text, c, !gap.starts.isEmpty⟩
        else
          let text := text ++ gap.folded ++ word
          match rest with
          | [] => .ok ⟨text, after, false⟩
          | n :: _ =>
            if isWhite n || isBreak n then
              let (gap, start) := Gap.read after
              if gap.hasTabBefore indent then .error .tabIndentation
              else if !inFlow && start.column < indent then
                .ok ⟨text, start, !gap.starts.isEmpty⟩
              else plainFrom inFlow indent fuel text gap start
            else .ok ⟨text, after, false⟩

/-- Reads a plain scalar, whose lines after the first begin at column `indent` or later. -/
def plainScalar (inFlow : Bool) (indent : Nat) (c : Cursor) : Except Fault PlainScalar :=
  plainFrom inFlow indent (c.rest.length + 1) [] {} c

/-! ### Quoted scalars -/

/-- The value of a hexadecimal digit. -/
def hexValue? (c : Char) : Option Nat :=
  if c.isDigit then some (c.toNat - '0'.toNat)
  else if 'a' ≤ c && c ≤ 'f' then some (c.toNat - 'a'.toNat + 10)
  else if 'A' ≤ c && c ≤ 'F' then some (c.toNat - 'A'.toNat + 10)
  else none

/-- Reads `n` hexadecimal digits. -/
def hexNumber (n : Nat) (cs : List Char) : Option (Nat × List Char) :=
  match (cs.take n).mapM hexValue? with
  | some ds => if ds.length = n then some (ds.foldl (fun v d => 16 * v + d) 0, cs.drop n) else none
  | none => none

/-- Reads a character given by `n` hexadecimal digits. -/
def hexChar (n : Nat) (cs : List Char) : Except Fault (Char × List Char) :=
  match hexNumber n cs with
  | some (v, rest) => if v.isValidChar then .ok (Char.ofNat v, rest) else .error .badEscape
  | none => .error .badEscape

/-- Reads what follows the backslash of an escape. -/
def readEscape : List Char → Except Fault (Char × List Char)
  | [] => .error .badEscape
  | c :: cs =>
    match c with
    | '0' => .ok ('\x00', cs)
    | 'a' => .ok ('\x07', cs)
    | 'b' => .ok ('\x08', cs)
    | 't' => .ok ('\t', cs)
    | '\t' => .ok ('\t', cs)
    | 'n' => .ok ('\n', cs)
    | 'v' => .ok ('\x0b', cs)
    | 'f' => .ok ('\x0c', cs)
    | 'r' => .ok ('\r', cs)
    | 'e' => .ok ('\x1b', cs)
    | ' ' => .ok (' ', cs)
    | '"' => .ok ('"', cs)
    | '/' => .ok ('/', cs)
    | '\\' => .ok ('\\', cs)
    | 'N' => .ok ('\x85', cs)
    | '_' => .ok ('\xa0', cs)
    | 'L' => .ok ('\u2028', cs)
    | 'P' => .ok ('\u2029', cs)
    | 'x' => hexChar 2 cs
    | 'u' => hexChar 4 cs
    | 'U' => hexChar 8 cs
    | _ => .error .badEscape

/-- The two ways to quote. -/
inductive Quote where
  | single
  | double
deriving DecidableEq

/-- The character that begins and ends a quoted scalar. -/
def Quote.mark : Quote → Char
  | single => '\''
  | double => '"'

/-- A word of a quoted scalar, what follows it, and whether a backslash before a line break ends
it. -/
structure QuotedWord where
  text : List Char
  rest : List Char
  escapedBreak : Bool := false

/-- Adds a character in front of a word. -/
def QuotedWord.cons (c : Char) (w : QuotedWord) : QuotedWord := { w with text := c :: w.text }

/-- Reads a word of a quoted scalar. -/
def quotedWord (q : Quote) : Nat → List Char → Except Fault QuotedWord
  | 0, cs => .ok ⟨[], cs, false⟩
  | _, [] => .ok ⟨[], [], false⟩
  | fuel + 1, c :: cs =>
    if isWhite c || isBreak c then .ok ⟨[], c :: cs, false⟩
    else if c = q.mark then
      if q = .single && cs.head? = some '\'' then
        (quotedWord q fuel (cs.drop 1)).map (QuotedWord.cons '\'')
      else .ok ⟨[], c :: cs, false⟩
    else if q = .double && c = '\\' then
      if (break? cs).isSome then .ok ⟨[], cs, true⟩
      else
        match readEscape cs with
        | .ok (e, rest) => (quotedWord q fuel rest).map (QuotedWord.cons e)
        | .error e => .error e
    else (quotedWord q fuel cs).map (QuotedWord.cons c)

/-- Reads on in a quoted scalar. -/
def quotedFrom (q : Quote) : Nat → List Char → Cursor → Except Fault (List Char × Cursor)
  | 0, _, _ => .error .unclosedQuote
  | fuel + 1, text, c =>
    if c.atDocumentMark || c.rest.isEmpty then .error .unclosedQuote
    else
      match quotedWord q c.rest.length c.rest with
      | .error e => .error e
      | .ok word =>
        let after := c.goTo word.rest
        let text := text ++ word.text
        if word.escapedBreak then
          let next := after.newLine
          if next.rest.head? = some q.mark then .ok (text, next.past 1)
          else
            let (gap, start) := Gap.read next
            quotedFrom q fuel (text ++ gap.breaks) start
        else if after.rest.head? = some q.mark then .ok (text, after.past 1)
        else
          let (gap, start) := Gap.read after
          quotedFrom q fuel (text ++ gap.folded) start

/-- Reads a quoted scalar from its first quote on. -/
def quotedScalar (q : Quote) (c : Cursor) : Except Fault (List Char × Cursor) :=
  quotedFrom q (c.rest.length + 1) [] (c.past 1)

/-! ### Block scalars -/

/-- What becomes of the line breaks at the end of a block. -/
inductive Chomping where
  | strip
  | clip
  | keep
deriving DecidableEq

/-- The header of a block: what becomes of its end, and how far it is indented if that is said. -/
structure BlockHeader where
  chomping : Chomping := .clip
  increment : Nat := 0

/-- How a sign in a header treats the end of a block. -/
def chomping? : Char → Option Chomping
  | '+' => some .keep
  | '-' => some .strip
  | _ => none

/-- The digit of a header, which is not zero. -/
def increment? (c : Char) : Option Nat :=
  if c.isDigit && c ≠ '0' then some (c.toNat - '0'.toNat) else none

/-- Reads the header of a block, where sign and digit stand in either order. A zero is left for the
check of the rest of the line. -/
def blockHeader : List Char → BlockHeader × Nat
  | [] => ({}, 0)
  | c :: cs =>
    match chomping? c, increment? c with
    | some ch, _ =>
      match cs.head?.bind increment? with
      | some n => (⟨ch, n⟩, 2)
      | none => (⟨ch, 0⟩, 1)
    | none, some n =>
      match cs.head?.bind chomping? with
      | some ch => (⟨ch, n⟩, 2)
      | none => (⟨.clip, n⟩, 1)
    | none, none => ({}, 0)

/-- Line breaks before a line of a block, where that line begins, and the furthest column that was
reached. -/
structure BlockBreaks where
  breaks : List Char
  cursor : Cursor
  reach : Nat

/-- Reads the line breaks before a line of a block. Up to column `indent`, or up to any column if
that is zero, lines begin with spaces only. -/
def blockBreaks (indent : Nat) : Nat → Cursor → Except Fault BlockBreaks
  | 0, c => .ok ⟨[], c, c.column⟩
  | fuel + 1, c =>
    let spaces := (c.rest.takeWhile (· = ' ')).length
    let c := c.past (if indent = 0 then spaces else min spaces (indent - c.column))
    if c.rest.head? = some '\t' && (indent = 0 || c.column < indent) then .error .tabIndentation
    else
      match break? c.rest with
      | none => .ok ⟨[], c, c.column⟩
      | some b =>
        match blockBreaks indent fuel c.newLine with
        | .error e => .error e
        | .ok more => .ok ⟨b :: more.breaks, more.cursor, max c.column more.reach⟩

/-- What stands before a line of a block: the break of the line before it, empty lines, and whether
the line before it began with white space. -/
structure BlockGap where
  first : List Char := []
  more : List Char
  afterWhite : Bool := false

/-- What the gap stands for before a line. -/
def BlockGap.text (literal : Bool) (g : BlockGap) (beforeWhite : Bool) : List Char :=
  if !literal && g.first = ['\n'] && !g.afterWhite && !beforeWhite then
    if g.more.isEmpty then [' '] else g.more
  else g.first ++ g.more

/-- Reads the lines of a block. -/
def blockLines (literal : Bool) (indent : Nat) (chomping : Chomping) :
    Nat → List Char → BlockGap → Cursor → Except Fault (List Char × Cursor)
  | 0, text, _, c => .ok (text, c)
  | fuel + 1, text, gap, c =>
    if c.column = indent && !c.rest.isEmpty then
      let white := c.rest.head?.any isWhite
      let line := c.rest.takeWhile fun ch => !isBreak ch
      let after := c.past line.length
      let first := (break? after.rest).toList
      match blockBreaks indent (after.rest.length + 1) after.newLine with
      | .error e => .error e
      | .ok next =>
        blockLines literal indent chomping fuel (text ++ gap.text literal white ++ line)
          ⟨first, next.breaks, white⟩ next.cursor
    else
      let last := match chomping with
        | .strip => []
        | .clip => gap.first
        | .keep => gap.first ++ gap.more
      .ok (text ++ last, c)

/-- Reads a block from its indicator on. `indent` is the column of the collection around it, which
is negative outside of all collections. -/
def blockScalar (literal : Bool) (indent : Int) (c : Cursor) :
    Except Fault (List Char × Cursor) :=
  let c := c.past 1
  let (header, size) := blockHeader c.rest
  let c := (c.past size).pastWhile isWhite
  let c := if c.rest.head? = some '#' then c.pastWhile fun ch => !isBreak ch else c
  if !c.rest.isEmpty && (break? c.rest).isNone then .error .badBlockHeader
  else
    let c := c.newLine
    let given := if header.increment = 0 then 0 else indent.toNat + header.increment
    match blockBreaks given (c.rest.length + 1) c with
    | .error e => .error e
    | .ok start =>
      let column := if given = 0 then max (max start.reach (indent + 1).toNat) 1 else given
      blockLines literal column header.chomping (c.rest.length + 1) [] ⟨[], start.breaks, false⟩
        start.cursor

end Defsheet.Yaml

import Defsheet.Yaml.Token

/-!
# Nodes of YAML

A YAML document is a tree of scalars, sequences and mappings. A node may have an anchor, and a
reference stands for the node with an anchor that was named before it.

## Main definitions

* `Node` is a node, `Document` a tree with its anchors.
* `Document.ofText?` reads a text with at most one document.
-/

namespace Defsheet.Yaml

/-- A node. A reference gives the number of an anchor. -/
inductive Node where
  | scalar (text : String) (plain : Bool) (tag : Option String)
  | sequence (tag : Option String) (items : List Node)
  | mapping (tag : Option String) (pairs : List (Node × Node))
  | reference (anchor : Nat)

namespace Node

/-- The node that stands where nothing is written. -/
def empty : Node := scalar "" true none

end Node

/-- The anchors of a document. -/
structure Anchors where
  /-- The number of each anchor, by its name. A name that is given again gets a new number. -/
  numbers : List (String × Nat) := []
  /-- For each number the place of its node among all nodes with an anchor, the last one first. -/
  places : List (Nat × Nat) := []
  /-- The nodes with an anchor, by their place. -/
  nodes : List (Nat × Node) := []

namespace Anchors

/-- Gives an anchor to the next node and tells the place of that node. The number is that of names
given so far. -/
def declare (a : Anchors) (name : String) : Nat × Anchors :=
  let number := a.numbers.length
  let place := a.places.length
  (place, { a with
    numbers := (name, number) :: a.numbers.filter fun x => x.1 ≠ name
    places := (number, place) :: a.places })

/-- Sets the node at a place. -/
def define (a : Anchors) (place : Nat) (n : Node) : Anchors :=
  { a with nodes := (place, n) :: a.nodes }

/-- The node that a number stands for. -/
def get? (a : Anchors) (number : Nat) : Option Node :=
  (a.places.lookup number).bind fun place => a.nodes.lookup place

end Anchors

/-- A document: its tree, its anchors, and the number of things in it, where a collection counts
twice. -/
structure Document where
  root : Node
  anchors : Anchors
  size : Nat

/-! ### Reading nodes -/

/-- The state of reading nodes. -/
structure NodeState where
  tokens : List Token
  /-- What the short forms of tags stand for. -/
  handles : List (String × String)
  anchors : Anchors := {}
  size : Nat := 0

/-- Reading nodes from tokens. -/
abbrev NodeReader := StateT NodeState (Except Fault)

/-- The next token. -/
def peek : NodeReader (Option Token) := do return (← get).tokens.head?

/-- Moves on by one token. -/
def advance : NodeReader Unit := modify fun s => { s with tokens := s.tokens.drop 1 }

/-- Moves on by one token if it is the given one, and tells whether it was. -/
def accept (t : Token) : NodeReader Bool := do
  if (← peek) = some t then
    advance
    return true
  else return false

/-- Whether the next token is one of some. -/
def isNext (ts : List Token) : NodeReader Bool := do
  return (← peek).any fun t => ts.contains t

/-- Counts things in the document. -/
def count (n : Nat) : NodeReader Unit := modify fun s => { s with size := s.size + n }

/-- Reads an anchor, if there is one. -/
def readAnchor : NodeReader (Option String) := do
  match ← peek with
  | some (.anchor name) =>
    advance
    return some name
  | _ => return none

/-- Reads a tag, if there is one. -/
def readTag : NodeReader (Option String) := do
  match ← peek with
  | some (.tag handle suffix) =>
    advance
    if handle = "" then return some suffix
    match (← get).handles.lookup handle with
    | some uri => return some (uri ++ suffix)
    | none => throw .unknownTagHandle
  | _ => return none

/-- The anchor and the tag of a node, in either order. -/
def readProperties : NodeReader (Option String × Option String) := do
  match ← readAnchor with
  | some name => return (some name, ← readTag)
  | none =>
    match ← readTag with
    | some tag => return (← readAnchor, some tag)
    | none => return (none, none)

/-- Gives the anchor to the node that a reader reads. -/
def anchored (anchor : Option String) (r : NodeReader Node) : NodeReader Node := do
  match anchor with
  | none => r
  | some name =>
    let (place, anchors) := (← get).anchors.declare name
    modify fun s => { s with anchors := anchors }
    let n ← r
    modify fun s => { s with anchors := s.anchors.define place n }
    return n

/-- A scalar. A tag that is a mere exclamation mark says nothing. -/
def scalarNode (text : String) (plain : Bool) (tag : Option String) : NodeReader Node := do
  count 1
  return .scalar text plain (tag.filter fun t => t ≠ "!")

/-- Nothing where a node could be. -/
def emptyNode : NodeReader Node := do
  count 1
  return .empty

/-- Reads a reference. -/
def referenceNode (name : String) : NodeReader Node := do
  advance
  count 1
  match (← get).anchors.numbers.lookup name with
  | some number => return .reference number
  | none => throw .unknownAnchor

mutual

/-- Reads a node. Blocks may begin only where `block` says so, and the entries of a sequence may
stand at the column of the key before them only where `flush` says so. -/
def readNode (block flush : Bool) : Nat → NodeReader Node
  | 0 => throw .tooDeep
  | fuel + 1 => do
    match ← peek with
    | some (.reference name) => referenceNode name
    | _ =>
      let (anchor, tag) ← readProperties
      anchored anchor do
        match ← peek with
        | some (.scalar text plain) =>
          advance
          scalarNode text plain tag
        | some .openBracket =>
          advance
          count 2
          return .sequence tag (← readFlowItems true fuel)
        | some .openBrace =>
          advance
          count 2
          return .mapping tag (← readFlowPairs true fuel)
        | some .entry =>
          if flush then
            count 2
            return .sequence tag (← readFlushItems fuel)
          else if anchor.isSome || tag.isSome then scalarNode "" true tag
          else throw .unexpectedToken
        | some .sequenceStart =>
          if block then
            advance
            count 2
            return .sequence tag (← readBlockItems fuel)
          else if anchor.isSome || tag.isSome then scalarNode "" true tag
          else throw .unexpectedToken
        | some .mappingStart =>
          if block then
            advance
            count 2
            return .mapping tag (← readBlockPairs fuel)
          else if anchor.isSome || tag.isSome then scalarNode "" true tag
          else throw .unexpectedToken
        | _ =>
          if anchor.isSome || tag.isSome then scalarNode "" true tag
          else throw .unexpectedToken

/-- Reads the entries of a sequence in block style. -/
def readBlockItems : Nat → NodeReader (List Node)
  | 0 => throw .tooDeep
  | fuel + 1 => do
    if ← accept .entry then
      let item ← if ← isNext [.entry, .blockEnd] then emptyNode else readNode true false fuel
      return item :: (← readBlockItems fuel)
    else if ← accept .blockEnd then return []
    else throw .unexpectedToken

/-- Reads the entries of a sequence that stand at the column of the key before them. -/
def readFlushItems : Nat → NodeReader (List Node)
  | 0 => throw .tooDeep
  | fuel + 1 => do
    if ← accept .entry then
      let item ←
        if ← isNext [.entry, .key, .value, .blockEnd] then emptyNode else readNode true false fuel
      return item :: (← readFlushItems fuel)
    else return []

/-- Reads the pairs of a mapping in block style. -/
def readBlockPairs : Nat → NodeReader (List (Node × Node))
  | 0 => throw .tooDeep
  | fuel + 1 => do
    if ← accept .key then
      let key ← if ← isNext [.key, .value, .blockEnd] then emptyNode else readNode true true fuel
      let value ←
        if ← accept .value then
          if ← isNext [.key, .value, .blockEnd] then emptyNode else readNode true true fuel
        else emptyNode
      return (key, value) :: (← readBlockPairs fuel)
    else if ← accept .blockEnd then return []
    else throw .unexpectedToken

/-- Reads the entries of a sequence between brackets. A pair among them is a mapping of its own. If
nothing stands for the key of a pair, the token after the key mark is passed over. -/
def readFlowItems (first : Bool) : Nat → NodeReader (List Node)
  | 0 => throw .tooDeep
  | fuel + 1 => do
    if ← accept .closeBracket then return []
    if !first then
      if !(← accept .comma) then throw .unexpectedToken
    if ← accept .closeBracket then return []
    let item ←
      if ← accept .key then
        count 2
        let key ←
          if ← isNext [.value, .comma, .closeBracket] then
            advance
            emptyNode
          else readNode false false fuel
        let value ←
          if ← accept .value then
            if ← isNext [.comma, .closeBracket] then emptyNode else readNode false false fuel
          else emptyNode
        pure (.mapping none [(key, value)])
      else readNode false false fuel
    return item :: (← readFlowItems false fuel)

/-- Reads the pairs of a mapping between braces. -/
def readFlowPairs (first : Bool) : Nat → NodeReader (List (Node × Node))
  | 0 => throw .tooDeep
  | fuel + 1 => do
    if ← accept .closeBrace then return []
    if !first then
      if !(← accept .comma) then throw .unexpectedToken
    if ← accept .closeBrace then return []
    if ← accept .key then
      let key ←
        if ← isNext [.value, .comma, .closeBrace] then emptyNode else readNode false false fuel
      let value ←
        if ← accept .value then
          if ← isNext [.comma, .closeBrace] then emptyNode else readNode false false fuel
        else emptyNode
      return (key, value) :: (← readFlowPairs false fuel)
    else
      let key ← readNode false false fuel
      let value ← emptyNode
      return (key, value) :: (← readFlowPairs false fuel)

end

/-! ### Documents -/

/-- The short forms of tags that need no directive. -/
def standardHandles : List (String × String) := [("!", "!"), ("!!", "tag:yaml.org,2002:")]

/-- Reads directives; each may stand once, and only versions 1.1 and 1.2 are known. -/
def readDirectives (versionSeen : Bool) (handles : List (String × String)) :
    List Token → Except Fault (List (String × String) × List Token)
  | .version major minor :: ts =>
    if versionSeen || major ≠ 1 || (minor ≠ 1 && minor ≠ 2) then .error .badDirective
    else readDirectives true handles ts
  | .handle name uri :: ts =>
    if (handles.lookup name).isSome then .error .badDirective
    else readDirectives versionSeen ((name, uri) :: handles) ts
  | ts => .ok (handles, ts)

/-- Whether the token ends or begins a document. -/
def Token.isBoundary : Token → Bool
  | version .. | handle .. | documentStart | documentEnd => true
  | _ => false

/-- Reads a node in block style from tokens. -/
def readRoot (handles : List (String × String)) (ts : List Token) :
    Except Fault (Document × List Token) :=
  match (readNode true false (4 * ts.length + 4)).run ⟨ts, handles ++ standardHandles, {}, 0⟩ with
  | .ok (root, s) => .ok (⟨root, s.anchors, s.size⟩, s.tokens)
  | .error e => .error e

/-- Reads the first document. There is none in a text without tokens. -/
def readDocument (ts : List Token) : Except Fault (Option (Document × List Token)) :=
  match ts with
  | [] => .ok none
  | .version .. :: _ | .handle .. :: _ | .documentStart :: _ =>
    match readDirectives false [] ts with
    | .error e => .error e
    | .ok (handles, .documentStart :: rest) =>
      if rest.head?.all Token.isBoundary then .ok (some (⟨.empty, {}, 1⟩, rest))
      else (readRoot handles rest).map some
    | .ok _ => .error .unexpectedToken
  | _ => (readRoot [] ts).map some

/-- Reads a text with at most one document. -/
def Document.ofText? (text : String) : Except Fault (Option Document) :=
  match tokens text with
  | .error e => .error e
  | .ok ts =>
    match readDocument ts with
    | .error e => .error e
    | .ok none => .ok none
    | .ok (some (d, rest)) =>
      if rest.all fun t => t = .documentEnd then .ok (some d) else .error .severalDocuments

end Defsheet.Yaml

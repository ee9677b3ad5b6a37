import Defsheet.Declaration.Body

/-!
# Statements

The words `action` and `marker` stand nowhere but at the beginning of a statement, so they cut the
tokens of a document into sections, and a statement that is broken costs no more than its own
section. What is left of a section after a complete statement belongs to no statement.

## Main definitions

* `Section.split` cuts tokens into sections.
* `Section.attempt` reads the statement of a section.
-/

namespace Defsheet

/-- A statement as written: what it declares, and its members in order. -/
inductive Statement where
  | action (typeId : TypeId) (members : List (Located ActionMember))
  | marker (name : String) (members : List (Located MarkerMember))

/-- The tokens from one statement keyword to the next. -/
structure Section where
  kind : StatementKind
  /-- Where the keyword stands. -/
  position : Position
  /-- The tokens after the keyword. -/
  body : List Token
  /-- The token after the section: the next statement keyword or the end of the document. -/
  stop : Token

namespace Section

/-- The keyword that begins the section. -/
def head (s : Section) : Token := ⟨.keyword s.kind.keyword, s.position⟩

/-- The kind of statement that the lexeme begins. -/
def kind? : Lexeme → Option StatementKind
  | .keyword .action => some .action
  | .keyword .marker => some .marker
  | _ => none

/-- Cuts tokens into those before the first statement keyword and the sections; `stop` is the token
after all of them. -/
def split (stop : Token) : List Token → List Token × List Section
  | [] => ([], [])
  | t :: ts =>
    let (body, sections) := split stop ts
    match kind? t.value with
    | some kind => ([], ⟨kind, t.position, body, (sections.head?.map head).getD stop⟩ :: sections)
    | none => (t :: body, sections)

end Section

/-! ### Reading a statement -/

/-- Reads the segments of a type id after the first one. -/
def readSegments : List Token → Reading (List String)
  | ⟨.dot, _⟩ :: ⟨.ident name, _⟩ :: ts => (readSegments ts).map fun names => name :: names
  | ⟨.dot, _⟩ :: ts => .missing .typeIdSegment ts
  | ts => .ok [] ts

/-- Reads a type id. -/
def TypeId.read (ts : List Token) : Reading TypeId :=
  (readIdent .typeId ts).andThen fun first ts =>
  (readSegments ts).map fun others => ⟨first :: others⟩

/-- Reads the brace that opens a body. -/
def readOpenBrace (owner : Owner) : List Token → Reading Unit :=
  readOne (.openBrace owner) (Lexeme.only? .openBrace)

/-- Reads what stands before the members of an action. -/
def readActionHead (ts : List Token) : Reading TypeId :=
  (TypeId.read ts).andThen fun typeId ts =>
  (readOpenBrace ⟨.action, typeId.text⟩ ts).map fun () => typeId

/-- Reads what stands before the members of a marker. -/
def readMarkerHead (ts : List Token) : Reading String :=
  (readIdent .markerName ts).andThen fun name ts =>
  (readOpenBrace ⟨.marker, name⟩ ts).map fun () => name

/-- What reading a section gives. -/
inductive Attempt where
  /-- A whole statement, and the tokens after it. -/
  | complete (s : Statement) (rest : List Token)
  /-- A fault, and what was read of the statement if its body had begun. -/
  | broken (s : Option Statement) (fault : Fault)

namespace Attempt

/-- A statement whose body has been read, perhaps not to its end. -/
def ofBody (s : Statement) : Except Fault (List Token) → Attempt
  | .ok rest => complete s rest
  | .error fault => broken (some s) fault

end Attempt

/-- Reads an action from the tokens after its keyword. -/
def readAction (ts : List Token) : Attempt :=
  match readActionHead ts with
  | .fault f => .broken none f
  | .ok typeId ts =>
    let body := Body.read ActionMember.grammar ⟨.action, typeId.text⟩ ts
    .ofBody (.action typeId body.members) body.outcome

/-- Reads a marker from the tokens after its keyword. -/
def readMarker (ts : List Token) : Attempt :=
  match readMarkerHead ts with
  | .fault f => .broken none f
  | .ok name ts =>
    let body := Body.read MarkerMember.grammar ⟨.marker, name⟩ ts
    .ofBody (.marker name body.members) body.outcome

/-- Reads the statement of a section. -/
def Section.attempt (s : Section) : Attempt :=
  match s.kind with
  | .action => readAction s.body
  | .marker => readMarker s.body

end Defsheet

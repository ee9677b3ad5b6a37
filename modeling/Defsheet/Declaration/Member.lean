import Defsheet.Declaration
import Defsheet.Issue

/-!
# The members of a statement

A statement has a body of members between braces: metadata fields and ports in an action, labels and
gizmos in a marker. Here the members are read from tokens. A reader returns what it read and the
tokens after it, or a fault, which is the tokens at which the grammar was broken and what it asked
for there.

Parts that are a single token are all read in the same way (`readOne`). They differ in the lexemes
that are asked for and in what these stand for.

## Main definitions

* `Reading` is what a reader gives.
* `readOne` reads a single token.
* `ActionMember.after?` and `MarkerMember.after?` read the rest of a member after its keyword.
-/

namespace Defsheet

/-! ### Faults and readings -/

/-- Why a statement could not be read. -/
inductive FaultCause where
  /-- Something else was asked for. -/
  | expected (what : Expectation)
  /-- Neither a member of the statement nor its closing brace. -/
  | noMember (owner : Owner)
deriving DecidableEq

/-- The tokens at which the grammar is broken, and why. -/
structure Fault where
  cause : FaultCause
  rest : List Token

/-- What a reader gives: a value and the tokens after it, or a fault. -/
inductive Reading (α : Type) where
  | ok (value : α) (rest : List Token)
  | fault (f : Fault)

namespace Reading

/-- Goes on reading after a first part. -/
def andThen {α β : Type} (r : Reading α) (next : α → List Token → Reading β) : Reading β :=
  match r with
  | ok a ts => next a ts
  | fault f => fault f

/-- Changes what was read. -/
def map {α β : Type} (wrap : α → β) (r : Reading α) : Reading β :=
  r.andThen fun a ts => ok (wrap a) ts

/-- The fault of not finding what the grammar asks for. -/
def missing {α : Type} (what : Expectation) (ts : List Token) : Reading α :=
  fault ⟨.expected what, ts⟩

end Reading

/-- The token at which the fault shows: the first one not read, or the one after all of them. -/
def Fault.token (f : Fault) (stop : Token) : Token :=
  f.rest.head?.getD stop

/-- What the fault is about. A body that runs into the end of the document was not closed. -/
def Fault.issue (f : Fault) (found : Lexeme) : Issue :=
  match f.cause with
  | .expected what => .expected what found
  | .noMember owner =>
    if found = .endOfFile then .unclosedStatement owner else .unexpected found owner

/-- The fault as a finding. -/
def Fault.finding (f : Fault) (stop : Token) : Finding :=
  let t := f.token stop
  ⟨f.issue t.value, t.position⟩

/-! ### Single tokens -/

/-- Reads one token that is asked for; `value?` gives what its lexeme stands for. -/
def readOne {α : Type} (what : Expectation) (value? : Lexeme → Option α) :
    List Token → Reading α
  | [] => .missing what []
  | t :: ts =>
    match value? t.value with
    | some a => .ok a ts
    | none => .missing what (t :: ts)

namespace Lexeme

/-- The name, if the lexeme is one. -/
def ident? : Lexeme → Option String
  | ident name => some name
  | _ => none

/-- The text, if the lexeme is a quoted one. -/
def string? : Lexeme → Option String
  | string text => some text
  | _ => none

/-- The numeral, if the lexeme is one. -/
def number? : Lexeme → Option Numeral
  | number n => some n
  | _ => none

/-- Whether the lexeme is the one that is asked for. -/
def only? (l l' : Lexeme) : Option Unit := if l' = l then some () else none

end Lexeme

/-- Reads a name. -/
def readIdent (what : Expectation) : List Token → Reading String := readOne what Lexeme.ident?

/-- Reads a quoted text. -/
def readText (what : Expectation) : List Token → Reading String := readOne what Lexeme.string?

/-- Reads a numeral. -/
def readNumber (what : Expectation) : List Token → Reading Numeral := readOne what Lexeme.number?

/-- Reads what may follow a keyword, if the keyword is there. -/
def readOptional {α : Type} (k : Keyword) (read : List Token → Reading α) :
    List Token → Reading (Option α)
  | ⟨.keyword k', p⟩ :: ts =>
    if k' = k then (read ts).map some else .ok none (⟨.keyword k', p⟩ :: ts)
  | ts => .ok none ts

/-! ### Members of an action -/

/-- What may follow the name of a port. -/
structure PortOptions where
  label : Option String
  min : Option Numeral
  max : Option Numeral
deriving DecidableEq

/-- Reads the options of a port, each of which may be left out, in their fixed order. -/
def PortOptions.read (ts : List Token) : Reading PortOptions :=
  (readOptional .label (readText (.stringAfter .label)) ts).andThen fun label ts =>
  (readOptional .min (readNumber (.numberAfter .min)) ts).andThen fun min ts =>
  (readOptional .max (readNumber (.numberAfter .max)) ts).map fun max => ⟨label, min, max⟩

/-- The type of a port that a lexeme names. -/
def PortType.ofLexeme? : Lexeme → Option PortType
  | .keyword .float => some .float
  | .keyword .int => some .int
  | .keyword .bool => some .bool
  | .keyword .string => some .string
  | .ident name => some (.custom name)
  | _ => none

/-- Reads the type of a port. -/
def PortType.read : List Token → Reading PortType := readOne .portType PortType.ofLexeme?

/-- The value that a lexeme writes. -/
def Literal.ofLexeme? : Lexeme → Option Literal
  | .number n => some (.number n)
  | .string text => some (.string text)
  | .keyword .trueWord => some (.bool true)
  | .keyword .falseWord => some (.bool false)
  | _ => none

/-- Reads a written value. -/
def Literal.read : List Token → Reading Literal := readOne .defaultValue Literal.ofLexeme?

/-- Reads the default of a port, if there is one. -/
def readDefault : List Token → Reading (Option Literal)
  | ⟨.equals, _⟩ :: ts => (Literal.read ts).map some
  | ts => .ok none ts

/-- The duration that a lexeme names. -/
def DurationKind.ofLexeme? : Lexeme → Option DurationKind
  | .keyword .instant => some .instant
  | .keyword .duration => some .duration
  | .keyword .passive => some .passive
  | _ => none

/-- Reads a duration. -/
def DurationKind.read : List Token → Reading DurationKind :=
  readOne .durationKind DurationKind.ofLexeme?

/-- Reads the three numbers of a color. -/
def Color.read (ts : List Token) : Reading Color :=
  (readNumber (.numberAfter .themeColor) ts).andThen fun red ts =>
  (readNumber (.numberAfter .themeColor) ts).andThen fun green ts =>
  (readNumber (.numberAfter .themeColor) ts).map fun blue => ⟨red, green, blue⟩

/-- One member of an action, as written. -/
inductive ActionMember where
  | displayName (text : String)
  | category (text : String)
  | description (text : String)
  | themeColor (color : Color)
  | duration (kind : DurationKind)
  | dataPort (type : PortType) (name : String) (default : Option Literal) (options : PortOptions)
  | flowPort (name : String) (options : PortOptions)
deriving DecidableEq

/-- Reads the rest of a data port. -/
def readDataPort (ts : List Token) : Reading ActionMember :=
  (PortType.read ts).andThen fun type ts =>
  (readIdent .portName ts).andThen fun name ts =>
  (readDefault ts).andThen fun default ts =>
  (PortOptions.read ts).map fun options => .dataPort type name default options

/-- Reads the rest of a flow port. -/
def readFlowPort (ts : List Token) : Reading ActionMember :=
  (readIdent .flowPortName ts).andThen fun name ts =>
  (PortOptions.read ts).map fun options => .flowPort name options

/-- Reads the rest of a member that the keyword begins; `none` if it begins none. -/
def ActionMember.after? : Keyword → Option (List Token → Reading ActionMember)
  | .displayName => some fun ts => (readText (.stringAfter .displayName) ts).map .displayName
  | .category => some fun ts => (readText (.stringAfter .category) ts).map .category
  | .description => some fun ts => (readText (.stringAfter .description) ts).map .description
  | .themeColor => some fun ts => (Color.read ts).map .themeColor
  | .duration => some fun ts => (DurationKind.read ts).map .duration
  | .port => some readDataPort
  | .flow => some readFlowPort
  | _ => none

/-! ### Members of a marker -/

/-- The shape of a gizmo that a lexeme names. -/
def GizmoShape.ofLexeme? : Lexeme → Option GizmoShape
  | .keyword .sphere => some .sphere
  | .keyword .wireSphere => some .wireSphere
  | .keyword .box => some .box
  | .keyword .wireBox => some .wireBox
  | _ => none

/-- Reads the shape of a gizmo. -/
def GizmoShape.read : List Token → Reading GizmoShape :=
  readOne .gizmoShape GizmoShape.ofLexeme?

/-- Reads a closing parenthesis. -/
def readCloseParen : List Token → Reading Unit := readOne .closeParen (Lexeme.only? .closeParen)

/-- Reads the parameter of a gizmo, if there is one. -/
def readParameter : List Token → Reading (Option Numeral)
  | ⟨.openParen, _⟩ :: ts =>
    (readNumber .gizmoParameter ts).andThen fun n ts =>
    (readCloseParen ts).map fun () => some n
  | ts => .ok none ts

/-- Reads a gizmo. -/
def Gizmo.read (ts : List Token) : Reading Gizmo :=
  (GizmoShape.read ts).andThen fun shape ts =>
  (readParameter ts).map fun parameter => ⟨shape, parameter⟩

/-- One member of a marker, as written. -/
inductive MarkerMember where
  | label (text : String)
  | gizmo (g : Gizmo)
deriving DecidableEq

/-- Reads the rest of a member that the keyword begins; `none` if it begins none. -/
def MarkerMember.after? : Keyword → Option (List Token → Reading MarkerMember)
  | .label => some fun ts => (readText (.stringAfter .label) ts).map .label
  | .gizmo => some fun ts => (Gizmo.read ts).map .gizmo
  | _ => none

end Defsheet

import Defsheet.Diagnostic
import Defsheet.Token

/-!
# What can be wrong

Every stage reports causes, not texts. An `Issue` names the cause with its data, `Issue.message` is
the one place where causes are put into words, and `Issue.kind` says what they are about. A
`Finding` is an issue at a place; stamped with the name of the document it is a diagnostic.
-/

namespace Defsheet

/-- The two kinds of statement. -/
inductive StatementKind where
  | action
  | marker
deriving DecidableEq

namespace StatementKind

/-- The word that begins the statement. -/
def keyword : StatementKind → Keyword
  | action => .action
  | marker => .marker

/-- The kind as messages name it. -/
def word (k : StatementKind) : String := k.keyword.word

end StatementKind

/-- A statement as messages name it: its kind and what it declares. -/
structure Owner where
  kind : StatementKind
  name : String
deriving DecidableEq

/-- The owner in words. -/
def Owner.text (o : Owner) : String := o.kind.word ++ " '" ++ o.name ++ "'"

/-- What the grammar asks for at some place. -/
inductive Expectation where
  | statement
  | typeId
  | typeIdSegment
  | markerName
  | portName
  | flowPortName
  | openBrace (owner : Owner)
  | stringAfter (k : Keyword)
  | numberAfter (k : Keyword)
  | gizmoParameter
  | gizmoShape
  | closeParen
  | durationKind
  | portType
  | defaultValue
deriving DecidableEq

/-- The expectation in words. -/
def Expectation.text : Expectation → String
  | statement => "'action' or 'marker'"
  | typeId => "type id"
  | typeIdSegment => "type id segment"
  | markerName => "marker name"
  | portName => "port name"
  | flowPortName => "flow port name"
  | openBrace owner => "'\x7b' after " ++ owner.text
  | stringAfter k => "string after '" ++ k.word ++ "'"
  | numberAfter k => "number after '" ++ k.word ++ "'"
  | gizmoParameter => "number after 'gizmo parameter'"
  | gizmoShape => "gizmo shape"
  | closeParen => "')'"
  | durationKind => "'instant', 'duration' or 'passive'"
  | portType => "port type"
  | defaultValue => "default value"

/-- The two bounds of a numeric port. -/
inductive Bound where
  | min
  | max
deriving DecidableEq

/-- The bound as messages name it. -/
def Bound.text : Bound → String
  | min => "min"
  | max => "max"

/-- A cause of a diagnostic. -/
inductive Issue where
  /-- A character that begins no lexeme. -/
  | strayCharacter (c : Char)
  /-- A quote that no other quote follows. -/
  | unclosedString
  /-- The grammar asks for something else than what was found. -/
  | expected (what : Expectation) (found : Lexeme)
  /-- The document ends inside a statement. -/
  | unclosedStatement (owner : Owner)
  /-- A lexeme that no member of the statement begins with. -/
  | unexpected (found : Lexeme) (owner : Owner)
  /-- A type id that an earlier statement of the document has. -/
  | duplicateTypeId (id : String) (firstLine : Nat)
  /-- A port name that an earlier port of the action has. -/
  | duplicatePort (port action : String) (firstLine : Nat)
  /-- A flow port with bounds. -/
  | flowBounds (port : String)
  /-- A type id that needs an identifier which generated code cannot spell. -/
  | reservedTypeId (id ident : String)
  /-- A marker whose name generated code cannot spell. -/
  | reservedMarker (name : String)
  /-- A statement that needs a generated name which an earlier one has. -/
  | nameCollision (id owner name : String)
  /-- A flow port without a constant that generated code can spell. -/
  | namelessFlowPort (port action : String)
  /-- A data port without a constant that generated code can spell. -/
  | namelessPort (port action : String)
  /-- A port type that generated code cannot spell. -/
  | unknownPortType (port action type : String)
  /-- A port whose constant an earlier port of the action has. -/
  | portCollision (port action owner const : String)
  /-- A default that is no value of the port's type. -/
  | defaultMisfit (port type : String)
  /-- Bounds on a port that holds no numbers. -/
  | boundsMisfit (port type : String)
  /-- A bound that is no value of the port's type. -/
  | boundOutOfRange (bound : Bound) (text port type : String)
  /-- A document whose name has no letter or digit to build a module name from. -/
  | noModuleName (document : String)
  /-- A document that needs a module which an earlier document has. -/
  | moduleTaken (document module owner : String)
  /-- A type id that an earlier document has. -/
  | registeredTypeId (id document : String) (line : Nat)
  /-- A field that is set a second time. -/
  | repeatedField (k : Keyword)
  /-- A lower bound above the upper one. -/
  | emptyRange (port lo hi : String)
deriving DecidableEq

namespace Issue

/-- What the issue is about. -/
def kind : Issue → DiagnosticKind
  | strayCharacter _ | unclosedString => .lexical
  | expected _ _ | unclosedStatement _ | unexpected _ _ => .grammatical
  | repeatedField _ | emptyRange _ _ _ => .lint
  | _ => .semantic

/-- The issue in words. -/
def message : Issue → String
  | strayCharacter c => "unexpected character: '" ++ String.singleton c ++ "'"
  | unclosedString => "unterminated string literal"
  | expected what found => "expected " ++ what.text ++ ", found " ++ found.describe
  | unclosedStatement owner => "missing '\x7d' to close " ++ owner.text ++ " before end of file"
  | unexpected found owner => "unexpected " ++ found.describe ++ " in " ++ owner.text
  | duplicateTypeId id firstLine =>
    "duplicate type id '" ++ id ++ "' (first declared on line " ++ toString firstLine ++ ")"
  | duplicatePort port action firstLine =>
    "duplicate port name '" ++ port ++ "' in action '" ++ action ++ "' (first declared on line "
      ++ toString firstLine ++ ")"
  | flowBounds port => "flow port '" ++ port ++ "' cannot carry min/max; constraint dropped"
  | reservedTypeId id ident =>
    "type id '" ++ id ++ "' produces reserved identifier '" ++ ident ++ "'"
  | reservedMarker name => "marker name '" ++ name ++ "' is a reserved identifier"
  | nameCollision id owner name =>
    "type id '" ++ id ++ "' collides with '" ++ owner ++ "' in generated name '" ++ name ++ "'"
  | namelessFlowPort port action =>
    "flow port '" ++ port ++ "' in action '" ++ action
      ++ "' has no usable constant name; port dropped"
  | namelessPort port action =>
    "port '" ++ port ++ "' in action '" ++ action ++ "' has no usable constant name; port dropped"
  | unknownPortType port action type =>
    "port '" ++ port ++ "' in action '" ++ action ++ "' has unknown type '" ++ type
      ++ "'; port dropped"
  | portCollision port action owner const =>
    "port '" ++ port ++ "' in action '" ++ action ++ "' collides with port '" ++ owner ++ "' as "
      ++ const
  | defaultMisfit port type =>
    "default of port '" ++ port ++ "' does not fit type '" ++ type ++ "'; default dropped"
  | boundsMisfit port type =>
    "min/max on non-numeric port '" ++ port ++ "' of type '" ++ type ++ "'; constraint dropped"
  | boundOutOfRange bound text port type =>
    bound.text ++ " " ++ text ++ " of port '" ++ port ++ "' is out of range for type '" ++ type
      ++ "'; constraint dropped"
  | noModuleName document =>
    "document name '" ++ document ++ "' does not yield a module name"
  | moduleTaken document module owner =>
    "document '" ++ document ++ "' maps to module '" ++ module ++ "' already used by document '"
      ++ owner ++ "'"
  | registeredTypeId id document line =>
    "duplicate type id '" ++ id ++ "' (first declared in '" ++ document ++ "' on line "
      ++ toString line ++ ")"
  | repeatedField k => "repeated '" ++ k.word ++ "' overrides the earlier value"
  | emptyRange port lo hi =>
    "port '" ++ port ++ "' has min " ++ lo ++ " greater than max " ++ hi

/-- The issue as a diagnostic of a document. -/
def diagnostic (i : Issue) (document : String) (position : Position) : Diagnostic :=
  ⟨document, position, i.kind, i.message⟩

end Issue

/-- An issue and the place where it shows. -/
abbrev Finding := Located Issue

namespace Finding

/-- The finding as a diagnostic of a document. -/
def diagnostic (document : String) (f : Finding) : Diagnostic :=
  f.value.diagnostic document f.position

end Finding

end Defsheet

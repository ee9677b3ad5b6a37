import Defsheet.Number.Numeral

/-!
# Declarations

What a document declares. An action has a dotted type id, optional metadata and ports; a marker has
a name, an optional label and an optional gizmo. Both register under one string, `Declaration.id`,
so an action and a marker can claim the same one.
-/

namespace Defsheet

/-- A dotted type id. -/
structure TypeId where
  segments : List String
deriving DecidableEq

namespace TypeId

/-- The type id as written. -/
def text (t : TypeId) : String := ".".intercalate t.segments

/-- The last segment, which names the constant of the action. -/
def last (t : TypeId) : String := t.segments.getLast?.getD ""

/-- The segments before the last one, which name the modules around the constant. -/
def qualifier (t : TypeId) : List String := t.segments.dropLast

end TypeId

/-- How long an action takes. -/
inductive DurationKind where
  | instant
  | duration
  | passive
deriving DecidableEq

/-- A color as three written numbers. -/
structure Color where
  red : Numeral
  green : Numeral
  blue : Numeral
deriving DecidableEq

/-- The optional fields of an action. -/
structure Metadata where
  displayName : Option String := none
  category : Option String := none
  description : Option String := none
  themeColor : Option Color := none
  duration : Option DurationKind := none
deriving DecidableEq

/-- The type of a data port: one of four that the language knows, or the name of a type that the
user supplies. -/
inductive PortType where
  | float
  | int
  | bool
  | string
  | custom (name : String)
deriving DecidableEq

/-- A written value. -/
inductive Literal where
  | number (n : Numeral)
  | string (text : String)
  | bool (value : Bool)
deriving DecidableEq

/-- A port that carries a value. -/
structure DataPort where
  type : PortType
  name : String
  default : Option Literal
  label : Option String
  min : Option Numeral
  max : Option Numeral
  line : Nat
deriving DecidableEq

/-- A port that passes control on. It never has bounds. -/
structure FlowPort where
  name : String
  label : Option String
  line : Nat
deriving DecidableEq

/-- A port of an action. -/
inductive Port where
  | data (p : DataPort)
  | flow (p : FlowPort)
deriving DecidableEq

namespace Port

/-- The name of the port. -/
def name : Port → String
  | data p => p.name
  | flow p => p.name

/-- The line that declares the port. -/
def line : Port → Nat
  | data p => p.line
  | flow p => p.line

end Port

/-- The shape that an editor draws for a marker. -/
inductive GizmoShape where
  | sphere
  | wireSphere
  | box
  | wireBox
deriving DecidableEq

namespace GizmoShape

/-- The shape as written. -/
def text : GizmoShape → String
  | sphere => "sphere"
  | wireSphere => "wire_sphere"
  | box => "box"
  | wireBox => "wire_box"

end GizmoShape

/-- A shape with an optional parameter. -/
structure Gizmo where
  shape : GizmoShape
  parameter : Option Numeral
deriving DecidableEq

/-- A declared action. -/
structure ActionDecl where
  typeId : TypeId
  metadata : Metadata
  ports : List Port
  line : Nat
deriving DecidableEq

/-- A declared marker. -/
structure MarkerDecl where
  name : String
  label : Option String
  gizmo : Option Gizmo
  line : Nat
deriving DecidableEq

/-- A declared action or marker. -/
inductive Declaration where
  | action (a : ActionDecl)
  | marker (m : MarkerDecl)
deriving DecidableEq

namespace Declaration

/-- The string under which the declaration registers. -/
def id : Declaration → String
  | action a => a.typeId.text
  | marker m => m.name

/-- The line that begins the declaration. -/
def line : Declaration → Nat
  | action a => a.line
  | marker m => m.line

end Declaration

end Defsheet

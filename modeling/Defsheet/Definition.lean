import Defsheet.Declaration

/-!
# Definitions

A definition is a declaration together with the identifiers that it has in generated code. Every
identifier in a definition can be written as it stands.
-/

namespace Defsheet

/-- What a port does: pass control on, or carry a value of some type. -/
inductive PortRole where
  | flow
  | data (type : PortType) (default : Option Literal) (min max : Option Numeral)
deriving DecidableEq

/-- A port and its constant. -/
structure PortDefinition where
  name : String
  givenLabel : Option String
  const : String
  role : PortRole
deriving DecidableEq

namespace PortDefinition

/-- The label that is shown; without one the name is. -/
def label (p : PortDefinition) : String := p.givenLabel.getD p.name

/-- Whether the port carries a value. -/
def isData (p : PortDefinition) : Bool :=
  match p.role with
  | .data .. => true
  | .flow => false

end PortDefinition

/-- An action and its identifiers. -/
structure ActionDefinition where
  typeId : TypeId
  /-- The modules around the constant of the type id. -/
  modulePath : List String
  /-- The constant of the type id. -/
  idConst : String
  /-- The module of the port keys. -/
  className : String
  /-- The constant of the provider. -/
  providerConst : String
  metadata : Metadata
  ports : List PortDefinition
  line : Nat
deriving DecidableEq

namespace ActionDefinition

/-- The name that is shown; without one the last segment of the type id is. -/
def displayName (a : ActionDefinition) : String := a.metadata.displayName.getD a.typeId.last

end ActionDefinition

/-- A marker and its identifiers. -/
structure MarkerDefinition where
  name : String
  /-- The component type. -/
  ident : String
  /-- The constant of the type id and of the provider. -/
  idConst : String
  label : Option String
  gizmo : Option Gizmo
  line : Nat
deriving DecidableEq

namespace MarkerDefinition

/-- The name that is shown; without a label the marker's own. -/
def displayName (m : MarkerDefinition) : String := m.label.getD m.name

end MarkerDefinition

/-- An action or a marker with its identifiers. -/
inductive Definition where
  | action (a : ActionDefinition)
  | marker (m : MarkerDefinition)
deriving DecidableEq

namespace Definition

/-- The string under which the definition registers. -/
def id : Definition → String
  | action a => a.typeId.text
  | marker m => m.name

/-- The line that declares it. -/
def line : Definition → Nat
  | action a => a.line
  | marker m => m.line

/-- The definition as an action. -/
def action? : Definition → Option ActionDefinition
  | action a => some a
  | marker _ => none

/-- The definition as a marker. -/
def marker? : Definition → Option MarkerDefinition
  | action _ => none
  | marker m => some m

/-- The actions among definitions, in order. -/
def actions (ds : List Definition) : List ActionDefinition := ds.filterMap action?

/-- The markers among definitions, in order. -/
def markers (ds : List Definition) : List MarkerDefinition := ds.filterMap marker?

end Definition

end Defsheet

import Defsheet.Artifact
import Defsheet.Definition.Resolve

/-!
# Files of action providers

A provider is the registration data of an action: what is shown of it, its ports in order, and a
property for each port that carries a value. A property lists only what is known of it, so a
property without bounds has no calls that set any.
-/

namespace Defsheet

/-- The color of an action that names none. -/
def defaultColor : String := "[1.0, 1.0, 1.0]"

/-- A color as an array. -/
def Color.literal (c : Color) : String :=
  "[" ++ c.red.floatLiteral ++ ", " ++ c.green.floatLiteral ++ ", " ++ c.blue.floatLiteral ++ "]"

/-- The variant that stands for a duration. -/
def DurationKind.variant : DurationKind → String
  | instant => "Instant"
  | duration => "Duration"
  | passive => "Passive"

/-- The entry of a port. -/
def portEntry (p : PortDefinition) : CodeLine :=
  match p.role with
  | .flow => .mk 0 ("PortDef::flow_out(" ++ quote p.name ++ ", " ++ quote p.label ++ "),")
  | .data type _ _ _ =>
    .mk 0 ("PortDef::data_in(" ++ quote p.name ++ ", " ++ quote p.label ++ ", " ++ type.tag ++ "),")

/-- The entries of the two ports that every action has. -/
def implicitPortEntries : Code :=
  [.mk 0 ("PortDef::flow_in(" ++ quote entryPort ++ ", " ++ quote entryPort ++ "),"),
   .mk 0 ("PortDef::flow_out(" ++ quote exitPort ++ ", " ++ quote exitPort ++ "),")]

/-- The calls that set what is known of a property. -/
def propertyCalls (type : PortType) (default : Option Literal) (min max : Option Numeral) :
    List String :=
  (default.map fun value => ".with_default(" ++ value.tagged type ++ ")").toList
    ++ (min.map fun n => ".with_min(" ++ n.floatLiteral ++ ")").toList
    ++ (max.map fun n => ".with_max(" ++ n.floatLiteral ++ ")").toList

/-- Adds a comma to the last of some texts. -/
def commaAfterLast : List String → List String
  | [] => []
  | [s] => [s ++ ","]
  | s :: ss => s :: commaAfterLast ss

/-- The entry of a property: its head, and its calls one level deeper. -/
def propertyEntry (head : String) (calls : List String) : Code :=
  match commaAfterLast (head :: calls) with
  | [] => []
  | first :: rest => Code.line first :: Code.indent (rest.map Code.line)

/-- The property of a port; a flow port has none. -/
def propertyCode (p : PortDefinition) : Code :=
  match p.role with
  | .flow => []
  | .data type default min max =>
    propertyEntry
      ("PropertyDef::new(" ++ quote p.name ++ ", " ++ quote p.label ++ ", " ++ type.tag ++ ")")
      (propertyCalls type default min max)

/-- The list of properties. -/
def propertiesCode (ports : List PortDefinition) : Code :=
  if ports.any PortDefinition.isData then
    Code.bracketed "properties: &[" (ports.flatMap propertyCode) "],"
  else [Code.line "properties: &[],"]

/-- The fields of a provider. -/
def providerFields (a : ActionDefinition) : Code :=
  let data := a.metadata
  [Code.line ("type_id: " ++ quote a.typeId.text ++ ","),
   Code.line ("display_name: " ++ quote a.displayName ++ ","),
   Code.line ("category: " ++ quote (data.category.getD "") ++ ","),
   Code.line ("description: " ++ quote (data.description.getD "") ++ ","),
   Code.line ("theme_color: " ++ data.themeColor.elim defaultColor Color.literal ++ ","),
   Code.line ("duration: DurationKind::" ++ (data.duration.getD .instant).variant ++ ",")]
    ++ Code.bracketed "ports: &[" (implicitPortEntries ++ a.ports.map portEntry) "],"
    ++ propertiesCode a.ports
    ++ [Code.line "scene_requirements: &[],"]

/-- The provider of an action. -/
def actionProvider (a : ActionDefinition) : Code :=
  Code.line ("/// `" ++ a.typeId.text ++ "`")
    :: Code.block ("pub const " ++ a.providerConst ++ ": ActionProvider = ActionProvider")
      (providerFields a) ";"

/-- The file of action providers. -/
def actionProvidersCode (c : Context) (as : List ActionDefinition) : Code :=
  Code.fileHeader c.document ("Action providers for actions declared in `" ++ c.document ++ "`.")
    ++ [Code.line ("use " ++ c.options.runtimePath
      ++ "::\x7bActionProvider, DurationKind, PortDef, PropertyDef, Value, ValueType\x7d;")]
    ++ as.flatMap fun a => Code.gap :: actionProvider a

end Defsheet

import Defsheet.Artifact.TypeIds
import Defsheet.Definition.Resolve

/-!
# Files of port keys

Every action has a module of its own with a constant for each of its ports, the two that every
action has in front. A port that carries a value has a key of the value's type; a flow port is a
bare name.
-/

namespace Defsheet

/-- The constant of a flow port. -/
def portNameLine (const name : String) : CodeLine :=
  .mk 0 ("pub const " ++ const ++ ": PortName = PortName::new(" ++ quote name ++ ");")

/-- The key of a data port: its name and, if it has one, its default. -/
def keyExpression (name : String) (type : PortType) (default : Option Literal) : String :=
  "TypedKey::new(" ++ quote name ++ ")"
    ++ default.elim "" fun value => ".with_default(" ++ value.bare type ++ ")"

/-- The constant of a port. -/
def portKeyLine (typesPath : String) (p : PortDefinition) : CodeLine :=
  match p.role with
  | .flow => portNameLine p.const p.name
  | .data type default _ _ =>
    .mk 0 ("pub const " ++ p.const ++ ": TypedKey<" ++ type.typeArgument typesPath ++ "> = "
      ++ keyExpression p.name type default ++ ";")

/-- What a module of port keys imports. -/
def portKeysImport (runtimePath : String) (ports : List PortDefinition) : CodeLine :=
  .mk 0 ("use " ++ runtimePath ++ "::"
    ++ (if ports.any PortDefinition.isData then "\x7bPortName, TypedKey\x7d" else "PortName")
    ++ ";")

/-- The module of an action. -/
def portKeysModule (o : Options) (a : ActionDefinition) : Code :=
  Code.line ("/// Ports of `" ++ a.typeId.text ++ "`.")
    :: Code.block ("pub mod " ++ a.className)
      ([portKeysImport o.runtimePath a.ports, Code.gap,
        portNameLine (constName entryPort) entryPort, portNameLine (constName exitPort) exitPort]
        ++ a.ports.map (portKeyLine o.typesPath))
      ""

/-- The file of port keys. -/
def portKeysCode (c : Context) (as : List ActionDefinition) : Code :=
  Code.fileHeader c.document ("Port keys for actions declared in `" ++ c.document ++ "`.")
    ++ [anyCaseLine]
    ++ as.flatMap fun a => Code.gap :: portKeysModule c.options a

end Defsheet

import Defsheet.Declaration
import Defsheet.Identifier
import Defsheet.Text.Quoted

/-!
# Port types in generated code

A port type appears as a type argument, as a run-time tag, and by its own name in messages.
-/

namespace Defsheet

namespace PortType

/-- The name of the type in documents. -/
def name : PortType → String
  | float => "float"
  | int => "int"
  | bool => "bool"
  | string => "string"
  | custom name => name

/-- The type as a type argument. Types that the user supplies live under `typesPath`. -/
def typeArgument (typesPath : String) : PortType → String
  | float => "f32"
  | int => "i32"
  | bool => "bool"
  | string => "&'static str"
  | custom name => typesPath ++ "::" ++ writtenIdent name

/-- The run-time tag of the type. -/
def tag : PortType → String
  | float => "ValueType::Float"
  | int => "ValueType::Int"
  | bool => "ValueType::Bool"
  | string => "ValueType::Str"
  | custom name => "ValueType::Opaque(" ++ quote name ++ ")"

/-- Whether ports of the type hold numbers and so can have bounds. -/
def isNumeric : PortType → Bool
  | float | int => true
  | _ => false

/-- Whether the type is one that the user supplies. -/
def isCustom : PortType → Bool
  | custom _ => true
  | _ => false

/-- The type with the given name. -/
def ofName : String → PortType
  | "float" => float
  | "int" => int
  | "bool" => bool
  | "string" => string
  | name => custom name

end PortType

end Defsheet

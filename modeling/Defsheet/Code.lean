import Defsheet.Number.Shortest
import Defsheet.Declaration
import Defsheet.Text.Quoted

/-!
# Generated code as lines

Generated code is a list of lines, each with its depth of indentation. Blocks and lists indent what
they enclose, so the text of a file follows from its structure alone.

## Main definitions

* `CodeLine.render` and `Code.render` give the text.
* `Code.block` and `Code.bracketed` enclose lines.
* `Literal.bare` and `Literal.tagged` write values.
-/

namespace Defsheet

/-- A line of generated code, without its indentation. -/
structure CodeLine where
  depth : Nat
  text : String
deriving DecidableEq

/-- The text of a line: four blanks for each level, except on a line that is empty. -/
def CodeLine.render (l : CodeLine) : String :=
  if l.text = "" then "\n"
  else String.ofList (List.replicate (4 * l.depth) ' ') ++ l.text ++ "\n"

/-- Lines of generated code. -/
abbrev Code := List CodeLine

namespace Code

/-- The text of generated code. -/
def render (code : Code) : String := String.join (code.map CodeLine.render)

/-- A line that is not indented. -/
def line (text : String) : CodeLine := ⟨0, text⟩

/-- The empty line. -/
def gap : CodeLine := ⟨0, ""⟩

/-- The same code one level deeper. -/
def indent (code : Code) : Code := code.map fun l => { l with depth := l.depth + 1 }

/-- Lines between an opening and a closing one. -/
def bracketed (opening : String) (body : Code) (closing : String) : Code :=
  line opening :: (indent body ++ [line closing])

/-- Lines between braces; `suffix` follows the closing one. -/
def block (header : String) (body : Code) (suffix : String) : Code :=
  bracketed (header ++ " \x7b") body ("\x7d" ++ suffix)

/-- The lines that begin every generated file of a document. -/
def fileHeader (document summary : String) : Code :=
  [line ("// @generated by actiondef from `" ++ document ++ "`. Do not edit by hand."),
   line ("//! " ++ summary), gap]

end Code

/-! ### Values -/

/-- A numeral as a floating-point literal: the digits as written, with a point. -/
def Numeral.floatLiteral (n : Numeral) : String :=
  if n.isIntegral then n.text ++ ".0" else n.text

/-- A double as a floating-point literal. -/
def Binary64.literal (x : Binary64) : String :=
  let s := x.text
  if s.toList.contains '.' then s else s ++ ".0"

/-- The text of a truth value. -/
def boolText (b : Bool) : String := if b then "true" else "false"

namespace Literal

/-- The value as a literal of the type. -/
def bare (type : PortType) : Literal → String
  | number n => if type = .float then n.floatLiteral else n.text
  | string s => quote s
  | bool b => boolText b

/-- The value wrapped in the run-time tag of the type. -/
def tagged (type : PortType) : Literal → String
  | number n =>
    if type = .int then "Value::Int(" ++ n.text ++ ")" else "Value::Float(" ++ n.floatLiteral ++ ")"
  | string s => "Value::Str(" ++ quote s ++ ")"
  | bool b => "Value::Bool(" ++ boolText b ++ ")"

end Literal

end Defsheet

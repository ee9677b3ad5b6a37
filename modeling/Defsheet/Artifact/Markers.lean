import Defsheet.Artifact
import Defsheet.Text.Layout

/-!
# Files of marker components and marker providers

A marker has a component type for the run time and a provider for the editor. Label and gizmo appear
in the component file as comments only.
-/

namespace Defsheet

/-! ### Components -/

/-- The comment line for one line of a label. Blanks at its end are left out. -/
def labelComment (l : List Char) : CodeLine :=
  .mk 0 (String.ofList (trimEnd ('/' :: '/' :: '/' :: ' ' :: l)))

/-- The comment lines for a label. -/
def labelComments (label : String) : Code := (lines label.toList).map labelComment

/-- A gizmo as written. -/
def Gizmo.text (g : Gizmo) : String :=
  g.shape.text ++ g.parameter.elim "" fun n => "(" ++ n.text ++ ")"

/-- The comment line for a gizmo. -/
def gizmoComment (g : Gizmo) : CodeLine := .mk 0 ("// gizmo: " ++ g.text)

/-- The component of a marker. -/
def markerComponent (c : Context) (m : MarkerDefinition) : Code :=
  labelComments m.displayName
    ++ (m.gizmo.map gizmoComment).toList
    ++ [Code.line "#[derive(Debug, Clone, Default)]", Code.line ("pub struct " ++ m.ident ++ ";"),
      Code.gap]
    ++ Code.block ("impl " ++ c.options.runtimePath ++ "::MarkerComponent for " ++ m.ident)
      [Code.line ("const TYPE_ID: &'static str = " ++ c.markerIdPath m ++ ";")] ""

/-- Pieces of code with an empty line between neighbours. -/
def joinWithGaps : List Code → Code
  | [] => []
  | [code] => code
  | code :: codes => code ++ Code.gap :: joinWithGaps codes

/-- The file of marker components. -/
def markerComponentsCode (c : Context) (ms : List MarkerDefinition) : Code :=
  Code.fileHeader c.document ("Marker components declared in `" ++ c.document ++ "`.")
    ++ joinWithGaps (ms.map (markerComponent c))

/-! ### Providers -/

/-- The provider of a marker. -/
def markerProvider (c : Context) (m : MarkerDefinition) : Code :=
  Code.block ("pub const " ++ m.idConst ++ ": MarkerProvider = MarkerProvider")
    [Code.line ("type_id: " ++ quote m.name ++ ","),
     Code.line ("display_name: " ++ quote m.displayName ++ ","),
     Code.line ("component_type: " ++ quote (c.componentPath m) ++ ","),
     Code.line ("default_spacing: " ++ c.options.markerSpacing.literal ++ ",")]
    ";"

/-- The file of marker providers. -/
def markerProvidersCode (c : Context) (ms : List MarkerDefinition) : Code :=
  Code.fileHeader c.document ("Editor marker providers for `" ++ c.document ++ "`.")
    ++ [Code.line ("use " ++ c.options.editorPath ++ "::MarkerProvider;")]
    ++ ms.flatMap fun m => Code.gap :: markerProvider c m

end Defsheet

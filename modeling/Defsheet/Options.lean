import Defsheet.Number.Binary64

/-!
# Options of the generator

What shapes generated code: the module paths under which generated code finds what it uses, the
spacing of markers, and whether a field that is set again is worth a warning.
-/

namespace Defsheet

/-- The options of the generator, with their defaults. -/
structure Options where
  /-- Module of the run-time support. -/
  runtimePath : String := "crate::graph"
  /-- Module of the editor support. -/
  editorPath : String := "crate::editor"
  /-- Where generated modules for the run time are mounted. -/
  generatedPath : String := "crate::generated"
  /-- Where generated modules for the editor are mounted. -/
  editorGeneratedPath : String := "crate::editor::generated"
  /-- Module of the types that the user supplies. -/
  typesPath : String := "crate::types"
  /-- Distance between markers that an editor places. -/
  markerSpacing : Binary64 := .one
  /-- Whether a field that is set again is reported. -/
  warnOnRepeat : Bool := false
deriving DecidableEq

end Defsheet

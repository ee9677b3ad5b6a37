import Defsheet.Code
import Defsheet.Definition
import Defsheet.Options

/-!
# Artifacts

A document gives rise to at most one generated file of each of seven kinds. The kind decides the
directory of the file and whether it belongs to the run time or to the editor.
-/

namespace Defsheet

/-- Who a generated file is for. -/
inductive Group where
  | runtime
  | editor
deriving DecidableEq

namespace Group

/-- The name of the group in machine-readable output. -/
def name : Group → String
  | runtime => "runtime"
  | editor => "editor"

/-- Both groups, in the order in which they are written. -/
def all : List Group := [runtime, editor]

end Group

/-- The kinds of generated files. -/
inductive ArtifactKind where
  | actionTypeIds
  | portKeys
  | actionProviders
  | markerTypeIds
  | markerComponents
  | markerProviders
  | manifest
deriving DecidableEq

namespace ArtifactKind

/-- All kinds, in the order in which they are generated. -/
def all : List ArtifactKind :=
  [actionTypeIds, portKeys, actionProviders, markerTypeIds, markerComponents, markerProviders,
   manifest]

/-- The module, and so the directory, of all files of the kind. -/
def module : ArtifactKind → String
  | actionTypeIds => "action_type_ids"
  | portKeys => "port_keys"
  | actionProviders => "action_providers"
  | markerTypeIds => "marker_type_ids"
  | markerComponents => "markers"
  | markerProviders => "marker_providers"
  | manifest => "manifest"

/-- Only the marker providers are for the editor. -/
def group : ArtifactKind → Group
  | markerProviders => .editor
  | _ => .runtime

/-- The kinds of a group, in order. -/
def ofGroup (g : Group) : List ArtifactKind := all.filter fun k => k.group = g

end ArtifactKind

/-- A generated file. -/
structure Artifact where
  kind : ArtifactKind
  /-- The module of the document. -/
  module : String
  code : Code
deriving DecidableEq

namespace Artifact

/-- The text of the file. -/
def content (a : Artifact) : String := a.code.render

/-- Where the file belongs inside the directory of its group. -/
def relativePath (kind : ArtifactKind) (module : String) : String :=
  kind.module ++ "/" ++ module ++ ".rs"

end Artifact

/-- What a generated file needs to know besides the definitions. -/
structure Context where
  document : String
  /-- The module of the document. -/
  module : String
  options : Options

namespace Context

/-- The path of a name that the document's file of a kind defines for the run time. -/
def runtimeName (c : Context) (kind : ArtifactKind) (name : String) : String :=
  c.options.generatedPath ++ "::" ++ kind.module ++ "::" ++ c.module ++ "::" ++ name

/-- The path of a name that the document's file of a kind defines for the editor. -/
def editorName (c : Context) (kind : ArtifactKind) (name : String) : String :=
  c.options.editorGeneratedPath ++ "::" ++ kind.module ++ "::" ++ c.module ++ "::" ++ name

/-- The path of the constant that holds a marker's type id. -/
def markerIdPath (c : Context) (m : MarkerDefinition) : String :=
  c.runtimeName .markerTypeIds m.idConst

/-- The path of a marker's component type. -/
def componentPath (c : Context) (m : MarkerDefinition) : String :=
  c.runtimeName .markerComponents m.ident

end Context

/-- A file of a kind, if there is something to put into it. -/
def Artifact.of? {α : Type} (kind : ArtifactKind) (c : Context) (items : List α)
    (code : List α → Code) : Option Artifact :=
  if items.isEmpty then none else some ⟨kind, c.module, code items⟩

end Defsheet

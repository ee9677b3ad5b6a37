import Defsheet.Artifact
import Defsheet.Issue

/-!
# Manifests

The manifest of a document lists what the document registers: as values, which the registry takes
in, and as a generated file, which refers to the constants of the other files.
-/

namespace Defsheet

/-- What one definition registers. -/
structure ManifestEntry where
  typeId : String
  kind : StatementKind
  document : String
  line : Nat
  /-- The path of the provider constant. -/
  provider : String
  /-- The path of the component type of a marker. -/
  component : Option String
  group : Group
deriving DecidableEq

/-- What a definition registers. -/
def ManifestEntry.ofDefinition (c : Context) : Definition → ManifestEntry
  | .action a =>
    { typeId := a.typeId.text
      kind := .action
      document := c.document
      line := a.line
      provider := c.runtimeName .actionProviders a.providerConst
      component := none
      group := ArtifactKind.group .actionProviders }
  | .marker m =>
    { typeId := m.name
      kind := .marker
      document := c.document
      line := m.line
      provider := c.editorName .markerProviders m.idConst
      component := some (c.componentPath m)
      group := ArtifactKind.group .markerProviders }

/-- What a document registers. -/
def manifestEntries (c : Context) (ds : List Definition) : List ManifestEntry :=
  ds.map (ManifestEntry.ofDefinition c)

/-- A constant that lists names of a module. -/
def sliceCode (head module : String) (names : List String) : Code :=
  if names.isEmpty then [Code.line (head ++ "];")]
  else Code.bracketed head (names.map fun n => Code.line (module ++ "::" ++ n ++ ",")) "];"

/-- The import of the document's file of a kind under another name, if anything is used from it. -/
def importAs (c : Context) (kind : ArtifactKind) (localName : String) (names : List String) :
    Code :=
  if names.isEmpty then []
  else
    [Code.line ("use " ++ c.options.generatedPath ++ "::" ++ kind.module ++ "::" ++ c.module
      ++ " as " ++ localName ++ ";")]

/-- The file of the manifest: every action provider and every marker type id. -/
def manifestCode (c : Context) (ds : List Definition) : Code :=
  let providers := (Definition.actions ds).map ActionDefinition.providerConst
  let markerIds := (Definition.markers ds).map MarkerDefinition.idConst
  Code.fileHeader c.document ("Registration manifest for `" ++ c.document ++ "`.")
    ++ [Code.line ("use " ++ c.options.runtimePath ++ "::ActionProvider;"), Code.gap]
    ++ importAs c .actionProviders "providers" providers
    ++ importAs c .markerTypeIds "marker_ids" markerIds
    ++ [Code.gap]
    ++ sliceCode "pub const ACTION_PROVIDERS: &[ActionProvider] = &[" "providers" providers
    ++ [Code.gap]
    ++ sliceCode "pub const MARKER_TYPE_IDS: &[&str] = &[" "marker_ids" markerIds

end Defsheet

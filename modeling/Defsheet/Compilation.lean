import Defsheet.Artifact.ActionProviders
import Defsheet.Artifact.Manifest
import Defsheet.Artifact.Markers
import Defsheet.Artifact.PortKeys
import Defsheet.Declaration.Outline
import Defsheet.Token.Scan

/-!
# Compiling a document

A document goes from text to tokens, to declarations, to definitions and to generated files. Every
stage works on what the one before it left standing, so compiling always gives a result.

## Main definitions

* `Document.resolve` stops at the definitions.
* `artifacts` generates the files.
* `Document.compile` does everything.
-/

namespace Defsheet

/-- A named text. -/
structure Document where
  name : String
  text : String
deriving DecidableEq

/-- What is left of a document before files are generated. -/
structure ResolvedDocument where
  definitions : List Definition
  diagnostics : List Diagnostic

/-- Reads a document and resolves its declarations. -/
def Document.resolve (d : Document) (o : Options) : ResolvedDocument :=
  let scan := Scan.ofText d.text
  let outline := Outline.ofTokens o.warnOnRepeat scan.tokens
  let resolution := Resolution.ofDeclarations outline.declarations
  ⟨resolution.definitions,
    (scan.findings ++ outline.findings ++ resolution.findings).map (Finding.diagnostic d.name)⟩

/-! ### Generated files -/

/-- The file of a kind that definitions give rise to. -/
def artifact? (c : Context) (ds : List Definition) (kind : ArtifactKind) : Option Artifact :=
  let actions := Definition.actions ds
  let markers := Definition.markers ds
  match kind with
  | .actionTypeIds => Artifact.of? kind c actions (actionTypeIdsCode c)
  | .portKeys => Artifact.of? kind c actions (portKeysCode c)
  | .actionProviders => Artifact.of? kind c actions (actionProvidersCode c)
  | .markerTypeIds => Artifact.of? kind c markers (markerTypeIdsCode c)
  | .markerComponents => Artifact.of? kind c markers (markerComponentsCode c)
  | .markerProviders => Artifact.of? kind c markers (markerProvidersCode c)
  | .manifest => Artifact.of? kind c ds (manifestCode c)

/-- All files that definitions give rise to, in the order of their kinds. -/
def artifacts (c : Context) (ds : List Definition) : List Artifact :=
  ArtifactKind.all.filterMap (artifact? c ds)

/-! ### Results -/

/-- Everything that a document gives rise to. -/
structure Compilation where
  document : String
  /-- The module of the document; empty if its name has no letter or digit. -/
  module : String
  artifacts : List Artifact
  diagnostics : List Diagnostic
  manifest : List ManifestEntry
deriving DecidableEq

namespace Compilation

/-- Whether an error was reported. -/
def hasErrors (r : Compilation) : Bool := r.diagnostics.any Diagnostic.isError

/-- The file of a kind, if there is one. -/
def artifact? (r : Compilation) (kind : ArtifactKind) : Option Artifact :=
  r.artifacts.find? fun a => a.kind = kind

end Compilation

/-- Compiles a document. Without a module name nothing is generated. -/
def Document.compile (d : Document) (o : Options) : Compilation :=
  let module := moduleName d.name
  if module = "" then
    { document := d.name
      module := module
      artifacts := []
      diagnostics := [(Issue.noModuleName d.name).diagnostic d.name .start]
      manifest := [] }
  else
    let resolved := d.resolve o
    let c : Context := ⟨d.name, module, o⟩
    { document := d.name
      module := module
      artifacts := Defsheet.artifacts c resolved.definitions
      diagnostics := resolved.diagnostics
      manifest := manifestEntries c resolved.definitions }

end Defsheet

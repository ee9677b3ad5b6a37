import Defsheet.Compilation
import Defsheet.Failure
import Defsheet.Registry

/-!
# Writing generated files

Each group has a directory of its own, each kind a directory inside it, and each document a file
inside that. A file that holds the right text already is left alone, and a file that a document no
longer gives rise to is removed. Every directory has an index file `mod.rs`, which mounts the
modules beside it; the index reflects what is there, not only what was written just now.

A failure ends the work, but what was written before it stays.

## Main definitions

* `writeIfChanged` writes one file.
* `writeArtifacts` writes the files of one document.
* `writeIndexes` writes the index files.
* `writeBatch` does all of this for a batch.
-/

namespace Defsheet

/-- Work on a file tree. The tree is kept when the work fails. -/
abbrev Work := EStateM Failure FileTree

/-- Looks something up about a path. -/
def Work.look {α : Type} (p : Path) (f : FileTree → Except TreeError α) : Work α := fun t =>
  match f t with
  | .ok a => .ok a t
  | .error e => .error (.io p e) t

/-- Makes one change at a path, or none. -/
def Work.change (p : Path) (f : FileTree → Except TreeError FileTree) : Work Unit := fun t =>
  match f t with
  | .ok t' => .ok () t'
  | .error e => .error (.io p e) t

/-- Makes changes at a path that may stop half-way. -/
def Work.changes (p : Path) (f : FileTree → FileTree.Change Unit) : Work Unit := fun t =>
  match f t with
  | (.ok (), t') => .ok () t'
  | (.error e, t') => .error (.io p e) t'

/-! ### Layouts and reports -/

/-- Where each group is written. -/
structure Layout where
  runtimeDir : Path
  editorDir : Path
deriving DecidableEq

namespace Layout

/-- The directory of a group. -/
def dir (l : Layout) : Group → Path
  | .runtime => l.runtimeDir
  | .editor => l.editorDir

/-- The directory of a kind. -/
def kindDir (l : Layout) (k : ArtifactKind) : Path := (l.dir k.group).join k.module

/-- The file of a kind for a module. -/
def file (l : Layout) (k : ArtifactKind) (module : String) : Path :=
  (l.dir k.group).join (Artifact.relativePath k module)

end Layout

/-- What was done, in order. -/
structure Report where
  written : List Path := []
  unchanged : List Path := []
  removed : List Path := []
deriving DecidableEq

namespace Report

/-- What was done first and what was done next. -/
def append (a b : Report) : Report :=
  ⟨a.written ++ b.written, a.unchanged ++ b.unchanged, a.removed ++ b.removed⟩

instance : Append Report := ⟨append⟩

/-- The report of a file that was written, or that did not have to be. -/
def ofWrite (p : Path) (written : Bool) : Report :=
  if written then { written := [p] } else { unchanged := [p] }

/-- The report of a file that was removed, or that was not there. -/
def ofRemoval (p : Path) (removed : Bool) : Report :=
  if removed then { removed := [p] } else {}

end Report

/-- Works on items in order and joins the reports. -/
def reportEach {α : Type} (f : α → Work Report) : List α → Work Report
  | [] => pure {}
  | a :: as => do
    let first ← f a
    let others ← reportEach f as
    pure (first ++ others)

/-! ### Files -/

/-- The text of a file, or nothing if there is no file. -/
def readIfThere (p : Path) : Work (Option String) :=
  Work.look p fun t =>
    match t.read? p with
    | .ok content => .ok (some content)
    | .error .notFound => .ok none
    | .error e => .error e

/-- Makes the directory around a file. -/
def makeParent (p : Path) : Work Unit :=
  match p.parent? with
  | some parent => Work.changes parent fun t => t.makeDirs parent
  | none => pure ()

/-- Writes a text to a file unless it holds that text already. The result says whether the file was
written. -/
def writeIfChanged (p : Path) (content : String) : Work Bool := do
  if (← readIfThere p) = some content then
    pure false
  else
    makeParent p
    Work.change p fun t => t.write p content
    pure true

/-- Removes a file if there is one. The result says whether there was. -/
def removeIfThere (p : Path) : Work Bool := do
  if (← get).isFile p then
    Work.change p fun t => t.remove p
    pure true
  else
    pure false

/-! ### Documents -/

/-- Writes one generated file. -/
def writeArtifact (l : Layout) (a : Artifact) : Work Report := do
  let p := l.file a.kind a.module
  let written ← writeIfChanged p a.content
  pure (.ofWrite p written)

/-- Removes the file of a kind that a document does not give rise to. -/
def removeStale (l : Layout) (c : Compilation) (k : ArtifactKind) : Work Report := do
  if (c.artifact? k).isSome then
    pure {}
  else
    let p := l.file k c.module
    let removed ← removeIfThere p
    pure (.ofRemoval p removed)

/-- Writes the files of a document and removes those that it no longer gives rise to. -/
def writeArtifacts (l : Layout) (c : Compilation) : Work Report := do
  if c.module = "" then
    pure {}
  else
    let written ← reportEach (writeArtifact l) c.artifacts
    let removed ← reportEach (removeStale l c) ArtifactKind.all
    pure (written ++ removed)

/-! ### Indexes -/

/-- The file name of an index. -/
def indexFile : String := "mod.rs"

/-- The text of an index. -/
def indexContent (modules : List String) : String :=
  "// @generated by actiondef. Do not edit by hand.\n\n"
    ++ String.join (modules.map fun m => "pub mod " ++ m ++ ";\n")

/-- Sorts names, character by character. -/
def sortNames (names : List String) : List String :=
  names.mergeSort fun a b => decide (a ≤ b)

/-- The module in a file with the given name: the name without the extension `rs`, unless the file
is an index. -/
def moduleOfFile? (name : String) : Option String :=
  let cs := name.toList
  if Path.nameExtension? cs = some ['r', 's'] then
    let stem := String.ofList (Path.nameStem cs)
    if stem = "mod" then none else some stem
  else none

/-- The modules in a directory, sorted; there are none if there is no directory. -/
def listModules (dir : Path) : Work (List String) :=
  Work.look dir fun t =>
    match t.names? dir with
    | .ok names => .ok (sortNames (names.filterMap moduleOfFile?))
    | .error .notFound => .ok []
    | .error e => .error e

/-- Writes or removes the index of a kind. The result says whether there are modules to mount. -/
def writeKindIndex (l : Layout) (k : ArtifactKind) : Work (Report × Bool) := do
  let index := (l.kindDir k).join indexFile
  let modules ← listModules (l.kindDir k)
  if modules.isEmpty then
    let removed ← removeIfThere index
    pure (.ofRemoval index removed, false)
  else
    let written ← writeIfChanged index (indexContent modules)
    pure (.ofWrite index written, true)

/-- Writes the indexes of some kinds and tells which of them have modules to mount. -/
def writeKindIndexes (l : Layout) : List ArtifactKind → Work (Report × List ArtifactKind)
  | [] => pure ({}, [])
  | k :: ks => do
    let (first, mounted) ← writeKindIndex l k
    let (others, kinds) ← writeKindIndexes l ks
    pure (first ++ others, if mounted then k :: kinds else kinds)

/-- Writes the indexes of a group: those of its kinds, and the one that mounts the kinds if there is
anything to mount. -/
def writeGroupIndexes (l : Layout) (g : Group) : Work Report := do
  let (report, kinds) ← writeKindIndexes l (ArtifactKind.ofGroup g)
  if kinds.isEmpty then
    pure report
  else
    let index := (l.dir g).join indexFile
    let written ← writeIfChanged index (indexContent (sortNames (kinds.map ArtifactKind.module)))
    pure (report ++ .ofWrite index written)

/-- Writes all indexes. -/
def writeIndexes (l : Layout) : Work Report :=
  reportEach (writeGroupIndexes l) Group.all

/-- Writes the documents of a batch that have their module for themselves, and the indexes. -/
def writeBatch (l : Layout) (r : Registry) (cs : List Compilation) : Work Report := do
  let files ← reportEach (writeArtifacts l) (r.writable cs)
  let indexes ← writeIndexes l
  pure (files ++ indexes)

end Defsheet

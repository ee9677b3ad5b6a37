import Defsheet.Command
import Defsheet.Diagnostic.Json
import Defsheet.Output
import Defsheet.Settings.File

/-!
# Running commands

A command reads its settings and all of its documents first; if that fails nothing is printed or
written. Then diagnostics are printed, and `compile` writes files. The exit status tells whether
errors were reported.

## Main definitions

* `Batch.load` reads and compiles documents.
* `Command.run` runs a command.
* `Invocation.respond` answers a command line.
-/

namespace Defsheet

/-! ### Batches -/

/-- The documents of a command, compiled and registered. -/
structure Batch where
  compilations : List Compilation
  registry : Registry
  /-- All diagnostics, those of the documents first. -/
  diagnostics : List Diagnostic

namespace Batch

/-- The batch of some documents. -/
def ofCompilations (cs : List Compilation) : Batch :=
  let (registry, rejected) := Registry.ofBatch cs
  ⟨cs, registry, cs.flatMap Compilation.diagnostics ++ rejected⟩

/-- Whether an error was reported. -/
def hasErrors (b : Batch) : Bool := b.diagnostics.any Diagnostic.isError

end Batch

/-- Reads a document from a file. -/
def Document.load (t : FileTree) (p : Path) : Except Failure Document :=
  match documentName p with
  | .error e => .error e
  | .ok name =>
    match t.read? p with
    | .error e => .error (.io p e)
    | .ok text => .ok ⟨name, text⟩

/-- Reads documents; the first that cannot be read ends it. -/
def Document.loadAll (t : FileTree) : List Path → Except Failure (List Document)
  | [] => .ok []
  | p :: ps =>
    match load t p with
    | .error e => .error e
    | .ok d =>
      match loadAll t ps with
      | .error e => .error e
      | .ok ds => .ok (d :: ds)

/-- Reads and compiles documents. -/
def Batch.load (t : FileTree) (o : Options) (files : List Path) : Except Failure Batch :=
  match Document.loadAll t files with
  | .error e => .error e
  | .ok ds => .ok (ofCompilations (ds.map fun d => d.compile o))

/-! ### Responses -/

/-- What a command prints and how it ends. -/
structure Response where
  /-- The exit status. -/
  status : Nat
  output : String := ""
  /-- The message of a failure. -/
  failure : Option String := none
deriving DecidableEq

namespace Response

/-- The response of a command that reported diagnostics. -/
def ofBatch (b : Batch) (output : String) : Response :=
  { status := if b.hasErrors then 2 else 0, output := output }

/-- The response of a command that failed. -/
def ofFailure (f : Failure) (output : String) : Response :=
  { status := 1, output := output, failure := some ("error: " ++ f.message) }

end Response

/-- Diagnostics, one on each line. -/
def textReport (ds : List Diagnostic) : String :=
  String.join (ds.map fun d => d.text ++ "\n")

/-- Diagnostics in a format. -/
def Format.report (f : Format) (ds : List Diagnostic) : String :=
  match f with
  | text => textReport ds
  | json => Diagnostic.jsonArray ds ++ "\n"

/-! ### Commands -/

/-- The directories to write to: those of the settings, unless others are given. -/
def Settings.layout (s : Settings) (out editorOut : Option Path) : Layout :=
  ⟨out.getD s.outDir, editorOut.getD s.editorOutDir⟩

/-- Reads the settings and the documents of a command. -/
def prepare (t : FileTree) (home config : Option Path) (files : List Path) :
    Except Failure (Settings × Batch) :=
  match Settings.discover t home config with
  | .error e => .error e
  | .ok s =>
    match Batch.load t s.options files with
    | .error e => .error e
    | .ok b => .ok (s, b)

/-- Reports diagnostics and changes nothing. -/
def runCheck (t : FileTree) (home config : Option Path) (format : Format) (files : List Path) :
    Response :=
  match prepare t home config files with
  | .error e => .ofFailure e ""
  | .ok (_, b) => .ofBatch b (format.report b.diagnostics)

/-- Reports diagnostics and writes files. -/
def runCompile (t : FileTree) (home config out editorOut : Option Path) (files : List Path) :
    Response × FileTree :=
  match prepare t home config files with
  | .error e => (.ofFailure e "", t)
  | .ok (s, b) =>
    let output := textReport b.diagnostics
    match writeBatch (s.layout out editorOut) b.registry b.compilations t with
    | .ok _ t' => (.ofBatch b output, t')
    | .error e t' => (.ofFailure e output, t')

/-- Runs a command. -/
def Command.run (t : FileTree) (home : Option Path) : Command → Response × FileTree
  | compile config out editorOut files => runCompile t home config out editorOut files
  | check config format files => (runCheck t home config format files, t)

/-- The name and version of the program. -/
def versionText : String := "actiondef 0.1.0\n"

/-- How the program is used. -/
def helpText : String :=
  "Compile action and marker definition documents into Rust\n\n"
    ++ "Usage: actiondef [OPTIONS] <COMMAND>\n\n"
    ++ "Commands:\n"
    ++ "  compile [--config <FILE>] [--out <DIR>] [--editor-out <DIR>] <FILES>...\n"
    ++ "  check [--config <FILE>] [--format <text|json>] <FILES>...\n\n"
    ++ "Options:\n"
    ++ "  -v, --verbose  Log every pipeline stage\n"
    ++ "  -h, --help     Print help\n"
    ++ "  -V, --version  Print version\n"

/-- Answers a command line. -/
def Invocation.respond (t : FileTree) (home : Option Path) : Invocation → Response × FileTree
  | run command => command.run t home
  | version => ({ status := 0, output := versionText }, t)
  | help => ({ status := 0, output := helpText }, t)
  | misuse => ({ status := 2 }, t)

end Defsheet

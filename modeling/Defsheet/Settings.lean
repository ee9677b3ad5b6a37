import Defsheet.Number.Shortest
import Defsheet.Options
import Defsheet.Path
import Defsheet.Yaml.Value

/-!
# Settings

Settings are the options of the generator and the directories that files go to. They are the top
level of a YAML document; every one may be left out, and keys that are not known are passed over.

## Main definitions

* `Settings` and their defaults.
* `Settings.ofText` reads settings.
-/

namespace Defsheet

/-- The settings of a run. -/
structure Settings where
  options : Options := {}
  /-- Where files for the run time go. -/
  outDir : Path := ⟨"src/generated"⟩
  /-- Where files for the editor go. -/
  editorOutDir : Path := ⟨"src/editor/generated"⟩
deriving DecidableEq

/-- Why a text does not give settings. -/
inductive SettingsFault where
  | yaml (fault : Yaml.Fault)
  | repeated (key : String)
  | wrongType (key : String)
  | badSpacing (spacing : Binary64)
deriving DecidableEq

/-- The wording of a fault. -/
def SettingsFault.message : SettingsFault → String
  | yaml fault => fault.message
  | repeated key => "duplicate field `" ++ key ++ "`"
  | wrongType key => key ++ ": invalid type"
  | badSpacing spacing => "marker_spacing must be a non-negative number, got " ++ spacing.text

/-! ### Keys -/

/-- The keys that are known. -/
inductive SettingsKey where
  | runtimePath
  | editorPath
  | generatedPath
  | editorGeneratedPath
  | typesPath
  | markerSpacing
  | warnOnRepeat
  | outDir
  | editorOutDir
deriving DecidableEq

namespace SettingsKey

/-- All keys. -/
def all : List SettingsKey :=
  [runtimePath, editorPath, generatedPath, editorGeneratedPath, typesPath, markerSpacing,
   warnOnRepeat, outDir, editorOutDir]

/-- The key as written. -/
def text : SettingsKey → String
  | runtimePath => "runtime_path"
  | editorPath => "editor_path"
  | generatedPath => "generated_path"
  | editorGeneratedPath => "editor_generated_path"
  | typesPath => "types_path"
  | markerSpacing => "marker_spacing"
  | warnOnRepeat => "warn_on_repeated_meta"
  | outDir => "out_dir"
  | editorOutDir => "editor_out_dir"

/-- The key with a text, if it is known. -/
def ofText? (s : String) : Option SettingsKey := all.find? fun k => k.text = s

/-- Whether the key takes a path, for which any scalar will do. -/
def takesPath : SettingsKey → Bool
  | outDir | editorOutDir => true
  | _ => false

end SettingsKey

namespace Settings

/-- Sets a directory. -/
def setPath (s : Settings) (key : SettingsKey) (text : String) : Settings :=
  match key with
  | .outDir => { s with outDir := ⟨text⟩ }
  | .editorOutDir => { s with editorOutDir := ⟨text⟩ }
  | _ => s

/-- Sets an option; the value has to be of its type. -/
def setOption (s : Settings) (key : SettingsKey) (value : Yaml.Value) :
    Except SettingsFault Settings :=
  let o := s.options
  match key, value with
  | .runtimePath, .text t => .ok { s with options := { o with runtimePath := t } }
  | .editorPath, .text t => .ok { s with options := { o with editorPath := t } }
  | .generatedPath, .text t => .ok { s with options := { o with generatedPath := t } }
  | .editorGeneratedPath, .text t => .ok { s with options := { o with editorGeneratedPath := t } }
  | .typesPath, .text t => .ok { s with options := { o with typesPath := t } }
  | .markerSpacing, .int n => .ok { s with options := { o with markerSpacing := .ofInt n } }
  | .markerSpacing, .float x => .ok { s with options := { o with markerSpacing := x } }
  | .warnOnRepeat, .bool b => .ok { s with options := { o with warnOnRepeat := b } }
  | key, _ => .error (.wrongType key.text)

/-! ### Reading -/

/-- One key with what is set by it. -/
inductive Assignment where
  | path (key : SettingsKey) (text : String)
  | option (key : SettingsKey) (value : Yaml.Value)
deriving DecidableEq

/-- The key of an assignment. -/
def Assignment.key : Assignment → SettingsKey
  | path key _ => key
  | option key _ => key

/-- Reads the pairs of the top level. What an unknown key has is read too, and passed over. -/
def readPairs (d : Yaml.Document) : List (Yaml.Node × Yaml.Node) → Yaml.Following (List Assignment)
  | [] => return []
  | (key, value) :: pairs => do
    match SettingsKey.ofText? (← d.scalarText key) with
    | some k =>
      let a ←
        if k.takesPath then pure (Assignment.path k (← d.scalarText value))
        else pure (Assignment.option k (← d.value (Yaml.maxDepth - 1) value))
      return a :: (← readPairs d pairs)
    | none =>
      discard (d.value (Yaml.maxDepth - 1) value)
      readPairs d pairs

/-- The assignments of a document. Nothing at all is an empty mapping. -/
def readAssignments (d : Yaml.Document) : Yaml.Following (List Assignment) := do
  match ← d.follow d.root with
  | .mapping _ pairs => readPairs d pairs
  | .scalar "" true _ => return []
  | _ => throw .notAMapping

/-- Makes assignments in order; no key may be set again. -/
def assign (s : Settings) (seen : List SettingsKey) :
    List Assignment → Except SettingsFault Settings
  | [] => .ok s
  | a :: as =>
    if seen.contains a.key then .error (.repeated a.key.text)
    else
      match a with
      | .path key text => (s.setPath key text).assign (key :: seen) as
      | .option key value =>
        match s.setOption key value with
        | .ok s' => s'.assign (key :: seen) as
        | .error e => .error e

/-- Refuses a spacing that is negative or not finite. -/
def check (s : Settings) : Except SettingsFault Settings :=
  let x := s.options.markerSpacing
  if !x.isFinite || x.lt (.zero false) then .error (.badSpacing x) else .ok s

/-- Reads settings from a text. -/
def ofText (text : String) : Except SettingsFault Settings :=
  match Yaml.Document.ofText? text with
  | .error e => .error (.yaml e)
  | .ok none => .ok {}
  | .ok (some d) =>
    match (readAssignments d).run 0 with
    | .error e => .error (.yaml e)
    | .ok (as, _) =>
      match assign {} [] as with
      | .error e => .error e
      | .ok s => s.check

end Settings

end Defsheet

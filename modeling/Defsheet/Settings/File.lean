import Defsheet.Failure

/-!
# Settings files

Settings come from the file that the user names, or else from one in the working directory, or else
from one in the user's home directory. Only a file that is named has to exist.
-/

namespace Defsheet

namespace Settings

/-- Reads a settings file. -/
def load (t : FileTree) (p : Path) : Except Failure Settings :=
  match t.read? p with
  | .error e => .error (.io p e)
  | .ok text =>
    match ofText text with
    | .error e => .error (.settings p e)
    | .ok s => .ok s

/-- The settings file in the working directory. -/
def localFile : Path := ⟨"actiondef.yaml"⟩

/-- The settings file in a home directory. -/
def userFile (home : Path) : Path := (home.join ".actiondef").join "config.yaml"

/-- The settings files that are looked for, in order. -/
def candidates (home : Option Path) : List Path := localFile :: (home.map userFile).toList

/-- The settings to use. -/
def discover (t : FileTree) (home named : Option Path) : Except Failure Settings :=
  match named with
  | some p => load t p
  | none =>
    match (candidates home).find? t.isFile with
    | some p => load t p
    | none => .ok {}

end Settings

end Defsheet

import Defsheet.FileTree
import Defsheet.Identifier
import Defsheet.Settings

/-!
# Failures

A failure ends a command. It names the path that it is about.

## Main definitions

* `Failure.message` words a failure.
* `documentName` is the name of the document in a file.
-/

namespace Defsheet

/-- Why a command cannot go on. -/
inductive Failure where
  /-- An operation on files failed. -/
  | io (path : Path) (cause : TreeError)
  /-- A settings file does not hold settings. -/
  | settings (path : Path) (fault : SettingsFault)
  /-- A file whose name gives no document name. -/
  | noDocumentName (path : Path)
deriving DecidableEq

/-- The wording of a failure. -/
def Failure.message : Failure → String
  | io path cause => path.text ++ ": " ++ cause.message
  | settings path fault => path.text ++ ": invalid config: " ++ fault.message
  | noDocumentName path => "cannot derive a document name from " ++ path.text

/-- The name of the document in a file: the file's name without its extension, if that gives a
module name. -/
def documentName (p : Path) : Except Failure String :=
  match p.stem? with
  | some stem => if moduleName stem = "" then .error (.noDocumentName p) else .ok stem
  | none => .error (.noDocumentName p)

end Defsheet

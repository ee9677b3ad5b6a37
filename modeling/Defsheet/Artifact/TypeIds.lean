import Defsheet.Artifact

/-!
# Files of type ids

The type id of an action is a constant inside nested modules, one for each segment of the type id
before the last. Modules and constants stand in the order of their first use. The type ids of
markers are constants side by side.

## Main definitions

* `ConstForest` is an ordered sequence of constants and modules.
* `ConstForest.insert` adds a constant under a path of modules.
-/

namespace Defsheet

/-- Constants and modules in order; a module encloses constants and modules again. -/
inductive ConstForest where
  | nil
  | const (name value : String) (rest : ConstForest)
  | module (name : String) (body rest : ConstForest)

namespace ConstForest

/-- One constant inside modules that hold nothing else. -/
def single : List String → String → String → ConstForest
  | [], name, value => const name value nil
  | m :: path, name, value => module m (single path name value) nil

/-- Adds a constant at the end of the module that the path leads to. Modules that are missing on the
way are added at the end of theirs. -/
def insert (path : List String) (name value : String) : ConstForest → ConstForest
  | nil => single path name value
  | const n v rest => const n v (insert path name value rest)
  | module m body rest =>
    match path with
    | [] => module m body (insert [] name value rest)
    | head :: tail =>
      if m = head then module m (insert tail name value body) rest
      else module m body (insert (head :: tail) name value rest)

/-- Whether there is a module at the top. -/
def hasModule : ConstForest → Bool
  | nil => false
  | const _ _ rest => rest.hasModule
  | module _ _ _ => true

/-- The constants of all actions. -/
def ofActions (as : List ActionDefinition) : ConstForest :=
  as.foldl (fun f a => f.insert a.modulePath a.idConst a.typeId.text) nil

end ConstForest

/-- The declaration of a constant that holds a type id. -/
def idConstLine (name value : String) : CodeLine :=
  .mk 0 ("pub const " ++ name ++ ": &str = " ++ quote value ++ ";")

/-- The code of constants and modules. -/
def ConstForest.code : ConstForest → Code
  | nil => []
  | const name value rest => idConstLine name value :: rest.code
  | module name body rest => Code.block ("pub mod " ++ name) body.code "" ++ rest.code

/-- The line that lets names keep the case they have in documents. -/
def anyCaseLine : CodeLine := .mk 0 "#![allow(non_snake_case)]"

/-- The file of action type ids. -/
def actionTypeIdsCode (c : Context) (as : List ActionDefinition) : Code :=
  let forest := ConstForest.ofActions as
  Code.fileHeader c.document ("Action type ids declared in `" ++ c.document ++ "`.")
    ++ (if forest.hasModule then [anyCaseLine, Code.gap] else [])
    ++ forest.code

/-- The file of marker type ids. -/
def markerTypeIdsCode (c : Context) (ms : List MarkerDefinition) : Code :=
  Code.fileHeader c.document ("Marker type ids declared in `" ++ c.document ++ "`.")
    ++ ms.map fun m => idConstLine m.idConst m.name

end Defsheet

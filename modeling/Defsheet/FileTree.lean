import Defsheet.Path

/-!
# File trees

A file tree says what stands where: a location, given by the names that lead to it from the root,
has a directory, a file or nothing. Paths are followed name by name, and each name but the last has
to lead to a directory. Every operation either gives a new tree or says why there is none.

Names are texts, while contents need not be. Entries whose names are not the encoding of a text are
left out of the tree: no path here leads to one, and whoever looks for modules in a directory passes
over it.

## Main definitions

* `FileTree.get?` is the view of a tree.
* `FileTree.target` follows a path up to its last name.
* `FileTree.find?`, `FileTree.read?` and `FileTree.names?` look; `FileTree.makeDir`,
  `FileTree.makeDirs`, `FileTree.write` and `FileTree.remove` change.
-/

namespace Defsheet

/-- The content of a file: text, or bytes that are not the encoding of a text. -/
inductive FileData where
  | text (content : String)
  | binary (bytes : List UInt8)
deriving DecidableEq

/-- The content that bytes stand for. -/
def FileData.ofBytes (bytes : ByteArray) : FileData :=
  match String.fromUTF8? bytes with
  | some content => text content
  | none => binary bytes.toList

/-- What stands at a location. -/
inductive Entry where
  | dir
  | file (data : FileData)
deriving DecidableEq

/-- Why an operation on a file tree fails. -/
inductive TreeError where
  | notFound
  | alreadyThere
  | notADirectory
  | isADirectory
  | notText
deriving DecidableEq

/-- The wording of a failure. -/
def TreeError.message : TreeError → String
  | notFound => "No such file or directory (os error 2)"
  | alreadyThere => "File exists (os error 17)"
  | notADirectory => "Not a directory (os error 20)"
  | isADirectory => "Is a directory (os error 21)"
  | notText => "stream did not contain valid UTF-8"

/-- The names that lead from the root to a place. Each is a text, so no location stands for an entry
with another kind of name. -/
abbrev Location := List String

/-- Directories and files, and the directory that relative paths start from. -/
structure FileTree where
  workingDir : Location
  entries : List (Location × Entry)

namespace FileTree

/-- What stands at a location; the root is always a directory. -/
def get? (t : FileTree) (l : Location) : Option Entry :=
  if l = [] then some .dir else t.entries.lookup l

/-- Puts an entry at a location. -/
def insert (t : FileTree) (l : Location) (e : Entry) : FileTree :=
  { t with entries := (l, e) :: t.entries.filter fun x => x.1 ≠ l }

/-- Clears a location. -/
def erase (t : FileTree) (l : Location) : FileTree :=
  { t with entries := t.entries.filter fun x => x.1 ≠ l }

/-- The name of a location inside a directory. -/
def nameIn? (dir l : Location) : Option String :=
  if l.dropLast = dir then l.getLast? else none

/-- The names inside a directory. -/
def names (t : FileTree) (dir : Location) : List String :=
  (t.entries.filterMap fun x => nameIn? dir x.1).eraseDups

/-! ### Following paths -/

/-- Goes on from a directory to one of its neighbours. -/
def enter (t : FileTree) (l : Location) (name : String) : Except TreeError Location :=
  if name = "." then .ok l
  else if name = ".." then .ok l.dropLast
  else
    match t.get? (l ++ [name]) with
    | some .dir => .ok (l ++ [name])
    | some (.file _) => .error .notADirectory
    | none => .error .notFound

/-- Follows names from a directory; all of them have to lead to directories. -/
def follow (t : FileTree) (l : Location) : List String → Except TreeError Location
  | [] => .ok l
  | name :: names =>
    match t.enter l name with
    | .ok l' => t.follow l' names
    | .error e => .error e

/-- What a path leads to: a directory that is surely there, or a name inside one. -/
inductive Target where
  | place (l : Location)
  | child (l : Location) (name : String)
deriving DecidableEq

/-- Where a path starts. -/
def base (t : FileTree) (p : Path) : Location := if p.isAbsolute then [] else t.workingDir

/-- Follows a path up to its last name, which need not exist. -/
def target (t : FileTree) (p : Path) : Except TreeError Target :=
  if p.text = "" then .error .notFound
  else
    match p.steps.getLast? with
    | none => .ok (.place (t.base p))
    | some last =>
      match t.follow (t.base p) p.steps.dropLast with
      | .error e => .error e
      | .ok l =>
        if last = "." then .ok (.place l)
        else if last = ".." then .ok (.place l.dropLast)
        else .ok (.child l last)

/-! ### Looking -/

/-- What a path stands for. A path that ends with a slash cannot stand for a file. -/
def find? (t : FileTree) (p : Path) : Except TreeError (Location × Entry) :=
  match t.target p with
  | .error e => .error e
  | .ok (.place l) => .ok (l, .dir)
  | .ok (.child l name) =>
    match t.get? (l ++ [name]) with
    | none => .error .notFound
    | some .dir => .ok (l ++ [name], .dir)
    | some (.file data) =>
      if p.endsWithSlash then .error .notADirectory else .ok (l ++ [name], .file data)

/-- Whether the path stands for a directory. -/
def isDir (t : FileTree) (p : Path) : Bool :=
  match t.find? p with
  | .ok (_, .dir) => true
  | _ => false

/-- Whether the path stands for a file. -/
def isFile (t : FileTree) (p : Path) : Bool :=
  match t.find? p with
  | .ok (_, .file _) => true
  | _ => false

/-- The text in a file. -/
def read? (t : FileTree) (p : Path) : Except TreeError String :=
  match t.find? p with
  | .error e => .error e
  | .ok (_, .dir) => .error .isADirectory
  | .ok (_, .file (.binary _)) => .error .notText
  | .ok (_, .file (.text content)) => .ok content

/-- The names inside a directory. -/
def names? (t : FileTree) (p : Path) : Except TreeError (List String) :=
  match t.find? p with
  | .error e => .error e
  | .ok (l, .dir) => .ok (t.names l)
  | .ok (_, .file _) => .error .notADirectory

/-! ### Changing -/

/-- Makes one directory, where nothing may stand yet. -/
def makeDir (t : FileTree) (p : Path) : Except TreeError FileTree :=
  match t.target p with
  | .error e => .error e
  | .ok (.place _) => .error .alreadyThere
  | .ok (.child l name) =>
    if (t.get? (l ++ [name])).isSome then .error .alreadyThere
    else .ok (t.insert (l ++ [name]) .dir)

/-- Makes one directory unless it is there already. -/
def ensureDir (t : FileTree) (p : Path) : Except TreeError FileTree :=
  match t.makeDir p with
  | .ok t' => .ok t'
  | .error e => if t.isDir p then .ok t else .error e

/-- What an operation that changes a tree gives: its result, and the tree that it leaves also when
it fails half-way. -/
abbrev Change (α : Type) := Except TreeError α × FileTree

/-- Makes the first of some directories, each of which belongs into the next one, together with all
of the others that are missing. -/
def makeNested (t : FileTree) : List Path → Change Unit
  | [] => (.ok (), t)
  | p :: outer =>
    match t.makeDir p with
    | .ok t' => (.ok (), t')
    | .error .notFound =>
      match t.makeNested outer with
      | (.error e, t') => (.error e, t')
      | (.ok (), t') =>
        match t'.ensureDir p with
        | .ok t'' => (.ok (), t'')
        | .error e => (.error e, t')
    | .error e => if t.isDir p then (.ok (), t) else (.error e, t)

/-- Makes a directory and all directories around it that are missing. -/
def makeDirs (t : FileTree) (p : Path) : Change Unit :=
  if p.text = "" then (.ok (), t) else t.makeNested (p :: p.ancestors)

/-- Writes a text to a file, which is made if nothing stands there. -/
def write (t : FileTree) (p : Path) (content : String) : Except TreeError FileTree :=
  match t.target p with
  | .error e => .error e
  | .ok (.place _) => .error .isADirectory
  | .ok (.child l name) =>
    if p.endsWithSlash || t.get? (l ++ [name]) = some .dir then .error .isADirectory
    else .ok (t.insert (l ++ [name]) (.file (.text content)))

/-- Removes a file. -/
def remove (t : FileTree) (p : Path) : Except TreeError FileTree :=
  match t.find? p with
  | .error e => .error e
  | .ok (_, .dir) => .error .isADirectory
  | .ok (l, .file _) => .ok (t.erase l)

end FileTree

end Defsheet

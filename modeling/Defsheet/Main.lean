import Defsheet.Command.Run

/-!
# The program

Commands work on a file tree. The program takes in the part of the disk that a command can look at,
runs the command, and makes on the disk the changes that the command made to the tree.
-/

namespace Defsheet

/-! ### Taking in the disk -/

/-- The text of a location. -/
def Location.text (l : Location) : String := "/" ++ "/".intercalate l

/-- The locations that following names from a directory leads to. -/
def visited (l : Location) : List String → List Location
  | [] => []
  | name :: names =>
    let next := if name = "." then l else if name = ".." then l.dropLast else l ++ [name]
    next :: visited next names

/-- The locations that following a path leads to. -/
def FileTree.route (t : FileTree) (p : Path) : List Location := visited (t.base p) p.steps

/-- Takes in what stands at a location. -/
def takeIn (t : FileTree) (l : Location) : IO FileTree := do
  let place := (← IO.currentDir) / l.text
  if ← place.isDir then return t.insert l .dir
  else if ← place.pathExists then return t.insert l (.file (.ofBytes (← IO.FS.readBinFile place)))
  else return t

/-- Takes in everything on the way of a path. -/
def takeInRoute (t : FileTree) (p : Path) : IO FileTree := (t.route p).foldlM takeIn t

/-- Takes in a directory with what is in it. -/
def takeInDir (t : FileTree) (p : Path) : IO FileTree := do
  let t ← takeInRoute t p
  match t.find? p with
  | .ok (l, .dir) =>
    let children ← ((← IO.currentDir) / l.text).readDir
    children.toList.foldlM (fun t child => takeIn t (l ++ [child.fileName])) t
  | _ => return t

/-- The tree with nothing but the way to the working directory. -/
def startingTree : IO FileTree := do
  let here := (Path.mk (← IO.currentDir).toString).steps
  let dirs := (visited [] here).map fun l => (l, Entry.dir)
  return ⟨here, dirs⟩

/-- The settings files and documents that a command reads. -/
def Command.inputs (home : Option Path) : Command → List Path
  | compile config _ _ files => config.elim (Settings.candidates home) ([·]) ++ files
  | check config _ files => config.elim (Settings.candidates home) ([·]) ++ files

/-- The directories that a command writes to. -/
def Command.outputs (t : FileTree) (home : Option Path) : Command → List Path
  | compile config out editorOut _ =>
    match Settings.discover t home config with
    | .ok s =>
      let layout := s.layout out editorOut
      Group.all.map layout.dir ++ ArtifactKind.all.map layout.kindDir
    | .error _ => []
  | check .. => []

/-- The part of the disk that a command can look at. -/
def Command.surroundings (home : Option Path) (command : Command) : IO FileTree := do
  let t ← (command.inputs home).foldlM takeInRoute (← startingTree)
  (command.outputs t home).foldlM takeInDir t

/-! ### Changing the disk -/

/-- Makes one change. -/
def putOut (l : Location) (e : Entry) : IO Unit := do
  match e with
  | .dir => IO.FS.createDirAll l.text
  | .file (.text content) => IO.FS.writeFile l.text content
  | .file (.binary bytes) => IO.FS.writeBinFile l.text ⟨bytes.toArray⟩

/-- Makes the changes that lead from one tree to another. -/
def putOutChanges (before after : FileTree) : IO Unit := do
  let changed := after.entries.filter fun (l, e) => before.get? l ≠ some e
  for (l, e) in changed.mergeSort fun a b => decide (a.1.length ≤ b.1.length) do
    putOut l e
  for (l, _) in before.entries do
    if (after.get? l).isNone then IO.FS.removeFile l.text

/-- Answers a command line. -/
def answer (args : List String) : IO UInt32 := do
  let invocation := Invocation.ofArguments args
  let home := ((← IO.getEnv "HOME").filter (· ≠ "")).map Path.mk
  let before ← match invocation with
    | .run command => command.surroundings home
    | _ => pure ⟨[], []⟩
  let (response, after) := invocation.respond before home
  IO.print response.output
  putOutChanges before after
  if let some message := response.failure then IO.eprintln message
  return UInt32.ofNat response.status

end Defsheet

/-- Answers the command line that the program is started with. -/
def main (args : List String) : IO UInt32 := Defsheet.answer args

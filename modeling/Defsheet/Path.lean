/-!
# Paths

A path is kept as it was written, since messages and reports show it that way. It is absolute if it
begins with a slash. Empty segments and segments `.` lead nowhere, and a last segment of that kind
is not part of the name of what the path stands for.

## Main definitions

* `Path.join` appends a relative path.
* `Path.ancestors` and `Path.parent?` give the directories around what a path stands for.
* `Path.fileName?` and `Path.stem?` give the name of what a path stands for.
-/

namespace Defsheet

/-- A path as written. -/
structure Path where
  text : String
deriving DecidableEq

/-- Splits at every slash, so that joining with slashes gives the same characters again. -/
def splitSlash : List Char → List (List Char)
  | [] => [[]]
  | c :: cs =>
    if c = '/' then [] :: splitSlash cs
    else
      match splitSlash cs with
      | [] => [[c]]
      | s :: ss => (c :: s) :: ss

/-- The segments joined by slashes. -/
def joinSlash (segments : List (List Char)) : List Char := ['/'].intercalate segments

/-- Whether a segment leads nowhere. -/
def isIdle (segment : List Char) : Bool := segment = [] || segment = ['.']

namespace Path

/-- The segments between slashes. -/
def segments (p : Path) : List (List Char) := splitSlash p.text.toList

/-- Whether the path begins at the root. -/
def isAbsolute (p : Path) : Bool := p.text.toList.head? = some '/'

/-- Whether the path ends with a slash, so that it can only stand for a directory. -/
def endsWithSlash (p : Path) : Bool := p.text.toList.getLast? = some '/'

/-- The names to follow, one after the other. -/
def steps (p : Path) : List String := (p.segments.filter fun s => s ≠ []).map String.ofList

/-- Appends a relative path, with a slash between unless one is there or the first path is empty. -/
def join (p : Path) (rest : String) : Path :=
  if p.text = "" || p.endsWithSlash then ⟨p.text ++ rest⟩ else ⟨p.text ++ "/" ++ rest⟩

/-- The path of some segments after the first, given from the last one on, and those around it. -/
def upward (first : List Char) : List (List Char) → List Path
  | [] => [⟨if first = [] then "/" else String.ofList first⟩]
  | s :: outer =>
    if isIdle s then upward first outer
    else ⟨String.ofList (joinSlash (first :: (s :: outer).reverse))⟩ :: upward first outer

/-- The directories around what the path stands for, from the nearest one outward, as far as the
path names them. -/
def ancestors (p : Path) : List Path :=
  match p.segments with
  | [] => []
  | first :: rest =>
    match rest.reverse.dropWhile isIdle with
    | [] => []
    | _ :: outer => upward first outer

/-- The directory around what the path stands for. It is empty if the path does not name it; the
root and the empty path have none. -/
def parent? (p : Path) : Option Path :=
  match p.ancestors with
  | q :: _ => some q
  | [] => if p.text = "" || p.isAbsolute then none else some ⟨""⟩

/-! ### File names -/

/-- The name of what the path stands for. A path that ends in `..` or has no segment that counts
names nothing. -/
def fileName? (p : Path) : Option (List Char) :=
  ((p.segments.filter fun s => !isIdle s).getLast?).filter fun s => s ≠ ['.', '.']

/-- The part of a file name from its last dot on, unless the name begins with that dot. -/
def dotPart (name : List Char) : List Char :=
  let tail := name.reverse.takeWhile (· ≠ '.')
  if name.length ≤ tail.length + 1 then [] else '.' :: tail.reverse

/-- A file name without its extension. -/
def nameStem (name : List Char) : List Char := name.take (name.length - (dotPart name).length)

/-- The extension of a file name, without the dot. -/
def nameExtension? (name : List Char) : Option (List Char) :=
  match dotPart name with
  | [] => none
  | _ :: cs => some cs

/-- The file name without its extension. -/
def stem? (p : Path) : Option String := p.fileName?.map fun n => String.ofList (nameStem n)

end Path

end Defsheet

import Defsheet.Path

/-!
# The command line

There are two commands. `compile` writes the files of some documents, `check` only reports what is
wrong with them. Options may stand before, between and after the files; after `--` everything is a
file.

## Main definitions

* `Command` is a command with its arguments.
* `Invocation.ofArguments` reads a command line.
-/

namespace Defsheet

/-- How diagnostics are printed. -/
inductive Format where
  | text
  | json
deriving DecidableEq

/-- The format with a name. -/
def Format.ofName? : String → Option Format
  | "text" => some text
  | "json" => some json
  | _ => none

/-- A command with its arguments. -/
inductive Command where
  | compile (config out editorOut : Option Path) (files : List Path)
  | check (config : Option Path) (format : Format) (files : List Path)
deriving DecidableEq

/-- What a command line asks for. -/
inductive Invocation where
  | run (command : Command)
  | version
  | help
  /-- The command line cannot be understood. -/
  | misuse
deriving DecidableEq

/-! ### Arguments -/

/-- An argument by its form. -/
inductive Argument where
  /-- Two dashes: everything after them is a file. -/
  | separator
  /-- An option by its name, with a value if one is attached. -/
  | long (name : String) (value : Option String)
  /-- Options of one letter each. -/
  | short (letters : List Char)
  | plain (text : String)
deriving DecidableEq

/-- Tells arguments apart. A single dash is a file. -/
def Argument.ofText (s : String) : Argument :=
  match s.toList with
  | ['-', '-'] => separator
  | '-' :: '-' :: cs =>
    let name := String.ofList (cs.takeWhile (· ≠ '='))
    match cs.dropWhile (· ≠ '=') with
    | [] => long name none
    | _ :: value => long name (some (String.ofList value))
  | '-' :: c :: cs => short (c :: cs)
  | _ => plain s

/-- Whether the argument can be the value of an option before it. -/
def Argument.isPlain : Argument → Bool
  | plain _ => true
  | _ => false

/-- Why reading arguments stops early. -/
inductive Stop where
  | version
  | help
  | misuse
deriving DecidableEq

/-- The invocation that stopping early amounts to. -/
def Stop.invocation : Stop → Invocation
  | version => .version
  | help => .help
  | misuse => .misuse

/-- The options and files read so far. -/
structure Arguments where
  verbose : Bool := false
  values : List (String × String) := []
  files : List String := []

namespace Arguments

/-- Turns on the extra log, which may be asked for once. -/
def setVerbose (a : Arguments) : Except Stop Arguments :=
  if a.verbose then .error .misuse else .ok { a with verbose := true }

/-- Whether an option can have a value. -/
def isValid (name value : String) : Bool :=
  if name = "format" then (Format.ofName? value).isSome else value ≠ ""

/-- Sets an option, which may be done once. -/
def setValue (a : Arguments) (name value : String) : Except Stop Arguments :=
  if isValid name value && (a.values.lookup name).isNone then
    .ok { a with values := (name, value) :: a.values }
  else .error .misuse

/-- Adds a file, which has to have a name. -/
def addFile (a : Arguments) (file : String) : Except Stop Arguments :=
  if file = "" then .error .misuse else .ok { a with files := a.files ++ [file] }

/-- Reads options of one letter. The version can be asked for only in front of the command. -/
def addLetters (top : Bool) (a : Arguments) : List Char → Except Stop Arguments
  | [] => .ok a
  | c :: cs =>
    match c with
    | 'v' =>
      match a.setVerbose with
      | .ok a => a.addLetters top cs
      | .error e => .error e
    | 'h' => .error .help
    | 'V' => if top then .error .version else .error .misuse
    | _ => .error .misuse

/-- Adds files. -/
def addFiles (a : Arguments) : List String → Except Stop Arguments
  | [] => .ok a
  | f :: fs =>
    match a.addFile f with
    | .ok a => a.addFiles fs
    | .error e => .error e

/-- Reads the arguments of a command, where `valued` lists the options that have a value. -/
def read (valued : List String) (a : Arguments) : List String → Except Stop Arguments
  | [] => .ok a
  | s :: rest =>
    match Argument.ofText s with
    | .separator => a.addFiles rest
    | .plain file =>
      match a.addFile file with
      | .ok a => a.read valued rest
      | .error e => .error e
    | .short letters =>
      match a.addLetters false letters with
      | .ok a => a.read valued rest
      | .error e => .error e
    | .long name (some value) =>
      if valued.contains name then
        match a.setValue name value with
        | .ok a => a.read valued rest
        | .error e => .error e
      else .error .misuse
    | .long name none =>
      if name = "verbose" then
        match a.setVerbose with
        | .ok a => a.read valued rest
        | .error e => .error e
      else if name = "help" then .error .help
      else if valued.contains name then
        match rest with
        | [] => .error .misuse
        | value :: rest =>
          if (Argument.ofText value).isPlain then
            match a.setValue name value with
            | .ok a => a.read valued rest
            | .error e => .error e
          else .error .misuse
      else .error .misuse

/-- A path that was given. -/
def path? (a : Arguments) (name : String) : Option Path := (a.values.lookup name).map Path.mk

/-- The files as paths. -/
def paths (a : Arguments) : List Path := a.files.map Path.mk

end Arguments

/-! ### Commands -/

/-- Reads the arguments of `compile`. -/
def Command.readCompile (args : List String) : Except Stop Command :=
  match Arguments.read ["config", "out", "editor-out"] {} args with
  | .error e => .error e
  | .ok a =>
    if a.files.isEmpty then .error .misuse
    else .ok (.compile (a.path? "config") (a.path? "out") (a.path? "editor-out") a.paths)

/-- Reads the arguments of `check`. -/
def Command.readCheck (args : List String) : Except Stop Command :=
  match Arguments.read ["config", "format"] {} args with
  | .error e => .error e
  | .ok a =>
    let format := ((a.values.lookup "format").bind Format.ofName?).getD .text
    if a.files.isEmpty then .error .misuse else .ok (.check (a.path? "config") format a.paths)

/-- Reads the arguments in front of the command, and the command. -/
def Command.read (a : Arguments) : List String → Except Stop Command
  | [] => .error .misuse
  | s :: rest =>
    match Argument.ofText s with
    | .plain "compile" => readCompile rest
    | .plain "check" => readCheck rest
    | .plain "help" =>
      if rest.all fun name => ["compile", "check", "help"].contains name then .error .help
      else .error .misuse
    | .short letters =>
      match a.addLetters true letters with
      | .ok a => read a rest
      | .error e => .error e
    | .long "verbose" none =>
      match a.setVerbose with
      | .ok a => read a rest
      | .error e => .error e
    | .long "version" none => .error .version
    | .long "help" none => .error .help
    | _ => .error .misuse

/-- Reads a command line. -/
def Invocation.ofArguments (args : List String) : Invocation :=
  match Command.read {} args with
  | .ok command => .run command
  | .error stop => stop.invocation

end Defsheet

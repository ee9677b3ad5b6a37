import Defsheet.Text.Layout

/-!
# Diagnostics

What is wrong with a document, or suspicious in it, is reported and never stops the work: every
stage adds its diagnostics and goes on with what is still valid. A `DiagnosticLog` collects them in
the order of report.
-/

namespace Defsheet

/-- How much a diagnostic matters. Only errors make a command fail. -/
inductive Severity where
  | warning
  | error
deriving DecidableEq

namespace Severity

/-- The name of the severity in machine-readable output. -/
def name : Severity → String
  | warning => "warning"
  | error => "error"

end Severity

/-- What a diagnostic is about: the characters of a document, its grammar, its meaning, or a habit
that is accepted but suspicious. -/
inductive DiagnosticKind where
  | lexical
  | grammatical
  | semantic
  | lint
deriving DecidableEq

namespace DiagnosticKind

/-- The word in brackets in front of a printed diagnostic. -/
def tag : DiagnosticKind → String
  | lexical => "LexicalError"
  | grammatical => "SyntaxError"
  | semantic => "SemanticError"
  | lint => "Warning"

/-- The name of the kind in machine-readable output. -/
def name : DiagnosticKind → String
  | lexical => "Lexical"
  | grammatical => "Syntax"
  | semantic => "Semantic"
  | lint => "Lint"

/-- Only what is accepted is a warning. -/
def severity : DiagnosticKind → Severity
  | lint => .warning
  | _ => .error

end DiagnosticKind

/-- One problem of one document. -/
structure Diagnostic where
  document : String
  position : Position
  kind : DiagnosticKind
  message : String
deriving DecidableEq

namespace Diagnostic

/-- The severity follows from the kind. -/
def severity (d : Diagnostic) : Severity := d.kind.severity

/-- Whether the diagnostic makes a command fail. -/
def isError (d : Diagnostic) : Bool := d.severity = .error

/-- The printed form. -/
def text (d : Diagnostic) : String :=
  "[" ++ d.kind.tag ++ "] " ++ d.document ++ "(" ++ toString d.position.line ++ "): " ++ d.message

end Diagnostic

/-- Diagnostics in the order of report, stamped with the document being worked on. -/
structure DiagnosticLog where
  document : String
  items : List Diagnostic

namespace DiagnosticLog

/-- The log of a document before anything is reported. -/
def empty (document : String) : DiagnosticLog := ⟨document, []⟩

/-- Adds a diagnostic about the log's own document. -/
def report (log : DiagnosticLog) (kind : DiagnosticKind) (message : String) (position : Position) :
    DiagnosticLog :=
  { log with items := log.items ++ [⟨log.document, position, kind, message⟩] }

/-- Adds diagnostics that are already stamped. -/
def extend (log : DiagnosticLog) (more : List Diagnostic) : DiagnosticLog :=
  { log with items := log.items ++ more }

/-- The number of diagnostics. -/
def size (log : DiagnosticLog) : Nat := log.items.length

/-- Whether nothing was reported. -/
def isEmpty (log : DiagnosticLog) : Bool := log.items.isEmpty

/-- Whether an error was reported. -/
def hasErrors (log : DiagnosticLog) : Bool := log.items.any Diagnostic.isError

end DiagnosticLog

end Defsheet

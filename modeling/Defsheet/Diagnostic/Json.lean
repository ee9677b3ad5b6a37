import Defsheet.Diagnostic

/-!
# Diagnostics as JSON

A list of diagnostics as a JSON array, spread over lines with two blanks for each level. Only
quotes, backslashes and control characters are escaped.
-/

namespace Defsheet

/-- A digit in base sixteen. -/
def hexDigit (n : Nat) : Char := Nat.digitChar n

/-- A character inside a JSON string. -/
def jsonChar (c : Char) : List Char :=
  if c = '"' then ['\\', '"']
  else if c = '\\' then ['\\', '\\']
  else if c = '\x08' then ['\\', 'b']
  else if c = '\x0c' then ['\\', 'f']
  else if c = '\n' then ['\\', 'n']
  else if c = '\r' then ['\\', 'r']
  else if c = '\t' then ['\\', 't']
  else if c.toNat < 0x20 then
    ['\\', 'u', '0', '0', hexDigit (c.toNat / 16), hexDigit (c.toNat % 16)]
  else [c]

/-- A JSON string. -/
def jsonString (s : String) : String :=
  String.ofList ('"' :: (s.toList.flatMap jsonChar ++ ['"']))

namespace Diagnostic

/-- The fields of a diagnostic and their values. -/
def jsonFields (d : Diagnostic) : List (String × String) :=
  [("document", jsonString d.document), ("line", toString d.position.line),
   ("col", toString d.position.col), ("severity", jsonString d.severity.name),
   ("kind", jsonString d.kind.name), ("message", jsonString d.message)]

/-- A diagnostic as an element of an array. -/
def json (d : Diagnostic) : String :=
  "  \x7b\n"
    ++ ",\n".intercalate (d.jsonFields.map fun (k, v) => "    " ++ jsonString k ++ ": " ++ v)
    ++ "\n  \x7d"

/-- Diagnostics as an array. -/
def jsonArray (ds : List Diagnostic) : String :=
  if ds.isEmpty then "[]" else "[\n" ++ ",\n".intercalate (ds.map json) ++ "\n]"

end Diagnostic

end Defsheet

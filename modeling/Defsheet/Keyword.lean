/-!
# Reserved words of documents

The words that a document uses for its own structure. A word that is reserved is never a name.
-/

namespace Defsheet

/-- A reserved word. -/
inductive Keyword where
  | action
  | marker
  | displayName
  | category
  | description
  | themeColor
  | duration
  | instant
  | passive
  | port
  | flow
  | label
  | min
  | max
  | gizmo
  | float
  | int
  | bool
  | string
  | trueWord
  | falseWord
  | sphere
  | wireSphere
  | box
  | wireBox
deriving DecidableEq

namespace Keyword

/-- The word as it is written. -/
def word : Keyword → String
  | action => "action"
  | marker => "marker"
  | displayName => "displayName"
  | category => "category"
  | description => "description"
  | themeColor => "themeColor"
  | duration => "duration"
  | instant => "instant"
  | passive => "passive"
  | port => "port"
  | flow => "flow"
  | label => "label"
  | min => "min"
  | max => "max"
  | gizmo => "gizmo"
  | float => "float"
  | int => "int"
  | bool => "bool"
  | string => "string"
  | trueWord => "true"
  | falseWord => "false"
  | sphere => "sphere"
  | wireSphere => "wire_sphere"
  | box => "box"
  | wireBox => "wire_box"

/-- All reserved words. -/
def all : List Keyword :=
  [action, marker, displayName, category, description, themeColor, duration, instant, passive, port,
   flow, label, min, max, gizmo, float, int, bool, string, trueWord, falseWord, sphere, wireSphere,
   box, wireBox]

/-- The reserved word written in this way, if there is one. -/
def ofWord? (w : String) : Option Keyword :=
  all.find? fun k => k.word = w

end Keyword

end Defsheet

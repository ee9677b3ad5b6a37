import Defsheet.Definition
import Defsheet.Issue
import Defsheet.Number.Value
import Defsheet.PortType

/-!
# From declarations to definitions

Here declarations get their identifiers. What cannot be written in generated code is dropped: a
statement or port whose name is unspellable, a default or bound that is no value of the port's type.
So is what would define a generated name twice, the earlier one staying. Everything else passes
through unchanged.

## Main definitions

* `PortDefinition.ofPort?` resolves one port.
* `ActionDefinition.ofDecl?` and `MarkerDefinition.ofDecl?` resolve one declaration.
* `Definition.generatedNames` lists the names that a definition takes up.
* `Resolution.ofDeclarations` resolves a document.
-/

namespace Defsheet

/-- The name of the flow port through which every action is entered. -/
def entryPort : String := "in"

/-- The name of the flow port through which every action is left. -/
def exitPort : String := "out"

/-! ### Values -/

/-- Whether the number is a value of the type. -/
def PortType.admitsNumber : PortType → Numeral → Bool
  | .float, n => n.fitsFloat
  | .int, n => n.fitsInt
  | _, _ => false

/-- Whether the literal is a value of the type. A type that the user supplies has no literals. -/
def PortType.admits : PortType → Literal → Bool
  | .bool, .bool _ => true
  | .string, .string _ => true
  | type, .number n => type.admitsNumber n
  | _, _ => false

/-! ### Ports -/

/-- A value that may have been dropped, and what was found on the way. -/
abbrev Checked (α : Type) := α × List Issue

/-- Drops a default that is no value of the type. -/
def checkDefault (type : PortType) (port : String) : Option Literal → Checked (Option Literal)
  | some value =>
    if type.admits value then (some value, []) else (none, [.defaultMisfit port type.name])
  | none => (none, [])

/-- Drops a bound that is no value of the type. -/
def checkBound (type : PortType) (port : String) (bound : Bound) :
    Option Numeral → Checked (Option Numeral)
  | some n =>
    if type.admitsNumber n then (some n, [])
    else (none, [.boundOutOfRange bound n.text port type.name])
  | none => (none, [])

/-- The warning about a lower bound above the upper one. Both stay. -/
def checkRange (port : String) : Option Numeral → Option Numeral → List Issue
  | some lo, some hi =>
    if Binary64.lt hi.value lo.value then [.emptyRange port lo.text hi.text] else []
  | _, _ => []

/-- Drops bounds that do not fit the type: all bounds if it holds no numbers. -/
def checkBounds (type : PortType) (port : String) (min max : Option Numeral) :
    Checked (Option Numeral × Option Numeral) :=
  if type.isNumeric then
    let (min, belowIssues) := checkBound type port .min min
    let (max, aboveIssues) := checkBound type port .max max
    ((min, max), belowIssues ++ aboveIssues ++ checkRange port min max)
  else if min.isSome || max.isSome then ((none, none), [.boundsMisfit port type.name])
  else ((none, none), [])

/-- Whether generated code cannot name the type. -/
def PortType.isUnspellable : PortType → Bool
  | .custom name => Defsheet.isUnspellable name
  | _ => false

/-- Resolves a data port of an action. -/
def PortDefinition.ofData? (action : String) (p : DataPort) : Checked (Option PortDefinition) :=
  if p.type.isUnspellable then (none, [.unknownPortType p.name action p.type.name])
  else if isUnspellable (constName p.name) then (none, [.namelessPort p.name action])
  else
    let (default, defaultIssues) := checkDefault p.type p.name p.default
    let ((min, max), boundIssues) := checkBounds p.type p.name p.min p.max
    (some ⟨p.name, p.label, constName p.name, .data p.type default min max⟩,
      defaultIssues ++ boundIssues)

/-- Resolves a flow port of an action. -/
def PortDefinition.ofFlow? (action : String) (p : FlowPort) : Checked (Option PortDefinition) :=
  if isUnspellable (constName p.name) then (none, [.namelessFlowPort p.name action])
  else (some ⟨p.name, p.label, constName p.name, .flow⟩, [])

/-- Resolves a port of an action. -/
def PortDefinition.ofPort? (action : String) : Port → Checked (Option PortDefinition)
  | .data p => ofData? action p
  | .flow p => ofFlow? action p

/-- The constants of the two ports that every action has, with the names of these ports. -/
def implicitConsts : List (String × String) :=
  [(constName entryPort, entryPort), (constName exitPort, exitPort)]

/-- The name of the port that has the constant, if one does. -/
def constOwner? (kept : List PortDefinition) (const : String) : Option String :=
  (implicitConsts ++ kept.map fun p => (p.const, p.name)).lookup const

/-- Resolves ports in order; a port whose constant is taken is dropped. -/
def resolvePorts (action : String) (kept : List PortDefinition) :
    List Port → List PortDefinition × List Finding
  | [] => (kept, [])
  | port :: ports =>
    let place := Position.ofLine port.line
    let (definition, issues) := PortDefinition.ofPort? action port
    let found : List Finding := issues.map fun i => ⟨i, place⟩
    match definition with
    | none =>
      let (kept', others) := resolvePorts action kept ports
      (kept', found ++ others)
    | some p =>
      match constOwner? kept p.const with
      | some owner =>
        let (kept', others) := resolvePorts action kept ports
        (kept', found ++ ⟨.portCollision p.name action owner p.const, place⟩ :: others)
      | none =>
        let (kept', others) := resolvePorts action (kept ++ [p]) ports
        (kept', found ++ others)

/-! ### Statements -/

/-- A definition that may have been dropped, and what was found on the way. -/
abbrev Resolved (α : Type) := Option α × List Finding

/-- The modules around the constant of a type id, before reserved words are dealt with. -/
def TypeId.modulePath (t : TypeId) : List String := t.qualifier.map foldAcronym

/-- All segments as one identifier. -/
def TypeId.joined (t : TypeId) : String := String.join t.segments

/-- Resolves an action. -/
def ActionDefinition.ofDecl? (a : ActionDecl) : Resolved ActionDefinition :=
  let id := a.typeId.text
  let modulePath := a.typeId.modulePath
  let className := a.typeId.joined
  let idConst := constName a.typeId.last
  match (modulePath ++ [className, idConst]).find? isUnspellable with
  | some ident => (none, [⟨.reservedTypeId id ident, .ofLine a.line⟩])
  | none =>
    let (ports, findings) := resolvePorts id [] a.ports
    (some
      { typeId := a.typeId
        modulePath := modulePath.map writtenIdent
        idConst := idConst
        className := writtenIdent className
        providerConst := constName className
        metadata := a.metadata
        ports := ports
        line := a.line },
      findings)

/-- Resolves a marker. -/
def MarkerDefinition.ofDecl? (m : MarkerDecl) : Resolved MarkerDefinition :=
  if isUnspellable m.name || isUnspellable (constName m.name) then
    (none, [⟨.reservedMarker m.name, .ofLine m.line⟩])
  else
    (some ⟨m.name, writtenIdent m.name, constName m.name, m.label, m.gizmo, m.line⟩, [])

/-- Resolves a declaration by itself. -/
def Definition.ofDeclaration? : Declaration → Resolved Definition
  | .action a =>
    let (definition, findings) := ActionDefinition.ofDecl? a
    (definition.map .action, findings)
  | .marker m =>
    let (definition, findings) := MarkerDefinition.ofDecl? m
    (definition.map .marker, findings)

/-! ### Documents -/

/-- The places where generated names must not repeat. -/
inductive NameSpace where
  | actionId
  | portKeys
  | provider
  | markerId
  | component
deriving DecidableEq

/-- The tag that tells the name spaces apart in claims. -/
def NameSpace.tag : NameSpace → String
  | actionId => "action_id"
  | portKeys => "port_keys"
  | provider => "provider"
  | markerId => "marker_id"
  | component => "marker"

/-- A name that generated code defines, by its path inside its name space. -/
structure GeneratedName where
  space : NameSpace
  path : List String
deriving DecidableEq

/-- The name as messages show it. -/
def GeneratedName.text (n : GeneratedName) : String := "::".intercalate n.path

/-- The string by which the name is claimed. -/
def GeneratedName.key (n : GeneratedName) : String := n.space.tag ++ ":" ++ n.text

/-- The names that a definition takes up. -/
def Definition.generatedNames : Definition → List GeneratedName
  | .action a =>
    [⟨.actionId, a.modulePath ++ [a.idConst]⟩, ⟨.portKeys, [a.className]⟩,
      ⟨.provider, [a.providerConst]⟩]
  | .marker m => [⟨.markerId, [m.idConst]⟩, ⟨.component, [m.ident]⟩]

/-- The strings that a definition claims. -/
def Definition.keys (d : Definition) : List String := d.generatedNames.map GeneratedName.key

/-- The definition that has claimed the name, if one has. -/
def Definition.owner? (kept : List Definition) (n : GeneratedName) : Option Definition :=
  kept.find? fun d => d.keys.contains n.key

/-- The first name of a definition that is taken, and who has it. -/
def Definition.clash? (kept : List Definition) (d : Definition) :
    Option (GeneratedName × Definition) :=
  d.generatedNames.findSome? fun n => (Definition.owner? kept n).map fun owner => (n, owner)

/-- What resolving gives. -/
structure Resolution where
  definitions : List Definition
  findings : List Finding

namespace Resolution

/-- Resolves one more declaration; a definition that needs a name which is taken is dropped. -/
def add (r : Resolution) (d : Declaration) : Resolution :=
  let (definition, findings) := Definition.ofDeclaration? d
  match definition with
  | none => ⟨r.definitions, r.findings ++ findings⟩
  | some item =>
    match item.clash? r.definitions with
    | some (name, owner) =>
      ⟨r.definitions, r.findings ++ findings
        ++ [⟨.nameCollision d.id owner.id name.text, .ofLine d.line⟩]⟩
    | none => ⟨r.definitions ++ [item], r.findings ++ findings⟩

/-- Resolves declarations in order. -/
def ofDeclarations (ds : List Declaration) : Resolution :=
  ds.foldl add ⟨[], []⟩

end Resolution

end Defsheet

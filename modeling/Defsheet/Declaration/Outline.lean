import Defsheet.Declaration.Statement

/-!
# From statements to declarations

A statement becomes a declaration by going through its members. A field that is set again takes the
later value; a port whose name is taken is dropped; bounds on a flow port are dropped. In a document
the first declaration of each type id is kept.

The findings of a statement are reported even if the statement breaks off later, and in the order of
the text: those of its members, then the one about its type id, then the fault.

## Main definitions

* `ActionDecl.ofMembers` and `MarkerDecl.ofMembers` make declarations.
* `Section.outcome` is what one section contributes.
* `Outline.ofTokens` reads a whole document.
-/

namespace Defsheet

/-! ### Actions -/

/-- The finding about a field that is set again, if such findings are wanted. -/
def repeatFinding (warn wasSet : Bool) (k : Keyword) (p : Position) : List Finding :=
  if wasSet && warn then [⟨.repeatedField k, p⟩] else []

namespace Port

/-- The first port of the given name. -/
def find? (ports : List Port) (name : String) : Option Port :=
  ports.find? fun p => p.name = name

end Port

namespace ActionDecl

/-- Adds a port unless its name is taken. -/
def addPort (a : ActionDecl) (port : Port) (p : Position) : ActionDecl × List Finding :=
  match Port.find? a.ports port.name with
  | some first => (a, [⟨.duplicatePort port.name a.typeId.text first.line, p⟩])
  | none => ({ a with ports := a.ports ++ [port] }, [])

/-- The finding about bounds on a flow port. -/
def flowBoundsFinding (name : String) (o : PortOptions) (p : Position) : List Finding :=
  if o.min.isSome || o.max.isSome then [⟨.flowBounds name, p⟩] else []

/-- Adds one member. -/
def addMember (warn : Bool) (a : ActionDecl) (m : Located ActionMember) :
    ActionDecl × List Finding :=
  let p := m.position
  let data := a.metadata
  match m.value with
  | .displayName text =>
    ({ a with metadata := { data with displayName := some text } },
      repeatFinding warn data.displayName.isSome .displayName p)
  | .category text =>
    ({ a with metadata := { data with category := some text } },
      repeatFinding warn data.category.isSome .category p)
  | .description text =>
    ({ a with metadata := { data with description := some text } },
      repeatFinding warn data.description.isSome .description p)
  | .themeColor color =>
    ({ a with metadata := { data with themeColor := some color } },
      repeatFinding warn data.themeColor.isSome .themeColor p)
  | .duration kind =>
    ({ a with metadata := { data with duration := some kind } },
      repeatFinding warn data.duration.isSome .duration p)
  | .dataPort type name default o =>
    a.addPort (.data ⟨type, name, default, o.label, o.min, o.max, p.line⟩) p
  | .flowPort name o =>
    let (a', duplicate) := a.addPort (.flow ⟨name, o.label, p.line⟩) p
    (a', flowBoundsFinding name o p ++ duplicate)

/-- Adds members in order. -/
def addMembers (warn : Bool) (a : ActionDecl) :
    List (Located ActionMember) → ActionDecl × List Finding
  | [] => (a, [])
  | m :: ms =>
    let (a', first) := a.addMember warn m
    let (a'', others) := a'.addMembers warn ms
    (a'', first ++ others)

/-- The action that the members make up. -/
def ofMembers (warn : Bool) (typeId : TypeId) (line : Nat) (ms : List (Located ActionMember)) :
    ActionDecl × List Finding :=
  addMembers warn ⟨typeId, {}, [], line⟩ ms

end ActionDecl

/-! ### Markers -/

namespace MarkerDecl

/-- Adds one member. -/
def addMember (warn : Bool) (d : MarkerDecl) (m : Located MarkerMember) :
    MarkerDecl × List Finding :=
  match m.value with
  | .label text =>
    ({ d with label := some text }, repeatFinding warn d.label.isSome .label m.position)
  | .gizmo g =>
    ({ d with gizmo := some g }, repeatFinding warn d.gizmo.isSome .gizmo m.position)

/-- Adds members in order. -/
def addMembers (warn : Bool) (d : MarkerDecl) :
    List (Located MarkerMember) → MarkerDecl × List Finding
  | [] => (d, [])
  | m :: ms =>
    let (d', first) := d.addMember warn m
    let (d'', others) := d'.addMembers warn ms
    (d'', first ++ others)

/-- The marker that the members make up. -/
def ofMembers (warn : Bool) (name : String) (line : Nat) (ms : List (Located MarkerMember)) :
    MarkerDecl × List Finding :=
  addMembers warn ⟨name, none, none, line⟩ ms

end MarkerDecl

/-- The declaration that a statement makes, and what its members give rise to. -/
def Statement.declare (warn : Bool) (line : Nat) : Statement → Declaration × List Finding
  | .action typeId members =>
    let (a, findings) := ActionDecl.ofMembers warn typeId line members
    (.action a, findings)
  | .marker name members =>
    let (m, findings) := MarkerDecl.ofMembers warn name line members
    (.marker m, findings)

/-! ### Documents -/

/-- What a section contributes: perhaps a declaration, the findings of its members, and perhaps a
place where the grammar is broken. -/
structure SectionOutcome where
  declared : Option Declaration
  findings : List Finding
  fault : Option Finding

/-- The finding about tokens that belong to no statement. Only the first of them is reported. -/
def strayFinding? : List Token → Option Finding
  | [] => none
  | t :: _ => some ⟨.expected .statement t.value, t.position⟩

/-- What a section contributes. -/
def Section.outcome (warn : Bool) (s : Section) : SectionOutcome :=
  match s.attempt with
  | .complete statement rest =>
    let (d, findings) := statement.declare warn s.position.line
    ⟨some d, findings, strayFinding? rest⟩
  | .broken statement fault =>
    let findings := statement.elim [] fun st => (st.declare warn s.position.line).2
    ⟨none, findings, some (fault.finding s.stop)⟩

/-- What is known of a document: its declarations and what is wrong with it. -/
structure Outline where
  declarations : List Declaration
  findings : List Finding

namespace Outline

/-- The first declaration of the given type id. -/
def find? (declarations : List Declaration) (id : String) : Option Declaration :=
  declarations.find? fun d => d.id = id

/-- Takes in what a section contributes; of two declarations with one type id the first stays. -/
def add (o : Outline) (s : SectionOutcome) : Outline :=
  match s.declared with
  | none => ⟨o.declarations, o.findings ++ s.findings ++ s.fault.toList⟩
  | some d =>
    match find? o.declarations d.id with
    | some first =>
      ⟨o.declarations, o.findings ++ s.findings
        ++ [⟨.duplicateTypeId d.id first.line, .ofLine d.line⟩] ++ s.fault.toList⟩
    | none => ⟨o.declarations ++ [d], o.findings ++ s.findings ++ s.fault.toList⟩

/-- The tokens before the first end of file, and that end of file. If it is missing, it is taken to
stand on the line of the last token. -/
def close (tokens : List Token) : List Token × Token :=
  let isEnd : Token → Bool := fun t => t.value = .endOfFile
  let missing : Token := ⟨.endOfFile, .ofLine ((tokens.getLast?.map Located.line).getD 1)⟩
  (tokens.takeWhile fun t => !isEnd t, (tokens.find? isEnd).getD missing)

/-- Reads a document from its tokens. With `warn`, a field that is set again is reported. -/
def ofTokens (warn : Bool) (tokens : List Token) : Outline :=
  let (body, stop) := close tokens
  let (lead, sections) := Section.split stop body
  let start : Outline := ⟨[], (strayFinding? lead).toList⟩
  (sections.map (Section.outcome warn)).foldl add start

/-- The findings as diagnostics of a document. -/
def diagnostics (o : Outline) (document : String) : List Diagnostic :=
  o.findings.map (Finding.diagnostic document)

end Outline

end Defsheet

import Defsheet.Proofs.Boundaries
import Defsheet.Proofs.Compiling
import Defsheet.Proofs.Projection

/-!
# Where things stand does not matter

Every token carries its position, and lines are kept in declarations, in definitions and even in
messages. None of that decides anything: reading tokens without their positions gives the same
statements, the same definitions and the same findings, without their positions. So two texts with
the same lexemes are compiled to the same files, however they are laid out.

Each stage commutes with erasing positions. For the readers of the grammar this is a change of
tokens that puts nothing behind them (`readStatement_change`); the other stages have one lemma each,
along the list that they go through.

## Main results

* `Outline.ofTokens_erase`: reading statements commutes with erasing positions.
* `Resolution.ofDeclarations_eraseLines`: so does resolving declarations.
* `Document.compile_ignores_layout`: **layout never reaches generated code**.
-/

namespace Defsheet

/-! ### Erasing positions -/

/-- Where everything stands once positions are erased. -/
def Position.nowhere : Position := .ofLine 0

/-- The value without its position. -/
def Located.erase {α : Type} (x : Located α) : Located α := ⟨x.value, .nowhere⟩

/-- Values that stand at different places are the same once their positions are erased. -/
theorem map_erase_eq_iff {α : Type} {xs ys : List (Located α)} :
    xs.map Located.erase = ys.map Located.erase ↔ xs.map Located.value = ys.map Located.value := by
  constructor
  · intro h
    have hvalues := congrArg (List.map Located.value) h
    rwa [List.map_map, List.map_map] at hvalues
  · intro h
    have herased := congrArg (List.map fun a => (⟨a, .nowhere⟩ : Located α)) h
    rwa [List.map_map, List.map_map] at herased

/-- What is looked for is found before and after a change that it does not depend on. -/
theorem find?_map_of_invariant {α : Type} {f : α → α} {p : α → Bool} (h : ∀ a, p (f a) = p a)
    (as : List α) : (as.map f).find? p = (as.find? p).map f := by
  have hcomp : p ∘ f = p := funext h
  rw [List.find?_map, hcomp]

/-- The fault without positions. -/
def Fault.erase (f : Fault) : Fault := ⟨f.cause, f.rest.map Located.erase⟩

/-! ### Statements -/

/-- The statement without positions. -/
def Statement.erase : Statement → Statement
  | .action typeId ms => .action typeId (ms.map Located.erase)
  | .marker name ms => .marker name (ms.map Located.erase)

/-- What was read of a section, without positions. -/
def Attempt.erase : Attempt → Attempt
  | .complete st rest => .complete st.erase (rest.map Located.erase)
  | .broken st f => .broken (st.map Statement.erase) f.erase

/-- Erasing positions is a change of tokens that puts nothing behind them. -/
def TokenChange.erasing : TokenChange := ⟨fun _ => .nowhere, []⟩

namespace TokenChange

/-- The change that erases positions puts nothing behind the tokens. -/
theorem tokens_erasing (ts : List Token) : erasing.tokens ts = ts.map Located.erase :=
  List.append_nil _

/-- It erases the positions in a statement. -/
theorem statement_erasing (st : Statement) : erasing.statement st = st.erase := by
  cases st <;> rfl

/-- It erases the positions in what a fault has left. -/
theorem fault_erasing (f : Fault) : erasing.fault f = f.erase := by
  rw [fault, tokens_erasing, Fault.erase]

/-- It erases the positions in what was read of a statement. -/
theorem attempt_erasing (a : Attempt) : erasing.attempt a = a.erase := by
  cases a with
  | complete st rest => rw [attempt, statement_erasing, tokens_erasing, Attempt.erase]
  | broken st f => rw [attempt, funext statement_erasing, fault_erasing, Attempt.erase]

end TokenChange

/-- Reading a statement commutes with erasing positions. -/
theorem readStatement_erase (kind : StatementKind) (ts : List Token) :
    readStatement kind (ts.map Located.erase) = (readStatement kind ts).erase := by
  have hnothing : AtBoundary TokenChange.erasing.tail := atStatement_nil.atBoundary
  rw [← TokenChange.tokens_erasing, readStatement_change kind .erasing hnothing,
    TokenChange.attempt_erasing]

namespace Section

/-- The section without positions. -/
def erase (s : Section) : Section :=
  ⟨s.kind, .nowhere, s.body.map Located.erase, s.stop.erase⟩

/-- What is read of a section does not depend on positions, those that are read apart. -/
theorem attempt_erase (s : Section) : s.erase.attempt = s.attempt.erase := by
  rw [attempt_eq, attempt_eq]
  exact readStatement_erase s.kind s.body

/-- Cutting tokens into sections commutes with erasing positions. -/
theorem split_erase (stop : Token) (ts : List Token) :
    split stop.erase (ts.map Located.erase) =
      ((split stop ts).1.map Located.erase, (split stop ts).2.map erase) := by
  induction ts with
  | nil => rfl
  | cons t ts ih =>
      simp only [List.map_cons, split, ih]
      cases hkind : kind? t.value with
      | none => simp only [Located.erase, hkind, List.map_cons]
      | some kind =>
          have hstop : ((((split stop ts).2.map erase).head?.map head).getD stop.erase) =
              (((split stop ts).2.head?.map head).getD stop).erase := by
            cases (split stop ts).2 <;> rfl
          simp only [Located.erase, hkind, List.map_cons, List.map_nil]
          rw [Prod.mk.injEq]
          refine ⟨rfl, congrArg (· :: _) ?_⟩
          exact congrArg (Section.mk kind .nowhere _) hstop

end Section

/-! ### Declarations -/

/-- The issue without the lines that it names. -/
def Issue.eraseLine : Issue → Issue
  | duplicateTypeId id _ => duplicateTypeId id 0
  | duplicatePort port action _ => duplicatePort port action 0
  | registeredTypeId id document _ => registeredTypeId id document 0
  | i => i

/-- What an issue is about does not depend on lines. -/
@[simp] theorem Issue.kind_eraseLine (i : Issue) : i.eraseLine.kind = i.kind := by
  cases i <;> rfl

/-- The finding without its position and without the lines that it names. -/
def Finding.eraseLines (f : Finding) : Finding := ⟨f.value.eraseLine, .nowhere⟩

/-- A fault shows at the same token, wherever that stands. -/
theorem Fault.finding_erase (f : Fault) (stop : Token) :
    f.erase.finding stop.erase = (f.finding stop).eraseLines := by
  have htoken : f.erase.token stop.erase = (f.token stop).erase := by
    rw [Fault.token, Fault.token, Fault.erase]
    cases f.rest <;> rfl
  have hissue (l : Lexeme) : f.erase.issue l = (f.issue l).eraseLine := by
    rw [Fault.issue, Fault.issue, Fault.erase]
    cases f.cause with
    | expected what => rfl
    | noMember owner =>
        dsimp only
        split <;> rfl
  rw [Fault.finding, Fault.finding, htoken]
  simp only [Located.erase, hissue]
  rfl

/-- What is reported about tokens that belong to no statement differs in its lines only. -/
theorem strayFinding?_erase (ts : List Token) :
    strayFinding? (ts.map Located.erase) = (strayFinding? ts).map Finding.eraseLines := by
  cases ts <;> rfl

/-- Whether a repeated field is reported does not depend on where it stands. -/
theorem repeatFinding_erase (warn wasSet : Bool) (k : Keyword) (p : Position) :
    repeatFinding warn wasSet k .nowhere =
      (repeatFinding warn wasSet k p).map Finding.eraseLines := by
  rw [repeatFinding, repeatFinding]
  split <;> rfl

namespace ActionDecl

/-- The action without its lines. -/
def eraseLines (a : ActionDecl) : ActionDecl :=
  { a with ports := a.ports.map Port.eraseLine, line := 0 }

/-- Ports are found by their names. -/
theorem find?_map_eraseLine (ports : List Port) (name : String) :
    Port.find? (ports.map Port.eraseLine) name = (Port.find? ports name).map Port.eraseLine :=
  find?_map_of_invariant (fun p => by rw [p.name_eraseLine]) ports

/-- Whether a port is added does not depend on where it stands. -/
theorem addPort_erase (a : ActionDecl) (port : Port) (p : Position) :
    a.eraseLines.addPort port.eraseLine .nowhere =
      ((a.addPort port p).1.eraseLines, (a.addPort port p).2.map Finding.eraseLines) := by
  rw [addPort, addPort, port.name_eraseLine]
  simp only [eraseLines, find?_map_eraseLine]
  cases Port.find? a.ports port.name with
  | none => simp only [Option.map_none, List.map_append]; rfl
  | some first => cases first <;> rfl

/-- Whether bounds of a flow port are reported does not depend on where they stand. -/
theorem flowBoundsFinding_erase (name : String) (o : PortOptions) (p : Position) :
    flowBoundsFinding name o .nowhere =
      (flowBoundsFinding name o p).map Finding.eraseLines := by
  rw [flowBoundsFinding, flowBoundsFinding]
  split <;> rfl

/-- Adding a member commutes with erasing positions. -/
theorem addMember_erase (warn : Bool) (a : ActionDecl) (m : Located ActionMember) :
    a.eraseLines.addMember warn m.erase =
      ((a.addMember warn m).1.eraseLines, (a.addMember warn m).2.map Finding.eraseLines) := by
  obtain ⟨m, p⟩ := m
  cases m with
  | dataPort type name default o =>
      exact a.addPort_erase (.data ⟨type, name, default, o.label, o.min, o.max, p.line⟩) p
  | flowPort name o =>
      have hport := a.addPort_erase (.flow ⟨name, o.label, p.line⟩) p
      simp only [addMember, Located.erase, List.map_append, flowBoundsFinding_erase name o p]
      rw [Prod.mk.injEq]
      exact ⟨congrArg Prod.fst hport, congrArg (_ ++ ·) (congrArg Prod.snd hport)⟩
  | _ => exact congrArg (Prod.mk _) (repeatFinding_erase warn _ _ p)

/-- So does adding members. -/
theorem addMembers_erase (warn : Bool) (a : ActionDecl) (ms : List (Located ActionMember)) :
    a.eraseLines.addMembers warn (ms.map Located.erase) =
      ((a.addMembers warn ms).1.eraseLines, (a.addMembers warn ms).2.map Finding.eraseLines) := by
  induction ms generalizing a with
  | nil => rfl
  | cons m ms ih =>
      simp only [List.map_cons, addMembers, addMember_erase, ih, List.map_append]

end ActionDecl

namespace MarkerDecl

/-- The marker without its line. -/
def eraseLine (d : MarkerDecl) : MarkerDecl := { d with line := 0 }

/-- A member sets the same field of a marker on any line. -/
theorem addMember_erase (warn : Bool) (d : MarkerDecl) (m : Located MarkerMember) :
    d.eraseLine.addMember warn m.erase =
      ((d.addMember warn m).1.eraseLine, (d.addMember warn m).2.map Finding.eraseLines) := by
  obtain ⟨m, p⟩ := m
  cases m <;> exact congrArg (Prod.mk _) (repeatFinding_erase warn _ _ p)

/-- So do all members, one after the other. -/
theorem addMembers_erase (warn : Bool) (d : MarkerDecl) (ms : List (Located MarkerMember)) :
    d.eraseLine.addMembers warn (ms.map Located.erase) =
      ((d.addMembers warn ms).1.eraseLine, (d.addMembers warn ms).2.map Finding.eraseLines) := by
  induction ms generalizing d with
  | nil => rfl
  | cons m ms ih =>
      simp only [List.map_cons, addMembers, addMember_erase, ih, List.map_append]

end MarkerDecl

/-- Declaring what a statement says commutes with erasing positions. -/
theorem Statement.declare_erase (warn : Bool) (line : Nat) (st : Statement) :
    st.erase.declare warn 0 =
      ((st.declare warn line).1.eraseLines, (st.declare warn line).2.map Finding.eraseLines) := by
  cases st with
  | action typeId ms =>
      have hmembers := ActionDecl.addMembers_erase warn ⟨typeId, {}, [], line⟩ ms
      exact congrArg (fun r => (Declaration.action r.1, r.2)) hmembers
  | marker name ms =>
      have hmembers := MarkerDecl.addMembers_erase warn ⟨name, none, none, line⟩ ms
      exact congrArg (fun r => (Declaration.marker r.1, r.2)) hmembers

/-! ### Outlines -/

/-- What a section contributes, without positions. -/
def SectionOutcome.erase (s : SectionOutcome) : SectionOutcome :=
  ⟨s.declared.map Declaration.eraseLines, s.findings.map Finding.eraseLines,
    s.fault.map Finding.eraseLines⟩

/-- A section comes to the same declaration on any lines. -/
theorem Section.outcome_erase (warn : Bool) (s : Section) :
    s.erase.outcome warn = (s.outcome warn).erase := by
  rw [outcome, outcome, attempt_erase]
  cases s.attempt with
  | complete st rest =>
      have hdeclare := st.declare_erase warn s.position.line
      simp only [Attempt.erase, strayFinding?_erase]
      exact congrArg (fun r => SectionOutcome.mk (some r.1) r.2 _) hdeclare
  | broken st f =>
      have hfault := f.finding_erase s.stop
      cases st with
      | none => exact congrArg (fun x => SectionOutcome.mk none [] (some x)) hfault
      | some st =>
          have hdeclare := st.declare_erase warn s.position.line
          simp only [Attempt.erase, Option.map_some, Option.elim_some]
          rw [show s.erase.stop = s.stop.erase from rfl, hfault]
          exact congrArg (fun r => SectionOutcome.mk none r.2 _) hdeclare

namespace Outline

/-- The outline without positions. -/
def erase (o : Outline) : Outline :=
  ⟨o.declarations.map Declaration.eraseLines, o.findings.map Finding.eraseLines⟩

/-- Declarations are found by their ids. -/
theorem find?_map_eraseLines (ds : List Declaration) (id : String) :
    find? (ds.map Declaration.eraseLines) id = (find? ds id).map Declaration.eraseLines :=
  find?_map_of_invariant (fun d => by rw [d.id_eraseLines]) ds

/-- Taking in what a section contributes commutes with erasing positions. -/
theorem add_erase (o : Outline) (s : SectionOutcome) : o.erase.add s.erase = (o.add s).erase := by
  have htoList (f : Option Finding) :
      (f.map Finding.eraseLines).toList = f.toList.map Finding.eraseLines := by
    cases f <;> rfl
  obtain ⟨declared, findings, fault⟩ := s
  cases declared with
  | none => simp only [add, erase, SectionOutcome.erase, Option.map_none, htoList, List.map_append]
  | some d =>
      simp only [add, erase, SectionOutcome.erase, Option.map_some, d.id_eraseLines,
        find?_map_eraseLines]
      cases find? o.declarations d.id with
      | none =>
          simp only [Option.map_none, htoList, List.map_append]
          rfl
      | some first =>
          simp only [Option.map_some, htoList, List.map_append]
          cases first <;> cases d <;> rfl

/-- An outline of sections on other lines is the outline on other lines. -/
theorem foldl_add_erase (o : Outline) (ss : List SectionOutcome) :
    (ss.map SectionOutcome.erase).foldl add o.erase = (ss.foldl add o).erase := by
  induction ss generalizing o with
  | nil => rfl
  | cons s ss ih => rw [List.map_cons, List.foldl_cons, List.foldl_cons, add_erase, ih]

/-- Of tokens that hold an end of file, those before it and that one, without positions. -/
theorem close_erase {ts : List Token} (h : ∃ t ∈ ts, t.value = .endOfFile) :
    close (ts.map Located.erase) = ((close ts).1.map Located.erase, (close ts).2.erase) := by
  have hend : ((fun t : Token => decide (t.value = .endOfFile)) ∘ Located.erase) =
      fun t => decide (t.value = .endOfFile) := rfl
  have hopen : ((fun t : Token => !decide (t.value = .endOfFile)) ∘ Located.erase) =
      fun t => !decide (t.value = .endOfFile) := rfl
  have hsome : (ts.find? fun t => decide (t.value = .endOfFile)).isSome = true := by
    obtain ⟨t, ht, hvalue⟩ := h
    exact List.find?_isSome.mpr ⟨t, ht, decide_eq_true hvalue⟩
  obtain ⟨stop, hstop⟩ := Option.isSome_iff_exists.mp hsome
  simp only [close, List.find?_map, List.takeWhile_map, hend, hopen, hstop, Option.map_some,
    Option.getD_some]

/-- **Reading statements commutes with erasing positions.** -/
theorem ofTokens_erase (warn : Bool) {ts : List Token} (h : ∃ t ∈ ts, t.value = .endOfFile) :
    ofTokens warn (ts.map Located.erase) = (ofTokens warn ts).erase := by
  have houtcomes (ss : List Section) :
      (ss.map Section.erase).map (Section.outcome warn) =
        (ss.map (Section.outcome warn)).map SectionOutcome.erase := by
    rw [List.map_map, List.map_map]
    exact List.map_congr_left fun s _ => s.outcome_erase warn
  simp only [ofTokens, close_erase h, Section.split_erase, houtcomes, strayFinding?_erase]
  rw [← foldl_add_erase]
  congr 1
  cases strayFinding? (Section.split (close ts).2 (close ts).1).1 <;> rfl

end Outline

/-! ### Definitions -/

/-- Issues that name no lines. -/
def Lineless (issues : List Issue) : Prop := issues.map Issue.eraseLine = issues

/-- Issues that name no lines can be put together. -/
theorem Lineless.append {issues others : List Issue} (h : Lineless issues) (h' : Lineless others) :
    Lineless (issues ++ others) := by
  rw [Lineless, List.map_append, h, h']

/-- The check of a default names no lines. -/
theorem lineless_checkDefault (type : PortType) (port : String) (default : Option Literal) :
    Lineless (checkDefault type port default).2 := by
  cases default with
  | none => rfl
  | some v =>
      rw [checkDefault]
      split <;> rfl

/-- Nor does the check of a bound. -/
theorem lineless_checkBound (type : PortType) (port : String) (bound : Bound)
    (n : Option Numeral) : Lineless (checkBound type port bound n).2 := by
  cases n with
  | none => rfl
  | some n =>
      rw [checkBound]
      split <;> rfl

/-- Nor does the check of both bounds. -/
theorem lineless_checkBounds (type : PortType) (port : String) (lo hi : Option Numeral) :
    Lineless (checkBounds type port lo hi).2 := by
  have hrange (lo hi : Option Numeral) : Lineless (checkRange port lo hi) := by
    cases lo with
    | none => rfl
    | some lo =>
        cases hi with
        | none => rfl
        | some hi =>
            rw [checkRange]
            split <;> rfl
  rw [checkBounds]
  split
  · exact ((lineless_checkBound ..).append (lineless_checkBound ..)).append (hrange _ _)
  · split <;> rfl

/-- What is wrong with a port is said without naming lines. -/
theorem PortDefinition.lineless_ofPort? (action : String) (p : Port) :
    Lineless (ofPort? action p).2 := by
  cases p with
  | data p =>
      rw [ofPort?, ofData?]
      split
      · rfl
      split
      · rfl
      · exact (lineless_checkDefault ..).append (lineless_checkBounds ..)
  | flow p =>
      rw [ofPort?, ofFlow?]
      split <;> rfl

/-- What a port is resolved to does not depend on its line. -/
theorem PortDefinition.ofPort?_eraseLine (action : String) (p : Port) :
    ofPort? action p.eraseLine = ofPort? action p := by
  cases p <;> rfl

/-- Resolving ports commutes with erasing lines. -/
theorem resolvePorts_eraseLine (action : String) (kept : List PortDefinition) (ports : List Port) :
    resolvePorts action kept (ports.map Port.eraseLine) =
      ((resolvePorts action kept ports).1,
        (resolvePorts action kept ports).2.map Finding.eraseLines) := by
  induction ports generalizing kept with
  | nil => rfl
  | cons port ports ih =>
      have hline : Position.ofLine port.eraseLine.line = .nowhere := by cases port <;> rfl
      have hfound : ((PortDefinition.ofPort? action port).2.map fun i =>
            (⟨i, .ofLine port.line⟩ : Finding)).map Finding.eraseLines =
          (PortDefinition.ofPort? action port).2.map fun i => ⟨i, .nowhere⟩ := by
        have hlineless := PortDefinition.lineless_ofPort? action port
        nth_rewrite 2 [← hlineless]
        rw [List.map_map, List.map_map]
        rfl
      simp only [List.map_cons, resolvePorts, PortDefinition.ofPort?_eraseLine, hline]
      cases (PortDefinition.ofPort? action port).1 with
      | none => simp only [ih, List.map_append, hfound]
      | some p =>
          dsimp only
          cases constOwner? kept p.const with
          | none => simp only [ih, List.map_append, hfound]
          | some owner =>
              simp only [ih, List.map_append, List.map_cons, hfound]
              rfl

/-- Resolving a declaration commutes with erasing lines. -/
theorem Definition.ofDeclaration?_eraseLines (d : Declaration) :
    ofDeclaration? d.eraseLines =
      ((ofDeclaration? d).1.map eraseLine, (ofDeclaration? d).2.map Finding.eraseLines) := by
  cases d with
  | action a =>
      simp only [ofDeclaration?, Declaration.eraseLines, ActionDefinition.ofDecl?]
      cases (a.typeId.modulePath ++ [a.typeId.joined, constName a.typeId.last]).find?
          isUnspellable with
      | none => simp only [resolvePorts_eraseLine]; rfl
      | some ident => rfl
  | marker m =>
      simp only [ofDeclaration?, Declaration.eraseLines, MarkerDefinition.ofDecl?]
      split <;> rfl

/-- A definition has its id on any line. -/
theorem Definition.id_eraseLine (x : Definition) : x.eraseLine.id = x.id := by
  cases x <;> rfl

/-- Which name is taken, and by whom, does not depend on lines. -/
theorem Definition.clash?_eraseLine (kept : List Definition) (x : Definition) :
    clash? (kept.map eraseLine) x.eraseLine =
      (clash? kept x).map fun found => (found.1, found.2.eraseLine) := by
  have hnames : x.eraseLine.generatedNames = x.generatedNames := by cases x <;> rfl
  have howner (n : GeneratedName) :
      owner? (kept.map eraseLine) n = (owner? kept n).map eraseLine :=
    find?_map_of_invariant (fun y => by rw [y.keys_eraseLine]) kept
  rw [clash?, clash?, hnames, List.map_findSome?]
  congr 1
  funext n
  rw [howner, Function.comp_apply]
  cases owner? kept n <;> rfl

namespace Resolution

/-- The resolution without lines. -/
def eraseLines (r : Resolution) : Resolution :=
  ⟨r.definitions.map Definition.eraseLine, r.findings.map Finding.eraseLines⟩

/-- Resolving one more declaration commutes with erasing lines. -/
theorem add_eraseLines (r : Resolution) (d : Declaration) :
    r.eraseLines.add d.eraseLines = (r.add d).eraseLines := by
  have hline : Position.ofLine d.eraseLines.line = .nowhere := by cases d <;> rfl
  simp only [add, eraseLines, Definition.ofDeclaration?_eraseLines, d.id_eraseLines, hline]
  cases (Definition.ofDeclaration? d).1 with
  | none => simp only [Option.map_none, List.map_append]
  | some x =>
      simp only [Option.map_some, Definition.clash?_eraseLine]
      cases Definition.clash? r.definitions x with
      | none => simp only [Option.map_none, List.map_append, List.map_cons, List.map_nil]
      | some found =>
          simp only [Option.map_some, Definition.id_eraseLine, List.map_append, List.map_cons,
            List.map_nil]
          rfl

/-- **Resolving declarations commutes with erasing lines.** -/
theorem ofDeclarations_eraseLines (ds : List Declaration) :
    ofDeclarations (ds.map Declaration.eraseLines) = (ofDeclarations ds).eraseLines := by
  have hfoldl (r : Resolution) :
      (ds.map Declaration.eraseLines).foldl add r.eraseLines = (ds.foldl add r).eraseLines := by
    induction ds generalizing r with
    | nil => rfl
    | cons d ds ih => rw [List.map_cons, List.foldl_cons, List.foldl_cons, add_eraseLines, ih]
  exact hfoldl ⟨[], []⟩

end Resolution

/-! ### Documents -/

/-- The entry without its line. -/
def ManifestEntry.eraseLine (e : ManifestEntry) : ManifestEntry := { e with line := 0 }

/-- A manifest entry differs in its line only. -/
theorem ManifestEntry.ofDefinition_eraseLine (c : Context) (x : Definition) :
    ofDefinition c x.eraseLine = (ofDefinition c x).eraseLine := by
  cases x <;> rfl

/-- Definitions that are the same up to lines register the same up to lines. -/
theorem manifestEntries_congr {c : Context} {xs ys : List Definition}
    (h : xs.map Definition.eraseLine = ys.map Definition.eraseLine) :
    (manifestEntries c xs).map ManifestEntry.eraseLine =
      (manifestEntries c ys).map ManifestEntry.eraseLine := by
  have herase (zs : List Definition) : (manifestEntries c zs).map ManifestEntry.eraseLine =
      manifestEntries c (zs.map Definition.eraseLine) := by
    rw [manifestEntries, manifestEntries, List.map_map, List.map_map]
    exact List.map_congr_left fun x _ => (ManifestEntry.ofDefinition_eraseLine c x).symm
  rw [herase, herase, h]

namespace Document

/-- What is found in a document beyond its characters: in its statements, then in its
declarations. -/
def reports (d : Document) (o : Options) : List Finding :=
  (Outline.ofTokens o.warnOnRepeat (Scan.ofText d.text).tokens).findings
    ++ (Resolution.ofDeclarations (d.declarations o)).findings

/-- What compiling a document reports about its characters. Without a module it is not read. -/
def lexicalDiagnostics (d : Document) : List Diagnostic :=
  if moduleName d.name = "" then [] else (Scan.ofText d.text).diagnostics d.name

/-- The diagnostics of a document are those about its characters, then the others. -/
theorem diagnostics_compile {d : Document} {o : Options} (h : moduleName d.name ≠ "") :
    (d.compile o).diagnostics =
      d.lexicalDiagnostics ++ (d.reports o).map (Finding.diagnostic d.name) := by
  rw [compile_eq rfl h rfl, lexicalDiagnostics, if_neg h, Scan.diagnostics, ← List.map_append,
    reports, ← List.append_assoc]
  rfl

/-- Documents with the same lexemes have the same definitions up to lines, and the same is found in
them up to positions. -/
theorem resolve_congr {d d' : Document} {o : Options}
    (h : (Scan.ofText d.text).tokens.map Located.value =
      (Scan.ofText d'.text).tokens.map Located.value) :
    (d.resolve o).definitions.map Definition.eraseLine =
        (d'.resolve o).definitions.map Definition.eraseLine ∧
      (d.reports o).map Finding.eraseLines = (d'.reports o).map Finding.eraseLines := by
  have hend (text : String) : ∃ t ∈ (Scan.ofText text).tokens, t.value = .endOfFile := by
    rw [Scan.tokens_ofText]
    exact ⟨_, List.mem_append_right _ (List.mem_singleton_self _), rfl⟩
  have houtline :
      (Outline.ofTokens o.warnOnRepeat (Scan.ofText d.text).tokens).erase =
        (Outline.ofTokens o.warnOnRepeat (Scan.ofText d'.text).tokens).erase := by
    rw [← Outline.ofTokens_erase _ (hend d.text), ← Outline.ofTokens_erase _ (hend d'.text),
      map_erase_eq_iff.mpr h]
  obtain ⟨hdeclarations, hfindings⟩ := Outline.mk.inj houtline
  have hresolution :
      (Resolution.ofDeclarations (d.declarations o)).eraseLines =
        (Resolution.ofDeclarations (d'.declarations o)).eraseLines := by
    rw [← Resolution.ofDeclarations_eraseLines, ← Resolution.ofDeclarations_eraseLines]
    exact congrArg _ hdeclarations
  obtain ⟨hdefinitions, hothers⟩ := Resolution.mk.inj hresolution
  refine ⟨hdefinitions, ?_⟩
  rw [reports, reports, List.map_append, List.map_append, hfindings, hothers]

/-- **Layout never reaches generated code.** Two documents of the same name whose texts have the
same lexemes, however these are laid out, are compiled to the same files and to manifests that
differ in lines only. Besides what is wrong with their characters, diagnostics of the same kinds are
reported in the same order. -/
theorem compile_ignores_layout (d d' : Document) (o : Options) (hname : d.name = d'.name)
    (h : (Scan.ofText d.text).tokens.map Located.value =
      (Scan.ofText d'.text).tokens.map Located.value) :
    (d.compile o).artifacts = (d'.compile o).artifacts ∧
      (d.compile o).manifest.map ManifestEntry.eraseLine =
        (d'.compile o).manifest.map ManifestEntry.eraseLine ∧
      ∃ later later' : List Diagnostic,
        (d.compile o).diagnostics = d.lexicalDiagnostics ++ later ∧
        (d'.compile o).diagnostics = d'.lexicalDiagnostics ++ later' ∧
        later.map (fun x => (x.kind, x.severity)) = later'.map fun x => (x.kind, x.severity) := by
  by_cases hmodule : moduleName d.name = ""
  · have hmodule' : moduleName d'.name = "" := hname ▸ hmodule
    rw [lexicalDiagnostics, lexicalDiagnostics, if_pos hmodule, if_pos hmodule',
      compile_eq_of_empty hmodule, compile_eq_of_empty hmodule']
    exact ⟨rfl, rfl, _, _, rfl, rfl, rfl⟩
  · have hmodule' : moduleName d'.name ≠ "" := hname ▸ hmodule
    obtain ⟨hdefinitions, hreports⟩ := resolve_congr (o := o) h
    have hkinds (name : String) (fs : List Finding) :
        (fs.map (Finding.diagnostic name)).map (fun x => (x.kind, x.severity)) =
          (fs.map Finding.eraseLines).map fun f => (f.value.kind, f.value.kind.severity) := by
      rw [List.map_map, List.map_map]
      refine List.map_congr_left fun f _ => ?_
      exact congrArg (fun k => (k, k.severity)) f.value.kind_eraseLine.symm
    refine ⟨?_, ?_, _, _, diagnostics_compile hmodule, diagnostics_compile hmodule', ?_⟩
    · rw [compile_eq rfl hmodule rfl, compile_eq rfl hmodule' rfl, hname]
      exact artifacts_congr hdefinitions
    · rw [compile_eq rfl hmodule rfl, compile_eq rfl hmodule' rfl, hname]
      exact manifestEntries_congr hdefinitions
    · rw [hkinds, hkinds, hreports]

/-- A document on one line, with a port and a type id that are declared twice and a character that
begins nothing. -/
def crowded : Document :=
  ⟨"level", "action A \x7b port int n port int n \x7d marker A \x7b \x7d @"⟩

/-- The same lexemes on lines of their own, after a comment. -/
def spread : Document :=
  ⟨"level", "// all\naction A\n\x7b\n port int n\n port int n\n\x7d\nmarker A \x7b \x7d\n"⟩

/-- The two documents have the same lexemes, so they are compiled to the same files. -/
theorem compile_ignores_layout_of_spread :
    (Scan.ofText crowded.text).tokens.map Located.value =
        (Scan.ofText spread.text).tokens.map Located.value ∧
      (crowded.compile {}).artifacts = (spread.compile {}).artifacts ∧
      (crowded.compile {}).manifest.map ManifestEntry.eraseLine =
        (spread.compile {}).manifest.map ManifestEntry.eraseLine := by
  have hlexemes : (Scan.ofText crowded.text).tokens.map Located.value =
      (Scan.ofText spread.text).tokens.map Located.value := by
    decide +kernel
  obtain ⟨hfiles, hmanifest, -⟩ := compile_ignores_layout crowded spread {} rfl hlexemes
  exact ⟨hlexemes, hfiles, hmanifest⟩

end Document

end Defsheet

import Defsheet.Declaration.Outline
import Defsheet.Proofs.FirstOfEach
import Defsheet.Proofs.Reading

/-!
# Documents and the grammar

A document is free of grammatical findings exactly if the grammar derives it, and what it declares
can be read off the derivation: `Statement.meaning` says it without going through the members one by
one.

The words `action` and `marker` stand nowhere but at the beginning of a statement
(`SpellsStatement.no_keyword`), so cutting a document into sections and reading each of them by
itself loses nothing: sections and spelled statements correspond one to one
(`Section.split_spelled`).

## Main results

* `Statement.declare_fst`: going through the members gives each field its last value, and keeps the
  first port of each name.
* `Outline.grammatical_findings`: the grammatical findings of a document, in order.
* `Outline.ofTokens_accepts_grammar`: **the exact language of documents**, and what they declare.
-/

namespace Defsheet

/-! ### What a statement declares -/

/-- The last value that items give. -/
def lastOf {α β : Type} (value? : α → Option β) (as : List α) : Option β :=
  (as.filterMap value?).getLast?

/-- The last value is looked for behind the first item. -/
theorem lastOf_cons {α β : Type} (value? : α → Option β) (a : α) (as : List α) :
    lastOf value? (a :: as) = (lastOf value? as).or (value? a) := by
  unfold lastOf
  rw [List.filterMap_cons]
  cases value? a with
  | none => simp
  | some b => simp only [List.getLast?_cons]; cases (as.filterMap value?).getLast? <;> rfl

namespace ActionMember

/-- The display name that the member sets. -/
def displayName? : ActionMember → Option String
  | .displayName text => some text
  | _ => none

/-- The category that the member sets. -/
def category? : ActionMember → Option String
  | .category text => some text
  | _ => none

/-- The description that the member sets. -/
def description? : ActionMember → Option String
  | .description text => some text
  | _ => none

/-- The color that the member sets. -/
def themeColor? : ActionMember → Option Color
  | .themeColor c => some c
  | _ => none

/-- The duration that the member sets. -/
def duration? : ActionMember → Option DurationKind
  | .duration kind => some kind
  | _ => none

/-- The port that the member declares on a line. A flow port has nothing but a label. -/
def port? (line : Nat) : ActionMember → Option Port
  | .dataPort type name default o =>
    some (.data ⟨type, name, default, o.label, o.min, o.max, line⟩)
  | .flowPort name o => some (.flow ⟨name, o.label, line⟩)
  | _ => none

end ActionMember

namespace MarkerMember

/-- The label that the member sets. -/
def label? : MarkerMember → Option String
  | .label text => some text
  | .gizmo _ => none

/-- The gizmo that the member sets. -/
def gizmo? : MarkerMember → Option Gizmo
  | .label _ => none
  | .gizmo g => some g

end MarkerMember

/-- The fields of an action with these members: each has the value of its last occurrence. -/
def Metadata.ofMembers (ms : List (Located ActionMember)) : Metadata where
  displayName := lastOf (fun m => m.value.displayName?) ms
  category := lastOf (fun m => m.value.category?) ms
  description := lastOf (fun m => m.value.description?) ms
  themeColor := lastOf (fun m => m.value.themeColor?) ms
  duration := lastOf (fun m => m.value.duration?) ms

/-- The ports that members declare, in order. -/
def declaredPorts (ms : List (Located ActionMember)) : List Port :=
  ms.filterMap fun m => m.value.port? m.line

/-- What a statement on a line declares: each field has the value of its last occurrence, and an
action has the first port of each name. -/
def Statement.meaning (line : Nat) : Statement → Declaration
  | .action typeId ms =>
    .action ⟨typeId, Metadata.ofMembers ms, firstOfEach Port.name (declaredPorts ms), line⟩
  | .marker name ms =>
    .marker ⟨name, lastOf (fun m => m.value.label?) ms, lastOf (fun m => m.value.gizmo?) ms, line⟩

/-- Fields that later values override. -/
def Metadata.override (old new : Metadata) : Metadata where
  displayName := new.displayName.or old.displayName
  category := new.category.or old.category
  description := new.description.or old.description
  themeColor := new.themeColor.or old.themeColor
  duration := new.duration.or old.duration

/-- The fields of later members override those of the first one. -/
theorem Metadata.ofMembers_cons (m : Located ActionMember) (ms : List (Located ActionMember)) :
    Metadata.ofMembers (m :: ms) = (Metadata.ofMembers [m]).override (Metadata.ofMembers ms) := by
  simp [Metadata.ofMembers, Metadata.override, lastOf]

/-- Which values override which does not depend on the order in which it is done. -/
theorem Metadata.override_assoc (a b c : Metadata) :
    (a.override b).override c = a.override (b.override c) := by
  simp [Metadata.override, Option.or_assoc]

namespace ActionDecl

variable {warn : Bool} {a : ActionDecl}

/-- A port is added unless its name is taken. -/
theorem addPort_fst (a : ActionDecl) (port : Port) (p : Position) :
    (a.addPort port p).1 = { a with ports := keepFirst Port.name a.ports port } := by
  unfold addPort Port.find? keepFirst
  split
  · next first hfirst =>
    have hmem := List.mem_of_find?_eq_some hfirst
    have hname : first.name = port.name := by simpa using List.find?_some hfirst
    rw [if_pos (List.mem_map.mpr ⟨first, hmem, hname⟩)]
  · next hnone =>
    rw [if_neg]
    rw [List.mem_map]
    rintro ⟨q, hq, hname⟩
    exact List.find?_eq_none.mp hnone q hq (by simpa using hname)

/-- What one member adds. -/
theorem addMember_fst (a : ActionDecl) (m : Located ActionMember) :
    (a.addMember warn m).1 =
      { a with
        metadata := a.metadata.override (Metadata.ofMembers [m])
        ports := (declaredPorts [m]).foldl (keepFirst Port.name) a.ports } := by
  obtain ⟨m, p⟩ := m
  cases m <;>
    simp [addMember, addPort_fst, Metadata.override, Metadata.ofMembers, declaredPorts, lastOf,
      ActionMember.port?, ActionMember.displayName?, ActionMember.category?,
      ActionMember.description?, ActionMember.themeColor?, ActionMember.duration?, Located.line]

/-- What members add, one after the other. -/
theorem addMembers_fst (a : ActionDecl) (ms : List (Located ActionMember)) :
    (a.addMembers warn ms).1 =
      { a with
        metadata := a.metadata.override (Metadata.ofMembers ms)
        ports := (declaredPorts ms).foldl (keepFirst Port.name) a.ports } := by
  induction ms generalizing a with
  | nil => simp [addMembers, Metadata.override, Metadata.ofMembers, declaredPorts, lastOf]
  | cons m ms ih =>
      have hports : declaredPorts (m :: ms) = declaredPorts [m] ++ declaredPorts ms := by
        rw [declaredPorts, ← List.singleton_append, List.filterMap_append]
        rfl
      rw [Metadata.ofMembers_cons, hports, List.foldl_append, ← Metadata.override_assoc]
      simp only [addMembers, ih, addMember_fst]

end ActionDecl

namespace MarkerDecl

variable {warn : Bool}

/-- What members add, one after the other. -/
theorem addMembers_fst (d : MarkerDecl) (ms : List (Located MarkerMember)) :
    (d.addMembers warn ms).1 =
      { d with
        label := (lastOf (fun m => m.value.label?) ms).or d.label
        gizmo := (lastOf (fun m => m.value.gizmo?) ms).or d.gizmo } := by
  induction ms generalizing d with
  | nil => simp [addMembers, lastOf]
  | cons m ms ih =>
      obtain ⟨m, p⟩ := m
      simp only [addMembers, ih, lastOf_cons]
      cases m <;> simp [addMember, MarkerMember.label?, MarkerMember.gizmo?]

end MarkerDecl

/-- **What a statement declares.** Going through the members one by one gives each field its last
value and keeps the first port of each name. -/
theorem Statement.declare_fst (warn : Bool) (line : Nat) (st : Statement) :
    (st.declare warn line).1 = st.meaning line := by
  cases st with
  | action typeId ms =>
      simp [declare, ActionDecl.ofMembers, ActionDecl.addMembers_fst, meaning, foldl_keepFirst_nil,
        Metadata.override]
  | marker name ms =>
      simp [declare, MarkerDecl.ofMembers, MarkerDecl.addMembers_fst, meaning]

/-! ### Going through members -/

/-- Takes in members one after the other, with what is found on the way. -/
def gather {α σ : Type} (add : σ → Located α → σ × List Finding) (x : σ) :
    List (Located α) → σ × List Finding
  | [] => (x, [])
  | m :: ms =>
    let (x', first) := add x m
    let (x'', others) := gather add x' ms
    (x'', first ++ others)

/-- The members of an action are taken in one after the other. -/
theorem ActionDecl.addMembers_eq_gather (warn : Bool) (a : ActionDecl)
    (ms : List (Located ActionMember)) :
    a.addMembers warn ms = gather (ActionDecl.addMember warn) a ms := by
  induction ms generalizing a with
  | nil => rfl
  | cons m ms ih => simp only [addMembers, gather, ih]

/-- So are those of a marker. -/
theorem MarkerDecl.addMembers_eq_gather (warn : Bool) (d : MarkerDecl)
    (ms : List (Located MarkerMember)) :
    d.addMembers warn ms = gather (MarkerDecl.addMember warn) d ms := by
  induction ms generalizing d with
  | nil => rfl
  | cons m ms ih => simp only [addMembers, gather, ih]

/-- An action is declared by its members, from one that has none. -/
theorem Statement.declare_action (warn : Bool) (line : Nat) (typeId : TypeId)
    (ms : List (Located ActionMember)) :
    (Statement.action typeId ms).declare warn line =
      (.action (gather (ActionDecl.addMember warn) ⟨typeId, {}, [], line⟩ ms).1,
        (gather (ActionDecl.addMember warn) ⟨typeId, {}, [], line⟩ ms).2) := by
  rw [← ActionDecl.addMembers_eq_gather]
  rfl

/-- A marker is declared by its members, from one that has none. -/
theorem Statement.declare_marker (warn : Bool) (line : Nat) (name : String)
    (ms : List (Located MarkerMember)) :
    (Statement.marker name ms).declare warn line =
      (.marker (gather (MarkerDecl.addMember warn) ⟨name, none, none, line⟩ ms).1,
        (gather (MarkerDecl.addMember warn) ⟨name, none, none, line⟩ ms).2) := by
  rw [← MarkerDecl.addMembers_eq_gather]
  rfl

/-! ### Grammatical findings -/

/-- Whether a finding says that the grammar is broken. -/
def Finding.isGrammatical (f : Finding) : Bool := f.value.kind = .grammatical

/-- Whether the issue is one that the members of a statement give rise to. -/
def Issue.isOfMember : Issue → Bool
  | .repeatedField _ | .duplicatePort _ _ _ | .flowBounds _ => true
  | _ => false

/-- A repeated field is a matter of members. -/
theorem repeatFinding_isOfMember {warn wasSet : Bool} {k : Keyword} {p : Position} :
    ∀ f ∈ repeatFinding warn wasSet k p, f.value.isOfMember = true := by
  intro f hf
  unfold repeatFinding at hf
  split at hf
  · obtain rfl := List.mem_singleton.mp hf
    rfl
  · cases hf

/-- So is a port that is there already. -/
theorem ActionDecl.addPort_isOfMember (a : ActionDecl) (port : Port) (p : Position) :
    ∀ f ∈ (a.addPort port p).2, f.value.isOfMember = true := by
  intro f hf
  unfold ActionDecl.addPort at hf
  split at hf
  · obtain rfl := List.mem_singleton.mp hf
    rfl
  · cases hf

/-- So is all that is found about a member of an action. -/
theorem ActionDecl.addMember_isOfMember {warn : Bool} (a : ActionDecl)
    (m : Located ActionMember) : ∀ f ∈ (a.addMember warn m).2, f.value.isOfMember = true := by
  intro f hf
  obtain ⟨m, p⟩ := m
  cases m with
  | dataPort type name default o => exact addPort_isOfMember _ _ _ f hf
  | flowPort name o =>
      rcases List.mem_append.mp hf with hf | hf
      · unfold flowBoundsFinding at hf
        split at hf
        · obtain rfl := List.mem_singleton.mp hf
          rfl
        · cases hf
      · exact addPort_isOfMember _ _ _ f hf
  | _ => exact repeatFinding_isOfMember f hf

/-- So is all that is found about its members. -/
theorem ActionDecl.addMembers_isOfMember {warn : Bool} (a : ActionDecl)
    (ms : List (Located ActionMember)) :
    ∀ f ∈ (a.addMembers warn ms).2, f.value.isOfMember = true := by
  induction ms generalizing a with
  | nil => simp [addMembers]
  | cons m ms ih =>
      intro f hf
      rcases List.mem_append.mp hf with hf | hf
      · exact addMember_isOfMember a m f hf
      · exact ih _ f hf

/-- So is all that is found about the members of a marker. -/
theorem MarkerDecl.addMembers_isOfMember {warn : Bool} (d : MarkerDecl)
    (ms : List (Located MarkerMember)) :
    ∀ f ∈ (d.addMembers warn ms).2, f.value.isOfMember = true := by
  induction ms generalizing d with
  | nil => simp [addMembers]
  | cons m ms ih =>
      intro f hf
      rcases List.mem_append.mp hf with hf | hf
      · obtain ⟨m, p⟩ := m
        cases m <;> exact repeatFinding_isOfMember f hf
      · exact ih _ f hf

/-- What is found in the members of a statement is about fields and ports. -/
theorem Statement.declare_isOfMember {warn : Bool} {line : Nat} (st : Statement) :
    ∀ f ∈ (st.declare warn line).2, f.value.isOfMember = true := by
  cases st with
  | action typeId ms => exact ActionDecl.addMembers_isOfMember _ ms
  | marker name ms => exact MarkerDecl.addMembers_isOfMember _ ms

/-- A fault is a matter of the grammar. -/
theorem Fault.finding_isGrammatical (f : Fault) (stop : Token) :
    (f.finding stop).isGrammatical = true := by
  unfold Fault.finding Fault.issue
  cases f.cause with
  | expected what => rfl
  | noMember owner => by_cases h : (f.token stop).value = .endOfFile <;> simp [h] <;> rfl

namespace Section

variable {warn : Bool}

/-- What is found in a section, its fault apart, is a matter of members. -/
theorem outcome_findings_isOfMember (s : Section) :
    ∀ f ∈ (s.outcome warn).findings, f.value.isOfMember = true := by
  intro f hf
  unfold outcome at hf
  split at hf
  · exact Statement.declare_isOfMember _ f hf
  · next st fault _ =>
    cases st with
    | none => cases hf
    | some st => exact Statement.declare_isOfMember st f hf

/-- The members of a statement are never the reason for a grammatical finding. -/
theorem outcome_findings_not_grammatical (s : Section) :
    ∀ f ∈ (s.outcome warn).findings, f.isGrammatical = false := by
  intro f hf
  have hmember := s.outcome_findings_isOfMember f hf
  obtain ⟨i, p⟩ := f
  cases i <;> cases hmember <;> rfl

/-- The fault of a section is a matter of the grammar. -/
theorem outcome_fault_isGrammatical (s : Section) :
    ∀ f ∈ (s.outcome warn).fault, f.isGrammatical = true := by
  intro f hf
  unfold outcome at hf
  split at hf
  · next st rest _ =>
    cases rest with
    | nil => cases hf
    | cons t rest =>
        cases hf
        rfl
  · cases hf
    exact Fault.finding_isGrammatical _ _

/-- The statement that the section is read as, if nothing stands after it. -/
def statement? (s : Section) : Option (Located Statement) :=
  match s.attempt with
  | .complete st [] => some ⟨st, s.position⟩
  | _ => none

/-- A section is a statement if nothing is left behind it. -/
theorem statement?_eq_some_iff {s : Section} {st : Located Statement} :
    s.statement? = some st ↔ s.attempt = .complete st.value [] ∧ s.position = st.position := by
  obtain ⟨st, p⟩ := st
  unfold statement?
  split
  · next st' h => simp [h]
  · next hne =>
    constructor
    · intro h
      cases h
    · rintro ⟨h, -⟩
      exact absurd h (hne st)

/-- A section is in order exactly if it is read as a statement with nothing after it. -/
theorem outcome_fault_eq_none_iff (s : Section) :
    (s.outcome warn).fault = none ↔ ∃ st, s.statement? = some st := by
  unfold outcome statement?
  cases s.attempt with
  | complete st rest => cases rest <;> simp [strayFinding?]
  | broken st f => simp

/-- A section declares what its statement means, even if something stands after the statement. -/
theorem outcome_declared_eq_some_iff {s : Section} {d : Declaration} :
    (s.outcome warn).declared = some d ↔
      ∃ st rest, s.attempt = .complete st rest ∧ st.meaning s.position.line = d := by
  unfold outcome
  cases s.attempt with
  | complete st rest => simp [Statement.declare_fst]
  | broken st f => simp

/-- A section that is in order declares what its statement means. -/
theorem outcome_declared {s : Section} {st : Located Statement} (h : s.statement? = some st) :
    (s.outcome warn).declared = some (st.value.meaning st.line) := by
  obtain ⟨hattempt, hposition⟩ := statement?_eq_some_iff.mp h
  exact outcome_declared_eq_some_iff.mpr ⟨st.value, [], hattempt, by rw [hposition, Located.line]⟩

end Section

namespace Outline

variable {warn : Bool}

/-- Whether the section's declaration is kept decides nothing about grammatical findings. -/
theorem grammatical_add (o : Outline) (s : Section) :
    (o.add (s.outcome warn)).findings.filter Finding.isGrammatical =
      o.findings.filter Finding.isGrammatical ++ (s.outcome warn).fault.toList := by
  have hfindings : (s.outcome warn).findings.filter Finding.isGrammatical = [] :=
    List.filter_eq_nil_iff.mpr fun f hf => by simp [s.outcome_findings_not_grammatical f hf]
  have hfault : (s.outcome warn).fault.toList.filter Finding.isGrammatical =
      (s.outcome warn).fault.toList :=
    List.filter_eq_self.mpr fun f hf =>
      s.outcome_fault_isGrammatical f (Option.mem_toList.mp hf)
  have hduplicate (id : String) (line : Nat) (p : Position) :
      [⟨.duplicateTypeId id line, p⟩].filter Finding.isGrammatical = [] := rfl
  unfold add
  split
  · simp only [List.filter_append, hfindings, hfault, List.append_nil]
  · split <;> simp only [List.filter_append, hfindings, hfault, hduplicate, List.append_nil]

/-- A section adds its declaration, unless there is one of the id. -/
theorem declarations_add (o : Outline) (s : SectionOutcome) :
    (o.add s).declarations = s.declared.toList.foldl (keepFirst Declaration.id) o.declarations := by
  unfold add
  split
  · next h => simp [h]
  · next d h =>
    simp only [h, Option.toList_some, List.foldl_cons, List.foldl_nil, keepFirst]
    split
    · next first hfirst =>
      have hmem := List.mem_of_find?_eq_some hfirst
      have hid : first.id = d.id := by simpa using List.find?_some hfirst
      rw [if_pos (List.mem_map.mpr ⟨first, hmem, hid⟩)]
    · next hnone =>
      rw [if_neg]
      rw [List.mem_map]
      rintro ⟨e, he, hid⟩
      exact List.find?_eq_none.mp hnone e he (by simpa using hid)

/-- The grammatical findings of sections, one after the other. -/
theorem grammatical_foldl_add (ss : List Section) (o : Outline) :
    ((ss.map (Section.outcome warn)).foldl add o).findings.filter Finding.isGrammatical =
      o.findings.filter Finding.isGrammatical
        ++ ss.flatMap fun s => (s.outcome warn).fault.toList := by
  induction ss generalizing o with
  | nil => simp
  | cons s ss ih =>
      rw [List.map_cons, List.foldl_cons, ih, grammatical_add, List.flatMap_cons,
        List.append_assoc]

/-- The declarations of sections: the first one of each type id. -/
theorem declarations_foldl_add (ss : List SectionOutcome) (o : Outline) :
    (ss.foldl add o).declarations =
      (ss.filterMap SectionOutcome.declared).foldl (keepFirst Declaration.id) o.declarations := by
  induction ss generalizing o with
  | nil => rfl
  | cons s ss ih =>
      rw [List.foldl_cons, ih, declarations_add]
      cases h : s.declared <;> simp [h]

/-- A document that has an end of file is closed at the first one. -/
theorem close_append_cons {body : List Token} {stop : Token} (zs : List Token)
    (h : ∀ t ∈ body, t.value ≠ .endOfFile) (hstop : stop.value = .endOfFile) :
    close (body ++ stop :: zs) = (body, stop) := by
  have htake : (body ++ stop :: zs).takeWhile (fun t => !decide (t.value = .endOfFile)) = body := by
    rw [List.takeWhile_append_of_pos (by simpa using h)]
    simp [hstop]
  have hfind : (body ++ stop :: zs).find? (fun t => decide (t.value = .endOfFile)) = some stop := by
    rw [List.find?_append, List.find?_eq_none.mpr (by simpa using h)]
    simp [hstop]
  simp only [close, htake, hfind, Option.getD_some]

/-- A document that ends with its only end of file is closed as it stands. -/
theorem close_append_stop {body : List Token} {stop : Token}
    (h : ∀ t ∈ body, t.value ≠ .endOfFile) (hstop : stop.value = .endOfFile) :
    close (body ++ [stop]) = (body, stop) :=
  close_append_cons [] h hstop

end Outline

/-! ### Statement keywords -/

/-- Statements begin with the keywords of their kinds only. -/
theorem Section.eq_keyword_of_kind? {l : Lexeme} {kind : StatementKind}
    (h : Section.kind? l = some kind) : l = .keyword kind.keyword := by
  unfold Section.kind? at h
  split at h <;> cases h <;> rfl

/-- No statement begins in the options of a port. -/
theorem PortOptions.kind?_lexemes (o : PortOptions) : ∀ l ∈ o.lexemes, Section.kind? l = none := by
  obtain ⟨_ | label, _ | min, _ | max⟩ := o <;>
    simp [PortOptions.lexemes, optionLexemes, Section.kind?]

/-- No statement begins in a member of an action. -/
theorem ActionMember.kind?_lexemes (m : ActionMember) :
    ∀ l ∈ m.lexemes, Section.kind? l = none := by
  cases m with
  | duration kind => cases kind <;> simp [lexemes, DurationKind.lexeme, Section.kind?]
  | dataPort type name value options =>
      have hvalue : ∀ l ∈ defaultLexemes value, Section.kind? l = none := by
        rcases value with _ | (n | text | _ | _) <;>
          simp [defaultLexemes, Literal.lexeme, Section.kind?]
      have htype : Section.kind? type.lexeme = none := by cases type <;> rfl
      simp only [lexemes, List.forall_mem_cons, List.forall_mem_append]
      exact ⟨rfl, htype, rfl, hvalue, options.kind?_lexemes⟩
  | flowPort name options =>
      simp only [lexemes, List.forall_mem_cons]
      exact ⟨rfl, rfl, options.kind?_lexemes⟩
  | _ => simp [lexemes, Section.kind?]

/-- No statement begins in a member of a marker. -/
theorem MarkerMember.kind?_lexemes (m : MarkerMember) :
    ∀ l ∈ m.lexemes, Section.kind? l = none := by
  rcases m with text | ⟨shape, _ | n⟩
  · simp [lexemes, Section.kind?]
  · cases shape <;>
      simp [lexemes, Gizmo.lexemes, parameterLexemes, GizmoShape.lexeme, Section.kind?]
  · cases shape <;>
      simp [lexemes, Gizmo.lexemes, parameterLexemes, GizmoShape.lexeme, Section.kind?]

/-- Items that are spelled without statement keywords have none among their tokens. -/
theorem Spells.kind?_eq_none {α : Type} {lexemes : α → List Lexeme} {ts : List Token}
    {as : List (Located α)} (h : Spells lexemes ts as)
    (hitem : ∀ a, ∀ l ∈ lexemes a, Section.kind? l = none) :
    ∀ t ∈ ts, Section.kind? t.value = none := by
  intro t ht
  have hmem : t.value ∈ ts.map Located.value := List.mem_map_of_mem ht
  rw [h.map_value, List.mem_flatMap] at hmem
  obtain ⟨a, -, hl⟩ := hmem
  exact hitem a.value t.value hl

/-- **A statement keyword only begins a statement.** The first token of a statement is its keyword,
and no other token of it is a statement keyword. -/
theorem SpellsStatement.no_keyword {ts : List Token} {st : Located Statement}
    (h : SpellsStatement ts st) :
    ∃ kind rest, ts = ⟨.keyword kind.keyword, st.position⟩ :: rest ∧
      Section.kind? (.keyword kind.keyword) = some kind ∧
      ∀ t ∈ rest, Section.kind? t.value = none := by
  cases h with
  | @action p q r head body first others members hhead hbody =>
      refine ⟨.action, _, rfl, rfl, ?_⟩
      have hmembers := hbody.kind?_eq_none ActionMember.kind?_lexemes
      have hids : ∀ t ∈ head, Section.kind? t.value = none := by
        intro t ht
        have hmem : t.value ∈ typeIdLexemes first others := hhead ▸ List.mem_map_of_mem ht
        simp only [typeIdLexemes, segmentLexemes, List.mem_cons, List.mem_flatMap] at hmem
        rcases hmem with hl | ⟨name, -, hl | hl | hl⟩
        · rw [hl]; rfl
        · rw [hl]; rfl
        · rw [hl]; rfl
        · cases hl
      simp only [List.forall_mem_append, List.forall_mem_cons]
      exact ⟨hids, rfl, hmembers, rfl, by simp⟩
  | @marker p q r s body name members hbody =>
      refine ⟨.marker, _, rfl, rfl, ?_⟩
      have hmembers := hbody.kind?_eq_none MarkerMember.kind?_lexemes
      simp only [List.forall_mem_append, List.forall_mem_cons]
      exact ⟨rfl, rfl, hmembers, rfl, by simp⟩

/-! ### Sections and statements -/

namespace Section

variable {stop : Token}

/-- Cutting tokens into sections loses none of them. -/
theorem split_append (stop : Token) (ts : List Token) :
    (split stop ts).1 ++ (split stop ts).2.flatMap (fun s => s.head :: s.body) = ts := by
  induction ts with
  | nil => rfl
  | cons t ts ih =>
      simp only [split]
      cases hkind : kind? t.value with
      | none => rw [List.cons_append, ih]
      | some kind =>
          obtain ⟨v, p⟩ := t
          obtain rfl := eq_keyword_of_kind? hkind
          rw [List.nil_append, List.flatMap_cons, List.cons_append, ih]
          rfl

/-- Tokens without statement keywords belong to what is in front of the next section. -/
theorem split_append_of_none {us : List Token} (h : ∀ t ∈ us, kind? t.value = none)
    (rest : List Token) :
    split stop (us ++ rest) = (us ++ (split stop rest).1, (split stop rest).2) := by
  induction us with
  | nil => rfl
  | cons t us ih =>
      rw [List.forall_mem_cons] at h
      rw [List.cons_append, split, ih h.2]
      simp [h.1]

/-- Spelled statements are cut into sections and read back one by one. -/
theorem split_spelled (stop : Token) {ts : List Token} {sts : List (Located Statement)}
    (h : SpellsFile ts sts) :
    ∃ sections, split stop ts = ([], sections) ∧ sections.map statement? = sts.map some := by
  induction h with
  | nil => exact ⟨[], rfl, rfl⟩
  | @cons ts rest st sts hst _ ih =>
      obtain ⟨sections, hsplit, hreads⟩ := ih
      obtain ⟨kind, us, rfl, hkind, hnone⟩ := hst.no_keyword
      rw [List.cons_append, split, split_append_of_none hnone, hsplit]
      simp only [hkind, List.append_nil]
      refine ⟨_, rfl, ?_⟩
      rw [List.map_cons, List.map_cons, hreads]
      congr 1
      exact statement?_eq_some_iff.mpr ⟨attempt_complete (List.append_nil us).symm hst, rfl⟩

/-- Sections that are in order spell statements one after the other. -/
theorem exists_spelled {sections : List Section}
    (h : ∀ s ∈ sections, ∃ st, s.statement? = some st) :
    ∃ sts, SpellsFile (sections.flatMap fun s => s.head :: s.body) sts := by
  induction sections with
  | nil => exact ⟨[], .nil⟩
  | cons s sections ih =>
      rw [List.forall_mem_cons] at h
      obtain ⟨⟨st, hst⟩, hothers⟩ := h
      obtain ⟨sts, hsts⟩ := ih hothers
      obtain ⟨used, hbody, hspelled⟩ := attempt_sound (statement?_eq_some_iff.mp hst).1
      rw [List.append_nil] at hbody
      rw [List.flatMap_cons, hbody]
      exact ⟨_, .cons hspelled hsts⟩

end Section

/-! ### The language of documents -/

namespace Outline

variable {warn : Bool} {body : List Token} {stop : Token}

/-- The declarations of a document: the first of each type id that a section declares. -/
theorem declarations_ofTokens (tokens : List Token) :
    (ofTokens warn tokens).declarations =
      firstOfEach Declaration.id ((Section.split (close tokens).2 (close tokens).1).2.filterMap
        fun s => (s.outcome warn).declared) := by
  rw [ofTokens, declarations_foldl_add, foldl_keepFirst_nil, List.filterMap_map]
  rfl

/-- What a document is made of, once its end of file is known. -/
theorem ofTokens_append_stop (hbody : ∀ t ∈ body, t.value ≠ .endOfFile)
    (hstop : stop.value = .endOfFile) :
    ofTokens warn (body ++ [stop]) =
      ((Section.split stop body).2.map (Section.outcome warn)).foldl add
        ⟨[], (strayFinding? (Section.split stop body).1).toList⟩ := by
  rw [ofTokens, close_append_stop hbody hstop]

/-- **Grammatical findings, in order**: one about what stands before the first statement, and one
for each section that is not in order. -/
theorem grammatical_findings (hbody : ∀ t ∈ body, t.value ≠ .endOfFile)
    (hstop : stop.value = .endOfFile) :
    (ofTokens warn (body ++ [stop])).findings.filter Finding.isGrammatical =
      (strayFinding? (Section.split stop body).1).toList
        ++ (Section.split stop body).2.flatMap fun s => (s.outcome warn).fault.toList := by
  rw [ofTokens_append_stop hbody hstop, grammatical_foldl_add]
  congr 1
  cases (Section.split stop body).1 with
  | nil => rfl
  | cons t ts => rfl

/-- A document is free of grammatical findings exactly if it is spelled by statements. -/
theorem grammatical_eq_nil_iff (warn : Bool) (hbody : ∀ t ∈ body, t.value ≠ .endOfFile)
    (hstop : stop.value = .endOfFile) :
    (ofTokens warn (body ++ [stop])).findings.filter Finding.isGrammatical = [] ↔
      ∃ sts, SpellsFile body sts := by
  have hlead : ∀ ts, (strayFinding? ts).toList = [] ↔ ts = [] := by
    intro ts
    cases ts <;> simp [strayFinding?]
  rw [grammatical_findings hbody hstop, List.append_eq_nil_iff, hlead, List.flatMap_eq_nil_iff]
  simp only [Option.toList_eq_nil_iff, Section.outcome_fault_eq_none_iff]
  constructor
  · rintro ⟨hnone, hsections⟩
    obtain ⟨sts, hsts⟩ := Section.exists_spelled hsections
    have happend := Section.split_append stop body
    rw [hnone, List.nil_append] at happend
    exact ⟨sts, happend ▸ hsts⟩
  · rintro ⟨sts, hsts⟩
    obtain ⟨sections, hsplit, hreads⟩ := Section.split_spelled stop hsts
    rw [hsplit]
    refine ⟨rfl, fun s hs => ?_⟩
    have hmem : s.statement? ∈ sts.map some := hreads ▸ List.mem_map_of_mem hs
    obtain ⟨st, -, hst⟩ := List.mem_map.mp hmem
    exact ⟨st, hst.symm⟩

/-- The statements that tokens spell are determined by the tokens. -/
theorem spelled_unique {sts sts' : List (Located Statement)} (h : SpellsFile body sts)
    (h' : SpellsFile body sts') : sts' = sts := by
  obtain ⟨sections, hsplit, hreads⟩ := Section.split_spelled ⟨.endOfFile, .start⟩ h
  obtain ⟨sections', hsplit', hreads'⟩ := Section.split_spelled ⟨.endOfFile, .start⟩ h'
  rw [hsplit] at hsplit'
  cases hsplit'
  exact List.map_inj_right (fun _ _ => Option.some.inj) |>.mp (hreads'.symm.trans hreads)

/-- What spelled statements declare: the first declaration of each type id. -/
theorem declarations_of_spelled (hbody : ∀ t ∈ body, t.value ≠ .endOfFile)
    (hstop : stop.value = .endOfFile) {sts : List (Located Statement)} (h : SpellsFile body sts) :
    (ofTokens warn (body ++ [stop])).declarations =
      firstOfEach Declaration.id (sts.map fun st => st.value.meaning st.line) := by
  obtain ⟨sections, hsplit, hreads⟩ := Section.split_spelled stop h
  rw [declarations_ofTokens, close_append_stop hbody hstop, hsplit]
  congr 1
  clear hsplit h
  induction sections generalizing sts with
  | nil =>
      obtain rfl : sts = [] := by simpa using hreads
      rfl
  | cons s sections ih =>
      obtain _ | ⟨st, sts⟩ := sts
      · cases hreads
      · rw [List.map_cons, List.map_cons, List.cons.injEq] at hreads
        rw [List.filterMap_cons, Section.outcome_declared hreads.1, ih hreads.2, List.map_cons]

/-- **The language of documents.** A document, given as tokens that are closed by an end of file,
has no grammatical diagnostic exactly if the grammar derives its lexemes. Then one sequence of
statements is spelled by the tokens, and the document declares what these statements mean: the first
of each type id, each field having its last value, and each action the first port of each name. -/
theorem ofTokens_accepts_grammar (warn : Bool) (document : String) (body : List Token)
    (stop : Token) (hbody : ∀ t ∈ body, t.value ≠ .endOfFile) (hstop : stop.value = .endOfFile) :
    ((∀ d ∈ (ofTokens warn (body ++ [stop])).diagnostics document, d.kind ≠ .grammatical) ↔
        Ebnf.Derives (.rule .file) (body.map Located.value)) ∧
      (Ebnf.Derives (.rule .file) (body.map Located.value) →
        ∃ sts, SpellsFile body sts ∧ (∀ sts', SpellsFile body sts' → sts' = sts) ∧
          (ofTokens warn (body ++ [stop])).declarations =
            firstOfEach Declaration.id (sts.map fun st => st.value.meaning st.line)) := by
  constructor
  · rw [derives_file_iff, ← grammatical_eq_nil_iff warn hbody hstop, List.filter_eq_nil_iff]
    simp [diagnostics, Finding.diagnostic, Issue.diagnostic, Finding.isGrammatical]
  · intro h
    obtain ⟨sts, hsts⟩ := derives_file_iff.mp h
    exact ⟨sts, hsts, fun _ h' => spelled_unique hsts h', declarations_of_spelled hbody hstop hsts⟩

/-- An action whose flow port is declared twice is in the language, and it keeps the first one. -/
theorem ofTokens_accepts_grammar_of_action :
    let body : List Token :=
      [⟨.keyword .action, ⟨1, 1⟩⟩, ⟨.ident "Wait", ⟨1, 8⟩⟩, ⟨.openBrace, ⟨1, 13⟩⟩,
        ⟨.keyword .flow, ⟨2, 1⟩⟩, ⟨.ident "Done", ⟨2, 6⟩⟩,
        ⟨.keyword .flow, ⟨3, 1⟩⟩, ⟨.ident "Done", ⟨3, 6⟩⟩, ⟨.closeBrace, ⟨4, 1⟩⟩]
    let read := ofTokens false (body ++ [⟨.endOfFile, ⟨4, 2⟩⟩])
    (∀ d ∈ read.diagnostics "level", d.kind ≠ .grammatical) ∧
      read.declarations = [.action ⟨⟨["Wait"]⟩, {}, [.flow ⟨"Done", none, 2⟩], 1⟩] := by
  intro body read
  have hport (n : Nat) : ([⟨.keyword .flow, ⟨n, 1⟩⟩, ⟨.ident "Done", ⟨n, 6⟩⟩] : List Token).map
      Located.value = ActionMember.lexemes (.flowPort "Done" ⟨none, none, none⟩) := rfl
  have hname : ([⟨.ident "Wait", ⟨1, 8⟩⟩] : List Token).map Located.value =
      typeIdLexemes "Wait" [] := rfl
  have hstatement := SpellsStatement.action (p := ⟨1, 1⟩) (q := ⟨1, 13⟩) (r := ⟨4, 1⟩) hname
    (.cons (hport 2) (.cons (hport 3) .nil))
  have hfile := SpellsFile.cons hstatement .nil
  obtain ⟨haccepts, hmeans⟩ := ofTokens_accepts_grammar false "level" body ⟨.endOfFile, ⟨4, 2⟩⟩
    (by decide) rfl
  have hderives := derives_file_iff.mpr ⟨_, hfile⟩
  obtain ⟨sts, -, hunique, hdeclarations⟩ := hmeans hderives
  obtain rfl := hunique _ hfile
  exact ⟨haccepts.mpr hderives, hdeclarations.trans (by decide)⟩

end Outline

end Defsheet

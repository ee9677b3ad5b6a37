import Defsheet.Proofs.GeneratedNames

/-!
# Documents in order

A document is in order if nothing worse than a warning is found in it. Every stage drops what it
cannot use, and this module says for each of them that it reports an error whenever it does. So the
findings of a stage are harmless exactly if a condition holds that can be said without the stage,
and under that condition the stage passes everything on.

* A statement is in order if its ports have different names and no flow port has bounds.
* The text of a document is in order if it is spelled by statements that are, with different ids.
* A port is in order if it can be written and its type admits its default and its bounds.
* Declarations are in order if they can be written, their ports are in order, and no generated name
  is needed twice.

## Main results

* `Outline.harmless_ofTokens_iff`, `Outline.declarations_of_inOrder`: from tokens to declarations.
* `Resolution.harmless_iff`, `Resolution.definitions_of_inOrder`: from declarations to definitions.
* `Document.inOrder_iff`, `Document.definitions_of_inOrder`: from the text to the definitions.
-/

namespace Defsheet

/-! ### Harmless findings -/

/-- The findings are warnings. -/
def Harmless (fs : List Finding) : Prop := ∀ f ∈ fs, f.value.kind = .lint

@[simp] theorem harmless_nil : Harmless [] := List.forall_mem_nil _

@[simp] theorem harmless_append {fs gs : List Finding} :
    Harmless (fs ++ gs) ↔ Harmless fs ∧ Harmless gs := List.forall_mem_append

@[simp] theorem harmless_cons {f : Finding} {fs : List Finding} :
    Harmless (f :: fs) ↔ f.value.kind = .lint ∧ Harmless fs := List.forall_mem_cons

/-- Issues that are found at one place. -/
theorem harmless_map_iff {issues : List Issue} {p : Position} :
    Harmless (issues.map fun i => ⟨i, p⟩) ↔ ∀ i ∈ issues, i.kind = .lint :=
  List.forall_mem_map

/-- A field that is set again is worth a warning at most. -/
theorem harmless_repeatFinding (warn wasSet : Bool) (k : Keyword) (p : Position) :
    Harmless (repeatFinding warn wasSet k p) := by
  rw [repeatFinding]
  split
  · exact harmless_cons.mpr ⟨rfl, harmless_nil⟩
  · exact harmless_nil

/-! ### Statements -/

/-- Whether the member is a flow port with bounds. -/
def ActionMember.isBoundedFlow : ActionMember → Bool
  | .flowPort _ o => o.min.isSome || o.max.isSome
  | _ => false

/-- The statement is in order: the ports of an action have different names, and no flow port has
bounds. -/
def Statement.InOrder : Statement → Prop
  | .action _ ms =>
    (∀ m ∈ ms, m.value.isBoundedFlow = false) ∧ ((declaredPorts ms).map Port.name).Nodup
  | .marker _ _ => True

namespace ActionDecl

variable {warn : Bool}

/-- A port is added without an error if its name is new. -/
theorem harmless_addPort_iff (a : ActionDecl) (port : Port) (p : Position) :
    Harmless (a.addPort port p).2 ↔ port.name ∉ a.ports.map Port.name := by
  rw [addPort, Port.find?]
  split
  · next first hfirst =>
    have hmem := List.mem_of_find?_eq_some hfirst
    have hname : first.name = port.name := by simpa using List.find?_some hfirst
    constructor
    · intro h
      cases (harmless_cons.mp h).1
    · intro h
      exact absurd (List.mem_map.mpr ⟨first, hmem, hname⟩) h
  · next hnone =>
    refine ⟨fun _ hmem => ?_, fun _ => harmless_nil⟩
    obtain ⟨q, hq, hname⟩ := List.mem_map.mp hmem
    exact List.find?_eq_none.mp hnone q hq (by simpa using hname)

/-- A flow port is added without an error if it has no bounds. -/
theorem harmless_flowBoundsFinding_iff {name : String} {o : PortOptions} {p : Position} :
    Harmless (flowBoundsFinding name o p) ↔
      (ActionMember.flowPort name o).isBoundedFlow = false := by
  rw [flowBoundsFinding, ActionMember.isBoundedFlow]
  split
  · next h =>
    rw [h]
    constructor
    · intro h
      cases (harmless_cons.mp h).1
    · exact nofun
  · next h => exact ⟨fun _ => Bool.eq_false_iff.mpr h, fun _ => harmless_nil⟩

/-- A member is in order if it is no flow port with bounds and the name of its port is free. -/
theorem harmless_addMember_iff (a : ActionDecl) (m : Located ActionMember) :
    Harmless (a.addMember warn m).2 ↔
      m.value.isBoundedFlow = false ∧
        ∀ port, m.value.port? m.line = some port → port.name ∉ a.ports.map Port.name := by
  obtain ⟨m, p⟩ := m
  have hport (port : Port) : Harmless (a.addPort port p).2 ↔
      ∀ q, some port = some q → q.name ∉ a.ports.map Port.name := by
    rw [harmless_addPort_iff]
    constructor
    · rintro h q ⟨⟩
      exact h
    · exact fun h => h port rfl
  cases m with
  | dataPort type name value o =>
      refine (hport _).trans ⟨fun h => ⟨rfl, h⟩, fun h => h.2⟩
  | flowPort name o =>
      simp only [addMember, harmless_append]
      exact and_congr harmless_flowBoundsFinding_iff (hport _)
  | _ =>
      simp only [addMember, harmless_repeatFinding, true_iff]
      refine ⟨rfl, ?_⟩
      rintro port ⟨⟩

/-- A member adds its port, unless there is one of the name. -/
theorem ports_addMember (a : ActionDecl) (m : Located ActionMember) :
    (a.addMember warn m).1.ports =
      (m.value.port? m.line).toList.foldl (keepFirst Port.name) a.ports := by
  rw [addMember_fst]
  simp only [declaredPorts, List.filterMap_cons, List.filterMap_nil]
  cases m.value.port? m.line <;> rfl

/-- Members are in order if none of them is a flow port with bounds and their ports have different
names, which no port has that came before. -/
theorem harmless_addMembers_iff (a : ActionDecl) (ms : List (Located ActionMember))
    (h : (a.ports.map Port.name).Nodup) :
    Harmless (a.addMembers warn ms).2 ↔
      (∀ m ∈ ms, m.value.isBoundedFlow = false) ∧
        ((a.ports ++ declaredPorts ms).map Port.name).Nodup := by
  induction ms generalizing a with
  | nil =>
      have hports : a.ports ++ declaredPorts [] = a.ports := List.append_nil _
      rw [hports]
      exact ⟨fun _ => ⟨List.forall_mem_nil _, h⟩, fun _ => harmless_nil⟩
  | cons m ms ih =>
      have hstep : Harmless (a.addMembers warn (m :: ms)).2 ↔
          Harmless (a.addMember warn m).2 ∧
            Harmless ((a.addMember warn m).1.addMembers warn ms).2 := harmless_append
      have hports : (a.addMember warn m).1.ports = _ := ports_addMember a m
      rw [hstep, harmless_addMember_iff, List.forall_mem_cons]
      cases hport : m.value.port? m.line with
      | none =>
          have hsame : declaredPorts (m :: ms) = declaredPorts ms :=
            List.filterMap_cons_none hport
          rw [hport] at hports
          have hrest := ih (a.addMember warn m).1 (hports.symm ▸ h)
          rw [hports] at hrest
          rw [hrest, hsame]
          constructor
          · rintro ⟨⟨hm, -⟩, hms, hnodup⟩
            exact ⟨⟨hm, hms⟩, hnodup⟩
          · rintro ⟨⟨hm, hms⟩, hnodup⟩
            exact ⟨⟨hm, fun _ hnone => by cases hnone⟩, hms, hnodup⟩
      | some port =>
          have hmore : a.ports ++ declaredPorts (m :: ms) =
              a.ports ++ [port] ++ declaredPorts ms := by
            have hcons : declaredPorts (m :: ms) = port :: declaredPorts ms :=
              List.filterMap_cons_some hport
            rw [hcons, List.append_cons]
          have hconcat := nodup_map_concat_iff (a := port) h
          rw [hport] at hports
          by_cases hfree : port.name ∉ a.ports.map Port.name
          · have hkept : (a.addMember warn m).1.ports = a.ports ++ [port] := by
              rw [hports, Option.toList_some, List.foldl_cons, List.foldl_nil, keepFirst,
                if_neg hfree]
            have hrest := ih (a.addMember warn m).1 (hkept.symm ▸ hconcat.mpr hfree)
            rw [hkept] at hrest
            rw [hrest, hmore]
            constructor
            · rintro ⟨⟨hm, -⟩, hms, hnodup⟩
              exact ⟨⟨hm, hms⟩, hnodup⟩
            · rintro ⟨⟨hm, hms⟩, hnodup⟩
              refine ⟨⟨hm, ?_⟩, hms, hnodup⟩
              rintro q ⟨⟩
              exact hfree
          · rw [hmore, List.map_append]
            constructor
            · rintro ⟨⟨-, hname⟩, -⟩
              exact absurd (hname port rfl) hfree
            · rintro ⟨-, hnodup⟩
              exact absurd (hconcat.mp hnodup.of_append_left) hfree

end ActionDecl

/-- No member of a marker is an error. -/
theorem MarkerDecl.harmless_addMembers {warn : Bool} (d : MarkerDecl)
    (ms : List (Located MarkerMember)) : Harmless (d.addMembers warn ms).2 := by
  induction ms generalizing d with
  | nil => exact harmless_nil
  | cons m ms ih =>
      refine harmless_append.mpr ⟨?_, ih _⟩
      obtain ⟨m, p⟩ := m
      cases m <;> exact harmless_repeatFinding _ _ _ _

/-- **Statements**: the findings of the members are harmless exactly if the statement is in
order. -/
theorem Statement.harmless_declare_iff {warn : Bool} {line : Nat} (st : Statement) :
    Harmless (st.declare warn line).2 ↔ st.InOrder := by
  cases st with
  | action typeId ms =>
      exact ActionDecl.harmless_addMembers_iff ⟨typeId, {}, [], line⟩ ms List.nodup_nil
  | marker name ms => exact ⟨fun _ => trivial, fun _ => MarkerDecl.harmless_addMembers _ ms⟩

/-! ### From tokens to declarations -/

namespace Outline

variable {warn : Bool}

/-- A section that is in order adds its own findings, and an error if its type id is taken. -/
theorem harmless_add_iff (o : Outline) {s : Section} {st : Located Statement}
    (h : s.statement? = some st) :
    Harmless (o.add (s.outcome warn)).findings ↔
      Harmless o.findings ∧ st.value.InOrder ∧
        (st.value.meaning st.line).id ∉ o.declarations.map Declaration.id := by
  have hfault : (s.outcome warn).fault = none := s.outcome_fault_eq_none_iff.mpr ⟨st, h⟩
  have hfindings : Harmless (s.outcome warn).findings ↔ st.value.InOrder := by
    obtain ⟨hattempt, -⟩ := Section.statement?_eq_some_iff.mp h
    rw [Section.outcome, hattempt]
    exact Statement.harmless_declare_iff _
  simp only [add, Section.outcome_declared h, Outline.find?, hfault]
  split
  · next first hfirst =>
    have hmem := List.mem_of_find?_eq_some hfirst
    have hid : first.id = (st.value.meaning st.line).id := by simpa using List.find?_some hfirst
    constructor
    · intro hall
      simp only [harmless_append] at hall
      cases (harmless_cons.mp hall.1.2).1
    · rintro ⟨-, -, hfree⟩
      exact absurd (List.mem_map.mpr ⟨first, hmem, hid⟩) hfree
  · next hnone =>
    have hfree : (st.value.meaning st.line).id ∉ o.declarations.map Declaration.id := by
      intro hmem
      obtain ⟨e, he, hid⟩ := List.mem_map.mp hmem
      exact List.find?_eq_none.mp hnone e he (by simpa using hid)
    simp only [harmless_append, Option.toList_none, harmless_nil, and_true, hfindings]
    exact ⟨fun ⟨ho, hst⟩ => ⟨ho, hst, hfree⟩, fun ⟨ho, hst, _⟩ => ⟨ho, hst⟩⟩

/-- Sections that are read as statements are in order if the statements are and declare different
type ids, which no declaration has that came before. -/
theorem harmless_foldl_add_iff {ss : List Section} {sts : List (Located Statement)}
    (hss : ss.map Section.statement? = sts.map some) (o : Outline)
    (h : (o.declarations.map Declaration.id).Nodup) :
    Harmless ((ss.map (Section.outcome warn)).foldl add o).findings ↔
      Harmless o.findings ∧ (∀ st ∈ sts, st.value.InOrder) ∧
        ((o.declarations ++ sts.map fun st => st.value.meaning st.line).map
          Declaration.id).Nodup := by
  induction ss generalizing sts o with
  | nil =>
      obtain rfl : sts = [] := by simpa using hss
      simp only [List.map_nil, List.append_nil]
      exact ⟨fun ho => ⟨ho, List.forall_mem_nil _, h⟩, fun ho => ho.1⟩
  | cons s ss ih =>
      obtain _ | ⟨st, sts⟩ := sts
      · cases hss
      rw [List.map_cons, List.map_cons, List.cons.injEq] at hss
      rw [List.map_cons, List.foldl_cons, List.forall_mem_cons, List.map_cons, List.append_cons]
      have hdeclarations : (o.add (s.outcome warn)).declarations =
          keepFirst Declaration.id o.declarations (st.value.meaning st.line) := by
        rw [declarations_add, Section.outcome_declared hss.1]
        rfl
      have hconcat := nodup_map_concat_iff (a := st.value.meaning st.line) h
      have hadd : Harmless (o.add (s.outcome warn)).findings ↔ _ := harmless_add_iff o hss.1
      by_cases hfree : (st.value.meaning st.line).id ∉ o.declarations.map Declaration.id
      · rw [keepFirst, if_neg hfree] at hdeclarations
        have hrest := ih hss.2 (o.add (s.outcome warn)) (hdeclarations.symm ▸ hconcat.mpr hfree)
        rw [hdeclarations] at hrest
        rw [hrest, hadd]
        constructor
        · rintro ⟨⟨ho, hst, -⟩, hsts, hnodup⟩
          exact ⟨ho, ⟨hst, hsts⟩, hnodup⟩
        · rintro ⟨ho, ⟨hst, hsts⟩, hnodup⟩
          exact ⟨⟨ho, hst, hfree⟩, hsts, hnodup⟩
      · rw [keepFirst, if_pos (not_not.mp hfree)] at hdeclarations
        have hrest := ih hss.2 (o.add (s.outcome warn)) (hdeclarations.symm ▸ h)
        rw [hrest, hadd]
        constructor
        · rintro ⟨⟨-, -, hfree'⟩, -⟩
          exact absurd hfree' hfree
        · rintro ⟨-, -, hnodup⟩
          rw [List.map_append] at hnodup
          exact absurd (hconcat.mp hnodup.of_append_left) hfree

/-- The statements are in order: each of them is, and they declare different type ids. -/
def InOrder (sts : List (Located Statement)) : Prop :=
  (∀ st ∈ sts, st.value.InOrder) ∧
    ((sts.map fun st => st.value.meaning st.line).map Declaration.id).Nodup

variable {body : List Token} {stop : Token}

/-- **The text of a document**: its findings are harmless exactly if it is spelled by statements
that are in order. -/
theorem harmless_ofTokens_iff (hbody : ∀ t ∈ body, t.value ≠ .endOfFile)
    (hstop : stop.value = .endOfFile) :
    Harmless (ofTokens warn (body ++ [stop])).findings ↔
      ∃ sts, SpellsFile body sts ∧ InOrder sts := by
  have hspelled {sts : List (Located Statement)} (h : SpellsFile body sts) :
      Harmless (ofTokens warn (body ++ [stop])).findings ↔ InOrder sts := by
    obtain ⟨sections, hsplit, hreads⟩ := Section.split_spelled stop h
    rw [ofTokens_append_stop hbody hstop, hsplit]
    exact (harmless_foldl_add_iff hreads ⟨[], []⟩ List.nodup_nil).trans
      (and_iff_right harmless_nil)
  constructor
  · intro h
    have hgrammar :
        (ofTokens warn (body ++ [stop])).findings.filter Finding.isGrammatical = [] := by
      refine List.filter_eq_nil_iff.mpr fun f hf => ?_
      simp [Finding.isGrammatical, h f hf]
    obtain ⟨sts, hsts⟩ := (grammatical_eq_nil_iff warn hbody hstop).mp hgrammar
    exact ⟨sts, hsts, (hspelled hsts).mp h⟩
  · rintro ⟨sts, hsts, horder⟩
    exact (hspelled hsts).mpr horder

/-- Statements that are in order declare what they mean, all of them. -/
theorem declarations_of_inOrder (hbody : ∀ t ∈ body, t.value ≠ .endOfFile)
    (hstop : stop.value = .endOfFile) {sts : List (Located Statement)} (h : SpellsFile body sts)
    (horder : InOrder sts) :
    (ofTokens warn (body ++ [stop])).declarations =
      sts.map fun st => st.value.meaning st.line := by
  rw [declarations_of_spelled hbody hstop h, firstOfEach_eq_self horder.2]

end Outline

/-! ### Ports -/

/-- The port is in order: it can be written, and its type admits its default and its bounds. -/
def Port.InOrder : Port → Prop
  | .data p =>
    p.type.isUnspellable = false ∧ Defsheet.isUnspellable (constName p.name) = false ∧
      (∀ v, p.default = some v → p.type.admits v = true) ∧
      (∀ n, p.min = some n → p.type.admitsNumber n = true) ∧
      ∀ n, p.max = some n → p.type.admitsNumber n = true
  | .flow p => Defsheet.isUnspellable (constName p.name) = false

/-- The port with its constant, nothing dropped. -/
def Port.definition : Port → PortDefinition
  | .data p => ⟨p.name, p.label, constName p.name, .data p.type p.default p.min p.max⟩
  | .flow p => ⟨p.name, p.label, constName p.name, .flow⟩

/-- The constant of a port is made from its name. -/
@[simp] theorem Port.const_definition (p : Port) : p.definition.const = constName p.name := by
  cases p <;> rfl

/-- A value stays exactly if the test holds of it. -/
theorem filter_eq_self_iff {α : Type} {p : α → Bool} {v : Option α} :
    v.filter p = v ↔ ∀ x, v = some x → p x = true := by
  cases v with
  | none => simp
  | some x => by_cases hx : p x = true <;> simp [Option.filter, hx]

/-- A default is kept if the type admits it, and it is an error if not. -/
theorem checkDefault_spec (type : PortType) (port : String) (v : Option Literal) :
    (checkDefault type port v).1 = v.filter type.admits ∧
      ((∀ i ∈ (checkDefault type port v).2, i.kind = .lint) ↔
        ∀ x, v = some x → type.admits x = true) := by
  have hkind : (Issue.defaultMisfit port type.name).kind ≠ .lint := nofun
  cases v with
  | none => simp [checkDefault]
  | some x => by_cases hx : type.admits x = true <;> simp [checkDefault, Option.filter, hx, hkind]

/-- A bound is kept if the type admits it, and it is an error if not. -/
theorem checkBound_spec (type : PortType) (port : String) (bound : Bound) (v : Option Numeral) :
    (checkBound type port bound v).1 = v.filter type.admitsNumber ∧
      ((∀ i ∈ (checkBound type port bound v).2, i.kind = .lint) ↔
        ∀ n, v = some n → type.admitsNumber n = true) := by
  have hkind (text : String) : (Issue.boundOutOfRange bound text port type.name).kind ≠ .lint :=
    nofun
  cases v with
  | none => simp [checkBound]
  | some n =>
      by_cases hn : type.admitsNumber n = true <;> simp [checkBound, Option.filter, hn, hkind]

/-- A range whose ends are the wrong way round is not an error. -/
theorem checkRange_lint (port : String) (lo hi : Option Numeral) :
    ∀ i ∈ checkRange port lo hi, i.kind = .lint := by
  intro i hmem
  rw [checkRange.eq_def] at hmem
  split at hmem
  · split at hmem
    · obtain rfl := List.mem_singleton.mp hmem
      rfl
    · cases hmem
  · cases hmem

/-- A type that holds no numbers admits none. -/
theorem PortType.admitsNumber_of_not_isNumeric {type : PortType} (h : type.isNumeric = false)
    (n : Numeral) : type.admitsNumber n = false := by
  cases type with
  | float => cases h
  | int => cases h
  | _ => rfl

/-- Bounds are kept if the type admits them, and it is an error if not. -/
theorem checkBounds_spec (type : PortType) (port : String) (lo hi : Option Numeral) :
    (checkBounds type port lo hi).1 =
        (lo.filter type.admitsNumber, hi.filter type.admitsNumber) ∧
      ((∀ i ∈ (checkBounds type port lo hi).2, i.kind = .lint) ↔
        (∀ n, lo = some n → type.admitsNumber n = true) ∧
          ∀ n, hi = some n → type.admitsNumber n = true) := by
  rw [checkBounds]
  split
  · obtain ⟨hlo, hloIssues⟩ := checkBound_spec type port .min lo
    obtain ⟨hhi, hhiIssues⟩ := checkBound_spec type port .max hi
    refine ⟨Prod.ext hlo hhi, ?_⟩
    simp only [List.forall_mem_append, hloIssues, hhiIssues]
    exact and_iff_left (checkRange_lint _ _ _)
  · next hnumeric =>
    have hnone := PortType.admitsNumber_of_not_isNumeric (Bool.eq_false_iff.mpr hnumeric)
    have hfilter (v : Option Numeral) : v.filter type.admitsNumber = none := by
      cases v <;> simp [Option.filter, hnone]
    split
    · next hsome =>
      refine ⟨by rw [hfilter, hfilter], ?_⟩
      constructor
      · intro h
        cases h _ List.mem_cons_self
      · rintro ⟨hlo, hhi⟩
        obtain hsome | hsome := Bool.or_eq_true_iff.mp hsome
        · obtain ⟨n, hn⟩ := Option.isSome_iff_exists.mp hsome
          exact absurd (hlo n hn) (by simp [hnone])
        · obtain ⟨n, hn⟩ := Option.isSome_iff_exists.mp hsome
          exact absurd (hhi n hn) (by simp [hnone])
    · next hsome =>
      simp only [Bool.or_eq_true, not_or, Bool.not_eq_true, Option.isSome_eq_false_iff,
        Option.isNone_iff_eq_none] at hsome
      obtain ⟨rfl, rfl⟩ := hsome
      exact ⟨rfl, fun _ => ⟨nofun, nofun⟩, fun _ => List.forall_mem_nil _⟩

namespace PortDefinition

/-- What is left of a data port that can be written: the values that its type admits. -/
theorem ofData?_eq_some_iff {action : String} {p : DataPort} {q : PortDefinition} :
    (ofData? action p).1 = some q ↔
      p.type.isUnspellable = false ∧ Defsheet.isUnspellable (constName p.name) = false ∧
        q = ⟨p.name, p.label, constName p.name, .data p.type (p.default.filter p.type.admits)
          (p.min.filter p.type.admitsNumber) (p.max.filter p.type.admitsNumber)⟩ := by
  rw [ofData?]
  split
  · next htype => simp [htype]
  split
  · next hconst => simp [hconst]
  · next htype hconst =>
    rw [Bool.not_eq_true] at htype hconst
    simp only [(checkDefault_spec _ _ _).1, (checkBounds_spec _ _ _ _).1, htype, hconst, true_and,
      Option.some.injEq]
    exact eq_comm

/-- **Ports**: the findings of a port are harmless exactly if it is in order. -/
theorem lint_ofPort?_iff (action : String) (p : Port) :
    (∀ i ∈ (ofPort? action p).2, i.kind = .lint) ↔ p.InOrder := by
  have hsingle {i : Issue} (hi : i.kind = .semantic) : ¬∀ j ∈ [i], j.kind = .lint := by
    intro h
    rw [h i List.mem_cons_self] at hi
    cases hi
  cases p with
  | data p =>
      rw [ofPort?, ofData?, Port.InOrder]
      split
      · next htype => exact iff_of_false (hsingle rfl) fun h => Bool.eq_false_iff.mp h.1 htype
      split
      · next hconst => exact iff_of_false (hsingle rfl) fun h => Bool.eq_false_iff.mp h.2.1 hconst
      · next htype hconst =>
        rw [Bool.not_eq_true] at htype hconst
        simp only [List.forall_mem_append, (checkDefault_spec _ _ _).2,
          (checkBounds_spec _ _ _ _).2, htype, hconst, true_and]
  | flow p =>
      rw [ofPort?, ofFlow?, Port.InOrder]
      split
      · next hconst => exact iff_of_false (hsingle rfl) fun h => Bool.eq_false_iff.mp h hconst
      · next hconst =>
        rw [Bool.not_eq_true] at hconst
        simp [hconst]

/-- Nothing of a port that is in order is dropped. -/
theorem ofPort?_of_inOrder {action : String} {p : Port} (h : p.InOrder) :
    (ofPort? action p).1 = some p.definition := by
  cases p with
  | data p =>
      obtain ⟨htype, hconst, hdefault, hmin, hmax⟩ := h
      refine ofData?_eq_some_iff.mpr ⟨htype, hconst, ?_⟩
      rw [filter_eq_self_iff.mpr hdefault, filter_eq_self_iff.mpr hmin,
        filter_eq_self_iff.mpr hmax]
      rfl
  | flow p =>
      have hconst : ¬Defsheet.isUnspellable (constName p.name) = true := Bool.eq_false_iff.mp h
      rw [ofPort?, ofFlow?, if_neg hconst]
      rfl

end PortDefinition

/-- The ports are in order: each of them is, and their constants are different from each other and
from those of the ports that every action has. -/
def portsInOrder (ports : List Port) : Prop :=
  (∀ p ∈ ports, p.InOrder) ∧ (["IN", "OUT"] ++ ports.map fun p => constName p.name).Nodup

/-- Ports are in order if each of them is and their constants are free. -/
theorem harmless_resolvePorts_iff (action : String) (kept : List PortDefinition)
    (ports : List Port) (h : (["IN", "OUT"] ++ kept.map PortDefinition.const).Nodup) :
    Harmless (resolvePorts action kept ports).2 ↔
      (∀ p ∈ ports, p.InOrder) ∧
        (["IN", "OUT"] ++ kept.map PortDefinition.const
          ++ ports.map fun p => constName p.name).Nodup := by
  induction ports generalizing kept with
  | nil =>
      rw [List.map_nil, List.append_nil]
      exact ⟨fun _ => ⟨List.forall_mem_nil _, h⟩, fun _ => harmless_nil⟩
  | cons p ports ih =>
      rw [resolvePorts, List.forall_mem_cons, ← PortDefinition.lint_ofPort?_iff action p]
      by_cases hp : p.InOrder
      · have hissues := (PortDefinition.lint_ofPort?_iff action p).mpr hp
        have hconcat : (["IN", "OUT"] ++ (kept ++ [p.definition]).map PortDefinition.const).Nodup ↔
            constOwner? kept p.definition.const = none := by
          rw [constOwner?_eq_none_iff, List.map_append, ← List.append_assoc, List.map_singleton,
            ← List.concat_eq_append, List.nodup_concat, List.mem_append, not_or]
          exact ⟨fun hc => hc.1, fun hc => ⟨hc, h⟩⟩
        have hmore : ["IN", "OUT"] ++ kept.map PortDefinition.const
              ++ (p :: ports).map (fun p => constName p.name) =
            ["IN", "OUT"] ++ (kept ++ [p.definition]).map PortDefinition.const
              ++ ports.map fun p => constName p.name := by
          rw [List.map_cons, List.map_append, List.map_singleton, Port.const_definition]
          simp only [List.append_assoc, List.singleton_append]
        rw [hmore]
        simp only [PortDefinition.ofPort?_of_inOrder hp]
        cases howner : constOwner? kept p.definition.const with
        | none =>
            simp only [harmless_append, harmless_map_iff]
            rw [ih (kept ++ [p.definition]) (hconcat.mpr howner)]
            exact and_assoc.symm
        | some owner =>
            simp only [harmless_append, harmless_cons]
            constructor
            · rintro ⟨-, hkind, -⟩
              cases hkind
            · rintro ⟨-, hnodup⟩
              rw [hconcat.mp hnodup.of_append_left] at howner
              cases howner
      · -- A port that is not in order is an error, whatever becomes of it.
        have hissues := mt (PortDefinition.lint_ofPort?_iff action p).mp hp
        simp only [hissues, false_and, iff_false]
        split
        · simp only [harmless_append, harmless_map_iff, hissues, false_and, not_false_eq_true]
        · split <;>
            simp only [harmless_append, harmless_map_iff, hissues, false_and, not_false_eq_true]

/-- Ports that are in order are all kept. -/
theorem resolvePorts_of_inOrder {action : String} {ports : List Port} (h : portsInOrder ports) :
    (resolvePorts action [] ports).1 = ports.map Port.definition := by
  obtain ⟨hports, hnodup⟩ := h
  have hresolved : (ports.filterMap fun p => (PortDefinition.ofPort? action p).1) =
      ports.map Port.definition := by
    rw [← List.filterMap_eq_map]
    refine List.filterMap_congr fun p hp => ?_
    rw [PortDefinition.ofPort?_of_inOrder (hports p hp)]
    rfl
  have hconsts : (ports.map Port.definition).map PortDefinition.const =
      ports.map fun p => constName p.name := by
    rw [List.map_map]
    exact List.map_congr_left fun p _ => p.const_definition
  have hfree : ∀ q ∈ ports.map Port.definition, q.const ∉ ["IN", "OUT"] := by
    intro q hq himplicit
    have hmem : q.const ∈ ports.map fun p => constName p.name :=
      hconsts ▸ List.mem_map_of_mem hq
    exact (List.nodup_append.mp hnodup).2.2 _ himplicit _ hmem rfl
  rw [resolvePorts_fst, hresolved, foldl_keepFirst_nil,
    List.filter_eq_self.mpr fun q hq => decide_eq_true (hfree q hq), firstOfEach_eq_self]
  rw [hconsts]
  exact hnodup.of_append_right

/-! ### From declarations to definitions -/

/-- The declaration is in order by itself: its identifiers can be written, and its ports are in
order. -/
def Declaration.InOrder (d : Declaration) : Prop :=
  (∀ s ∈ d.bareIdents, isUnspellable s = false) ∧
    match d with
    | .action a => portsInOrder a.ports
    | .marker _ => True

/-- The declaration with its identifiers, nothing dropped. -/
def Declaration.definition : Declaration → Definition
  | .action a =>
    .action
      { typeId := a.typeId
        modulePath := a.typeId.modulePath.map writtenIdent
        idConst := constName a.typeId.last
        className := writtenIdent a.typeId.joined
        providerConst := constName a.typeId.joined
        metadata := a.metadata
        ports := a.ports.map Port.definition
        line := a.line }
  | .marker m =>
    .marker ⟨m.name, writtenIdent m.name, constName m.name, m.label, m.gizmo, m.line⟩

/-- **Declarations**: the findings of a declaration are harmless exactly if it is in order by
itself. -/
theorem Definition.harmless_ofDeclaration?_iff (d : Declaration) :
    Harmless (ofDeclaration? d).2 ↔ d.InOrder := by
  cases d with
  | action a =>
      simp only [ofDeclaration?, ActionDefinition.ofDecl?, Declaration.InOrder,
        Declaration.bareIdents]
      split
      · next s hfind =>
        constructor
        · intro h
          cases (harmless_cons.mp h).1
        · rintro ⟨hidents, -⟩
          have hs := List.find?_some hfind
          rw [hidents s (List.mem_of_find?_eq_some hfind)] at hs
          cases hs
      · next hfind =>
        have hidents : ∀ s ∈ a.typeId.modulePath ++ [a.typeId.joined, constName a.typeId.last],
            isUnspellable s = false :=
          fun s hs => Bool.eq_false_iff.mpr (List.find?_eq_none.mp hfind s hs)
        have hports := harmless_resolvePorts_iff a.typeId.text [] a.ports (by decide)
        rw [List.map_nil, List.append_nil] at hports
        exact hports.trans (and_iff_right hidents).symm
  | marker m =>
      simp only [ofDeclaration?, MarkerDefinition.ofDecl?, Declaration.InOrder,
        Declaration.bareIdents, List.forall_mem_cons]
      split
      · next hidents =>
        constructor
        · intro h
          cases (harmless_cons.mp h).1
        · rintro ⟨⟨hname, hconst, -⟩, -⟩
          rw [hname, hconst] at hidents
          cases hidents
      · next hidents =>
        simp only [Bool.or_eq_true, not_or, Bool.not_eq_true] at hidents
        exact ⟨fun _ => ⟨⟨hidents.1, hidents.2, List.forall_mem_nil _⟩, trivial⟩,
          fun _ => harmless_nil⟩

/-- Nothing of a declaration that is in order by itself is dropped. -/
theorem Definition.ofDeclaration?_of_inOrder {d : Declaration} (h : d.InOrder) :
    (ofDeclaration? d).1 = some d.definition := by
  cases d with
  | action a =>
      obtain ⟨hidents, hports⟩ := h
      have hfind : (a.typeId.modulePath ++ [a.typeId.joined, constName a.typeId.last]).find?
          isUnspellable = none :=
        List.find?_eq_none.mpr fun s hs => Bool.eq_false_iff.mp (hidents s hs)
      simp only [ofDeclaration?, ActionDefinition.ofDecl?, hfind, resolvePorts_of_inOrder hports]
      rfl
  | marker m =>
      have hname := h.1 m.name List.mem_cons_self
      have hconst := h.1 (constName m.name) (List.mem_cons_of_mem _ List.mem_cons_self)
      simp only [ofDeclaration?, MarkerDefinition.ofDecl?, hname, hconst]
      rfl

namespace Resolution

/-- Declarations are in order if each of them is by itself and their generated names are free. -/
theorem harmless_foldl_add_iff (ds : List Declaration) (r : Resolution)
    (h : Apart Definition.keys r.definitions) :
    Harmless (ds.foldl add r).findings ↔
      Harmless r.findings ∧ (∀ d ∈ ds, d.InOrder) ∧
        Apart Definition.keys (r.definitions ++ ds.map Declaration.definition) := by
  induction ds generalizing r with
  | nil =>
      rw [List.map_nil, List.append_nil]
      exact ⟨fun hr => ⟨hr, List.forall_mem_nil _, h⟩, fun hr => hr.1⟩
  | cons d ds ih =>
      rw [List.foldl_cons, List.forall_mem_cons, List.map_cons, List.append_cons]
      have hkept : Apart Definition.keys (r.add d).definitions := by
        rw [definitions_add]
        split
        · exact h
        · next x _ =>
          have hclaim :
              Apart Definition.keys ([x].foldl (claimAll Definition.keys) r.definitions) :=
            apart_foldl_claimAll h
          exact hclaim
      rw [ih _ hkept]
      by_cases hd : d.InOrder
      · have hfindings := (Definition.harmless_ofDeclaration?_iff d).mpr hd
        simp only [add, Definition.ofDeclaration?_of_inOrder hd]
        cases hclash : d.definition.clash? r.definitions with
        | none =>
            simp only [harmless_append, hfindings, hd, true_and, and_true]
        | some c =>
            simp only [harmless_append, harmless_cons]
            constructor
            · rintro ⟨⟨-, hkind, -⟩, -⟩
              cases hkind
            · rintro ⟨-, -, hapart⟩
              have hfree := (apart_concat_iff.mp (List.pairwise_append.mp hapart).1).2
              rw [Definition.clash?_eq_none_iff.mpr hfree] at hclash
              cases hclash
      · have hfindings := mt (Definition.harmless_ofDeclaration?_iff d).mp hd
        have hadd : ¬Harmless (r.add d).findings := by
          simp only [add]
          split
          · simp only [harmless_append, hfindings, and_false, not_false_eq_true]
          · split <;>
              simp only [harmless_append, hfindings, and_false, false_and, not_false_eq_true]
        simp only [hadd, hd, false_and, and_false]

/-- The declarations are in order: each of them is by itself, and no generated name is needed
twice. -/
def InOrder (ds : List Declaration) : Prop :=
  (∀ d ∈ ds, d.InOrder) ∧ Apart Definition.keys (ds.map Declaration.definition)

/-- **The declarations of a document**: their findings are harmless exactly if they are in order. -/
theorem harmless_iff (ds : List Declaration) :
    Harmless (ofDeclarations ds).findings ↔ InOrder ds := by
  rw [ofDeclarations, harmless_foldl_add_iff ds ⟨[], []⟩ .nil]
  exact and_iff_right harmless_nil

/-- Declarations that are in order have their definitions, all of them. -/
theorem definitions_of_inOrder {ds : List Declaration} (h : InOrder ds) :
    (ofDeclarations ds).definitions = ds.map Declaration.definition := by
  have hresolved : (ds.filterMap fun d => (Definition.ofDeclaration? d).1) =
      ds.map Declaration.definition := by
    rw [← List.filterMap_eq_map]
    refine List.filterMap_congr fun d hd => ?_
    rw [Definition.ofDeclaration?_of_inOrder (h.1 d hd)]
    rfl
  rw [ofDeclarations, definitions_foldl_add, hresolved]
  exact foldl_claimAll_of_apart h.2

end Resolution

/-! ### Whole documents -/

/-- All findings are errors, warnings apart. -/
theorem Finding.not_isError_diagnostic_iff {document : String} {f : Finding} :
    (f.diagnostic document).isError = false ↔ f.value.kind = .lint := by
  change decide (f.value.kind.severity = .error) = false ↔ _
  rw [decide_eq_false_iff_not]
  cases f.value.kind <;> decide

/-- What is wrong with a text is never a mere warning. -/
theorem Scan.harmless_findings_iff {text : String} :
    Harmless (Scan.ofText text).findings ↔ (Scan.ofText text).findings = [] := by
  constructor
  · intro h
    rw [List.eq_nil_iff_forall_not_mem]
    intro f hf
    obtain ⟨x, -, hissue⟩ := List.mem_filterMap.mp hf
    obtain ⟨i, hi, rfl⟩ := Option.map_eq_some_iff.mp hissue
    have hlint := h _ hf
    obtain ⟨x, p⟩ := x
    cases x with
    | stray c rest =>
        obtain rfl := Option.some.inj hi
        cases hlint
    | unclosed rest =>
        obtain rfl := Option.some.inj hi
        cases hlint
    | _ => cases hi
  · intro h
    rw [h]
    exact harmless_nil

namespace Document

variable {doc : Document} {o : Options}

/-- The statements spell the document, and they and what they declare are in order. -/
structure InOrder (doc : Document) (sts : List (Located Statement)) : Prop where
  scan : (Scan.ofText doc.text).findings = []
  spelled : SpellsFile (Scan.bodyOf doc.text) sts
  statements : Outline.InOrder sts
  declarations : Resolution.InOrder (sts.map fun st => st.value.meaning st.line)

/-- Statements that are in order declare what they mean, and nothing of it is dropped. -/
theorem InOrder.declarations_eq {sts : List (Located Statement)} (h : doc.InOrder sts) :
    doc.declarations o = sts.map fun st => st.value.meaning st.line :=
  Outline.declarations_of_inOrder (fun _ => Scan.ne_endOfFile_of_mem_bodyOf) rfl h.spelled
    h.statements

/-- **Documents**: no error is reported exactly if statements spell the document, and they and what
they declare are in order. -/
theorem inOrder_iff :
    (∀ d ∈ (doc.resolve o).diagnostics, d.isError = false) ↔ ∃ sts, doc.InOrder sts := by
  have hbody : ∀ t ∈ Scan.bodyOf doc.text, t.value ≠ .endOfFile :=
    fun _ => Scan.ne_endOfFile_of_mem_bodyOf
  have houtline :
      Harmless (Outline.ofTokens o.warnOnRepeat (Scan.ofText doc.text).tokens).findings ↔
      ∃ sts, SpellsFile (Scan.bodyOf doc.text) sts ∧ Outline.InOrder sts := by
    rw [Scan.tokens_ofText]
    exact Outline.harmless_ofTokens_iff hbody rfl
  have hstages : (∀ d ∈ (doc.resolve o).diagnostics, d.isError = false) ↔
      (Scan.ofText doc.text).findings = [] ∧
        (∃ sts, SpellsFile (Scan.bodyOf doc.text) sts ∧ Outline.InOrder sts) ∧
        Resolution.InOrder (doc.declarations o) := by
    rw [← Scan.harmless_findings_iff, ← houtline, ← Resolution.harmless_iff, ← and_assoc,
      ← harmless_append, ← harmless_append]
    exact List.forall_mem_map.trans (forall₂_congr fun _ _ => Finding.not_isError_diagnostic_iff)
  rw [hstages]
  constructor
  · rintro ⟨hscan, ⟨sts, hspelled, hstatements⟩, hdeclarations⟩
    rw [declarations, Scan.tokens_ofText,
      Outline.declarations_of_inOrder hbody rfl hspelled hstatements] at hdeclarations
    exact ⟨sts, hscan, hspelled, hstatements, hdeclarations⟩
  · rintro ⟨sts, h⟩
    exact ⟨h.scan, ⟨sts, h.spelled, h.statements⟩, h.declarations_eq ▸ h.declarations⟩

/-- The definitions of a document that is in order are those of its statements. -/
theorem InOrder.definitions_eq {sts : List (Located Statement)} (h : doc.InOrder sts) :
    (doc.resolve o).definitions =
      (sts.map fun st => st.value.meaning st.line).map Declaration.definition := by
  change (Resolution.ofDeclarations (doc.declarations o)).definitions = _
  rw [h.declarations_eq, Resolution.definitions_of_inOrder h.declarations]

end Document

end Defsheet

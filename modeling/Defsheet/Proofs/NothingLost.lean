import Defsheet.Proofs.InOrder

/-!
# Nothing is lost silently

Every stage of compiling goes on with what is still valid and drops the rest. If no error is
reported, nothing was dropped: the text consists of tokens, blanks and comments, every statement
keyword begins a statement, and every statement has become a definition that says the same. What a
port says is compared by writing the port down again as a member (`PortDefinition.member`), so a
default or a bound that went missing would show.

## Main results

* `Document.compile_loses_nothing`: without an error, nothing is lost.
-/

namespace Defsheet

/-! ### Keywords -/

/-- Whether the lexeme is a statement keyword. -/
def Lexeme.beginsStatement (l : Lexeme) : Bool := l = .keyword .action || l = .keyword .marker

/-- Keywords that begin a statement are those of its kinds. -/
theorem Lexeme.beginsStatement_iff {l : Lexeme} :
    l.beginsStatement = true ↔ (Section.kind? l).isSome = true := by
  rw [beginsStatement, Bool.or_eq_true, decide_eq_true_iff, decide_eq_true_iff]
  constructor
  · rintro (rfl | rfl) <;> rfl
  · intro h
    obtain ⟨kind, hkind⟩ := Option.isSome_iff_exists.mp h
    obtain rfl := Section.eq_keyword_of_kind? hkind
    cases kind
    · exact .inl rfl
    · exact .inr rfl

/-- A statement has one statement keyword. -/
theorem SpellsStatement.countP_eq_one {ts : List Token} {st : Located Statement}
    (h : SpellsStatement ts st) : ts.countP (fun t => t.value.beginsStatement) = 1 := by
  obtain ⟨kind, rest, rfl, hkind, hrest⟩ := h.no_keyword
  have hhead : (Lexeme.keyword kind.keyword).beginsStatement = true := by
    rw [Lexeme.beginsStatement_iff, hkind]
    rfl
  have htail : rest.countP (fun t => t.value.beginsStatement) = 0 := by
    rw [List.countP_eq_zero]
    intro t ht
    rw [Lexeme.beginsStatement_iff, hrest t ht]
    exact nofun
  rw [List.countP_cons, htail, if_pos hhead]

/-- There are as many statement keywords as statements. -/
theorem SpellsFile.countP_eq_length {ts : List Token} {sts : List (Located Statement)}
    (h : SpellsFile ts sts) : ts.countP (fun t => t.value.beginsStatement) = sts.length := by
  induction h with
  | nil => rfl
  | cons hst _ ih => rw [List.countP_append, hst.countP_eq_one, ih, List.length_cons, Nat.add_comm]

/-! ### What definitions keep of statements -/

/-- The port as it is declared. -/
def PortDefinition.member (p : PortDefinition) : ActionMember :=
  match p.role with
  | .flow => .flowPort p.name ⟨p.givenLabel, none, none⟩
  | .data type value lo hi => .dataPort type p.name value ⟨p.givenLabel, lo, hi⟩

/-- Whether the member declares a port. -/
def ActionMember.isPort : ActionMember → Bool
  | .dataPort _ _ _ _ => true
  | .flowPort _ _ => true
  | _ => false

/-- The definition says what the statement says. An action has the type id, the line and the fields
of the statement, and all its ports in order, each with its name, label, type, default and bounds.
A marker has the name, the line, the last label and the last gizmo of the statement. -/
def Definition.Keeps : Definition → Located Statement → Prop
  | .action x, ⟨.action typeId ms, p⟩ =>
    x.typeId = typeId ∧ x.line = p.line ∧ x.metadata = Metadata.ofMembers ms ∧
      x.ports.map PortDefinition.member = (ms.map Located.value).filter ActionMember.isPort
  | .marker x, ⟨.marker name ms, p⟩ =>
    x.name = name ∧ x.line = p.line ∧ x.label = lastOf (fun m => m.value.label?) ms ∧
      x.gizmo = lastOf (fun m => m.value.gizmo?) ms
  | _, _ => False

/-- Ports that are declared without bounds on flow ports are written down as they were declared. -/
theorem map_member_declaredPorts {ms : List (Located ActionMember)}
    (h : ∀ m ∈ ms, m.value.isBoundedFlow = false) :
    ((declaredPorts ms).map Port.definition).map PortDefinition.member =
      (ms.map Located.value).filter ActionMember.isPort := by
  induction ms with
  | nil => rfl
  | cons m ms ih =>
      rw [List.forall_mem_cons] at h
      obtain ⟨m, p⟩ := m
      have hrest := ih h.2
      cases m with
      | dataPort type name value options =>
          have hport : declaredPorts (⟨.dataPort type name value options, p⟩ :: ms) =
              .data ⟨type, name, value, options.label, options.min, options.max, p.line⟩
                :: declaredPorts ms := rfl
          rw [hport, List.map_cons, List.map_cons, hrest]
          rfl
      | flowPort name options =>
          have hport : declaredPorts (⟨.flowPort name options, p⟩ :: ms) =
              .flow ⟨name, options.label, p.line⟩ :: declaredPorts ms := rfl
          obtain ⟨label, lo, hi⟩ := options
          obtain ⟨hlo, hhi⟩ : lo = none ∧ hi = none := by
            simpa [ActionMember.isBoundedFlow] using h.1
          rw [hport, List.map_cons, List.map_cons, hrest, hlo, hhi]
          rfl
      | _ => exact hrest

/-- A statement that is in order is kept. -/
theorem Definition.keeps_definition {st : Located Statement} (h : st.value.InOrder) :
    (st.value.meaning st.line).definition.Keeps st := by
  obtain ⟨st, p⟩ := st
  cases st with
  | action typeId ms =>
      refine ⟨rfl, rfl, rfl, ?_⟩
      change ((firstOfEach Port.name (declaredPorts ms)).map Port.definition).map
        PortDefinition.member = _
      rw [firstOfEach_eq_self h.2, map_member_declaredPorts h.1]
  | marker name ms => exact ⟨rfl, rfl, rfl, rfl⟩

/-! ### Documents -/

/-- Nothing of the document is lost: between its tokens stand blanks and comments only, there are as
many definitions and manifest entries as statement keywords, and in the order of the text every
statement is kept by its definition. -/
structure Document.IsKept (doc : Document) (o : Options) : Prop where
  laid : Laid .start doc.text.toList (Scan.bodyOf doc.text)
  definitions : (doc.resolve o).definitions.length =
    (Scan.ofText doc.text).tokens.countP fun t => t.value.beginsStatement
  entries : (doc.compile o).manifest.length =
    (Scan.ofText doc.text).tokens.countP fun t => t.value.beginsStatement
  statements : ∃ sts, SpellsFile (Scan.bodyOf doc.text) sts ∧
    List.Forall₂ Definition.Keeps (doc.resolve o).definitions sts

/-- A document that is in order is kept. -/
theorem Document.InOrder.isKept {doc : Document} {o : Options} {sts : List (Located Statement)}
    (h : doc.InOrder sts) (hmodule : moduleName doc.name ≠ "") : doc.IsKept o := by
  have hcount : (Scan.ofText doc.text).tokens.countP (fun t => t.value.beginsStatement) =
      sts.length := by
    rw [Scan.tokens_ofText, List.countP_append, h.spelled.countP_eq_length]
    rfl
  have hlength : (doc.resolve o).definitions.length = sts.length := by
    rw [h.definitions_eq, List.length_map, List.length_map]
  refine ⟨Scan.laid_of_findings_eq_nil h.scan, hlength.trans hcount.symm, ?_, sts, h.spelled, ?_⟩
  · rw [hcount, ← hlength, compile, if_neg hmodule]
    exact List.length_map _
  · rw [h.definitions_eq, List.map_map, List.forall₂_map_left_iff]
    exact List.forall₂_same.mpr fun st hst => Definition.keeps_definition (h.statements.1 st hst)

/-- **Nothing is lost silently.** If compiling a document reports no error, everything in its text
has become part of its definitions. -/
theorem Document.compile_loses_nothing (doc : Document) (o : Options)
    (h : (doc.compile o).hasErrors = false) : doc.IsKept o := by
  by_cases hmodule : moduleName doc.name = ""
  · rw [compile, if_pos hmodule] at h
    cases h
  · rw [compile, if_neg hmodule, Compilation.hasErrors, List.any_eq_false] at h
    obtain ⟨sts, hsts⟩ := inOrder_iff.mp fun d hd => Bool.eq_false_iff.mpr (h d hd)
    exact hsts.isKept hmodule

/-- A document with a comment, a default, bounds, and fields that are set twice. -/
theorem Document.compile_loses_nothing_of_level :
    let doc : Document := ⟨"level",
      "action A.B \x7b // two ports\n port float x = 1.5 min 0 max 2\n"
      ++ " flow done label \"Done\" \x7d marker C \x7b label \"a\" label \"b\" gizmo box(2) \x7d"⟩
    (doc.compile {}).hasErrors = false ∧ doc.IsKept {} := by
  intro doc
  have h : (doc.compile {}).hasErrors = false := by decide +kernel
  exact ⟨h, compile_loses_nothing doc {} h⟩

end Defsheet

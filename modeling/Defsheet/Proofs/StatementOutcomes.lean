import Defsheet.Proofs.NothingLost
import Defsheet.Proofs.Recovery

/-!
# Every statement has one outcome

A statement keyword begins an attempt to declare something, and each attempt comes to exactly one
end: the declaration is kept, or its type id is taken and that is reported, or the statement is
broken and the fault is reported. So the keywords of a document can be counted off against its
declarations and diagnostics. What is reported of tokens that belong to no statement does not count:
it is worded differently from every fault (`Finding.isFault_finding`).

The count is an invariant of reading section by section: each section adds one
(`Outline.tally_add`).

## Main results

* `Outline.tally_ofTokens`: what becomes of the statements of a document.
* `Outline.ofTokens_accounts_for_statements`: the same by the diagnostics of the document, and what
  is true of the declarations that are kept.
-/

namespace Defsheet

/-! ### Diagnostics by their wording -/

/-- Whether the diagnostic is of the kind and its message begins with the words. -/
def Diagnostic.opensWith (kind : DiagnosticKind) (words : String) (d : Diagnostic) : Bool :=
  d.kind = kind && words.toList.isPrefixOf d.message.toList

namespace Diagnostic

variable {kind : DiagnosticKind} {words : String} {d : Diagnostic}

/-- A diagnostic opens with words if they are the beginning of its message. -/
theorem opensWith_iff :
    d.opensWith kind words = true ↔ d.kind = kind ∧ words.toList <+: d.message.toList := by
  rw [opensWith, Bool.and_eq_true, decide_eq_true_iff, List.isPrefixOf_iff_prefix]

/-- No words count if the kind is another. -/
theorem not_opensWith_of_kind (h : d.kind ≠ kind) : d.opensWith kind words = false :=
  Bool.eq_false_iff.mpr fun hopens => h (opensWith_iff.mp hopens).1

/-- Two messages begin differently if neither beginning goes on with the other. -/
theorem not_opensWith_of_message {first : String} (h : first.toList <+: d.message.toList)
    (hwords : ¬words.toList <+: first.toList) (hfirst : ¬first.toList <+: words.toList) :
    d.opensWith kind words = false := by
  refine Bool.eq_false_iff.mpr fun hopens => ?_
  obtain ⟨-, hbegins⟩ := opensWith_iff.mp hopens
  exact (List.prefix_or_prefix_of_prefix hbegins h).elim hwords hfirst

/-- How a diagnostic about a type id that is taken begins. -/
def duplicateWords : String := "duplicate type id '"

/-- How a diagnostic about tokens that belong to no statement begins. -/
def strayWords : String := "expected 'action' or 'marker', found "

/-- Whether the diagnostic reports a type id that is taken. -/
def isDuplicateTypeId (d : Diagnostic) : Bool := d.opensWith .semantic duplicateWords

/-- Whether the diagnostic reports that a statement is broken: it is about the grammar, and not
about tokens that belong to no statement. -/
def isFault (d : Diagnostic) : Bool :=
  d.kind = .grammatical && !d.opensWith .grammatical strayWords

/-- A fault is a matter of the grammar. -/
theorem not_isFault_of_kind (h : d.kind ≠ .grammatical) : d.isFault = false := by
  rw [isFault, decide_eq_false h, Bool.false_and]

end Diagnostic

/-! ### What findings say of statements -/

/-- A text begins as its first part does. -/
theorem begins_append {words text : String} (h : words.toList <+: text.toList) (more : String) :
    words.toList <+: (text ++ more).toList := by
  rw [String.toList_append]
  exact h.trans (List.prefix_append _ _)

/-- The message begins with words that neither go on with those about tokens outside of statements
nor are their beginning. -/
def BeginsOtherwise (message : String) : Prop :=
  ∃ first : String, first.toList <+: message.toList ∧
    ¬Diagnostic.strayWords.toList <+: first.toList ∧ ¬first.toList <+: Diagnostic.strayWords.toList

/-- What follows the beginning of a message does not matter. -/
theorem BeginsOtherwise.append {text : String} (h : BeginsOtherwise text) (more : String) :
    BeginsOtherwise (text ++ more) := by
  obtain ⟨first, hfirst, hother⟩ := h
  exact ⟨first, begins_append hfirst more, hother⟩

/-- What is asked for inside a statement is worded differently from the statement itself. -/
theorem Expectation.beginsOtherwise {what : Expectation} (h : what ≠ .statement) :
    BeginsOtherwise ("expected " ++ what.text) := by
  have hself (first : String) (hwords : ¬Diagnostic.strayWords.toList <+: first.toList)
      (hfirst : ¬first.toList <+: Diagnostic.strayWords.toList) : BeginsOtherwise first :=
    ⟨first, List.prefix_refl _, hwords, hfirst⟩
  cases what with
  | statement => exact absurd rfl h
  | openBrace owner =>
      change BeginsOtherwise ("expected " ++ ("'\x7b' after " ++ owner.text))
      rw [← String.append_assoc]
      exact (hself _ (by decide +kernel) (by decide +kernel)).append _
  | stringAfter k =>
      change BeginsOtherwise ("expected " ++ ("string after '" ++ k.word ++ "'"))
      rw [← String.append_assoc, ← String.append_assoc]
      exact ((hself _ (by decide +kernel) (by decide +kernel)).append _).append _
  | numberAfter k =>
      change BeginsOtherwise ("expected " ++ ("number after '" ++ k.word ++ "'"))
      rw [← String.append_assoc, ← String.append_assoc]
      exact ((hself _ (by decide +kernel) (by decide +kernel)).append _).append _
  | _ => exact hself _ (by decide +kernel) (by decide +kernel)

/-- So is every fault of a statement. -/
theorem Fault.beginsOtherwise {f : Fault} (h : f.cause ≠ .expected .statement) (found : Lexeme) :
    BeginsOtherwise (f.issue found).message := by
  obtain ⟨cause, rest⟩ := f
  cases cause with
  | expected what =>
      have hwhat : what ≠ .statement := fun heq => h (congrArg _ heq)
      exact ((what.beginsOtherwise hwhat).append _).append _
  | noMember owner =>
      have hissue : Fault.issue ⟨.noMember owner, rest⟩ found =
          if found = .endOfFile then .unclosedStatement owner else .unexpected found owner := rfl
      rw [hissue]
      split
      · exact ⟨"missing", begins_append (begins_append (by decide +kernel) _) _, by decide +kernel,
          by decide +kernel⟩
      · exact ⟨"unexpected",
          begins_append (begins_append (begins_append (by decide +kernel) _) _) _,
          by decide +kernel, by decide +kernel⟩

namespace Finding

variable {document : String}

@[simp] theorem kind_diagnostic (f : Finding) : (f.diagnostic document).kind = f.value.kind := rfl

/-- A finding that is no matter of the grammar is no fault. -/
theorem not_isFault_of_not_isGrammatical {f : Finding} (h : f.isGrammatical = false) :
    (f.diagnostic document).isFault = false :=
  Diagnostic.not_isFault_of_kind (of_decide_eq_false h)

/-- A finding about members is not about a type id. -/
theorem not_isDuplicateTypeId_of_isOfMember {f : Finding} (h : f.value.isOfMember = true) :
    (f.diagnostic document).isDuplicateTypeId = false := by
  obtain ⟨i, p⟩ := f
  cases i <;> cases h
  case duplicatePort port action line =>
    have hfirst : "duplicate port name '".toList <+:
        (Issue.duplicatePort port action line).message.toList :=
      begins_append (begins_append (begins_append (begins_append (begins_append
        (begins_append (List.prefix_refl _) _) _) _) _) _) _
    exact Diagnostic.not_opensWith_of_message hfirst (by decide +kernel) (by decide +kernel)
  case flowBounds port =>
    have hfirst : "flow port '".toList <+: (Issue.flowBounds port).message.toList :=
      begins_append (begins_append (List.prefix_refl _) _) _
    exact Diagnostic.not_opensWith_of_message hfirst (by decide +kernel) (by decide +kernel)
  case repeatedField k => exact Diagnostic.not_opensWith_of_kind fun hkind => by cases hkind

/-- A type id that is taken is reported as such. -/
theorem isDuplicateTypeId_duplicateTypeId (id : String) (line : Nat) (p : Position) :
    (diagnostic document ⟨.duplicateTypeId id line, p⟩).isDuplicateTypeId = true := by
  have hbegins : Diagnostic.duplicateWords.toList <+:
      (Issue.duplicateTypeId id line).message.toList :=
    begins_append (begins_append (begins_append (begins_append (List.prefix_refl _) _) _) _) _
  exact Diagnostic.opensWith_iff.mpr ⟨rfl, hbegins⟩

/-- What is reported of tokens that belong to no statement is no fault of a statement. -/
theorem not_isFault_stray (found : Lexeme) (p : Position) :
    (diagnostic document ⟨.expected .statement found, p⟩).isFault = false := by
  have hbegins : Diagnostic.strayWords.toList <+:
      (Issue.expected .statement found).message.toList :=
    begins_append (List.prefix_refl _) _
  have hopens : (diagnostic document ⟨.expected .statement found, p⟩).opensWith .grammatical
      Diagnostic.strayWords = true :=
    Diagnostic.opensWith_iff.mpr ⟨rfl, hbegins⟩
  rw [Diagnostic.isFault, hopens, Bool.not_true, Bool.and_false]

/-- A fault of a statement is reported as such. -/
theorem isFault_finding {f : Fault} (h : f.cause ≠ .expected .statement) (stop : Token) :
    ((f.finding stop).diagnostic document).isFault = true := by
  have hkind : (f.finding stop).value.kind = .grammatical :=
    of_decide_eq_true (f.finding_isGrammatical stop)
  obtain ⟨first, hbegins, hwords, hfirst⟩ := f.beginsOtherwise h (f.token stop).value
  have hopens : ((f.finding stop).diagnostic document).opensWith .grammatical
      Diagnostic.strayWords = false :=
    Diagnostic.not_opensWith_of_message hbegins hwords hfirst
  rw [Diagnostic.isFault, kind_diagnostic, hkind, hopens]
  rfl

end Finding

/-! ### Counting off -/

/-- The number of statements that are reported as lost. -/
def lostCount (document : String) (fs : List Finding) : Nat :=
  fs.countP (fun f => (f.diagnostic document).isDuplicateTypeId)
    + fs.countP fun f => (f.diagnostic document).isFault

/-- Lost statements are counted part by part. -/
theorem lostCount_append (document : String) (fs gs : List Finding) :
    lostCount document (fs ++ gs) = lostCount document fs + lostCount document gs := by
  simp only [lostCount, List.countP_append]
  omega

namespace Section

/-- Members are no reason to lose a statement. -/
theorem lostCount_outcome_findings (warn : Bool) (document : String) (s : Section) :
    lostCount document (s.outcome warn).findings = 0 := by
  have hduplicate : (s.outcome warn).findings.countP
      (fun f => (f.diagnostic document).isDuplicateTypeId) = 0 :=
    List.countP_eq_zero.mpr fun f hf => Bool.eq_false_iff.mp
      (Finding.not_isDuplicateTypeId_of_isOfMember (s.outcome_findings_isOfMember f hf))
  have hfault : (s.outcome warn).findings.countP (fun f => (f.diagnostic document).isFault) = 0 :=
    List.countP_eq_zero.mpr fun f hf => Bool.eq_false_iff.mp
      (Finding.not_isFault_of_not_isGrammatical (s.outcome_findings_not_grammatical f hf))
  rw [lostCount, hduplicate, hfault]

/-- **A section declares something or reports a fault**, and not both: after a whole statement it
reports at most tokens that belong to no statement. -/
theorem lostCount_outcome_fault (warn : Bool) (document : String) (s : Section) :
    lostCount document (s.outcome warn).fault.toList =
      if (s.outcome warn).declared.isSome then 0 else 1 := by
  have hduplicate (f : Finding) (hf : f.isGrammatical = true) :
      (f.diagnostic document).isDuplicateTypeId = false := by
    refine Diagnostic.not_opensWith_of_kind fun hkind => ?_
    cases hkind.symm.trans (of_decide_eq_true hf)
  rw [outcome, attempt_eq]
  cases hattempt : readStatement s.kind s.body with
  | complete st rest =>
      cases rest with
      | nil => rfl
      | cons t rest =>
          have hstray := hduplicate ⟨.expected .statement t.value, t.position⟩ rfl
          simp [strayFinding?, lostCount, hstray, Finding.not_isFault_stray]
  | broken st f =>
      have hfault := hduplicate _ (f.finding_isGrammatical s.stop)
      have hcause := cause_ne_of_readStatement hattempt
      simp [lostCount, hfault, Finding.isFault_finding hcause]

/-- There are as many sections as statement keywords. -/
theorem countP_beginsStatement (stop : Token) (ts : List Token) :
    ts.countP (fun t => t.value.beginsStatement) = (split stop ts).2.length := by
  induction ts with
  | nil => rfl
  | cons t ts ih =>
      rw [List.countP_cons, ih, split]
      cases hkind : kind? t.value with
      | none => rw [if_neg (by rw [Lexeme.beginsStatement_iff, hkind]; decide)]; rfl
      | some kind => rw [if_pos (by rw [Lexeme.beginsStatement_iff, hkind]; rfl)]; rfl

end Section

namespace Outline

/-- The number of statements that a document has kept or reported as lost. -/
def tally (document : String) (o : Outline) : Nat :=
  o.declarations.length + lostCount document o.findings

/-- **Each section adds one.** -/
theorem tally_add (warn : Bool) (document : String) (o : Outline) (s : Section) :
    (o.add (s.outcome warn)).tally document = o.tally document + 1 := by
  have hmembers := s.lostCount_outcome_findings warn document
  have hfault := s.lostCount_outcome_fault warn document
  have hduplicate (id : String) (line : Nat) (p : Position) :
      lostCount document [⟨.duplicateTypeId id line, p⟩] = 1 := by
    have hkind : (Finding.diagnostic document ⟨.duplicateTypeId id line, p⟩).isFault = false :=
      Finding.not_isFault_of_not_isGrammatical rfl
    simp [lostCount, Finding.isDuplicateTypeId_duplicateTypeId, hkind]
  unfold add
  split
  · next hdeclared =>
    rw [hdeclared, Option.isSome_none, if_neg Bool.false_ne_true] at hfault
    simp only [tally, lostCount_append, hmembers, hfault]
    omega
  · next d hdeclared =>
    rw [hdeclared, Option.isSome_some, if_pos rfl] at hfault
    split
    · simp only [tally, lostCount_append, hmembers, hfault, hduplicate]
      omega
    · simp only [tally, lostCount_append, hmembers, hfault, List.length_append,
        List.length_singleton]
      omega

/-- Sections that are read one after the other add as many as they are. -/
theorem tally_foldl_add (warn : Bool) (document : String) (ss : List Section) (o : Outline) :
    ((ss.map (Section.outcome warn)).foldl add o).tally document =
      o.tally document + ss.length := by
  induction ss generalizing o with
  | nil => rfl
  | cons s ss ih =>
      rw [List.map_cons, List.foldl_cons, ih, tally_add, List.length_cons]
      omega

/-- **What becomes of the statements of a document.** As many are kept or reported as lost as there
are statement keywords in front of the end of file. -/
theorem tally_ofTokens (warn : Bool) (document : String) (tokens : List Token) :
    (ofTokens warn tokens).tally document =
      (close tokens).1.countP fun t => t.value.beginsStatement := by
  have hlead (ts : List Token) : lostCount document (strayFinding? ts).toList = 0 := by
    cases ts with
    | nil => rfl
    | cons t ts =>
        have hduplicate : (Finding.diagnostic document
            ⟨.expected .statement t.value, t.position⟩).isDuplicateTypeId = false :=
          Diagnostic.not_opensWith_of_kind fun hkind => by cases hkind
        simp [strayFinding?, lostCount, hduplicate, Finding.not_isFault_stray]
  rw [ofTokens, tally_foldl_add, Section.countP_beginsStatement (close tokens).2, tally, hlead,
    List.length_nil]
  omega

end Outline

/-! ### What is kept -/

/-- The bounds of a port. Flow ports have none. -/
def Port.bounds : Port → Option Numeral × Option Numeral
  | data p => (p.min, p.max)
  | flow _ => (none, none)

namespace Outline

/-- No two ports of a declared action have the same name. -/
theorem nodup_portNames {warn : Bool} {tokens : List Token} {a : ActionDecl}
    (ha : .action a ∈ (ofTokens warn tokens).declarations) : (a.ports.map Port.name).Nodup := by
  obtain ⟨ts, ⟨st, p⟩, -, hmeaning, -⟩ := exists_spelled_of_mem ha
  cases st with
  | action typeId ms =>
      obtain rfl := Declaration.action.inj hmeaning
      exact nodup_map_firstOfEach _
  | marker name ms => cases hmeaning

/-- **Every statement is accounted for.** For each statement keyword in front of the end of file, a
declaration is kept, or a type id is reported as taken, or a statement is reported as broken. The
declarations that are kept have different type ids, whether they are actions or markers; each action
has a type id of at least one segment and ports of different names, and none of its flow ports has
bounds. -/
theorem ofTokens_accounts_for_statements (warn : Bool) (document : String) (tokens : List Token) :
    let outline := ofTokens warn tokens
    let diagnostics := outline.diagnostics document
    ((tokens.takeWhile fun t => t.value ≠ .endOfFile).countP fun t => t.value.beginsStatement) =
        outline.declarations.length + diagnostics.countP Diagnostic.isDuplicateTypeId
          + diagnostics.countP Diagnostic.isFault ∧
      (outline.declarations.map Declaration.id).Nodup ∧
      ∀ a, .action a ∈ outline.declarations →
        a.typeId.segments ≠ [] ∧ (a.ports.map Port.name).Nodup ∧
          ∀ p, .flow p ∈ a.ports → (Port.flow p).bounds = (none, none) := by
  intro outline diagnostics
  refine ⟨?_, ?_, fun a ha => ⟨segments_ne_nil ha, nodup_portNames ha, fun p _ => rfl⟩⟩
  · have hbody : (tokens.takeWhile fun t => t.value ≠ .endOfFile) = (close tokens).1 := by
      simp only [close, ne_eq, decide_not]
    have htally := tally_ofTokens warn document tokens
    rw [tally, lostCount, ← Nat.add_assoc] at htally
    have hdiagnostics : diagnostics = outline.findings.map (Finding.diagnostic document) := rfl
    rw [hbody, ← htally, hdiagnostics, List.countP_map, List.countP_map]
    rfl
  · have hdeclarations : outline.declarations = _ := declarations_ofTokens tokens
    rw [hdeclarations]
    exact nodup_map_firstOfEach _

end Outline

end Defsheet

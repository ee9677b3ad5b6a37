import Defsheet.Proofs.Compiling
import Defsheet.Proofs.RepeatedFields
import Defsheet.Proofs.SourceOrder
import Defsheet.Proofs.StatementOutcomes

/-!
# Warnings of fields that are set again

The warning is all that the option `warnOnRepeat` changes. Reading with it and taking its warnings
away is reading without it, section by section (`Outline.unrepeated_ofTokens`). Declarations are the
same, so what is found in them and what is generated from them is the same too.

## Main results

* `Outline.mem_repeats_iff`: a field is reported exactly where it is set again.
* `Outline.repeats_sublist`: once at each place, in the order of the text.
* `Document.compile_repeats`: the option adds these warnings to a compilation, and nothing else.
-/

namespace Defsheet

/-! ### Documents -/

/-- What a section contributes, without findings about repeats. -/
def SectionOutcome.unrepeated (s : SectionOutcome) : SectionOutcome :=
  ⟨s.declared, s.findings.filter fun f => !f.isRepeat, s.fault⟩

/-- Without its findings about repeats a section contributes what it does without the option. -/
theorem Section.unrepeated_outcome (warn : Bool) (s : Section) :
    (s.outcome warn).unrepeated = s.outcome false := by
  rw [outcome, outcome]
  cases s.attempt with
  | complete st rest =>
      obtain ⟨hdeclared, hfindings⟩ := st.filter_declare warn s.position.line
      simp only [SectionOutcome.unrepeated, hdeclared, hfindings]
  | broken st fault =>
      cases st with
      | none => rfl
      | some st =>
          obtain ⟨-, hfindings⟩ := st.filter_declare warn s.position.line
          simp only [SectionOutcome.unrepeated, Option.elim_some, hfindings]

/-- What is reported where the grammar is broken is no repeat. -/
theorem Section.isRepeat_fault {warn : Bool} (s : Section) :
    ∀ f ∈ (s.outcome warn).fault.toList, f.isRepeat = false := by
  intro f hf
  have hgrammatical := s.outcome_fault_isGrammatical f (Option.mem_toList.mp hf)
  rw [Finding.isGrammatical, decide_eq_true_iff] at hgrammatical
  exact Finding.isRepeat_of_kind_ne (by rw [hgrammatical]; exact fun h => by cases h)

namespace Outline

variable {warn : Bool} {body : List Token} {stop : Token}

/-- The outline without findings about repeats. -/
def unrepeated (o : Outline) : Outline := ⟨o.declarations, o.findings.filter fun f => !f.isRepeat⟩

/-- Leaving out repeats commutes with adding a section, because its fault is no repeat. -/
theorem unrepeated_add (o : Outline) (s : Section) :
    (o.add (s.outcome warn)).unrepeated = o.unrepeated.add (s.outcome warn).unrepeated := by
  have hfault : ((s.outcome warn).fault.toList.filter fun f => !f.isRepeat) =
      (s.outcome warn).fault.toList := filter_not_isRepeat s.isRepeat_fault
  have hduplicate (id : String) (line : Nat) (p : Position) :
      ([⟨.duplicateTypeId id line, p⟩].filter fun f => !Finding.isRepeat f) =
        [⟨.duplicateTypeId id line, p⟩] := rfl
  unfold add
  cases hdeclared : (s.outcome warn).declared with
  | none =>
      simp only [unrepeated, SectionOutcome.unrepeated, hdeclared, List.filter_append, hfault]
  | some d =>
      simp only [unrepeated, SectionOutcome.unrepeated, hdeclared]
      split <;> simp only [List.filter_append, hfault, hduplicate]

/-- **Reading with the option, and taking its findings away, is reading without it.** -/
theorem unrepeated_ofTokens (warn : Bool) (tokens : List Token) :
    (ofTokens warn tokens).unrepeated = ofTokens false tokens := by
  have hsections (ss : List Section) (o : Outline) :
      ((ss.map (Section.outcome warn)).foldl add o).unrepeated =
        (ss.map (Section.outcome false)).foldl add o.unrepeated := by
    induction ss generalizing o with
    | nil => rfl
    | cons s ss ih =>
        rw [List.map_cons, List.map_cons, List.foldl_cons, List.foldl_cons, ih, unrepeated_add,
          s.unrepeated_outcome]
  have hlead (ts : List Token) :
      unrepeated ⟨[], (strayFinding? ts).toList⟩ = ⟨[], (strayFinding? ts).toList⟩ := by
    cases ts <;> rfl
  rw [ofTokens, hsections, hlead]
  rfl

/-- The findings about repeats are those of the sections. -/
theorem repeats_ofTokens (hbody : ∀ t ∈ body, t.value ≠ .endOfFile)
    (hstop : stop.value = .endOfFile) :
    (ofTokens true (body ++ [stop])).findings.filter Finding.isRepeat =
      (Section.split stop body).2.flatMap Section.repeats := by
  have hadd (o : Outline) (s : Section) :
      (o.add (s.outcome true)).findings.filter Finding.isRepeat =
        o.findings.filter Finding.isRepeat ++ s.repeats := by
    have hfault := filter_isRepeat (@s.isRepeat_fault true)
    have hduplicate (id : String) (line : Nat) (p : Position) :
        [⟨.duplicateTypeId id line, p⟩].filter Finding.isRepeat = [] := rfl
    rw [← s.filter_findings_outcome]
    unfold add
    split
    · simp only [List.filter_append, hfault, List.append_nil]
    · split <;> simp only [List.filter_append, hfault, hduplicate, List.append_nil]
  have hsections (ss : List Section) (o : Outline) :
      ((ss.map (Section.outcome true)).foldl add o).findings.filter Finding.isRepeat =
        o.findings.filter Finding.isRepeat ++ ss.flatMap Section.repeats := by
    induction ss generalizing o with
    | nil => rw [List.flatMap_nil, List.append_nil]; rfl
    | cons s ss ih =>
        rw [List.map_cons, List.foldl_cons, ih, hadd, List.flatMap_cons, List.append_assoc]
  have hlead (ts : List Token) : (strayFinding? ts).toList.filter Finding.isRepeat = [] := by
    cases ts <;> rfl
  rw [ofTokens_append_stop hbody hstop, hsections, hlead, List.nil_append]

/-- **A field is reported exactly where it is set again.** -/
theorem mem_repeats_iff (hbody : ∀ t ∈ body, t.value ≠ .endOfFile)
    (hstop : stop.value = .endOfFile) (f : Finding) :
    f ∈ (ofTokens true (body ++ [stop])).findings.filter Finding.isRepeat ↔
      ∃ k p, RepeatsField (body ++ [stop]) k p ∧ f = ⟨.repeatedField k, p⟩ := by
  have hboundary {tail : List Token} (htail : AtStatement tail) : AtBoundary (tail ++ [stop]) := by
    cases tail with
    | nil => exact atBoundary_cons.mpr (by rw [hstop]; rfl)
    | cons t tail => exact atBoundary_cons.mpr (atBoundary_cons.mp htail.atBoundary)
  rw [repeats_ofTokens hbody hstop, List.mem_flatMap]
  constructor
  · rintro ⟨s, hs, hf⟩
    obtain ⟨before, tail, rfl, htail⟩ := Section.exists_of_mem_split hs
    obtain ⟨k, p, hrepeats, rfl⟩ := (s.mem_repeats_iff (hboundary htail) f).mp hf
    exact ⟨k, p, ⟨before, s.kind, s.position, _, by simp [Section.head], hrepeats⟩, rfl⟩
  · rintro ⟨k, p, ⟨before, kind, q, after, htokens, hrepeats⟩, rfl⟩
    -- The keyword is not the end of file, so it stands before it.
    obtain rfl | ⟨after, t, rfl⟩ := List.eq_nil_or_concat after
    · obtain ⟨-, hlast⟩ := List.append_inj' htokens rfl
      cases hlast
      cases hstop
    · rw [List.concat_eq_append, ← List.cons_append, ← List.append_assoc] at htokens
      obtain ⟨rfl, hlast⟩ := List.append_inj' htokens rfl
      cases hlast
      obtain ⟨s, hs, rfl, tail, rfl, htail⟩ := Section.exists_mem_split stop before kind q after
      refine ⟨s, hs, (s.mem_repeats_iff (hboundary htail) _).mpr ⟨k, p, ?_, rfl⟩⟩
      rwa [List.concat_eq_append, List.append_assoc] at hrepeats

/-- Repeats are reported in the order of the text, at most one at each token. -/
theorem repeats_sublist (hbody : ∀ t ∈ body, t.value ≠ .endOfFile)
    (hstop : stop.value = .endOfFile) :
    (((ofTokens true (body ++ [stop])).findings.filter Finding.isRepeat).map
      Located.position).Sublist ((body ++ [stop]).map Located.position) := by
  have hsections := (Section.positions_repeats_sublist (Section.split stop body).2).trans
    (List.sublist_append_right ((Section.split stop body).1.map Located.position) _)
  rw [← List.map_append, Section.split_append] at hsections
  rw [repeats_ofTokens hbody hstop, List.map_append]
  exact hsections.trans (List.sublist_append_left _ _)

end Outline

/-! ### Resolving finds no repeats -/

/-- The check of a default finds no repeats. -/
theorem isRepeat_checkDefault (type : PortType) (port : String) (value : Option Literal) :
    ∀ i ∈ (checkDefault type port value).2, i.isRepeat = false := by
  cases value with
  | none => exact List.forall_mem_nil _
  | some v =>
      rw [checkDefault]
      split
      · exact List.forall_mem_nil _
      · exact List.forall_mem_singleton.mpr rfl

/-- Nor does the check of a bound. -/
theorem isRepeat_checkBound (type : PortType) (port : String) (bound : Bound) (n : Option Numeral) :
    ∀ i ∈ (checkBound type port bound n).2, i.isRepeat = false := by
  cases n with
  | none => exact List.forall_mem_nil _
  | some n =>
      rw [checkBound]
      split
      · exact List.forall_mem_nil _
      · exact List.forall_mem_singleton.mpr rfl

/-- Nor does the check of a range. -/
theorem isRepeat_checkRange (port : String) (lo hi : Option Numeral) :
    ∀ i ∈ checkRange port lo hi, i.isRepeat = false := by
  fun_cases checkRange port lo hi with
  | case1 lo hi hlt => exact List.forall_mem_singleton.mpr rfl
  | case2 => exact List.forall_mem_nil _
  | case3 => exact List.forall_mem_nil _

/-- Nor does the check of both bounds. -/
theorem isRepeat_checkBounds (type : PortType) (port : String) (lo hi : Option Numeral) :
    ∀ i ∈ (checkBounds type port lo hi).2, i.isRepeat = false := by
  rw [checkBounds]
  split
  · simp only [List.forall_mem_append]
    exact ⟨⟨isRepeat_checkBound _ _ _ _, isRepeat_checkBound _ _ _ _⟩, isRepeat_checkRange _ _ _⟩
  · split
    · exact List.forall_mem_singleton.mpr rfl
    · exact List.forall_mem_nil _

/-- Nor does anything else about a port. -/
theorem PortDefinition.isRepeat_ofPort? (action : String) (port : Port) :
    ∀ i ∈ (ofPort? action port).2, i.isRepeat = false := by
  cases port with
  | data p =>
      rw [ofPort?, ofData?]
      split
      · exact List.forall_mem_singleton.mpr rfl
      · split
        · exact List.forall_mem_singleton.mpr rfl
        · exact List.forall_mem_append.mpr
            ⟨isRepeat_checkDefault _ _ _, isRepeat_checkBounds _ _ _ _⟩
  | flow p =>
      rw [ofPort?, ofFlow?]
      split
      · exact List.forall_mem_singleton.mpr rfl
      · exact List.forall_mem_nil _

/-- Nor does anything about the ports of an action. -/
theorem isRepeat_resolvePorts (action : String) (kept : List PortDefinition) (ports : List Port) :
    ∀ f ∈ (resolvePorts action kept ports).2, f.isRepeat = false := by
  induction ports generalizing kept with
  | nil => exact List.forall_mem_nil _
  | cons port ports ih =>
      have hfound : ∀ f ∈ (PortDefinition.ofPort? action port).2.map fun i =>
          (⟨i, .ofLine port.line⟩ : Finding), Finding.isRepeat f = false :=
        List.forall_mem_map.mpr (PortDefinition.isRepeat_ofPort? action port)
      simp only [resolvePorts]
      cases (PortDefinition.ofPort? action port).1 with
      | none => exact List.forall_mem_append.mpr ⟨hfound, ih _⟩
      | some p =>
          dsimp only
          cases constOwner? kept p.const with
          | none => exact List.forall_mem_append.mpr ⟨hfound, ih _⟩
          | some owner =>
              exact List.forall_mem_append.mpr ⟨hfound, List.forall_mem_cons.mpr ⟨rfl, ih _⟩⟩

/-- Nor does anything about a declaration. -/
theorem Definition.isRepeat_ofDeclaration? (d : Declaration) :
    ∀ f ∈ (ofDeclaration? d).2, f.isRepeat = false := by
  cases d with
  | action a =>
      simp only [ofDeclaration?, ActionDefinition.ofDecl?]
      split
      · exact List.forall_mem_singleton.mpr rfl
      · exact isRepeat_resolvePorts _ _ _
  | marker m =>
      simp only [ofDeclaration?, MarkerDefinition.ofDecl?]
      split
      · exact List.forall_mem_singleton.mpr rfl
      · exact List.forall_mem_nil _

/-- **What is found in declarations is no repeat.** -/
theorem Resolution.isRepeat_ofDeclarations (ds : List Declaration) :
    ∀ f ∈ (ofDeclarations ds).findings, f.isRepeat = false := by
  have hadd (r : Resolution) (d : Declaration) (hr : ∀ f ∈ r.findings, f.isRepeat = false) :
      ∀ f ∈ (r.add d).findings, f.isRepeat = false := by
    have hd := Definition.isRepeat_ofDeclaration? d
    simp only [add]
    cases (Definition.ofDeclaration? d).1 with
    | none => exact List.forall_mem_append.mpr ⟨hr, hd⟩
    | some x =>
        dsimp only
        cases x.clash? r.definitions with
        | none => exact List.forall_mem_append.mpr ⟨hr, hd⟩
        | some found =>
            exact List.forall_mem_append.mpr
              ⟨List.forall_mem_append.mpr ⟨hr, hd⟩, List.forall_mem_singleton.mpr rfl⟩
  have hfoldl (r : Resolution) (hr : ∀ f ∈ r.findings, f.isRepeat = false) :
      ∀ f ∈ (ds.foldl add r).findings, f.isRepeat = false := by
    induction ds generalizing r with
    | nil => exact hr
    | cons d ds ih => exact ih _ (hadd r d hr)
  exact hfoldl ⟨[], []⟩ (List.forall_mem_nil _)

/-! ### Compilations -/

/-- Of the diagnostics, it is the findings about repeats that are worded so. -/
theorem Finding.opensWith_repeated (document : String) (f : Finding) :
    (f.diagnostic document).opensWith .lint "repeated " = f.isRepeat := by
  obtain ⟨i, p⟩ := f
  have hother (h : i.kind ≠ .lint) :
      (Finding.diagnostic document ⟨i, p⟩).opensWith .lint "repeated " = false :=
    Diagnostic.not_opensWith_of_kind h
  cases i with
  | repeatedField k =>
      have hmessage : "repeated ".toList <+:
          ("repeated '" ++ k.word ++ "' overrides the earlier value").toList :=
        begins_append (begins_append (by decide +kernel) _) _
      exact Diagnostic.opensWith_iff.mpr ⟨rfl, hmessage⟩
  | emptyRange port lo hi =>
      have hmessage : "port '".toList <+:
          ("port '" ++ port ++ "' has min " ++ lo ++ " greater than max " ++ hi).toList :=
        begins_append (begins_append (begins_append (begins_append (begins_append
          (List.prefix_refl _) _) _) _) _) _
      exact Diagnostic.not_opensWith_of_message hmessage (by decide +kernel) (by decide +kernel)
  | _ => exact hother fun h => by cases h

namespace Document

/-- Whether the diagnostic warns of a field that is set again. -/
def warnsOfRepeat : Diagnostic → Bool := Diagnostic.opensWith .lint "repeated "

/-- The warnings among the diagnostics of findings are those of repeats. -/
theorem filter_warnsOfRepeat (document : String) (fs : List Finding) :
    (fs.map (Finding.diagnostic document)).filter warnsOfRepeat =
        (fs.filter Finding.isRepeat).map (Finding.diagnostic document) ∧
      ((fs.map (Finding.diagnostic document)).filter fun x => !warnsOfRepeat x) =
        (fs.filter fun f => !f.isRepeat).map (Finding.diagnostic document) := by
  have hwords : warnsOfRepeat ∘ Finding.diagnostic document = Finding.isRepeat :=
    funext (Finding.opensWith_repeated document)
  rw [List.filter_map, List.filter_map, hwords]
  refine ⟨rfl, congrArg (fun q => (fs.filter q).map (Finding.diagnostic document)) ?_⟩
  rw [← hwords]
  rfl

/-- Taking warnings away leaves the errors. -/
theorem any_isError_filter (ds : List Diagnostic) :
    (ds.filter fun x => !warnsOfRepeat x).any Diagnostic.isError = ds.any Diagnostic.isError := by
  have herror (x : Diagnostic) : (!warnsOfRepeat x && x.isError) = x.isError := by
    cases hwarns : warnsOfRepeat x with
    | false => rfl
    | true =>
        obtain ⟨hkind, -⟩ := Diagnostic.opensWith_iff.mp hwarns
        rw [Diagnostic.isError, Diagnostic.severity, hkind]
        rfl
  rw [List.any_filter]
  simp only [herror]

/-- What is found in a document that is read with the option: what is found without it, and the
repeats. -/
theorem filter_diagnostics_resolve (d : Document) (o : Options) :
    let noisy := d.resolve { o with warnOnRepeat := true }
    let quiet := d.resolve { o with warnOnRepeat := false }
    noisy.definitions = quiet.definitions ∧
      (noisy.diagnostics.filter fun x => !warnsOfRepeat x) = quiet.diagnostics ∧
      noisy.diagnostics.filter warnsOfRepeat =
        ((Outline.ofTokens true (Scan.ofText d.text).tokens).findings.filter Finding.isRepeat).map
          (Finding.diagnostic d.name) := by
  intro noisy quiet
  obtain ⟨hdeclarations, hfindings⟩ :=
    Outline.mk.inj (Outline.unrepeated_ofTokens true (Scan.ofText d.text).tokens)
  have hscan : ∀ f ∈ (Scan.ofText d.text).findings, f.isRepeat = false := by
    intro f hf
    exact Finding.isRepeat_of_kind_ne (by rw [Scan.kind_eq_lexical hf]; exact fun h => by cases h)
  have hresolution := Resolution.isRepeat_ofDeclarations
    (Outline.ofTokens true (Scan.ofText d.text).tokens).declarations
  refine ⟨?_, ?_, ?_⟩
  · exact congrArg (fun ds => (Resolution.ofDeclarations ds).definitions) hdeclarations
  · refine (filter_warnsOfRepeat d.name _).2.trans ?_
    rw [List.filter_append, List.filter_append, filter_not_isRepeat hscan, hfindings,
      filter_not_isRepeat hresolution, hdeclarations]
    rfl
  · refine (filter_warnsOfRepeat d.name _).1.trans ?_
    rw [List.filter_append, List.filter_append, filter_isRepeat hscan, filter_isRepeat hresolution,
      List.nil_append, List.append_nil]

/-- The warnings of a document that is read: one for each field that is set again, in the order of
the text. -/
theorem repeats_resolve (d : Document) (o : Options) :
    let repeats := (d.resolve { o with warnOnRepeat := true }).diagnostics.filter warnsOfRepeat
    (repeats.Pairwise fun x y => x.position.Before y.position) ∧
      ∀ x, x ∈ repeats ↔ ∃ k p, RepeatsField (Scan.ofText d.text).tokens k p ∧
        x = ⟨d.name, p, .lint, "repeated '" ++ k.word ++ "' overrides the earlier value"⟩ := by
  intro repeats
  have hrepeats : repeats = _ := (filter_diagnostics_resolve d o).2.2
  have hbody : ∀ t ∈ Scan.bodyOf d.text, t.value ≠ .endOfFile :=
    fun t => Scan.ne_endOfFile_of_mem_bodyOf
  have hplaces := @Outline.repeats_sublist _ ⟨.endOfFile, Position.start.advance d.text.toList⟩
    hbody rfl
  have hmem := @Outline.mem_repeats_iff _ ⟨.endOfFile, Position.start.advance d.text.toList⟩
    hbody rfl
  rw [← Scan.tokens_ofText] at hplaces hmem
  rw [hrepeats]
  constructor
  · rw [List.pairwise_map]
    exact List.pairwise_map.mp ((Scan.tokens_inOrder d.text).sublist hplaces)
  · intro x
    rw [List.mem_map]
    constructor
    · rintro ⟨f, hf, rfl⟩
      obtain ⟨k, p, hset, rfl⟩ := (hmem f).mp hf
      exact ⟨k, p, hset, rfl⟩
    · rintro ⟨k, p, hset, rfl⟩
      exact ⟨⟨.repeatedField k, p⟩, (hmem _).mpr ⟨k, p, hset, rfl⟩, rfl⟩

/-- **The option adds warnings to a compilation, and nothing else.** Whatever the document and the
other options are, the generated files, the manifest and whether there are errors do not depend on
it, and the diagnostics differ by the warnings of fields that are set again. Of a document that has
a module there is one for each member that sets a field which an earlier member of its statement has
set, even if the statement is broken later or dropped; they come in the order of the text, each at
the keyword of the member. A document without a module is not read. -/
theorem compile_repeats (d : Document) (o : Options) :
    let noisy := d.compile { o with warnOnRepeat := true }
    let quiet := d.compile { o with warnOnRepeat := false }
    let repeats := noisy.diagnostics.filter warnsOfRepeat
    noisy.artifacts = quiet.artifacts ∧ noisy.manifest = quiet.manifest ∧
      noisy.hasErrors = quiet.hasErrors ∧
      (noisy.diagnostics.filter fun x => !warnsOfRepeat x) = quiet.diagnostics ∧
      (repeats.Pairwise fun x y => x.position.Before y.position) ∧
      ∀ x, x ∈ repeats ↔ moduleName d.name ≠ "" ∧
        ∃ k p, RepeatsField (Scan.ofText d.text).tokens k p ∧
          x = ⟨d.name, p, .lint, "repeated '" ++ k.word ++ "' overrides the earlier value"⟩ := by
  intro noisy quiet repeats
  by_cases hmodule : moduleName d.name = ""
  · have hnoisy : noisy = _ := compile_eq_of_empty hmodule
    have hsame : noisy = quiet := hnoisy.trans (compile_eq_of_empty hmodule).symm
    have hwarns : ∀ x ∈ noisy.diagnostics, warnsOfRepeat x = false := by
      rw [hnoisy]
      refine List.forall_mem_singleton.mpr (Diagnostic.not_opensWith_of_kind fun h => ?_)
      cases h
    have hnone : repeats = [] := List.filter_eq_nil_iff.mpr fun x hx => by simp [hwarns x hx]
    rw [← hsame, hnone]
    refine ⟨rfl, rfl, rfl, List.filter_eq_self.mpr fun x hx => by simp [hwarns x hx], .nil, ?_⟩
    intro x
    constructor
    · intro hx
      cases hx
    · rintro ⟨hne, -⟩
      exact absurd hmodule hne
  · obtain ⟨hdefinitions, hfiltered, -⟩ := filter_diagnostics_resolve d o
    obtain ⟨horder, hmem⟩ := repeats_resolve d o
    have hnoisy : noisy = _ := compile_eq rfl hmodule hdefinitions
    have hquiet : quiet = _ := compile_eq rfl hmodule rfl
    have hdiagnostics :
        (noisy.diagnostics.filter fun x => !warnsOfRepeat x) = quiet.diagnostics := by
      rw [hnoisy, hquiet]
      exact hfiltered
    have hrepeats : repeats =
        (d.resolve { o with warnOnRepeat := true }).diagnostics.filter warnsOfRepeat :=
      congrArg (fun r => r.diagnostics.filter warnsOfRepeat) hnoisy
    refine ⟨?_, ?_, ?_, hdiagnostics, hrepeats ▸ horder, fun x => ?_⟩
    · rw [hnoisy, hquiet]
      rfl
    · rw [hnoisy, hquiet]
      rfl
    · rw [Compilation.hasErrors, Compilation.hasErrors, ← hdiagnostics, any_isError_filter]
    · rw [hrepeats, hmem]
      exact (and_iff_right hmodule).symm

/-- A document whose name has no letter or digit, with a label that is set again. -/
def namelessSheet : Document := ⟨"-", "marker A \x7b label \"a\" label \"b\" \x7d"⟩

/-- In a document without a module fields that are set again are not reported. -/
theorem namelessSheet_not_warned :
    RepeatsField (Scan.ofText namelessSheet.text).tokens .label ⟨1, 22⟩ ∧
      (namelessSheet.compile { warnOnRepeat := true }).diagnostics.filter warnsOfRepeat = [] := by
  constructor
  · have htokens : (Scan.ofText namelessSheet.text).tokens =
        [⟨.keyword .marker, ⟨1, 1⟩⟩, ⟨.ident "A", ⟨1, 8⟩⟩, ⟨.openBrace, ⟨1, 10⟩⟩,
          ⟨.keyword .label, ⟨1, 12⟩⟩, ⟨.string "a", ⟨1, 18⟩⟩, ⟨.keyword .label, ⟨1, 22⟩⟩,
          ⟨.string "b", ⟨1, 28⟩⟩, ⟨.closeBrace, ⟨1, 32⟩⟩, ⟨.endOfFile, ⟨1, 33⟩⟩] := by
      decide +kernel
    have hfirst := @Spells.cons _ MarkerMember.lexemes ⟨.keyword .label, ⟨1, 12⟩⟩
      [⟨.string "a", ⟨1, 18⟩⟩] [] (.label "a") [] rfl .nil
    rw [htokens]
    refine ⟨[], .marker, ⟨1, 1⟩, _, rfl, .marker ?_⟩
    exact ⟨_, _, [⟨.string "b", ⟨1, 28⟩⟩], .label "b",
      [⟨.closeBrace, ⟨1, 32⟩⟩, ⟨.endOfFile, ⟨1, 33⟩⟩], rfl, hfirst, rfl, rfl,
      ⟨_, List.mem_singleton.mpr rfl, rfl⟩, List.forall_mem_nil _⟩
  · have hmodule : moduleName namelessSheet.name = "" := by decide +kernel
    rw [compile_eq_of_empty hmodule]
    refine List.filter_eq_nil_iff.mpr (List.forall_mem_singleton.mpr ?_)
    rw [warnsOfRepeat, Diagnostic.not_opensWith_of_kind fun h => by cases h]
    exact Bool.false_ne_true

end Document

end Defsheet

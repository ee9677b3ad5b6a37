import Defsheet.Proofs.Boundaries

/-!
# Recovering from a broken statement

A statement that is broken costs no more than itself: reading goes on at the next statement keyword.
Documents are cut at these keywords before anything is read, so a section cannot do harm to the next
one. This module says that the cut changes nothing. A reader that is given all the tokens of a
document stops where the statement ends (`readStatement_append`). So reading from left to right, and
skipping after a fault to the next statement keyword, finds the same (`Outline.Reads`).

As a consequence, what a document declares can be put together from its parts.

## Main results

* `Outline.reads_ofTokens`, `Outline.Reads.unique`: a document is read from left to right.
* `Outline.ofTokens_append`: a document that goes on with a statement is read part by part.
-/

namespace Defsheet

/-! ### Reading from left to right -/

/-- Skips to the next token that begins a statement. -/
def skipToStatement (ts : List Token) : List Token :=
  ts.dropWhile fun t => (Section.kind? t.value).isNone

/-- Tokens that begin no statement are skipped. -/
theorem skipToStatement_append {ts tail : List Token}
    (hts : ∀ t ∈ ts, Section.kind? t.value = none) (htail : AtStatement tail) :
    skipToStatement (ts ++ tail) = tail := by
  rw [skipToStatement, List.dropWhile_append_of_pos fun t ht => by rw [hts t ht]; rfl]
  cases tail with
  | nil => rfl
  | cons t tail =>
      obtain ⟨kind, hkind⟩ := Option.isSome_iff_exists.mp (atStatement_cons.mp htail)
      rw [List.dropWhile_cons_of_neg]
      rw [hkind]
      exact Bool.false_ne_true

namespace Outline

variable {warn : Bool} {stop : Token}

/-- Reading on from an outline, from left to right, with the end of file `stop` behind the tokens.
A token that begins no statement is reported, and so is the fault of a statement that is broken;
either way reading goes on at the next statement keyword. -/
inductive Reads (warn : Bool) (stop : Token) : Outline → List Token → Outline → Prop
  | done {o : Outline} : Reads warn stop o [] o
  | stray {o o' : Outline} {t : Token} {ts : List Token} :
      Section.kind? t.value = none →
      Reads warn stop ⟨o.declarations, o.findings ++ [⟨.expected .statement t.value, t.position⟩]⟩
        (skipToStatement ts) o' →
      Reads warn stop o (t :: ts) o'
  | complete {o o' : Outline} {t : Token} {ts rest : List Token} {kind : StatementKind}
      {st : Statement} :
      Section.kind? t.value = some kind → readStatement kind ts = .complete st rest →
      Reads warn stop (o.add ⟨some (st.declare warn t.line).1, (st.declare warn t.line).2, none⟩)
        rest o' →
      Reads warn stop o (t :: ts) o'
  | broken {o o' : Outline} {t : Token} {ts : List Token} {kind : StatementKind}
      {st : Option Statement} {fault : Fault} :
      Section.kind? t.value = some kind → readStatement kind ts = .broken st fault →
      Reads warn stop
        (o.add ⟨none, st.elim [] fun st => (st.declare warn t.line).2, some (fault.finding stop)⟩)
        (skipToStatement fault.rest) o' →
      Reads warn stop o (t :: ts) o'

/-- There is only one way to read on. -/
theorem Reads.unique {o o₁ o₂ : Outline} {ts : List Token} (h₁ : Reads warn stop o ts o₁)
    (h₂ : Reads warn stop o ts o₂) : o₁ = o₂ := by
  induction h₁ with
  | done =>
      cases h₂
      rfl
  | stray hkind _ ih =>
      cases h₂ with
      | stray _ hrest => exact ih hrest
      | complete hkind' _ _ => rw [hkind] at hkind'; cases hkind'
      | broken hkind' _ _ => rw [hkind] at hkind'; cases hkind'
  | complete hkind hread _ ih =>
      cases h₂ with
      | stray hkind' _ => rw [hkind] at hkind'; cases hkind'
      | complete hkind' hread' hrest =>
          obtain rfl := Option.some.inj (hkind.symm.trans hkind')
          cases hread.symm.trans hread'
          exact ih hrest
      | broken hkind' hread' _ =>
          obtain rfl := Option.some.inj (hkind.symm.trans hkind')
          cases hread.symm.trans hread'
  | broken hkind hread _ ih =>
      cases h₂ with
      | stray hkind' _ => rw [hkind] at hkind'; cases hkind'
      | complete hkind' hread' _ =>
          obtain rfl := Option.some.inj (hkind.symm.trans hkind')
          cases hread.symm.trans hread'
      | broken hkind' hread' hrest =>
          obtain rfl := Option.some.inj (hkind.symm.trans hkind')
          cases hread.symm.trans hread'
          exact ih hrest

/-- What stands in front of the next statement is reported once and skipped. -/
theorem Reads.strays {o o' : Outline} {ts tail : List Token}
    (hts : ∀ t ∈ ts, Section.kind? t.value = none) (htail : AtStatement tail)
    (h : Reads warn stop ⟨o.declarations, o.findings ++ (strayFinding? ts).toList⟩ tail o') :
    Reads warn stop o (ts ++ tail) o' := by
  cases ts with
  | nil => rwa [strayFinding?, Option.toList_none, List.append_nil] at h
  | cons t ts =>
      rw [List.forall_mem_cons] at hts
      rw [List.cons_append]
      refine .stray hts.1 ?_
      rw [skipToStatement_append hts.2 htail]
      exact h

/-- A fault that comes after a statement may be reported later. -/
theorem add_fault (o : Outline) (declared : Option Declaration) (findings : List Finding)
    (fault : Option Finding) :
    o.add ⟨declared, findings, fault⟩ =
      ⟨(o.add ⟨declared, findings, none⟩).declarations,
        (o.add ⟨declared, findings, none⟩).findings ++ fault.toList⟩ := by
  cases declared with
  | none => simp [add]
  | some d =>
      simp only [add]
      split <;> simp

end Outline

namespace Section

/-- The tokens of sections are at a statement. -/
theorem atStatement_tokens (ss : List Section) :
    AtStatement (ss.flatMap fun s => s.head :: s.body) := by
  cases ss with
  | nil => exact atStatement_nil
  | cons s ss =>
      rw [List.flatMap_cons, List.cons_append, atStatement_cons, head]
      cases s.kind <;> rfl

/-- The first token of sections is the keyword of the first one. -/
theorem head?_tokens (ss : List Section) :
    (ss.flatMap fun s => s.head :: s.body).head? = ss.head?.map head := by
  cases ss <;> rfl

/-- Sections follow each other: each stops at the next one, the last one at the end. -/
def Linked (stop : Token) : List Section → Prop
  | [] => True
  | s :: ss =>
    (∀ t ∈ s.body, kind? t.value = none) ∧ s.stop = (ss.head?.map head).getD stop ∧ Linked stop ss

/-- Cutting gives tokens without a statement keyword, and then sections that follow each other. -/
theorem linked_split (stop : Token) (ts : List Token) :
    (∀ t ∈ (split stop ts).1, kind? t.value = none) ∧ Linked stop (split stop ts).2 := by
  induction ts with
  | nil => exact ⟨List.forall_mem_nil _, trivial⟩
  | cons t ts ih =>
      rw [split]
      cases hkind : kind? t.value with
      | none => exact ⟨List.forall_mem_cons.mpr ⟨hkind, ih.1⟩, ih.2⟩
      | some kind => exact ⟨List.forall_mem_nil _, ih.1, rfl, ih.2⟩

end Section

namespace Outline

variable {warn : Bool} {stop : Token}

/-- Sections are read one after the other. -/
theorem reads_sections {ss : List Section} (hss : Section.Linked stop ss) (o : Outline) :
    Reads warn stop o (ss.flatMap fun s => s.head :: s.body)
      ((ss.map (Section.outcome warn)).foldl add o) := by
  induction ss generalizing o with
  | nil => exact .done
  | cons s ss ih =>
      obtain ⟨hbody, hstop, hlinked⟩ := hss
      have htail := Section.atStatement_tokens ss
      have hkind : Section.kind? s.head.value = some s.kind := by
        rw [Section.head]
        cases s.kind <;> rfl
      have hread := readStatement_append s.kind s.body htail.atBoundary
      have hleft : ∀ t ∈ (readStatement s.kind s.body).left, Section.kind? t.value = none :=
        fun t ht => hbody t ((left_readStatement s.kind s.body).subset ht)
      rw [List.flatMap_cons, List.cons_append, List.map_cons, List.foldl_cons, Section.outcome,
        Section.attempt_eq]
      cases hattempt : readStatement s.kind s.body with
      | complete st rest =>
          rw [hattempt] at hread hleft
          refine .complete hkind hread (.strays hleft htail ?_)
          rw [← add_fault]
          exact ih hlinked _
      | broken st fault =>
          rw [hattempt] at hread hleft
          have hskip := skipToStatement_append hleft htail
          refine .broken hkind hread ?_
          rw [Fault.finding_before, Section.head?_tokens, ← hstop]
          exact hskip.symm ▸ ih hlinked _

/-- **A document is read from left to right**, going on after a fault at the next statement
keyword. -/
theorem reads_ofTokens {body : List Token} (hbody : ∀ t ∈ body, t.value ≠ .endOfFile)
    (hstop : stop.value = .endOfFile) :
    Reads warn stop ⟨[], []⟩ body (ofTokens warn (body ++ [stop])) := by
  obtain ⟨hlead, hlinked⟩ := Section.linked_split stop body
  have hreads := Reads.strays (o := ⟨[], []⟩) hlead (Section.atStatement_tokens _)
    (@reads_sections warn _ _ hlinked _)
  rw [Section.split_append] at hreads
  rw [ofTokens_append_stop hbody hstop]
  exact hreads

end Outline

/-! ### Documents in parts -/

namespace Section

variable {warn : Bool}

/-- The section without the token after it, which only the wording of a fault depends on. -/
def unstopped (s : Section) : StatementKind × Position × List Token := (s.kind, s.position, s.body)

/-- What is read of a section does not depend on the token after it. -/
theorem attempt_of_unstopped {s s' : Section} (h : s.unstopped = s'.unstopped) :
    s.attempt = s'.attempt ∧ s.position = s'.position := by
  simp only [unstopped, Prod.mk.injEq] at h
  rw [attempt_eq, attempt_eq, h.1, h.2.2]
  exact ⟨rfl, h.2.1⟩

/-- What a section declares, and whether it is broken, does not depend on what follows it. -/
theorem outcome_of_unstopped {s s' : Section} (h : s.unstopped = s'.unstopped) :
    (s.outcome warn).declared = (s'.outcome warn).declared ∧
      (s.outcome warn).fault.isSome = (s'.outcome warn).fault.isSome := by
  obtain ⟨hattempt, hposition⟩ := attempt_of_unstopped h
  rw [outcome, outcome, hattempt, hposition]
  cases s'.attempt <;> exact ⟨rfl, rfl⟩

/-- Cutting depends on the end of file only in the token after the last section. -/
theorem split_stop (stop stop' : Token) (ts : List Token) :
    (split stop ts).1 = (split stop' ts).1 ∧
      (split stop ts).2.map unstopped = (split stop' ts).2.map unstopped := by
  induction ts with
  | nil => exact ⟨rfl, rfl⟩
  | cons t ts ih =>
      rw [split, split]
      cases kind? t.value with
      | none => exact ⟨congrArg (t :: ·) ih.1, ih.2⟩
      | some kind =>
          refine ⟨rfl, ?_⟩
          simp only [List.map_cons, ih.2, unstopped, ih.1]

/-- Tokens that are at a statement have nothing in front of their first section. -/
theorem split_of_atStatement {ts : List Token} (h : AtStatement ts) (stop : Token) :
    (split stop ts).1 = [] := by
  cases ts with
  | nil => rfl
  | cons t ts =>
      obtain ⟨kind, hkind⟩ := Option.isSome_iff_exists.mp (atStatement_cons.mp h)
      simp only [split, hkind]

/-- **A document that goes on with a statement is cut there**: what is behind adds sections and
changes none. -/
theorem split_append_atStatement {ys : List Token} (hys : AtStatement ys) (stop : Token)
    (xs : List Token) :
    (split stop (xs ++ ys)).1 = (split stop xs).1 ∧
      (split stop (xs ++ ys)).2.map unstopped =
        (split stop xs).2.map unstopped ++ (split stop ys).2.map unstopped := by
  induction xs with
  | nil => exact ⟨split_of_atStatement hys stop, rfl⟩
  | cons t xs ih =>
      rw [List.cons_append, split, split]
      cases kind? t.value with
      | none => exact ⟨congrArg (t :: ·) ih.1, ih.2⟩
      | some kind =>
          refine ⟨rfl, ?_⟩
          simp only [List.map_cons, List.cons_append, ih.2, unstopped, ih.1]

/-- Sections that agree up to the tokens after them declare the same, and as many are broken. -/
theorem declared_of_unstopped {ss ss' : List Section}
    (h : ss.map unstopped = ss'.map unstopped) :
    (ss.filterMap fun s => (s.outcome warn).declared) =
        (ss'.filterMap fun s => (s.outcome warn).declared) ∧
      (ss.flatMap fun s => (s.outcome warn).fault.toList).length =
        (ss'.flatMap fun s => (s.outcome warn).fault.toList).length := by
  induction ss generalizing ss' with
  | nil =>
      obtain rfl : ss' = [] := by simpa using h.symm
      exact ⟨rfl, rfl⟩
  | cons s ss ih =>
      cases ss' with
      | nil => cases h
      | cons s' ss' =>
          rw [List.map_cons, List.map_cons, List.cons.injEq] at h
          obtain ⟨hdeclared, hfault⟩ := @outcome_of_unstopped warn _ _ h.1
          obtain ⟨ihdeclared, ihfault⟩ := ih h.2
          have hlength : (s.outcome warn).fault.toList.length =
              (s'.outcome warn).fault.toList.length := by
            rw [Option.length_toList, Option.length_toList, hfault]
          rw [List.filterMap_cons, List.filterMap_cons, hdeclared, ihdeclared, List.flatMap_cons,
            List.flatMap_cons, List.length_append, List.length_append, hlength, ihfault]
          exact ⟨rfl, rfl⟩

end Section

namespace Outline

variable {warn : Bool}

/-- The number of grammatical diagnostics of a document. -/
def grammaticalCount (o : Outline) (document : String) : Nat :=
  (o.diagnostics document).countP fun d => d.kind = .grammatical

/-- Every grammatical finding is one grammatical diagnostic. -/
theorem grammaticalCount_eq (o : Outline) (document : String) :
    o.grammaticalCount document = (o.findings.filter Finding.isGrammatical).length := by
  rw [grammaticalCount, diagnostics, List.countP_map, List.countP_eq_length_filter]
  rfl

/-- **A broken statement costs no more than itself.** Let a document go on with a statement, after
tokens that may break off anywhere. It declares what the first part declares, followed by what the
second part declares under type ids that the first part leaves free, and it has as many grammatical
diagnostics as the two parts together. -/
theorem ofTokens_append (warn : Bool) (document : String) (xs ys : List Token)
    (p q r : Position) (hxs : ∀ t ∈ xs, t.value ≠ .endOfFile)
    (hys : ∀ t ∈ ys, t.value ≠ .endOfFile)
    (hbegins : ∃ t ∈ ys.head?, t.value = .keyword .action ∨ t.value = .keyword .marker) :
    let first := ofTokens warn (xs ++ [⟨.endOfFile, p⟩])
    let second := ofTokens warn (ys ++ [⟨.endOfFile, q⟩])
    let whole := ofTokens warn (xs ++ ys ++ [⟨.endOfFile, r⟩])
    whole.declarations =
        first.declarations ++
          (second.declarations.filter fun d => d.id ∉ first.declarations.map Declaration.id) ∧
      whole.grammaticalCount document =
        first.grammaticalCount document + second.grammaticalCount document := by
  intro first second whole
  have hat : AtStatement ys := by
    obtain ⟨t, ht, hkeyword⟩ := hbegins
    intro t' ht'
    obtain rfl := Option.mem_unique ht ht'
    obtain h | h := hkeyword <;> rw [h] <;> rfl
  have hwhole : ∀ t ∈ xs ++ ys, t.value ≠ .endOfFile := List.forall_mem_append.mpr ⟨hxs, hys⟩
  obtain ⟨hlead, hsections⟩ := Section.split_append_atStatement hat ⟨.endOfFile, r⟩ xs
  obtain ⟨hleadx, hsectionsx⟩ := Section.split_stop ⟨.endOfFile, r⟩ ⟨.endOfFile, p⟩ xs
  obtain ⟨-, hsectionsy⟩ := Section.split_stop ⟨.endOfFile, r⟩ ⟨.endOfFile, q⟩ ys
  rw [hsectionsx, hsectionsy, ← List.map_append] at hsections
  obtain ⟨hdeclared, hfaults⟩ := @Section.declared_of_unstopped warn _ _ hsections
  constructor
  · rw [declarations_ofTokens, declarations_ofTokens, declarations_ofTokens,
      close_append_stop hwhole rfl, close_append_stop hxs rfl, close_append_stop hys rfl,
      hdeclared, List.filterMap_append, firstOfEach_append]
  · have hleady := Section.split_of_atStatement hat ⟨.endOfFile, q⟩
    rw [grammaticalCount_eq, grammaticalCount_eq, grammaticalCount_eq,
      grammatical_findings hwhole rfl, grammatical_findings hxs rfl, grammatical_findings hys rfl,
      hlead, hleadx, hleady, List.length_append, hfaults, List.flatMap_append]
    simp only [List.length_append, strayFinding?, Option.toList_none, List.length_nil]
    omega

/-- An action breaks off inside a port; the statements behind it are read, and one of them repeats a
type id. -/
theorem ofTokens_append_of_broken :
    let xs : List Token :=
      [⟨.keyword .marker, ⟨1, 1⟩⟩, ⟨.ident "A", ⟨1, 8⟩⟩, ⟨.openBrace, ⟨1, 10⟩⟩,
        ⟨.closeBrace, ⟨1, 11⟩⟩, ⟨.keyword .action, ⟨2, 1⟩⟩, ⟨.ident "B", ⟨2, 8⟩⟩,
        ⟨.openBrace, ⟨2, 10⟩⟩, ⟨.keyword .port, ⟨2, 12⟩⟩]
    let ys : List Token :=
      [⟨.keyword .action, ⟨3, 1⟩⟩, ⟨.ident "A", ⟨3, 8⟩⟩, ⟨.openBrace, ⟨3, 10⟩⟩,
        ⟨.closeBrace, ⟨3, 11⟩⟩, ⟨.keyword .marker, ⟨4, 1⟩⟩, ⟨.ident "B", ⟨4, 8⟩⟩,
        ⟨.openBrace, ⟨4, 10⟩⟩, ⟨.closeBrace, ⟨4, 11⟩⟩]
    let whole := ofTokens true (xs ++ ys ++ [⟨.endOfFile, ⟨5, 1⟩⟩])
    whole.declarations = [.marker ⟨"A", none, none, 1⟩, .marker ⟨"B", none, none, 4⟩] ∧
      whole.grammaticalCount "level" = 1 := by
  intro xs ys whole
  obtain ⟨hdeclared, hcount⟩ := ofTokens_append true "level" xs ys ⟨3, 1⟩ ⟨5, 1⟩ ⟨5, 1⟩ (by decide)
    (by decide) ⟨_, rfl, .inl rfl⟩
  exact ⟨hdeclared.trans (by decide +kernel), hcount.trans (by decide +kernel)⟩

end Outline

end Defsheet

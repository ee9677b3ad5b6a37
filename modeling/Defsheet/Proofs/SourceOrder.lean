import Defsheet.Proofs.Recovery
import Defsheet.Proofs.Scanning
import Mathlib.Data.List.Basic

/-!
# Diagnostics in the order of the text

Pieces of a text are never empty, so each begins after the one in front of it, and so do the tokens
and the lexical findings that are read off them.

A fault of the grammar is reported at a token that has not been read, and this may be the keyword of
the next statement. Still no place is reported twice, because the next statement is read from behind
its keyword: the places of faults are some of the places of tokens, in their order
(`Section.faults_sublist`).

## Main results

* `Scan.tokens_inOrder`, `Scan.findings_inOrder`: what is read off a text comes in its order.
* `Outline.grammatical_sublist`: grammatical findings are at tokens, each at a later one.
* `Outline.diagnostics_inOrder`: grammatical and lexical diagnostics come in the order of the text.
-/

namespace Defsheet

/-! ### The order of places -/

/-- The place comes before the other: on an earlier line, or on the same line in an earlier
column. -/
def Position.Before (p q : Position) : Prop := p.line < q.line ∨ p.line = q.line ∧ p.col < q.col

namespace Position

variable {p q r : Position}

theorem Before.trans (h : p.Before q) (h' : q.Before r) : p.Before r := by
  simp only [Before] at *
  omega

/-- One more character leads to a later place. -/
theorem before_next (p : Position) (c : Char) : p.Before (p.next c) := by
  rw [next]
  split
  · exact .inl (Nat.lt_succ_self _)
  · exact .inr ⟨rfl, Nat.lt_succ_self _⟩

/-- A stretch of text leads to a later place. -/
theorem before_advance (p : Position) {cs : List Char} (h : cs ≠ []) : p.Before (p.advance cs) := by
  induction cs generalizing p with
  | nil => exact absurd rfl h
  | cons c cs ih =>
      rw [advance_cons]
      cases cs with
      | nil => exact p.before_next c
      | cons d cs => exact (p.before_next c).trans (ih _ (List.cons_ne_nil _ _))

end Position

/-- Located things stand one after the other. -/
def InSequence {α : Type} (xs : List (Located α)) : Prop :=
  (xs.map Located.position).Pairwise Position.Before

/-! ### Pieces, tokens and lexical findings -/

/-- A piece of a text is never empty. -/
theorem text_ne_nil_of_mem_pieces {cs : List Char} {x : Piece} (hx : x ∈ pieces cs) :
    x.text ≠ [] := by
  fun_induction pieces cs with
  | case1 => cases hx
  | case2 c cs ih =>
      obtain rfl | hx := List.mem_cons.mp hx
      · intro hnil
        have hlength := congrArg List.length (readPiece_cuts c cs).text
        have hle := length_readPiece_le c cs
        rw [hnil, List.nil_append, List.length_cons] at hlength
        omega
      · exact ih hx

/-- Pieces that are not empty stand one after the other, from the place of the first one to the
place behind all of them. -/
theorem pairwise_located (p : Position) {ps : List Piece} (h : ∀ x ∈ ps, x.text ≠ []) :
    ((located p ps).map Located.position ++ [p.advance (ps.flatMap Piece.text)]).Pairwise
      Position.Before := by
  induction ps generalizing p with
  | nil => exact List.pairwise_singleton _ _
  | cons x ps ih =>
      rw [List.forall_mem_cons] at h
      have htail := ih (p.advance x.text) h.2
      rw [← Position.advance_append, ← List.flatMap_cons] at htail
      rw [located, List.map_cons, List.cons_append, List.pairwise_cons]
      refine ⟨fun q hq => ?_, htail⟩
      -- The piece ends where the next one begins, and everything else is behind that.
      have hfirst := p.before_advance h.1
      cases ps with
      | nil =>
          obtain rfl := List.mem_singleton.mp hq
          rwa [List.flatMap_singleton]
      | cons y ps =>
          rw [located, List.map_cons, List.cons_append, List.pairwise_cons] at htail
          rw [located, List.map_cons, List.cons_append] at hq
          obtain rfl | hq := List.mem_cons.mp hq
          · exact hfirst
          · exact hfirst.trans (htail.1 q hq)

/-- What is read off some of the pieces stands where they do. -/
theorem map_position_filterMap_sublist {α β : Type} (value? : α → Option β)
    (xs : List (Located α)) :
    ((xs.filterMap fun x => (value? x.value).map fun b => (⟨b, x.position⟩ : Located β)).map
      Located.position).Sublist (xs.map Located.position) := by
  induction xs with
  | nil => exact .slnil
  | cons x xs ih =>
      rw [List.filterMap_cons]
      cases value? x.value with
      | none => exact ih.cons _
      | some b => exact ih.cons_cons _

namespace Scan

/-- **Tokens come in the order of the text**, the end of file last. -/
theorem tokens_inOrder (text : String) : InSequence (Scan.ofText text).tokens := by
  have hpieces := pairwise_located .start fun x => @text_ne_nil_of_mem_pieces text.toList x
  rw [flatMap_text_pieces] at hpieces
  rw [InSequence, tokens_ofText, List.map_append]
  exact hpieces.sublist ((map_position_filterMap_sublist _ _).append (List.Sublist.refl _))

/-- **Lexical findings come in the order of the text.** -/
theorem findings_inOrder (text : String) : InSequence (Scan.ofText text).findings := by
  have hpieces := pairwise_located .start fun x => @text_ne_nil_of_mem_pieces text.toList x
  exact hpieces.sublist
    ((map_position_filterMap_sublist _ _).trans (List.sublist_append_left _ _))

/-- What is found in the characters of a text is lexical. -/
theorem kind_eq_lexical {text : String} {f : Finding} (hf : f ∈ (Scan.ofText text).findings) :
    f.value.kind = .lexical := by
  obtain ⟨x, -, hx⟩ := List.mem_filterMap.mp hf
  obtain ⟨i, hi, rfl⟩ := Option.map_eq_some_iff.mp hx
  obtain ⟨x, p⟩ := x
  cases x <;> cases hi <;> rfl

end Scan

/-! ### Faults -/

namespace Section

variable {warn : Bool} {stop : Token}

/-- A section reports a fault at one of the tokens behind its keyword, the next statement keyword
included. -/
theorem exists_token_of_fault {s : Section} {f : Finding} (hf : (s.outcome warn).fault = some f) :
    ∃ t, (t ∈ s.body ∨ t = s.stop) ∧ f.position = t.position := by
  have hleft := left_readStatement s.kind s.body
  rw [outcome, attempt_eq] at hf
  cases hattempt : readStatement s.kind s.body with
  | complete st rest =>
      rw [hattempt] at hf hleft
      cases rest with
      | nil => cases hf
      | cons t rest =>
          cases hf
          exact ⟨t, .inl (hleft.subset List.mem_cons_self), rfl⟩
  | broken st fault =>
      rw [hattempt] at hf hleft
      cases hf
      obtain ⟨cause, rest⟩ := fault
      cases rest with
      | nil => exact ⟨s.stop, .inr rfl, rfl⟩
      | cons t rest => exact ⟨t, .inl (hleft.subset List.mem_cons_self), rfl⟩

/-- **No place is reported twice.** Each section reports at most one fault, behind its own keyword
and not behind the next one. -/
theorem faults_sublist {ss : List Section} (hss : Linked stop ss) :
    ((ss.flatMap fun s => (s.outcome warn).fault.toList).map Located.position).Sublist
      (((ss.flatMap fun s => s.head :: s.body) ++ [stop]).tail.map Located.position) := by
  induction ss with
  | nil => exact .slnil
  | cons s ss ih =>
      obtain ⟨-, hstop, hlinked⟩ := hss
      have hrest := ih hlinked
      rw [List.flatMap_cons, List.flatMap_cons, List.cons_append, List.cons_append, List.tail_cons,
        List.append_assoc, List.map_append, List.map_append]
      -- What comes behind the section begins with the token at which the section stops.
      have hbehind : (ss.flatMap fun s => s.head :: s.body) ++ [stop] =
          s.stop :: ((ss.flatMap fun s => s.head :: s.body) ++ [stop]).tail := by
        rw [hstop]
        cases ss <;> rfl
      rw [hbehind, List.map_cons]
      cases hfault : (s.outcome warn).fault with
      | none => exact ((hrest.cons _).trans (List.sublist_append_right _ _))
      | some f =>
          obtain ⟨t, ht, hposition⟩ := exists_token_of_fault hfault
          rw [Option.toList_some, List.map_singleton, List.singleton_append, hposition]
          obtain ht | rfl := ht
          · have hmem : [t.position].Sublist (s.body.map Located.position) :=
              List.singleton_sublist.mpr (List.mem_map_of_mem ht)
            exact hmem.append (hrest.cons _)
          · exact (hrest.cons_cons _).trans (List.sublist_append_right _ _)

end Section

namespace Outline

variable {warn : Bool}

/-- What a section adds to the findings comes from its members, from a type id that is taken, or
from a fault. -/
theorem forall_mem_findings_add {P : Finding → Prop}
    (hmember : ∀ f, f.value.isOfMember = true → P f)
    (hduplicate : ∀ id line p, P ⟨.duplicateTypeId id line, p⟩)
    (hgrammatical : ∀ f, f.isGrammatical = true → P f) {o : Outline} (ho : ∀ f ∈ o.findings, P f)
    (s : Section) : ∀ f ∈ (o.add (s.outcome warn)).findings, P f := by
  have hfindings : ∀ f ∈ (s.outcome warn).findings, P f :=
    fun f hf => hmember f (s.outcome_findings_isOfMember f hf)
  have hfault : ∀ f ∈ (s.outcome warn).fault.toList, P f :=
    fun f hf => hgrammatical f (s.outcome_fault_isGrammatical f (Option.mem_toList.mp hf))
  unfold add
  split
  · simp only [List.forall_mem_append]
    exact ⟨⟨ho, hfindings⟩, hfault⟩
  · split
    · simp only [List.forall_mem_append, List.forall_mem_singleton]
      exact ⟨⟨⟨ho, hfindings⟩, hduplicate _ _ _⟩, hfault⟩
    · simp only [List.forall_mem_append]
      exact ⟨⟨ho, hfindings⟩, hfault⟩

/-- **What is found in a document** comes from the members of its statements, from type ids that are
taken, or from places where the grammar is broken. -/
theorem forall_mem_findings {P : Finding → Prop} (hmember : ∀ f, f.value.isOfMember = true → P f)
    (hduplicate : ∀ id line p, P ⟨.duplicateTypeId id line, p⟩)
    (hgrammatical : ∀ f, f.isGrammatical = true → P f) (tokens : List Token) :
    ∀ f ∈ (ofTokens warn tokens).findings, P f := by
  have hsections (ss : List Section) (o : Outline) (ho : ∀ f ∈ o.findings, P f) :
      ∀ f ∈ ((ss.map (Section.outcome warn)).foldl add o).findings, P f := by
    induction ss generalizing o with
    | nil => exact ho
    | cons s ss ih =>
        exact ih _ (forall_mem_findings_add hmember hduplicate hgrammatical ho s)
  have hlead (ts : List Token) : ∀ f ∈ (strayFinding? ts).toList, P f := by
    cases ts with
    | nil => exact List.forall_mem_nil _
    | cons t ts => exact List.forall_mem_singleton.mpr (hgrammatical _ rfl)
  exact hsections _ _ (hlead _)

/-- **Grammatical findings are at tokens**, each at a later one than the finding before it. -/
theorem grammatical_sublist {body : List Token} {stop : Token}
    (hbody : ∀ t ∈ body, t.value ≠ .endOfFile) (hstop : stop.value = .endOfFile) :
    (((ofTokens warn (body ++ [stop])).findings.filter Finding.isGrammatical).map
      Located.position).Sublist ((body ++ [stop]).map Located.position) := by
  obtain ⟨-, hlinked⟩ := Section.linked_split stop body
  have hfaults := @Section.faults_sublist warn _ _ hlinked
  have hlead (ts : List Token) :
      ((strayFinding? ts).toList.map Located.position).Sublist (ts.map Located.position) := by
    cases ts with
    | nil => exact .slnil
    | cons t ts => exact (List.nil_sublist _).cons_cons _
  have hsplit : (body ++ [stop]).map Located.position =
      (Section.split stop body).1.map Located.position ++
        (((Section.split stop body).2.flatMap fun s => s.head :: s.body) ++ [stop]).map
          Located.position := by
    rw [← List.map_append, ← List.append_assoc, Section.split_append]
  rw [grammatical_findings hbody hstop, List.map_append, hsplit]
  exact (hlead _).append (hfaults.trans ((List.tail_sublist _).map _))

/-- Nothing that is found in statements is lexical. -/
theorem kind_ne_lexical (tokens : List Token) :
    ∀ f ∈ (ofTokens warn tokens).findings, f.value.kind ≠ .lexical := by
  refine forall_mem_findings ?_ (fun id line p h => by cases h) ?_ tokens
  · rintro ⟨i, p⟩ hmember hkind
    cases i <;> cases hmember <;> cases hkind
  · intro f hf hkind
    cases (of_decide_eq_true hf).symm.trans hkind

/-- The diagnostics of a kind are those of the findings of that kind. -/
theorem filter_diagnostics (kind : DiagnosticKind) (document : String) (scan : Scan)
    (o : Outline) :
    ((scan.diagnostics document ++ o.diagnostics document).filter fun d => d.kind = kind) =
      ((scan.findings.filter fun f => f.value.kind = kind)
        ++ o.findings.filter fun f => f.value.kind = kind).map (Finding.diagnostic document) := by
  rw [Scan.diagnostics, diagnostics, ← List.map_append, List.filter_map, ← List.filter_append]
  rfl

/-- **Diagnostics come in the order of the text.** Whatever the text, the grammatical diagnostics of
reading it stand at strictly increasing places, each of them the place of a token or of the end of
file, so that no place is reported twice; and so do the lexical ones. -/
theorem diagnostics_inOrder (warn : Bool) (document text : String) :
    let scan := Scan.ofText text
    let diagnostics := scan.diagnostics document ++ (ofTokens warn scan.tokens).diagnostics document
    let grammatical := diagnostics.filter fun d => d.kind = .grammatical
    let lexical := diagnostics.filter fun d => d.kind = .lexical
    (grammatical.Pairwise fun d e => d.position.Before e.position) ∧
      (∀ d ∈ grammatical, ∃ t ∈ scan.tokens, d.position = t.position) ∧
      lexical.Pairwise fun d e => d.position.Before e.position := by
  intro scan diagnostics grammatical lexical
  have hscan : ∀ f ∈ scan.findings, f.value.kind = .lexical := fun f => Scan.kind_eq_lexical
  have hgrammatical : grammatical =
      ((ofTokens warn scan.tokens).findings.filter Finding.isGrammatical).map
        (Finding.diagnostic document) := by
    have hnone : (scan.findings.filter fun f => f.value.kind = .grammatical) = [] :=
      List.filter_eq_nil_iff.mpr fun f hf => by simp [hscan f hf]
    exact (filter_diagnostics .grammatical document scan _).trans (by rw [hnone]; rfl)
  have hlexical : lexical = scan.findings.map (Finding.diagnostic document) := by
    have hself : (scan.findings.filter fun f => f.value.kind = .lexical) = scan.findings :=
      List.filter_eq_self.mpr fun f hf => by simp [hscan f hf]
    have hnone : ((ofTokens warn scan.tokens).findings.filter fun f => f.value.kind = .lexical) =
        [] :=
      List.filter_eq_nil_iff.mpr fun f hf => by simp [kind_ne_lexical _ f hf]
    exact (filter_diagnostics .lexical document scan _).trans
      (by rw [hself, hnone, List.append_nil])
  have hplaces := @grammatical_sublist warn (Scan.bodyOf text)
    ⟨.endOfFile, Position.start.advance text.toList⟩ (fun t => Scan.ne_endOfFile_of_mem_bodyOf) rfl
  refine ⟨?_, fun d hd => ?_, ?_⟩
  · rw [hgrammatical, List.pairwise_map]
    exact List.pairwise_map.mp ((Scan.tokens_inOrder text).sublist hplaces)
  · rw [hgrammatical] at hd
    obtain ⟨f, hf, rfl⟩ := List.mem_map.mp hd
    obtain ⟨t, ht, hposition⟩ := List.mem_map.mp (hplaces.subset (List.mem_map_of_mem hf))
    exact ⟨t, ht, hposition.symm⟩
  · rw [hlexical, List.pairwise_map]
    exact List.pairwise_map.mp (Scan.findings_inOrder text)

end Outline

end Defsheet

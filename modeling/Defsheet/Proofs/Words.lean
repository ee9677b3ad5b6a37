import Defsheet.Compilation
import Defsheet.Proofs.Parsing
import Defsheet.Proofs.Scanning

/-!
# Words

Documents have one kind of name. It begins with a letter or an underscore, goes on with letters,
digits and underscores, and is not a reserved word of documents. The scanner makes identifiers of
such words only, and whatever a document declares is spelled out by its tokens, so this holds of
every name that is declared.

Identifiers of generated code are derived from names letter by letter. They consist of the same
characters, up to the mark of a raw identifier. In particular none of them has a colon in it, which
is what lets paths be written with colons between their parts.

## Main results

* `Document.isReadable_of_mem_words`: what a document declares is made of names and of texts without
  a quote.
* `IsWordy.constName` and its neighbours: derived identifiers consist of word characters.
-/

namespace Defsheet

/-! ### Where declarations come from -/

/-- A section stands in the document. -/
theorem Section.infix_of_mem_split {stop : Token} {ts : List Token} {s : Section}
    (hs : s ∈ (split stop ts).2) : s.head :: s.body <:+: ts := by
  have hsections := List.infix_of_mem_flatten
    (List.mem_map_of_mem (f := fun s : Section => s.head :: s.body) hs)
  rw [← List.flatMap_def] at hsections
  exact split_append stop ts ▸ hsections.trans (List.suffix_append _ _).isInfix

/-- **A declaration comes from a statement** that tokens of the document spell. -/
theorem Outline.exists_spelled_of_mem {warn : Bool} {tokens : List Token} {d : Declaration}
    (hd : d ∈ (ofTokens warn tokens).declarations) :
    ∃ ts st, SpellsStatement ts st ∧ st.value.meaning st.line = d ∧
      ts <:+: tokens ∧ ∀ t ∈ ts, t.value ≠ .endOfFile := by
  rw [declarations_ofTokens] at hd
  obtain ⟨s, hs, hdeclared⟩ := List.mem_filterMap.mp ((firstOfEach_sublist _).subset hd)
  obtain ⟨st, rest, hattempt, rfl⟩ := Section.outcome_declared_eq_some_iff.mp hdeclared
  obtain ⟨used, hbody, hspelled⟩ := Section.attempt_sound hattempt
  have hclosed : s.head :: used <:+: (close tokens).1 := by
    refine List.IsInfix.trans ?_ (Section.infix_of_mem_split hs)
    rw [hbody, ← List.cons_append]
    exact (List.prefix_append _ _).isInfix
  refine ⟨_, _, hspelled, rfl, hclosed.trans (List.takeWhile_prefix _).isInfix, fun t ht => ?_⟩
  simpa using List.all_eq_true.mp List.all_takeWhile t (hclosed.subset ht)

/-- A type id has a segment. -/
theorem Outline.segments_ne_nil {warn : Bool} {tokens : List Token} {a : ActionDecl}
    (ha : .action a ∈ (ofTokens warn tokens).declarations) : a.typeId.segments ≠ [] := by
  obtain ⟨ts, st, hspelled, hmeaning, -⟩ := exists_spelled_of_mem ha
  cases hspelled with
  | action hhead hbody =>
      obtain rfl := Declaration.action.inj hmeaning
      exact List.cons_ne_nil _ _
  | marker hbody => cases hmeaning

/-! ### Names and texts of declarations -/

/-- The texts that an option holds, as lexemes. -/
def textLexemes (text : Option String) : List Lexeme := text.toList.map .string

/-- The name of a type that the user supplies. -/
def PortType.words : PortType → List Lexeme
  | .custom name => [.ident name]
  | _ => []

/-- The text that a written value is. -/
def Literal.words : Literal → List Lexeme
  | .string text => [.string text]
  | _ => []

/-- The names and texts of a port. -/
def Port.words : Port → List Lexeme
  | .data p =>
    .ident p.name :: (p.type.words ++ p.default.toList.flatMap Literal.words ++ textLexemes p.label)
  | .flow p => .ident p.name :: textLexemes p.label

/-- The texts of the fields of an action. -/
def Metadata.words (m : Metadata) : List Lexeme :=
  textLexemes m.displayName ++ textLexemes m.category ++ textLexemes m.description

/-- The names and texts that a declaration is made of, as lexemes. -/
def Declaration.words : Declaration → List Lexeme
  | .action a => a.typeId.segments.map .ident ++ a.metadata.words ++ a.ports.flatMap Port.words
  | .marker m => .ident m.name :: textLexemes m.label

/-- A text that may be missing is a string or nothing. -/
theorem mem_textLexemes {text : Option String} {l : Lexeme} :
    l ∈ textLexemes text ↔ ∃ s, text = some s ∧ l = .string s := by
  simp [textLexemes, eq_comm]

/-- The last value is the value of some item. -/
theorem exists_of_lastOf_eq_some {α β : Type} {value? : α → Option β} {as : List α} {b : β}
    (h : lastOf value? as = some b) : ∃ a ∈ as, value? a = some b :=
  List.mem_filterMap.mp (List.mem_of_getLast? h)

/-- A member spells out the names and texts of its port. -/
theorem ActionMember.mem_lexemes_of_port? {m : ActionMember} {line : Nat} {p : Port} {l : Lexeme}
    (h : m.port? line = some p) (hl : l ∈ p.words) : l ∈ m.lexemes := by
  have hlabel (o : PortOptions) (hl : l ∈ textLexemes o.label) : l ∈ o.lexemes := by
    obtain ⟨s, hs, rfl⟩ := mem_textLexemes.mp hl
    simp [PortOptions.lexemes, hs, optionLexemes]
  cases m with
  | dataPort type name value o =>
      obtain rfl := Option.some.inj h
      simp only [Port.words, List.mem_cons, List.mem_append, List.mem_flatMap,
        Option.mem_toList] at hl
      simp only [lexemes, List.mem_cons, List.mem_append]
      obtain rfl | (htype | ⟨v, rfl, hvalue⟩) | hl := hl
      · exact .inr (.inr (.inl rfl))
      · cases type with
        | custom name => exact .inr (.inl (List.mem_singleton.mp htype))
        | _ => cases htype
      · cases v with
        | string text =>
            obtain rfl := List.mem_singleton.mp hvalue
            simp [defaultLexemes, Literal.lexeme]
        | _ => cases hvalue
      · exact .inr (.inr (.inr (.inr (hlabel o hl))))
  | flowPort name o =>
      obtain rfl := Option.some.inj h
      obtain rfl | hl := List.mem_cons.mp hl
      · exact List.mem_cons_of_mem _ List.mem_cons_self
      · exact List.mem_cons_of_mem _ (List.mem_cons_of_mem _ (hlabel o hl))
  | _ => cases h

/-- Members spell out the texts of the fields that they set. -/
theorem Metadata.mem_lexemes_of_mem_words {ms : List (Located ActionMember)} {l : Lexeme}
    (hl : l ∈ (Metadata.ofMembers ms).words) : ∃ m ∈ ms, l ∈ m.value.lexemes := by
  simp only [words, List.mem_append, mem_textLexemes] at hl
  obtain (⟨s, hs, rfl⟩ | ⟨s, hs, rfl⟩) | ⟨s, hs, rfl⟩ := hl
  all_goals
    obtain ⟨⟨m, p⟩, hm, hvalue⟩ := exists_of_lastOf_eq_some hs
    refine ⟨_, hm, ?_⟩
    cases m <;> cases hvalue
    simp [ActionMember.lexemes]

/-- A statement spells out the names and texts of what it declares. -/
theorem SpellsStatement.mem_of_mem_words {ts : List Token} {st : Located Statement} {line : Nat}
    {l : Lexeme} (h : SpellsStatement ts st) (hl : l ∈ (st.value.meaning line).words) :
    l ∈ ts.map Located.value := by
  cases h with
  | @action p q r head body first others members hhead hbody =>
      simp only [List.map_cons, List.map_append, hhead, hbody.map_value, List.mem_cons,
        List.mem_append]
      simp only [Statement.meaning, Declaration.words, List.mem_append, List.mem_map,
        List.mem_flatMap] at hl
      have hmember (hm : ∃ m ∈ members, l ∈ m.value.lexemes) :
          l ∈ members.flatMap fun m => m.value.lexemes := List.mem_flatMap.mpr hm
      obtain (⟨name, hname, rfl⟩ | hfield) | ⟨port, hport, hl⟩ := hl
      · refine .inr (.inl ?_)
        obtain rfl | hother := List.mem_cons.mp hname
        · exact List.mem_cons_self
        · refine List.mem_cons_of_mem _ (List.mem_flatMap.mpr ⟨name, hother, ?_⟩)
          exact List.mem_cons_of_mem _ List.mem_cons_self
      · exact .inr (.inr (.inr (.inl (hmember (Metadata.mem_lexemes_of_mem_words hfield)))))
      · obtain ⟨m, hm, hmport⟩ := List.mem_filterMap.mp ((firstOfEach_sublist _).subset hport)
        exact .inr (.inr (.inr (.inl
          (hmember ⟨m, hm, ActionMember.mem_lexemes_of_port? hmport hl⟩))))
  | @marker p q r s body name members hbody =>
      simp only [List.map_cons, List.map_append, hbody.map_value, List.mem_cons, List.mem_append]
      obtain rfl | hlabel := List.mem_cons.mp hl
      · exact .inr (.inl rfl)
      · obtain ⟨text, htext, rfl⟩ := mem_textLexemes.mp hlabel
        obtain ⟨⟨m, p⟩, hm, hvalue⟩ := exists_of_lastOf_eq_some htext
        refine .inr (.inr (.inr (.inl (List.mem_flatMap.mpr ⟨_, hm, ?_⟩))))
        cases m <;> cases hvalue
        simp [MarkerMember.lexemes]

/-- The declarations of a document, before they are resolved. -/
def Document.declarations (d : Document) (o : Options) : List Declaration :=
  (Outline.ofTokens o.warnOnRepeat (Scan.ofText d.text).tokens).declarations

namespace Document

variable {doc : Document} {o : Options}

/-- **Names and texts can be read**: what a document declares is made of names, and of texts
without a quote. -/
theorem isReadable_of_mem_words {d : Declaration} {l : Lexeme} (hd : d ∈ doc.declarations o)
    (hl : l ∈ d.words) : l.IsReadable := by
  obtain ⟨ts, st, hspelled, rfl, hts, hends⟩ := Outline.exists_spelled_of_mem hd
  obtain ⟨t, ht, rfl⟩ := List.mem_map.mp (hspelled.mem_of_mem_words hl)
  obtain hbody | hstop := List.mem_append.mp (hts.subset ht)
  · exact Scan.isReadable_of_mem_bodyOf hbody
  · obtain rfl := List.mem_singleton.mp hstop
    exact absurd rfl (hends _ ht)

/-- A type id has a segment. -/
theorem segments_ne_nil {a : ActionDecl} (ha : .action a ∈ doc.declarations o) :
    a.typeId.segments ≠ [] :=
  Outline.segments_ne_nil ha

end Document

/-- The names that a declaration goes by: the segments of a type id, or the name of a marker. -/
def Declaration.names : Declaration → List String
  | .action a => a.typeId.segments
  | .marker m => [m.name]

/-- **Declarations are named by names.** -/
theorem Document.isName_of_mem_names {doc : Document} {o : Options} {d : Declaration}
    {name : String} (hd : d ∈ doc.declarations o) (hname : name ∈ d.names) : IsName name := by
  refine isReadable_of_mem_words (l := .ident name) hd ?_
  cases d with
  | action a => exact List.mem_append_left _ (List.mem_append_left _ (List.mem_map_of_mem hname))
  | marker m =>
      obtain rfl := List.mem_singleton.mp hname
      exact List.mem_cons_self

/-! ### Identifiers of generated code -/

/-- Upper case keeps the characters of words. -/
theorem isWordChar_toUpper {c : Char} (h : isWordChar c = true) : isWordChar c.toUpper = true :=
  forall_isWordChar (P := fun c => isWordChar c.toUpper = true) (by decide) h

/-- So does lower case. -/
theorem isWordChar_toLower {c : Char} (h : isWordChar c = true) : isWordChar c.toLower = true :=
  forall_isWordChar (P := fun c => isWordChar c.toLower = true) (by decide) h

/-- The constant for a word is a word. -/
theorem IsWordy.constName {s : String} (h : IsWordy s) : IsWordy (constName s) := by
  have hafter (previous : Char) (cs : List Char) (hcs : ∀ c ∈ cs, isWordChar c = true) :
      ∀ c ∈ constCharsAfter previous cs, isWordChar c = true := by
    induction cs generalizing previous with
    | nil => exact fun c hc => absurd hc List.not_mem_nil
    | cons c cs ih =>
        rw [List.forall_mem_cons] at hcs
        have hrest : ∀ x ∈ c.toUpper :: constCharsAfter c cs, isWordChar x = true :=
          List.forall_mem_cons.mpr ⟨isWordChar_toUpper hcs.1, ih c hcs.2⟩
        rw [constCharsAfter]
        split
        · exact List.forall_mem_cons.mpr ⟨rfl, hrest⟩
        · exact hrest
  unfold IsWordy at h ⊢
  rw [Defsheet.constName, String.toList_ofList]
  cases hs : s.toList with
  | nil => exact fun c hc => absurd hc List.not_mem_nil
  | cons c cs =>
      rw [hs, List.forall_mem_cons] at h
      exact List.forall_mem_cons.mpr ⟨isWordChar_toUpper h.1, hafter c cs h.2⟩

/-- The module for a word is a word. -/
theorem IsWordy.foldAcronym {s : String} (h : IsWordy s) : IsWordy (foldAcronym s) := by
  simp only [Defsheet.foldAcronym]
  split
  · intro c hc
    rw [String.toList_ofList, List.mem_append, List.mem_map] at hc
    obtain hc | ⟨d, hd, rfl⟩ := hc
    · exact h c (List.mem_of_mem_take hc)
    · exact isWordChar_toLower (h d (List.mem_of_mem_drop hd))
  · exact h

/-- Wordy texts can be put together. -/
theorem IsWordy.join {l : List String} (h : ∀ s ∈ l, IsWordy s) : IsWordy (String.join l) := by
  intro c hc
  rw [String.toList_join] at hc
  obtain ⟨s, hs, hc⟩ := List.mem_flatMap.mp hc
  exact h s hs c hc

/-- Joined texts have no other characters than they and what joins them. -/
theorem forall_mem_intercalate {p : Char → Prop} {sep : List Char} {ws : List (List Char)}
    (hsep : ∀ c ∈ sep, p c) (h : ∀ w ∈ ws, ∀ c ∈ w, p c) : ∀ c ∈ sep.intercalate ws, p c := by
  induction ws with
  | nil => exact fun c hc => absurd hc List.not_mem_nil
  | cons w ws ih =>
      rw [List.forall_mem_cons] at h
      obtain _ | ⟨w', ws⟩ := ws
      · rw [List.intercalate_singleton]
        exact h.1
      · rw [List.intercalate_cons_cons]
        intro c hc
        rw [List.mem_append, List.mem_append] at hc
        obtain (hc | hc) | hc := hc
        · exact h.1 c hc
        · exact hsep c hc
        · exact ih h.2 c hc

/-- The module of a document is a word, with an underscore after it if the word is reserved. -/
theorem exists_moduleName_eq (document : String) :
    ∃ name, IsWordy name ∧ moduleName document = if isReserved name then name ++ "_" else name := by
  have hwords : ∀ c ∈ joinWords document.toList, isWordChar c = true := by
    refine forall_mem_intercalate (List.forall_mem_singleton.mpr rfl) fun w hw => ?_
    obtain ⟨v, hv, rfl⟩ := List.mem_map.mp hw
    intro c hc
    obtain ⟨d, hd, rfl⟩ := List.mem_map.mp hc
    have hletter : d.isAlphanum = true := List.all_eq_true.mp (List.mem_filter.mp hv).2 d hd
    exact isWordChar_toLower (by rw [isWordChar, hletter, Bool.true_or])
  refine ⟨_, ?_, rfl⟩
  intro c hc
  rw [String.toList_ofList] at hc
  split at hc
  · obtain rfl | hc := List.mem_cons.mp hc
    · rfl
    · exact hwords c hc
  · exact hwords c hc

/-- The module of a document is wordy, whatever its name. -/
theorem isWordy_moduleName (document : String) : IsWordy (moduleName document) := by
  obtain ⟨name, hname, heq⟩ := exists_moduleName_eq document
  rw [heq]
  split
  · intro c hc
    rw [String.toList_append, List.mem_append] at hc
    obtain hc | hc := hc
    · exact hname c hc
    · obtain rfl := List.mem_singleton.mp hc
      rfl
  · exact hname

/-- The module of a document is never reserved, as no reserved word ends with an underscore. -/
theorem not_isReserved_moduleName (document : String) :
    isReserved (moduleName document) = false := by
  have hends : ∀ w ∈ reservedWords, w.toList.getLast? ≠ some '_' := by decide
  obtain ⟨name, -, heq⟩ := exists_moduleName_eq document
  rw [heq, Bool.eq_false_iff]
  split
  · intro h
    exact hends _ (List.contains_iff_mem.mp h) (by simp)
  · next hfree => exact hfree

/-- No document has the module that an index is named after. -/
theorem moduleName_ne_mod (document : String) : moduleName document ≠ "mod" := by
  intro h
  have hfree := not_isReserved_moduleName document
  rw [h] at hfree
  exact absurd hfree (by decide)

/-- The string can be written in generated code where an identifier stands: it consists of letters,
digits, underscores and the mark of a raw identifier. -/
def IsIdent (s : String) : Prop := ∀ c ∈ s.toList, isWordChar c = true ∨ c = '#'

/-- A wordy text can be written as an identifier. -/
theorem IsWordy.isIdent {s : String} (h : IsWordy s) : IsIdent s := fun c hc => .inl (h c hc)

/-- So can one that is marked because it is reserved. -/
theorem IsWordy.writtenIdent {s : String} (h : IsWordy s) : IsIdent (writtenIdent s) := by
  unfold Defsheet.writtenIdent
  split
  · intro c hc
    rw [String.toList_append, List.mem_append] at hc
    obtain hc | hc := hc
    · obtain rfl | rfl : c = 'r' ∨ c = '#' := by simpa using hc
      · exact .inl rfl
      · exact .inr rfl
    · exact .inl (h c hc)
  · exact h.isIdent

/-- What is not part of any identifier is not part of this one. -/
theorem IsIdent.not_mem {s : String} {c : Char} (h : IsIdent s)
    (hc : ¬(isWordChar c = true ∨ c = '#')) : c ∉ s.toList :=
  fun hmem => hc (h c hmem)

end Defsheet

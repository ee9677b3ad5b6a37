import Defsheet.Proofs.GeneratedNames
import Defsheet.Proofs.WordBreaks

/-!
# Identifiers that generated code accepts

Generated code takes a word for an identifier unless the word is reserved or a lone underscore, and
it takes most reserved words if they are marked as raw. Not every identifier of a definition is
checked for this: the constant of a provider never is, and constants are never marked. Still all of
them are accepted, for two reasons. A constant has no lower-case letter and every reserved word has
one (`not_isReserved_constName`), and a constant is a lone underscore only if the name that it comes
from is one (`constName_eq_underscore_iff`), which is checked.

## Main results

* `isWritable_writtenIdent`, `isWritable_constName`: when the two ways of writing a name are
  accepted.
* `Document.resolve_writes_idents`: all identifiers of all definitions are accepted.
-/

namespace Defsheet

/-! ### Words -/

/-- The string is a word: it begins with a letter or an underscore and goes on with letters, digits
and underscores. -/
def IsWord (s : String) : Prop :=
  ∃ c cs, s.toList = c :: cs ∧ isWordStart c = true ∧ ∀ d ∈ cs, isWordChar d = true

/-- Generated code accepts the string as an identifier: a word that is neither reserved nor a lone
underscore, or a reserved word that is marked as raw and may be. -/
def IsWritable (s : String) : Prop :=
  (IsWord s ∧ s ≠ "_" ∧ isReserved s = false) ∨
    ∃ w, isReserved w = true ∧ w ∉ ["self", "Self", "super", "crate"] ∧ s = "r#" ++ w

/-- A name is a word. -/
theorem IsName.isWord {s : String} (h : IsName s) : IsWord s := by
  obtain ⟨c, cs, hs, hc⟩ := h.begins
  have hwordy := h.wordy
  rw [IsWordy, hs, List.forall_mem_cons] at hwordy
  exact ⟨c, cs, hs, hc, hwordy.2⟩

/-- All characters of a word are characters of words. -/
theorem IsWord.isWordy {s : String} (h : IsWord s) : IsWordy s := by
  obtain ⟨c, cs, hs, hc, hcs⟩ := h
  rw [IsWordy, hs]
  exact List.forall_mem_cons.mpr ⟨isWordChar_of_isWordStart hc, hcs⟩

/-- A wordy string is a word if it begins like one. -/
theorem IsWordy.isWord {s : String} (h : IsWordy s) {c : Char} {cs : List Char}
    (hs : s.toList = c :: cs) (hc : isWordStart c = true) : IsWord s := by
  rw [IsWordy, hs, List.forall_mem_cons] at h
  exact ⟨c, cs, hs, hc, h.2⟩

/-! ### Names as they are -/

/-- All identifiers can be written, five of them apart. -/
theorem isUnspellable_eq_false_iff {s : String} :
    isUnspellable s = false ↔ s ∉ ["self", "Self", "super", "crate"] ∧ s ≠ "_" := by
  rw [isUnspellable, Bool.eq_false_iff, ne_eq, List.contains_iff_mem]
  simp [unspellableIdents, and_assoc]

/-- A word that can be spelled is accepted, marked as raw if need be. -/
theorem isWritable_writtenIdent {s : String} (h : IsWord s) (hs : isUnspellable s = false) :
    IsWritable (writtenIdent s) := by
  obtain ⟨hraw, hunderscore⟩ := isUnspellable_eq_false_iff.mp hs
  rw [writtenIdent]
  split
  · next hreserved => exact .inr ⟨s, hreserved, hraw, rfl⟩
  · next hfree => exact .inl ⟨h, hunderscore, Bool.eq_false_iff.mpr hfree⟩

/-- Folding an acronym keeps the first letter. -/
theorem IsWord.foldAcronym {s : String} (h : IsWord s) : IsWord (foldAcronym s) := by
  have hwordy := h.isWordy.foldAcronym
  obtain ⟨c, cs, hs, hc, -⟩ := h
  have hfirst : ∃ ds, (Defsheet.foldAcronym s).toList = c :: ds := by
    simp only [Defsheet.foldAcronym]
    split
    · exact ⟨_, by rw [String.toList_ofList, hs]; rfl⟩
    · exact ⟨cs, hs⟩
  obtain ⟨ds, hds⟩ := hfirst
  exact hwordy.isWord hds hc

/-- Words that are joined make a word. -/
theorem IsWord.join {l : List String} (hne : l ≠ []) (h : ∀ s ∈ l, IsWord s) :
    IsWord (String.join l) := by
  have hwordy : IsWordy (String.join l) := .join fun s hs => (h s hs).isWordy
  obtain ⟨s, rest, rfl⟩ := List.exists_cons_of_ne_nil hne
  obtain ⟨c, cs, hs, hc, -⟩ := h s List.mem_cons_self
  have hjoined : (String.join (s :: rest)).toList = c :: (cs ++ rest.flatMap String.toList) := by
    rw [String.toList_join, List.flatMap_cons, hs, List.cons_append]
  exact hwordy.isWord hjoined hc

/-! ### Constants -/

/-- Upper case keeps what can begin a word. -/
theorem isWordStart_toUpper {c : Char} (h : isWordStart c = true) :
    isWordStart c.toUpper = true :=
  forall_isWordChar (P := fun c => isWordStart c = true → isWordStart c.toUpper = true) (by decide)
    (isWordChar_of_isWordStart h) h

/-- The constant for a word is a word. -/
theorem IsWord.constName {s : String} (h : IsWord s) : IsWord (constName s) := by
  have hwordy := h.isWordy.constName
  obtain ⟨c, cs, hs, hc, -⟩ := h
  have hfirst : (Defsheet.constName s).toList = c.toUpper :: constCharsAfter c cs := by
    rw [Defsheet.constName, String.toList_ofList, hs, constChars]
  exact hwordy.isWord hfirst (isWordStart_toUpper hc)

/-- A constant has no lower-case letter. -/
theorem not_isLower_of_mem_constName {s : String} :
    ∀ c ∈ (constName s).toList, c.isLower = false := by
  intro x hx
  rw [constName, String.toList_ofList] at hx
  obtain rfl | ⟨c, -, rfl⟩ := mem_constChars hx
  · rfl
  · exact forall_char (P := fun c => c.toUpper.isLower = false) (by decide)
      (fun c hupper _ hlower => by rw [hupper, hlower]) c

/-- A constant is never reserved. -/
theorem not_isReserved_constName (s : String) : isReserved (constName s) = false := by
  have hreserved : ∀ w ∈ reservedWords, w.toList.any Char.isLower = true := by decide
  rw [Bool.eq_false_iff]
  intro hconst
  have hlower := hreserved _ (List.contains_iff_mem.mp hconst)
  obtain ⟨c, hc, hcase⟩ := List.any_eq_true.mp hlower
  rw [not_isLower_of_mem_constName c hc] at hcase
  cases hcase

/-- The constant for a word is accepted, unless the word is a lone underscore. -/
theorem isWritable_constName {s : String} (h : IsWord s) (hs : s ≠ "_") :
    IsWritable (constName s) :=
  .inl ⟨h.constName, fun hconst => hs (constName_eq_underscore_iff.mp hconst),
    not_isReserved_constName s⟩

/-- A single underscore stays one in a constant, so it cannot be written either. -/
theorem ne_underscore_of_constName {s : String} (h : isUnspellable (constName s) = false) :
    s ≠ "_" := by
  rintro rfl
  revert h
  decide

/-! ### The identifiers of a definition -/

/-- The text after the last colon of a path. -/
def lastPathSegment (path : String) : String :=
  String.ofList (path.toList.reverse.takeWhile (· != ':')).reverse

/-- What stands behind the last colons of a path is its last segment. -/
theorem lastPathSegment_append {path s : String} (h : ':' ∉ s.toList) :
    lastPathSegment (path ++ "::" ++ s) = s := by
  have hstop : ∀ c ∈ s.toList.reverse, (c != ':') = true := by
    intro c hc
    rw [bne_iff_ne]
    rintro rfl
    exact h (List.mem_reverse.mp hc)
  have hrest : (path ++ "::").toList.reverse = ':' :: ':' :: path.toList.reverse := by
    simp
  rw [lastPathSegment, String.toList_append, List.reverse_append, hrest,
    List.takeWhile_append_of_pos hstop, List.takeWhile_cons_of_neg (by decide), List.append_nil,
    List.reverse_reverse, String.ofList_toList]

/-- The type of the port, if it is one that the user supplies. -/
def PortDefinition.suppliedType? (p : PortDefinition) : Option PortType :=
  match p.role with
  | .data type _ _ _ => if type.isCustom then some type else none
  | .flow => none

/-- The identifiers that generated code gets from a port: its constant, and the last segment of the
path to its type if the user supplies that. -/
def PortDefinition.identifiers (o : Options) (p : PortDefinition) : List String :=
  p.const :: p.suppliedType?.toList.map fun type =>
    lastPathSegment (type.typeArgument o.typesPath)

/-- The identifiers that generated code gets from a definition. -/
def Definition.identifiers (o : Options) : Definition → List String
  | .action a =>
    a.modulePath ++ [a.idConst, a.className, a.providerConst]
      ++ a.ports.flatMap (PortDefinition.identifiers o)
  | .marker m => [m.ident, m.idConst]

/-- The identifiers of a port whose names are words are accepted. -/
theorem PortDefinition.isWritable_of_ofPort? {o : Options} {action : String} {p : Port}
    {q : PortDefinition} (h : (ofPort? action p).1 = some q)
    (hwords : ∀ name, .ident name ∈ p.words → IsWord name) :
    ∀ s ∈ q.identifiers o, IsWritable s := by
  have hconst {name : String} (hname : IsWord name)
      (hspelled : ¬isUnspellable (constName name) = true) : IsWritable (constName name) :=
    isWritable_constName hname (ne_underscore_of_constName (Bool.eq_false_iff.mpr hspelled))
  cases p with
  | data p =>
      have hname : IsWord p.name := hwords p.name List.mem_cons_self
      simp only [ofPort?, ofData?] at h
      split at h
      · cases h
      next htype =>
      split at h
      · cases h
      next hspelled =>
      obtain rfl := Option.some.inj h
      refine List.forall_mem_cons.mpr ⟨hconst hname hspelled, ?_⟩
      intro s hs
      obtain ⟨type, hsupplied, rfl⟩ := List.mem_map.mp hs
      obtain ⟨t, name, value, label, lo, hi, line⟩ := p
      cases t with
      | custom typeName =>
          obtain rfl := Option.some.inj (Option.mem_toList.mp hsupplied)
          have hword : IsWord typeName := by
            refine hwords typeName ?_
            simp [Port.words, PortType.words]
          have hcolon : ':' ∉ (writtenIdent typeName).toList :=
            hword.isWordy.writtenIdent.not_mem (by decide)
          rw [PortType.typeArgument, lastPathSegment_append hcolon]
          exact isWritable_writtenIdent hword (Bool.eq_false_iff.mpr htype)
      | _ => cases hsupplied
  | flow p =>
      have hname : IsWord p.name := hwords p.name List.mem_cons_self
      simp only [ofPort?, ofFlow?] at h
      split at h
      · cases h
      next hspelled =>
      obtain rfl := Option.some.inj h
      exact List.forall_mem_cons.mpr ⟨hconst hname hspelled, List.forall_mem_nil _⟩

/-- The identifiers of a definition whose declaration is made of words are accepted. -/
theorem Definition.isWritable_of_ofDeclaration? {o : Options} {d : Declaration} {x : Definition}
    (h : (ofDeclaration? d).1 = some x) (hwords : ∀ name, .ident name ∈ d.words → IsWord name)
    (hne : d.names ≠ []) : ∀ s ∈ x.identifiers o, IsWritable s := by
  cases d with
  | action a =>
      change a.typeId.segments ≠ [] at hne
      have hsegment : ∀ s ∈ a.typeId.segments, IsWord s := fun s hs =>
        hwords s (List.mem_append_left _ (List.mem_append_left _ (List.mem_map_of_mem hs)))
      have hjoined : IsWord a.typeId.joined := .join hne hsegment
      have hlast : IsWord a.typeId.last := by
        rw [TypeId.last, List.getLast?_eq_some_getLast hne]
        exact hsegment _ (List.getLast_mem hne)
      simp only [ofDeclaration?, ActionDefinition.ofDecl?] at h
      split at h
      · cases h
      next hfind =>
      obtain rfl := Option.some.inj h
      have hspelled := List.find?_eq_none.mp hfind
      simp only [List.forall_mem_append, List.forall_mem_cons, Bool.not_eq_true] at hspelled
      obtain ⟨hpath, hclass, hconst, -⟩ := hspelled
      have hclassName : a.typeId.joined ≠ "_" := (isUnspellable_eq_false_iff.mp hclass).2
      simp only [identifiers, List.forall_mem_append, List.forall_mem_cons, List.forall_mem_map]
      refine ⟨⟨?_, ?_, ?_, ?_, List.forall_mem_nil _⟩, ?_⟩
      · intro s hs
        have hword : IsWord s := by
          obtain ⟨segment, hmem, rfl⟩ := List.mem_map.mp hs
          exact (hsegment segment (List.dropLast_subset _ hmem)).foldAcronym
        exact isWritable_writtenIdent hword (hpath s hs)
      · exact isWritable_constName hlast (ne_underscore_of_constName hconst)
      · exact isWritable_writtenIdent hjoined hclass
      · exact isWritable_constName hjoined hclassName
      · intro s hs
        obtain ⟨q, hq, hs⟩ := List.mem_flatMap.mp hs
        obtain ⟨p, hp, hresolved⟩ := exists_port_of_mem_resolvePorts hq
        refine PortDefinition.isWritable_of_ofPort? hresolved (fun name hname => ?_) s hs
        exact hwords name (List.mem_append_right _ (List.mem_flatMap.mpr ⟨p, hp, hname⟩))
  | marker m =>
      have hname : IsWord m.name := hwords m.name List.mem_cons_self
      simp only [ofDeclaration?, MarkerDefinition.ofDecl?] at h
      split at h
      · cases h
      next hspelled =>
      obtain rfl := Option.some.inj h
      simp only [Bool.or_eq_true, not_or, Bool.not_eq_true] at hspelled
      simp only [identifiers, List.forall_mem_cons]
      exact ⟨isWritable_writtenIdent hname hspelled.1,
        isWritable_constName hname (ne_underscore_of_constName hspelled.2), List.forall_mem_nil _⟩

/-- **Every identifier of a definition is accepted by generated code**, whatever the text of the
document: the modules and constants of actions, their port keys and providers, the constants of
ports and the types that the user supplies, the components and constants of markers. -/
theorem Document.resolve_writes_idents (doc : Document) (o : Options) (x : Definition)
    (hx : x ∈ (doc.resolve o).definitions) (s : String) (hs : s ∈ x.identifiers o) :
    IsWritable s := by
  obtain ⟨d, hd, hresolved⟩ := exists_resolved_of_mem hx
  have hwords (name : String) (hname : .ident name ∈ d.words) : IsWord name :=
    IsName.isWord (isReadable_of_mem_words (l := .ident name) hd hname)
  have hne : d.names ≠ [] := by
    cases d with
    | action a => exact segments_ne_nil hd
    | marker m => exact List.cons_ne_nil _ _
  exact Definition.isWritable_of_ofDeclaration? hresolved hwords hne s hs

/-- Reserved words in every place, and a constant that is made of underscores. -/
theorem Document.resolve_writes_idents_of_reserved :
    let doc : Document := ⟨"level", "action fn.__ \x7b port gen match \x7d"⟩
    ∃ x ∈ (doc.resolve {}).definitions,
      x.identifiers {} = ["r#fn", "__", "fn__", "FN__", "MATCH", "r#gen"] ∧
        ∀ s ∈ ["r#fn", "__", "fn__", "FN__", "MATCH", "r#gen"], IsWritable s := by
  intro doc
  let x : Definition := .action
    { typeId := ⟨["fn", "__"]⟩, modulePath := ["r#fn"], idConst := "__", className := "fn__",
      providerConst := "FN__", metadata := {}, line := 1,
      ports := [⟨"match", none, "MATCH", .data (.custom "gen") none none none⟩] }
  have hx : x ∈ (doc.resolve {}).definitions := by decide +kernel
  have hidents : x.identifiers {} = ["r#fn", "__", "fn__", "FN__", "MATCH", "r#gen"] := by
    decide +kernel
  exact ⟨x, hx, hidents, fun s hs => resolve_writes_idents doc {} x hx s (hidents ▸ hs)⟩

end Defsheet

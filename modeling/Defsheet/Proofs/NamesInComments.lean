import Defsheet.Proofs.Compiling
import Defsheet.Proofs.GeneratedText

/-!
# The name of a document in generated code

The name of a document stands in generated files in two comments only, at the beginning of each
file. Everything else depends on the module that the name is turned into. The two comments reach to
the end of their lines, but a name may have line feeds in it, and what follows the first of these is
no comment any more: it spills over into the code.

So two names with the same module lead to the same code exactly if they spill the same lines
(`SpillsAlike`), and names without line feeds always do.

## Main results

* `codeLinesOf_comment`: the code in a comment with a name in it.
* `codeLines_headed_eq_iff`: when two names lead to the same lines of code.
* `artifacts_eq_map_named`: the name of the document shows in the first lines of a file only.
* `Document.codeLines_eq_iff_spillsAlike`: when two names lead to the same code in the files of a
  document.
* `Document.not_codeLines_eq_of_lineFeed`: two names with the same module that do not.
-/

namespace Defsheet

/-! ### Lines of code -/

/-- Whether a line is a comment. -/
def isComment (l : List Char) : Bool := ['/', '/'].isPrefixOf l

/-- The lines of some characters, without those that are comments. -/
def codeLinesOf (cs : List Char) : List (List Char) :=
  (cs.splitOn '\n').filter fun l => !isComment l

/-- The lines of a text, without those that are comments. -/
def codeLines (text : String) : List (List Char) := codeLinesOf text.toList

/-- The lines of code on both sides of a line feed. -/
theorem codeLinesOf_append (u v : List Char) :
    codeLinesOf (u ++ '\n' :: v) = codeLinesOf u ++ codeLinesOf v := by
  rw [codeLinesOf, List.splitOn_append_cons_self, List.filter_append]
  rfl

/-- A comment that stays on its line is no code. -/
theorem codeLinesOf_of_isComment {l : List Char} (h : isComment l = true) (hfeed : '\n' ∉ l) :
    codeLinesOf l = [] := by
  rw [codeLinesOf, List.splitOn_eq_singleton hfeed, List.filter_cons_of_neg (by simp [h]),
    List.filter_nil]

/-- What follows a comment marker belongs to the comment. -/
theorem isComment_append {l : List Char} (h : isComment l = true) (rest : List Char) :
    isComment (l ++ rest) = true := by
  rw [isComment, List.isPrefixOf_iff_prefix] at h ⊢
  exact h.trans (List.prefix_append l rest)

/-- The lines of code in the first line come first. -/
theorem codeLines_render_cons (l : CodeLine) (code : Code) :
    codeLines (Code.render (l :: code)) = codeLinesOf l.chars ++ codeLines code.render := by
  rw [codeLines, Code.toList_render, List.flatMap_cons, List.append_assoc, List.singleton_append,
    codeLinesOf_append, ← Code.toList_render, codeLines]

/-- A line that is not indented is its text. -/
theorem codeLines_render_line {text : String} (h : text ≠ "") (code : Code) :
    codeLines (Code.render (Code.line text :: code)) =
      codeLinesOf text.toList ++ codeLines code.render := by
  rw [codeLines_render_cons, CodeLine.chars, Code.line, if_neg h, Nat.mul_zero,
    List.replicate_zero, List.nil_append]

/-- A gap is a line of code, though an empty one. -/
theorem codeLines_render_gap (code : Code) :
    codeLines (Code.render (Code.gap :: code)) = [] :: codeLines code.render := by
  rw [codeLines_render_cons]
  rfl

/-! ### Names in comments -/

/-- What follows the first line feed. -/
def afterLineFeed? : List Char → Option (List Char)
  | [] => none
  | c :: cs => if c = '\n' then some cs else afterLineFeed? cs

/-- Nothing stands behind a line feed if there is none. -/
theorem afterLineFeed?_eq_none_iff {cs : List Char} : afterLineFeed? cs = none ↔ '\n' ∉ cs := by
  induction cs with
  | nil => simp [afterLineFeed?]
  | cons c cs ih =>
      rw [afterLineFeed?, List.mem_cons, not_or]
      split
      · next hc => simp [hc]
      · next hc => rw [ih, and_iff_right (Ne.symm hc)]

/-- It is the first line feed that is looked for. -/
theorem exists_of_afterLineFeed?_eq_some {cs rest : List Char}
    (h : afterLineFeed? cs = some rest) : ∃ first, cs = first ++ '\n' :: rest ∧ '\n' ∉ first := by
  induction cs with
  | nil => cases h
  | cons c cs ih =>
      rw [afterLineFeed?] at h
      split at h
      · next hc =>
        obtain rfl := Option.some.inj h
        exact ⟨[], by rw [hc, List.nil_append], List.not_mem_nil⟩
      · next hc =>
        obtain ⟨first, rfl, hfirst⟩ := ih h
        refine ⟨c :: first, rfl, ?_⟩
        rw [List.mem_cons, not_or]
        exact ⟨Ne.symm hc, hfirst⟩

/-- The lines of code that a name leaves behind when it stands in a comment which goes on with the
ending. -/
def spilled (name ending : String) : List (List Char) :=
  match afterLineFeed? name.toList with
  | none => []
  | some rest => codeLinesOf (rest ++ ending.toList)

/-- A name without a line feed leaves nothing behind. -/
theorem spilled_eq_nil {name : String} (h : '\n' ∉ name.toList) (ending : String) :
    spilled name ending = [] := by
  rw [spilled, afterLineFeed?_eq_none_iff.mpr h]

/-- **The code in a comment with a name in it** is what the name spills. -/
theorem codeLinesOf_comment (marker name : String) {ending : String}
    (hmarker : isComment marker.toList = true) (hfeed : '\n' ∉ marker.toList)
    (hending : '\n' ∉ ending.toList) :
    codeLinesOf (marker ++ name ++ ending).toList = spilled name ending := by
  rw [String.toList_append, String.toList_append, spilled]
  cases hname : afterLineFeed? name.toList with
  | none =>
      have hfree := afterLineFeed?_eq_none_iff.mp hname
      refine codeLinesOf_of_isComment (isComment_append (isComment_append hmarker _) _) ?_
      simp only [List.mem_append, not_or]
      exact ⟨⟨hfeed, hfree⟩, hending⟩
  | some rest =>
      obtain ⟨first, hsplit, hfirst⟩ := exists_of_afterLineFeed?_eq_some hname
      have hcomment : codeLinesOf (marker.toList ++ first) = [] := by
        refine codeLinesOf_of_isComment (isComment_append hmarker _) ?_
        simp only [List.mem_append, not_or]
        exact ⟨hfeed, hfirst⟩
      rw [hsplit, List.append_assoc, List.append_assoc, List.cons_append, ← List.append_assoc,
        codeLinesOf_append, hcomment, List.nil_append]

/-- An ending that turns no line into a comment and no comment into a line of code. -/
structure IsPlainEnding (ending : String) : Prop where
  begins : ∃ c ∈ ending.toList.head?, c ≠ '/'
  lineFeed_not_mem : '\n' ∉ ending.toList

/-- Whether a line is a comment is decided before a plain ending. -/
theorem IsPlainEnding.isComment_append {ending : String} (h : IsPlainEnding ending)
    (l : List Char) : isComment (l ++ ending.toList) = isComment l := by
  obtain ⟨c, hc, hslash⟩ := h.begins
  obtain ⟨cs, hcs⟩ := List.head?_eq_some_iff.mp hc
  rw [hcs, Bool.eq_iff_iff, isComment, isComment, List.isPrefixOf_iff_prefix,
    List.isPrefixOf_iff_prefix]
  match l with
  | [] => simp [List.cons_prefix_cons, hslash.symm]
  | [a] => simp [List.cons_prefix_cons, hslash.symm]
  | a :: b :: l => simp [List.cons_prefix_cons]

/-- How many lines of code are left does not depend on the ending. -/
theorem length_codeLinesOf_append {ending ending' : String} (h : IsPlainEnding ending)
    (h' : IsPlainEnding ending') (cs : List Char) :
    (codeLinesOf (cs ++ ending.toList)).length = (codeLinesOf (cs ++ ending'.toList)).length := by
  -- The induction is on the lines before the last one, which are the same on both sides.
  induction hn : cs.length using Nat.strongRecOn generalizing cs with
  | ind n ih =>
      cases hcs : afterLineFeed? cs with
      | none =>
          have hone {e : String} (he : IsPlainEnding e) :
              (codeLinesOf (cs ++ e.toList)).length = if isComment cs then 0 else 1 := by
            have hfree : '\n' ∉ cs ++ e.toList := by
              rw [List.mem_append, not_or]
              exact ⟨afterLineFeed?_eq_none_iff.mp hcs, he.lineFeed_not_mem⟩
            rw [codeLinesOf, List.splitOn_eq_singleton hfree, List.filter_cons,
              he.isComment_append]
            cases isComment cs <;> rfl
          rw [hone h, hone h']
      | some rest =>
          obtain ⟨first, rfl, -⟩ := exists_of_afterLineFeed?_eq_some hcs
          have hrest := ih rest.length (by simp at hn; omega) rest rfl
          rw [List.append_assoc, List.append_assoc, List.cons_append, List.cons_append,
            codeLinesOf_append, codeLinesOf_append, List.length_append, List.length_append, hrest]

/-- How many lines a name leaves behind does not depend on the comment it stands in. -/
theorem length_spilled {ending ending' : String} (h : IsPlainEnding ending)
    (h' : IsPlainEnding ending') (name : String) :
    (spilled name ending).length = (spilled name ending').length := by
  rw [spilled, spilled]
  cases afterLineFeed? name.toList with
  | none => rfl
  | some rest => exact length_codeLinesOf_append h h' rest

/-! ### The beginning of a file -/

/-- How the comment that marks a file as generated goes on after the name of the document. -/
def markEnding : String := "`. Do not edit by hand."

/-- How the comment that says what is in a file goes on after the name of the document. -/
def summaryEnding : String := "`."

/-- The comment that marks a file goes on plainly after the name. -/
theorem isPlainEnding_markEnding : IsPlainEnding markEnding :=
  ⟨⟨_, rfl, by decide⟩, by decide⟩

/-- So does the comment that says what is in it. -/
theorem isPlainEnding_summaryEnding : IsPlainEnding summaryEnding :=
  ⟨⟨_, rfl, by decide⟩, by decide⟩

/-- Two names leave the same lines of code behind in the comments at the beginning of a file. -/
def SpillsAlike (name name' : String) : Prop :=
  spilled name markEnding = spilled name' markEnding ∧
    spilled name summaryEnding = spilled name' summaryEnding

instance (name name' : String) : Decidable (SpillsAlike name name') :=
  inferInstanceAs (Decidable (_ ∧ _))

/-- Names without line feeds leave nothing behind. -/
theorem spillsAlike_of_lineFeed_not_mem {name name' : String} (h : '\n' ∉ name.toList)
    (h' : '\n' ∉ name'.toList) : SpillsAlike name name' := by
  rw [SpillsAlike]
  simp only [spilled_eq_nil h, spilled_eq_nil h', and_self]

/-- What the first lines of a file of the kind say about it, up to the name of the document. -/
def ArtifactKind.topic : ArtifactKind → String
  | actionTypeIds => "Action type ids declared in `"
  | portKeys => "Port keys for actions declared in `"
  | actionProviders => "Action providers for actions declared in `"
  | markerTypeIds => "Marker type ids declared in `"
  | markerComponents => "Marker components declared in `"
  | markerProviders => "Editor marker providers for `"
  | manifest => "Registration manifest for `"

/-- Code after the lines with which files of the kind begin. -/
def headed (name : String) (k : ArtifactKind) (code : Code) : Code :=
  Code.fileHeader name (k.topic ++ name ++ summaryEnding) ++ code

/-- The code in the text of a file: what the name spills in the two comments, the empty line after
them, and the code that follows. -/
theorem codeLines_headed (name : String) (k : ArtifactKind) (code : Code) :
    codeLines (headed name k code).render =
      spilled name markEnding ++ (spilled name summaryEnding ++ ([] :: codeLines code.render)) := by
  have hmark := codeLinesOf_comment "// @generated by actiondef from `" name
    (by decide) (by decide) isPlainEnding_markEnding.lineFeed_not_mem
  have hsummary := codeLinesOf_comment ("//! " ++ k.topic) name
    (by cases k <;> decide) (by cases k <;> decide) isPlainEnding_summaryEnding.lineFeed_not_mem
  rw [headed, Code.fileHeader, List.cons_append, List.cons_append, List.cons_append,
    List.nil_append, codeLines_render_line (by simp), codeLines_render_line (by simp),
    codeLines_render_gap, ← hmark, ← hsummary]
  simp only [markEnding, String.append_assoc]

/-- **Two names lead to the same code** exactly if they spill the same lines. -/
theorem codeLines_headed_eq_iff {name name' : String} (k : ArtifactKind) (code : Code) :
    codeLines (headed name k code).render = codeLines (headed name' k code).render ↔
      SpillsAlike name name' := by
  rw [codeLines_headed, codeLines_headed, SpillsAlike, ← List.append_assoc, ← List.append_assoc,
    List.append_left_inj]
  constructor
  · intro h
    -- The spills of the two comments have the same length, so each takes half of the lines.
    have hlength := congrArg List.length h
    rw [List.length_append, List.length_append,
      length_spilled isPlainEnding_summaryEnding isPlainEnding_markEnding name,
      length_spilled isPlainEnding_summaryEnding isPlainEnding_markEnding name'] at hlength
    exact List.append_inj h (by omega)
  · rintro ⟨hmark, hsummary⟩
    rw [hmark, hsummary]

/-! ### Files under another name -/

/-- The file with a name of the document in its first lines. -/
def Artifact.named (name : String) (a : Artifact) : Artifact :=
  { a with code := headed name a.kind (a.code.drop 3) }

/-- **The name of the document shows in the first lines of a file only.** -/
theorem artifact?_eq_map_named (name : String) (c : Context) (ds : List Definition)
    (k : ArtifactKind) :
    artifact? { c with document := name } ds k = (artifact? c ds k).map (Artifact.named name) := by
  have hof {α : Type} (items : List α) {code code' : List α → Code}
      (h : code' items = headed name k ((code items).drop 3)) :
      Artifact.of? k { c with document := name } items code' =
        (Artifact.of? k c items code).map (Artifact.named name) := by
    rw [Artifact.of?, Artifact.of?]
    split
    · rfl
    · rw [Option.map_some, h]
      rfl
  cases k <;> exact hof _ rfl

/-- So the files of a document with another name are its files with other first lines. -/
theorem artifacts_eq_map_named (name : String) (c : Context) (ds : List Definition) :
    artifacts { c with document := name } ds = (artifacts c ds).map (Artifact.named name) := by
  rw [artifacts, artifacts, List.map_filterMap]
  exact congrArg (List.filterMap · ArtifactKind.all) (funext (artifact?_eq_map_named name c ds))

/-! ### Documents under another name -/

namespace Document

/-- What a document defines depends on its text only. -/
theorem definitions_resolve_congr {d d' : Document} (h : d.text = d'.text) (o : Options) :
    (d.resolve o).definitions = (d'.resolve o).definitions := by
  simp only [resolve, h]

/-- The files of a document under another name with the same module. -/
theorem artifacts_compile_eq_map_named {d d' : Document} (o : Options) (htext : d.text = d'.text)
    (hmodule : moduleName d.name = moduleName d'.name) (hne : moduleName d.name ≠ "") :
    (d'.compile o).artifacts = (d.compile o).artifacts.map (Artifact.named d'.name) := by
  rw [compile_eq rfl hne rfl, compile_eq hmodule.symm hne (definitions_resolve_congr htext o).symm]
  exact artifacts_eq_map_named d'.name ⟨d.name, moduleName d.name, o⟩ (d.resolve o).definitions

/-- **What a name can put into the code.** The same text under two names with the same module gives
files of the same kinds. The code of two such files, without the lines that are comments, is the
same exactly if the two names spill the same lines, as names without line feeds do. -/
theorem codeLines_eq_iff_spillsAlike (d d' : Document) (o : Options) (htext : d.text = d'.text)
    (hmodule : moduleName d.name = moduleName d'.name) (hne : moduleName d.name ≠ "") :
    List.Forall₂
        (fun a a' : Artifact => a.kind = a'.kind ∧ a.module = a'.module ∧
          (codeLines a.content = codeLines a'.content ↔ SpillsAlike d.name d'.name))
        (d.compile o).artifacts (d'.compile o).artifacts ∧
      ('\n' ∉ d.name.toList → '\n' ∉ d'.name.toList → SpillsAlike d.name d'.name) := by
  refine ⟨?_, spillsAlike_of_lineFeed_not_mem⟩
  have hself := artifacts_compile_eq_map_named o rfl rfl hne
  rw [artifacts_compile_eq_map_named o htext hmodule hne, hself, List.map_map,
    List.forall₂_map_left_iff, List.forall₂_map_right_iff, List.forall₂_same]
  intro a _
  exact ⟨rfl, rfl, codeLines_headed_eq_iff a.kind _⟩

/-- A document with a marker, under a name. -/
def lamp (name : String) : Document := ⟨name, "marker Lamp \x7b \x7d"⟩

/-- A blank and a dash in a name lead to the same module, and to the same code in all four files. -/
theorem codeLines_eq_iff_spillsAlike_of_lamp :
    moduleName "a b" = moduleName "a-b" ∧ moduleName "a b" ≠ "" ∧
      ((lamp "a b").compile {}).artifacts.length = 4 ∧
      List.Forall₂
        (fun a a' : Artifact => a.kind = a'.kind ∧ codeLines a.content = codeLines a'.content)
        ((lamp "a b").compile {}).artifacts ((lamp "a-b").compile {}).artifacts := by
  have hmodule : moduleName "a b" = moduleName "a-b" := by decide +kernel
  have hne : moduleName "a b" ≠ "" := by decide +kernel
  obtain ⟨hfiles, hspills⟩ :=
    codeLines_eq_iff_spillsAlike (lamp "a b") (lamp "a-b") {} rfl hmodule hne
  refine ⟨hmodule, hne, by decide +kernel, hfiles.imp ?_⟩
  rintro a a' ⟨hkind, -, hcode⟩
  exact ⟨hkind, hcode.mpr (hspills (by decide) (by decide))⟩

/-- A line feed in place of the blank leads to the same module as well, but what follows it becomes
code. -/
theorem not_codeLines_eq_of_lineFeed :
    moduleName "a b" = moduleName "a\nb" ∧ moduleName "a b" ≠ "" ∧
      ∃ a ∈ ((lamp "a b").compile {}).artifacts, ∃ a' ∈ ((lamp "a\nb").compile {}).artifacts,
        a.kind = a'.kind ∧ codeLines a.content ≠ codeLines a'.content := by
  decide +kernel

end Document

end Defsheet

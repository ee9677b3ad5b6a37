import Defsheet.Proofs.NamesInComments
import Defsheet.Proofs.SiblingFiles

/-!
# Labels and gizmos in comments

The label and the gizmo of a marker are free text, or nearly so, and the file of marker components
shows them in comments only. What is left of the file without its comments is a skeleton that knows
of each marker nothing but its two identifiers.

The comments themselves carry the label line by line. They are doc comments, and the rules of
generated code allow no carriage return in these. A carriage return at the end of a line goes away
with the other blanks there, but one in the middle of a line stays.

## Main results

* `codeLines_markerComponentsCode`: what is left of the file without its comments.
* `codeLines_components_congr`: labels, names and gizmos do not reach the code.
* `hasLines_iff`: the lines of a text.
* `Document.label_documented`: the comments above a component, and when they are allowed.
* `Document.not_isDocComment_of_return`: a label that leads to a comment which is not.
-/

namespace Defsheet

/-! ### Code without comments -/

/-- The lines of code in a text are those of its lines, and the empty one behind the last line feed.
-/
theorem codeLines_render (code : Code) :
    codeLines code.render = (code.flatMap fun l => codeLinesOf l.chars) ++ [[]] := by
  induction code with
  | nil => rfl
  | cons l code ih => rw [codeLines_render_cons, ih, List.flatMap_cons, List.append_assoc]

/-- The slashes of a comment are no blanks, so they are left. -/
theorem trimEnd_slashes (l : List Char) :
    trimEnd ("/// ".toList ++ l) = '/' :: '/' :: '/' :: trimEnd (' ' :: l) := by
  have htext : "/// ".toList ++ l = '/' :: '/' :: '/' :: ' ' :: l := rfl
  rw [htext, trimEnd_cons (by decide), trimEnd_cons (by decide), trimEnd_cons (by decide)]

/-- The comment for a line has no blanks at its end. -/
theorem chars_labelComment {l : List Char} (h : '\n' ∉ l) :
    (labelComment l).chars = trimEnd ("/// ".toList ++ l) := by
  rw [CodeLine.chars_eq (isFirm_labelComment h), labelComment, String.toList_ofList]
  rfl

/-- The comment for a line is no line of code. -/
theorem codeLinesOf_labelComment {l : List Char} (h : '\n' ∉ l) :
    codeLinesOf (labelComment l).chars = [] := by
  have hfirm := isFirm_labelComment h
  refine codeLinesOf_of_isComment ?_ (CodeLine.IsTidy.lineFeed_not_mem_chars (.inr hfirm))
  rw [chars_labelComment h, trimEnd_slashes]
  rfl

/-- Nor is the comment about a gizmo. -/
theorem codeLinesOf_gizmoComment (g : Gizmo) : codeLinesOf (gizmoComment g).chars = [] := by
  have hfirm := isFirm_gizmoComment g
  refine codeLinesOf_of_isComment ?_ (CodeLine.IsTidy.lineFeed_not_mem_chars (.inr hfirm))
  rw [CodeLine.chars_eq hfirm, gizmoComment]
  simp [isComment]

/-- The component of a marker without its comments. -/
def markerSkeleton (c : Context) (ident idConst : String) : Code :=
  [Code.line "#[derive(Debug, Clone, Default)]", Code.line ("pub struct " ++ ident ++ ";"),
      Code.gap]
    ++ Code.block ("impl " ++ c.options.runtimePath ++ "::MarkerComponent for " ++ ident)
      [Code.line ("const TYPE_ID: &'static str = " ++ c.runtimeName .markerTypeIds idConst ++ ";")]
      ""

/-- A component consists of comments and its skeleton. -/
theorem markerComponent_eq (c : Context) (m : MarkerDefinition) :
    markerComponent c m = labelComments m.displayName ++ (m.gizmo.map gizmoComment).toList ++
      markerSkeleton c m.ident m.idConst :=
  List.append_assoc _ _ _

/-- Nothing of the comments is code. -/
theorem flatMap_markerComponent (c : Context) (m : MarkerDefinition) :
    ((markerComponent c m).flatMap fun l => codeLinesOf l.chars) =
      (markerSkeleton c m.ident m.idConst).flatMap fun l => codeLinesOf l.chars := by
  have hlabel : ((labelComments m.displayName).flatMap fun l => codeLinesOf l.chars) = [] := by
    refine List.flatMap_eq_nil_iff.mpr fun l hl => ?_
    obtain ⟨cs, hcs, rfl⟩ := List.mem_map.mp hl
    exact codeLinesOf_labelComment (lineFeed_not_mem_of_mem_lines hcs)
  have hgizmo : ((m.gizmo.map gizmoComment).toList.flatMap fun l => codeLinesOf l.chars) = [] := by
    cases m.gizmo <;> simp [codeLinesOf_gizmoComment]
  rw [markerComponent_eq, List.flatMap_append, List.flatMap_append, hlabel, hgizmo,
    List.nil_append, List.nil_append]

/-- What is made of pieces with gaps between them is made of what is made of each piece. -/
theorem flatMap_joinWithGaps_congr {α : Type} {f : CodeLine → List α} {codes codes' : List Code}
    (h : List.Forall₂ (fun code code' => code.flatMap f = code'.flatMap f) codes codes') :
    (joinWithGaps codes).flatMap f = (joinWithGaps codes').flatMap f := by
  induction h with
  | nil => rfl
  | @cons code code' codes codes' hcode hcodes ih =>
      cases hcodes with
      | nil => exact hcode
      | cons => simp only [joinWithGaps, List.flatMap_append, List.flatMap_cons, hcode, ih]

/-- **What is left of the file of components** without its comments is made of skeletons. -/
theorem codeLines_markerComponentsCode (c : Context) (ms : List MarkerDefinition) :
    codeLines (markerComponentsCode c ms).render =
      codeLines (headed c.document .markerComponents
        (joinWithGaps (ms.map fun m => markerSkeleton c m.ident m.idConst))).render := by
  have hbody : ((joinWithGaps (ms.map (markerComponent c))).flatMap fun l => codeLinesOf l.chars) =
      (joinWithGaps (ms.map fun m => markerSkeleton c m.ident m.idConst)).flatMap
        fun l => codeLinesOf l.chars := by
    refine flatMap_joinWithGaps_congr ?_
    rw [List.forall₂_map_left_iff, List.forall₂_map_right_iff, List.forall₂_same]
    exact fun m _ => flatMap_markerComponent c m
  rw [codeLines_render, codeLines_render, markerComponentsCode, headed, List.flatMap_append,
    List.flatMap_append, hbody]
  rfl

/-- **Labels, names and gizmos do not reach the code.** The files of components for markers with the
same identifiers are the same without the lines that are comments, whatever the markers are called
and whatever their labels and gizmos are; and there is such a file for both or for neither. -/
theorem codeLines_components_congr (c : Context) (ds ds' : List Definition)
    (h : List.Forall₂ (fun m m' => m.ident = m'.ident ∧ m.idConst = m'.idConst)
      (Definition.markers ds) (Definition.markers ds')) :
    (artifact? c ds .markerComponents).map (fun a => codeLines a.content) =
      (artifact? c ds' .markerComponents).map fun a => codeLines a.content := by
  have hskeletons : (Definition.markers ds).map (fun m => markerSkeleton c m.ident m.idConst) =
      (Definition.markers ds').map fun m => markerSkeleton c m.ident m.idConst := by
    rw [← List.forall₂_eq_eq_eq, List.forall₂_map_left_iff, List.forall₂_map_right_iff]
    refine h.imp ?_
    rintro m m' ⟨hident, hconst⟩
    rw [hident, hconst]
  have hempty : (Definition.markers ds).isEmpty = (Definition.markers ds').isEmpty := by
    simpa only [List.isEmpty_map] using congrArg List.isEmpty hskeletons
  simp only [artifact?, Artifact.of?, hempty]
  split
  · rfl
  · simp only [Option.map_some, Artifact.content, codeLines_markerComponentsCode, hskeletons]

/-- A label that would end the comment if it could, and a marker with the same identifiers that has
neither label nor gizmo: the texts of their files are different, and the code is not. -/
theorem codeLines_components_congr_of_label :
    let m : MarkerDefinition :=
      ⟨"Gate", "Gate", "GATE", some "North\r\nmod evil;\r\n\n*/ \t", some ⟨.box, none⟩, 1⟩
    let m' : MarkerDefinition := ⟨"Door", "Gate", "GATE", none, none, 7⟩
    let c : Context := ⟨"level", "level", {}⟩
    (artifact? c [.marker m] .markerComponents).map Artifact.content ≠
        (artifact? c [.marker m'] .markerComponents).map Artifact.content ∧
      (artifact? c [.marker m] .markerComponents).map (fun a => codeLines a.content) =
        (artifact? c [.marker m'] .markerComponents).map fun a => codeLines a.content := by
  intro m m' c
  refine ⟨by decide +kernel, codeLines_components_congr c [.marker m] [.marker m'] ?_⟩
  exact .cons ⟨rfl, rfl⟩ .nil

/-! ### Lines -/

/-- The text consists of the lines: every line ends at a line feed, with or without a carriage
return before it, or at the end of the text. -/
inductive HasLines : List Char → List (List Char) → Prop
  | nil : HasLines [] []
  | last {l : List Char} : l ≠ [] → '\n' ∉ l → HasLines l [l]
  | feed {l rest : List Char} {ls : List (List Char)} :
      '\n' ∉ l → l.getLast? ≠ some '\r' → HasLines rest ls → HasLines (l ++ '\n' :: rest) (l :: ls)
  | returnFeed {l rest : List Char} {ls : List (List Char)} :
      '\n' ∉ l → HasLines rest ls → HasLines (l ++ '\r' :: '\n' :: rest) (l :: ls)

/-- A text without a line feed is one line. -/
theorem lines_eq_singleton {l : List Char} (hne : l ≠ []) (hfeed : '\n' ∉ l) : lines l = [l] := by
  induction l with
  | nil => exact absurd rfl hne
  | cons c l ih =>
      rw [List.mem_cons, not_or] at hfeed
      cases l with
      | nil =>
          rw [lines]
          · rfl
          · exact Ne.symm hfeed.1
          · rintro _ - ⟨⟩
      | cons c' l =>
          refine lines_cons_of_eq (Ne.symm hfeed.1) ?_ (ih (List.cons_ne_nil _ _) hfeed.2)
          rintro _ - hhead
          exact hfeed.2 ((List.cons.inj hhead).1 ▸ List.mem_cons_self)

/-- A carriage return and a line feed end a line together. -/
theorem lines_concat_returnFeed {l : List Char} (hfeed : '\n' ∉ l) :
    lines (l ++ ['\r', '\n']) = [l] := by
  induction l with
  | nil => rfl
  | cons c l ih =>
      rw [List.mem_cons, not_or] at hfeed
      refine lines_cons_of_eq (Ne.symm hfeed.1) ?_ (ih hfeed.2)
      rintro _ - hhead
      cases l with
      | nil => exact absurd (List.cons.inj hhead).1 (by decide)
      | cons c' l => exact hfeed.2 ((List.cons.inj hhead).1 ▸ List.mem_cons_self)

/-- A character that ends no line goes to the front of the first line. -/
theorem HasLines.cons {c : Char} {cs l : List Char} {ls : List (List Char)} (hc : c ≠ '\n')
    (hcr : ∀ cs', c = '\r' → cs = '\n' :: cs' → False) (h : HasLines cs (l :: ls)) :
    HasLines (c :: cs) ((c :: l) :: ls) := by
  have hmem {l : List Char} (hl : '\n' ∉ l) : '\n' ∉ c :: l := by
    rw [List.mem_cons, not_or]
    exact ⟨Ne.symm hc, hl⟩
  cases h with
  | last _ hl => exact .last (List.cons_ne_nil _ _) (hmem hl)
  | @feed _ rest _ hl hends hrest =>
      refine .feed (l := c :: l) (hmem hl) ?_ hrest
      cases l with
      | nil => exact fun hlast => hcr rest (Option.some.inj hlast) rfl
      | cons c' l => rwa [List.getLast?_cons_cons]
  | returnFeed hl hrest => exact .returnFeed (l := c :: l) (hmem hl) hrest

/-- **The lines of a text** are those that it consists of. -/
theorem hasLines_iff {cs : List Char} {ls : List (List Char)} : HasLines cs ls ↔ ls = lines cs := by
  constructor
  · intro h
    induction h with
    | nil => rfl
    | last hne hl => exact (lines_eq_singleton hne hl).symm
    | @feed l rest ls hl hends _ ih =>
        rw [List.append_cons, lines_append (getLast?_lineFeed l), lines_concat hl hends, ← ih,
          List.singleton_append]
    | @returnFeed l rest ls hl _ ih =>
        have hends : ∀ c ∈ (l ++ ['\r', '\n']).getLast?, c = '\n' := by simp
        have hsplit : l ++ '\r' :: '\n' :: rest = l ++ ['\r', '\n'] ++ rest := by simp
        rw [hsplit, lines_append hends, lines_concat_returnFeed hl, ← ih, List.singleton_append]
  · rintro rfl
    fun_induction lines cs with
    | case1 => exact .nil
    | case2 cs ih => exact .feed (l := []) List.not_mem_nil (fun h => by cases h) ih
    | case3 cs ih => exact .returnFeed (l := []) List.not_mem_nil ih
    | case4 c cs hc hcr hnil ih =>
        obtain rfl : cs = [] := Classical.not_not.mp fun hne => lines_ne_nil hne hnil
        exact .last (List.cons_ne_nil _ _) (by simpa using Ne.symm hc)
    | case5 c cs hc hcr l ls heq ih =>
        rw [heq] at ih
        exact ih.cons hc hcr

/-! ### Doc comments -/

/-- A doc comment by the rules of generated code: three slashes, no fourth one, and whatever follows
on the line. A carriage return is not allowed in it. -/
structure IsDocComment (l : List Char) : Prop where
  opens : "///".toList <+: l
  noFourth : ¬"////".toList <+: l
  lineFeed_not_mem : '\n' ∉ l
  return_not_mem : '\r' ∉ l

/-- A blank stays only in front of something else. -/
theorem trimEnd_cons_blank {c : Char} (h : isBlank c = true) (cs : List Char) :
    trimEnd (c :: cs) = if trimEnd cs = [] then [] else c :: trimEnd cs := by
  simp only [trimEnd, List.reverse_cons, List.dropWhile_append, List.isEmpty_iff,
    List.reverse_eq_nil_iff]
  split
  · rw [List.dropWhile_cons_of_pos h]
    rfl
  · rw [List.reverse_append]
    rfl

/-- **When the comment for a line is allowed**: if no carriage return is left of the line without
the blanks at its end. -/
theorem isDocComment_iff {l : List Char} (hfeed : '\n' ∉ l) :
    IsDocComment (trimEnd ("/// ".toList ++ l)) ↔ '\r' ∉ trimEnd l := by
  have hline := CodeLine.IsTidy.lineFeed_not_mem_chars (.inr (isFirm_labelComment hfeed))
  rw [chars_labelComment hfeed] at hline
  have hreturn : '\r' ∈ trimEnd ("/// ".toList ++ l) ↔ '\r' ∈ trimEnd l := by
    rw [trimEnd_slashes, trimEnd_cons_blank (by decide)]
    split
    · next hempty => simp [hempty]
    · simp
  constructor
  · exact fun h hmem => h.return_not_mem (hreturn.mpr hmem)
  · intro h
    refine ⟨?_, ?_, hline, mt hreturn.mp h⟩
    · rw [trimEnd_slashes]
      exact List.prefix_append ['/', '/', '/'] _
    · rw [trimEnd_slashes, trimEnd_cons_blank (by decide)]
      split <;> simp [List.cons_prefix_cons]

/-! ### Comments above components -/

/-- How the text of a component goes on after the comments with its label. -/
def MarkerDefinition.declaration (m : MarkerDefinition) : String :=
  m.gizmo.elim "" (fun g => "// gizmo: " ++ g.text ++ "\n")
    ++ "#[derive(Debug, Clone, Default)]\npub struct " ++ m.ident ++ ";\n"

/-- The comments above the declaration of a marker in a text: what stands between it and the empty
line before it. -/
def MarkerDefinition.IsHeadedBy (content : String) (comments : List (List Char))
    (m : MarkerDefinition) : Prop :=
  ∃ before after, content.toList =
    before ++ ['\n', '\n'] ++ (comments.flatMap fun l => l ++ ['\n']) ++ m.declaration.toList ++
      after

/-- A piece of code stands behind a gap, if there is something before the first one. -/
theorem exists_joinWithGaps_eq {codes : List Code} {code : Code} (h : code ∈ codes)
    {before : Code} (hne : before ≠ []) :
    ∃ before' after, before' ≠ [] ∧
      before ++ Code.gap :: joinWithGaps codes = before' ++ Code.gap :: (code ++ after) := by
  fun_induction joinWithGaps codes generalizing before with
  | case1 => cases h
  | case2 code' =>
      obtain rfl := List.mem_singleton.mp h
      exact ⟨before, [], hne, by rw [List.append_nil]⟩
  | case3 code' codes _ ih =>
      obtain rfl | hmem := List.mem_cons.mp h
      · exact ⟨before, _, hne, rfl⟩
      · obtain ⟨before', after, hne', heq⟩ :=
          ih hmem (List.append_ne_nil_of_left_ne_nil hne (Code.gap :: code'))
        refine ⟨before', after, hne', ?_⟩
        rw [← heq, List.append_assoc, List.cons_append]

/-- Code that is there ends with a line feed. -/
theorem exists_flatMap_chars_eq {code : Code} (h : code ≠ []) :
    ∃ cs, (code.flatMap fun l => l.chars ++ ['\n']) = cs ++ ['\n'] := by
  obtain ⟨init, l, rfl⟩ := (List.eq_nil_or_concat' code).resolve_left h
  refine ⟨(init.flatMap fun l => l.chars ++ ['\n']) ++ l.chars, ?_⟩
  rw [List.flatMap_append, List.flatMap_singleton, List.append_assoc]

/-- The text of a component: the comments with the label, and the declaration. -/
theorem exists_flatMap_markerComponent_eq (c : Context) (m : MarkerDefinition) :
    ∃ rest, ((markerComponent c m).flatMap fun l => l.chars ++ ['\n']) =
      (((lines m.displayName.toList).map fun l => trimEnd ("/// ".toList ++ l)).flatMap
        fun l => l ++ ['\n']) ++ m.declaration.toList ++ rest := by
  have hlabel : ((labelComments m.displayName).flatMap fun l => l.chars ++ ['\n']) =
      ((lines m.displayName.toList).map fun l => trimEnd ("/// ".toList ++ l)).flatMap
        fun l => l ++ ['\n'] := by
    rw [labelComments, List.flatMap_map, List.flatMap_map]
    refine List.flatMap_congr fun l hl => ?_
    rw [chars_labelComment (lineFeed_not_mem_of_mem_lines hl)]
  have hgizmo : ((m.gizmo.map gizmoComment).toList.flatMap fun l => l.chars ++ ['\n']) =
      (m.gizmo.elim "" fun g => "// gizmo: " ++ g.text ++ "\n").toList := by
    cases m.gizmo with
    | none => rfl
    | some g =>
        have hchars : (gizmoComment g).chars = ("// gizmo: " ++ g.text).toList :=
          CodeLine.chars_eq (isFirm_gizmoComment g)
        simp [hchars]
  have hline {s : String} (hs : s ≠ "") : (Code.line s).chars = s.toList := by
    simp [CodeLine.chars, Code.line, hs]
  refine ⟨((markerSkeleton c m.ident m.idConst).drop 2).flatMap fun l => l.chars ++ ['\n'], ?_⟩
  rw [markerComponent_eq, List.flatMap_append, List.flatMap_append, hlabel, hgizmo, markerSkeleton,
    List.cons_append, List.cons_append, List.flatMap_cons, List.flatMap_cons, hline (by simp),
    hline (by simp)]
  simp [MarkerDefinition.declaration]

/-- **The comments above a component** in the text of the file are made from the lines of its
label. -/
theorem isHeadedBy_markerComponentsCode (c : Context) {ms : List MarkerDefinition}
    {m : MarkerDefinition} (hm : m ∈ ms) :
    m.IsHeadedBy (markerComponentsCode c ms).render
      ((lines m.displayName.toList).map fun l => trimEnd ("/// ".toList ++ l)) := by
  have hheader : ∃ before, before ≠ [] ∧ markerComponentsCode c ms =
      before ++ Code.gap :: joinWithGaps (ms.map (markerComponent c)) :=
    ⟨_, List.cons_ne_nil _ [_], rfl⟩
  obtain ⟨header, hne, hcode⟩ := hheader
  obtain ⟨before, after, hne, hsplit⟩ :=
    exists_joinWithGaps_eq (List.mem_map_of_mem (f := markerComponent c) hm) hne
  obtain ⟨cs, hcs⟩ := exists_flatMap_chars_eq hne
  obtain ⟨rest, hrest⟩ := exists_flatMap_markerComponent_eq c m
  refine ⟨cs, rest ++ after.flatMap fun l => l.chars ++ ['\n'], ?_⟩
  rw [hcode, hsplit, Code.toList_render, List.flatMap_append, List.flatMap_cons,
    List.flatMap_append, hcs, hrest]
  simp [CodeLine.chars, Code.gap]

/-- There is a file of components if there is a marker. -/
theorem artifact?_markerComponents (c : Context) {ds : List Definition} {m : MarkerDefinition}
    (hm : m ∈ Definition.markers ds) :
    artifact? c ds .markerComponents =
      some ⟨.markerComponents, c.module, markerComponentsCode c (Definition.markers ds)⟩ := by
  rw [artifact?, Artifact.of?, if_neg]
  rw [List.isEmpty_iff]
  exact List.ne_nil_of_mem hm

namespace Document

/-- **A label is documented line by line.** Whatever a document says, above the component of each of
its markers stands one comment for each line of the label: three slashes, a blank and the line,
without the blanks at the end. Such a comment is a doc comment by the rules of generated code
exactly if the line has no carriage return in it, those among the blanks at its end apart. -/
theorem label_documented (c : Context) (d : Document) (o : Options) (m : MarkerDefinition)
    (hm : m ∈ Definition.markers (d.resolve o).definitions) :
    ∃ a ∈ artifact? c (d.resolve o).definitions .markerComponents,
      ∃ ls, HasLines m.displayName.toList ls ∧
        m.IsHeadedBy a.content (ls.map fun l => trimEnd ("/// ".toList ++ l)) ∧
        ∀ l ∈ ls, IsDocComment (trimEnd ("/// ".toList ++ l)) ↔ '\r' ∉ trimEnd l := by
  refine ⟨_, artifact?_markerComponents c hm, lines m.displayName.toList, hasLines_iff.mpr rfl,
    isHeadedBy_markerComponentsCode c hm, fun l hl => ?_⟩
  exact isDocComment_iff (lineFeed_not_mem_of_mem_lines hl)

/-- A marker with a label. -/
def gate (label : String) : Document := ⟨"level", "marker Gate \x7b label \"" ++ label ++ "\" \x7d"⟩

/-- The definition of the marker. -/
def gateMarker (label : String) : MarkerDefinition := ⟨"Gate", "Gate", "GATE", some label, none, 1⟩

/-- Blanks and carriage returns at the ends of lines go away, and an empty line stays a comment. -/
theorem label_documented_of_gate :
    let d := gate "North \r\n\n Gate\r"
    let m := gateMarker "North \r\n\n Gate\r"
    let comments := ["/// North".toList, "///".toList, "///  Gate".toList]
    m ∈ Definition.markers (d.resolve {}).definitions ∧
      ∃ a ∈ artifact? (d.context {}) (d.resolve {}).definitions .markerComponents,
        m.IsHeadedBy a.content comments ∧ ∀ l ∈ comments, IsDocComment l := by
  intro d m comments
  have hm : m ∈ Definition.markers (d.resolve {}).definitions := by decide +kernel
  obtain ⟨a, ha, ls, hls, hheaded, hallowed⟩ := label_documented (d.context {}) d {} m hm
  obtain rfl : ls = ["North ".toList, [], " Gate\r".toList] :=
    (hasLines_iff.mp hls).trans (by decide +kernel)
  have hcomments : ["North ".toList, [], " Gate\r".toList].map
      (fun l => trimEnd ("/// ".toList ++ l)) = comments := by decide +kernel
  have hends : ∀ l ∈ ["North ".toList, [], " Gate\r".toList], '\r' ∉ trimEnd l := by
    decide +kernel
  rw [← hcomments]
  exact ⟨hm, a, ha, hheaded, List.forall_mem_map.mpr fun l hl => (hallowed l hl).mpr (hends l hl)⟩

/-- A carriage return in the middle of a line stays in the comment, where it is not allowed. -/
theorem not_isDocComment_of_return :
    let d := gate "a\rb"
    let m := gateMarker "a\rb"
    m ∈ Definition.markers (d.resolve {}).definitions ∧
      ∃ a ∈ artifact? (d.context {}) (d.resolve {}).definitions .markerComponents,
        m.IsHeadedBy a.content ["/// a\rb".toList] ∧ ¬IsDocComment "/// a\rb".toList := by
  intro d m
  have hm : m ∈ Definition.markers (d.resolve {}).definitions := by decide +kernel
  have hcomments : (lines m.displayName.toList).map (fun l => trimEnd ("/// ".toList ++ l)) =
      ["/// a\rb".toList] := by decide +kernel
  refine ⟨hm, _, artifact?_markerComponents _ hm, ?_, fun h => h.return_not_mem (by decide)⟩
  rw [← hcomments]
  exact isHeadedBy_markerComponentsCode _ hm

end Document

end Defsheet

import Defsheet.Proofs.Account
import Defsheet.Proofs.FileReading
import Defsheet.Proofs.Mounting
import Defsheet.Proofs.Projection

/-!
# Files refer to what their siblings define

The files of a document refer to one another by names: the manifest lists the constants of the files
of action providers and of marker type ids, components refer to marker type ids, and marker
providers to components. Each file is generated on its own. Read back from the texts of the files,
references and definitions agree, in their order and in their number.

For this the files have to be tidy, so that every line of their code is a line of their text. What
users choose freely is either written as a literal, or on comment lines of its own.

## Main definitions

* `Document.IsCoherent` says that the files of a document agree.

## Main results

* `Document.isCoherent_of_lineFeed_not_mem`: the files of a document agree.
-/

namespace Defsheet

/-! ### Lines -/

/-- Nothing that files are told about has a line feed in it. -/
structure Context.OnOneLine (c : Context) : Prop where
  document : '\n' ∉ c.document.toList
  module : '\n' ∉ c.module.toList
  runtimePath : '\n' ∉ c.options.runtimePath.toList
  editorPath : '\n' ∉ c.options.editorPath.toList
  generatedPath : '\n' ∉ c.options.generatedPath.toList

/-- The modules of kinds are on one line. -/
theorem ArtifactKind.lineFeed_not_mem_module (k : ArtifactKind) : '\n' ∉ k.module.toList :=
  k.isUnbroken_module.1

namespace Context.OnOneLine

variable {c : Context}

/-- So is a qualified name. -/
theorem runtimeName (hc : c.OnOneLine) (k : ArtifactKind) {name : String}
    (hname : '\n' ∉ name.toList) : '\n' ∉ (c.runtimeName k name).toList := by
  simp [Context.runtimeName, hc.generatedPath, hc.module, k.lineFeed_not_mem_module, hname]

/-- The header of a file is tidy. -/
theorem isTidy_fileHeader (hc : c.OnOneLine) {about : String} (h : '\n' ∉ about.toList) :
    Code.IsTidy (Code.fileHeader c.document (about ++ c.document ++ "`.")) :=
  Code.isTidy_fileHeader hc.document h

end Context.OnOneLine

/-- There is no line feed in a line. -/
theorem lineFeed_not_mem_of_mem_lines {cs l : List Char} (h : l ∈ lines cs) : '\n' ∉ l := by
  fun_induction lines cs generalizing l with
  | case1 => cases h
  | case2 cs ih =>
      obtain rfl | h := List.mem_cons.mp h
      · exact List.not_mem_nil
      · exact ih h
  | case3 cs ih =>
      obtain rfl | h := List.mem_cons.mp h
      · exact List.not_mem_nil
      · exact ih h
  | case4 c cs hc hcr hnil ih =>
      obtain rfl := List.mem_singleton.mp h
      simpa using Ne.symm hc
  | case5 c cs hc hcr l' ls heq ih =>
      obtain rfl | h := List.mem_cons.mp h
      · rw [List.mem_cons, not_or]
        exact ⟨Ne.symm hc, ih (heq ▸ List.mem_cons_self)⟩
      · exact ih (heq ▸ List.mem_cons_of_mem _ h)

/-- The comment for a line of a label is firm, as the blanks at its end are left out. -/
theorem isFirm_labelComment {l : List Char} (h : '\n' ∉ l) : IsFirm (labelComment l).text := by
  rw [labelComment]
  refine ⟨⟨'/', ?_, by decide⟩, ?_, ?_⟩
  · rw [String.toList_ofList, trimEnd_cons (by decide)]
    rfl
  · rw [String.toList_ofList, trimEnd, List.mem_reverse]
    intro hmem
    have hline := (List.dropWhile_sublist _).subset hmem
    rw [List.mem_reverse] at hline
    simp [h] at hline
  · rw [String.toList_ofList, trimEnd, List.getLast?_reverse]
    intro hlast
    exact absurd (head?_dropWhile_eq_false _ hlast) (by decide)

/-- The comment about a gizmo stays one line. -/
theorem isFirm_gizmoComment (g : Gizmo) : IsFirm (gizmoComment g).text := by
  obtain ⟨shape, parameter⟩ := g
  cases parameter with
  | none => cases shape <;> simp [gizmoComment, Gizmo.text, GizmoShape.text, isFirm_iff]
  | some n =>
      have htext : '\n' ∉ n.text.toList := Numeral.not_mem_text rfl (by decide) (by decide)
      cases shape <;> simp [gizmoComment, Gizmo.text, GizmoShape.text, isFirm_iff, htext,
        List.getLast?_cons]

/-- A decimal is written on one line. -/
theorem Decimal.lineFeed_not_mem_positional (d : Decimal) : '\n' ∉ d.positional := by
  have hdigits : '\n' ∉ Nat.toDigits 10 d.digits := by
    intro h
    exact absurd (Nat.isDigit_of_mem_toDigits (by decide) (by decide) h) (by decide)
  have htake (n : Nat) : '\n' ∉ (Nat.toDigits 10 d.digits).take n :=
    fun h => hdigits (List.mem_of_mem_take h)
  have hdrop (n : Nat) : '\n' ∉ (Nat.toDigits 10 d.digits).drop n :=
    fun h => hdigits (List.mem_of_mem_drop h)
  rw [positional]
  split
  · simp [hdigits]
  · dsimp only
    split
    · simp [htake, hdrop]
    · simp [hdigits]

/-- So is the literal of a number. -/
theorem Binary64.lineFeed_not_mem_literal (x : Binary64) : '\n' ∉ x.literal.toList := by
  have hbody : '\n' ∉ (if !x.isFinite then ['i', 'n', 'f'] else if x.magnitude = 0 then ['0']
      else x.window.shortest.positional) := by
    split
    · decide
    · split
      · decide
      · exact Decimal.lineFeed_not_mem_positional _
  have htext : '\n' ∉ x.text.toList := by
    rw [text]
    split
    · decide
    · rw [String.toList_ofList]
      split
      · simpa using hbody
      · exact hbody
  rw [literal]
  split
  · exact htext
  · simpa using htext

/-! ### Tidy files -/

/-- Gaps between tidy pieces are tidy. -/
theorem isTidy_joinWithGaps {codes : List Code} (h : ∀ code ∈ codes, Code.IsTidy code) :
    Code.IsTidy (joinWithGaps codes) := by
  fun_induction joinWithGaps codes with
  | case1 => exact Code.isTidy_nil
  | case2 code => exact h code List.mem_cons_self
  | case3 code codes _ ih =>
      rw [List.forall_mem_cons] at h
      exact Code.isTidy_append_iff.mpr ⟨h.1, Code.isTidy_cons_iff.mpr ⟨.inl rfl, ih h.2⟩⟩

/-- The identifiers of a marker have no line feed in them. -/
structure MarkerDefinition.OnOneLine (m : MarkerDefinition) : Prop where
  ident : '\n' ∉ m.ident.toList
  idConst : '\n' ∉ m.idConst.toList

namespace Context.OnOneLine

variable {c : Context} {ms : List MarkerDefinition}

/-- The file of action providers is tidy. -/
theorem isTidy_actionProvidersCode (hc : c.OnOneLine) {as : List ActionDefinition}
    (has : Code.IsTidy (as.flatMap fun a => Code.gap :: actionProvider a)) :
    Code.IsTidy (actionProvidersCode c as) := by
  rw [actionProvidersCode, Code.isTidy_append_iff, Code.isTidy_append_iff, Code.isTidy_cons_iff]
  refine ⟨⟨hc.isTidy_fileHeader (by decide), .inr ?_, Code.isTidy_nil⟩, has⟩
  simp [Code.line, isFirm_iff, List.getLast?_cons, hc.runtimePath]

/-- The file of marker type ids is tidy. -/
theorem isTidy_markerTypeIdsCode (hc : c.OnOneLine) (hms : ∀ m ∈ ms, m.OnOneLine) :
    Code.IsTidy (markerTypeIdsCode c ms) := by
  rw [markerTypeIdsCode, Code.isTidy_append_iff]
  refine ⟨hc.isTidy_fileHeader (by decide), fun l hl => .inr ?_⟩
  obtain ⟨m, hm, rfl⟩ := List.mem_map.mp hl
  exact isFirm_idConstLine (hms m hm).idConst m.name

/-- A component is tidy, whatever its label says. -/
theorem isTidy_markerComponent (hc : c.OnOneLine) {m : MarkerDefinition} (hm : m.OnOneLine) :
    Code.IsTidy (markerComponent c m) := by
  have hlabel : Code.AllTexts IsFirm (labelComments m.displayName) := by
    intro l hl
    obtain ⟨cs, hcs, rfl⟩ := List.mem_map.mp hl
    exact isFirm_labelComment (lineFeed_not_mem_of_mem_lines hcs)
  have hgizmo : Code.AllTexts IsFirm (m.gizmo.map gizmoComment).toList := by
    cases m.gizmo <;> simp [isFirm_gizmoComment]
  have hpath : '\n' ∉ (c.markerIdPath m).toList := hc.runtimeName _ hm.idConst
  have hblock : Code.AllTexts IsFirm (Code.block
      ("impl " ++ c.options.runtimePath ++ "::MarkerComponent for " ++ m.ident)
      [Code.line ("const TYPE_ID: &'static str = " ++ c.markerIdPath m ++ ";")] "") := by
    rw [Code.block, Code.allTexts_bracketed_iff, Code.allTexts_cons_iff]
    refine ⟨?_, ⟨?_, Code.allTexts_nil⟩, ?_⟩
    · simp [isFirm_iff, List.getLast?_cons, hc.runtimePath, hm.ident]
    · simp [Code.line, isFirm_iff, List.getLast?_cons, hpath]
    · simp [isFirm_iff]
  simp only [markerComponent, Code.isTidy_append_iff, Code.isTidy_cons_iff]
  refine ⟨⟨⟨hlabel.isTidy, hgizmo.isTidy⟩, .inr ?_, .inr ?_, .inl rfl, Code.isTidy_nil⟩,
    hblock.isTidy⟩
  · simp [Code.line, isFirm_iff]
  · simp [Code.line, isFirm_iff, List.getLast?_cons, hm.ident]

/-- The file of components is tidy. -/
theorem isTidy_markerComponentsCode (hc : c.OnOneLine) (hms : ∀ m ∈ ms, m.OnOneLine) :
    Code.IsTidy (markerComponentsCode c ms) := by
  rw [markerComponentsCode, Code.isTidy_append_iff]
  refine ⟨hc.isTidy_fileHeader (by decide), isTidy_joinWithGaps fun code hcode => ?_⟩
  obtain ⟨m, hm, rfl⟩ := List.mem_map.mp hcode
  exact hc.isTidy_markerComponent (hms m hm)

/-- The file of marker providers is tidy. -/
theorem isTidy_markerProvidersCode (hc : c.OnOneLine) (hms : ∀ m ∈ ms, m.OnOneLine) :
    Code.IsTidy (markerProvidersCode c ms) := by
  have hspacing := c.options.markerSpacing.lineFeed_not_mem_literal
  rw [markerProvidersCode, Code.isTidy_append_iff, Code.isTidy_append_iff, Code.isTidy_cons_iff]
  refine ⟨⟨hc.isTidy_fileHeader (by decide), .inr ?_, Code.isTidy_nil⟩, fun l hl => ?_⟩
  · simp [Code.line, isFirm_iff, List.getLast?_cons, hc.editorPath]
  · obtain ⟨m, hm, hl⟩ := List.mem_flatMap.mp hl
    have hprovider : Code.AllTexts IsFirm (markerProvider c m) := by
      simp only [markerProvider, Code.block, Code.allTexts_bracketed_iff, Code.allTexts_cons_iff]
      refine ⟨?_, ⟨?_, ?_, ?_, ?_, Code.allTexts_nil⟩, ?_⟩
      all_goals simp [Code.line, isFirm_iff, List.getLast?_cons, (hms m hm).idConst, hspacing]
    obtain rfl | hl := List.mem_cons.mp hl
    · exact .inl rfl
    · exact hprovider.isTidy l hl

/-- An import is tidy. -/
theorem isTidy_importAs (hc : c.OnOneLine) (k : ArtifactKind) {localName : String}
    (hlocal : '\n' ∉ localName.toList) (names : List String) :
    Code.IsTidy (importAs c k localName names) := by
  rw [importAs]
  split
  · exact Code.isTidy_nil
  · refine Code.isTidy_cons_iff.mpr ⟨.inr ?_, Code.isTidy_nil⟩
    simp [Code.line, isFirm_iff, List.getLast?_cons, hc.generatedPath, hc.module,
      k.lineFeed_not_mem_module, hlocal]

end Context.OnOneLine

/-- A list of a manifest is tidy, also if it is empty. -/
theorem isTidy_sliceCode {head module : String} {names : List String} (hhead : IsFirm head)
    (hempty : IsFirm (head ++ "];")) (hentry : ∀ n ∈ names, IsFirm (module ++ "::" ++ n ++ ",")) :
    Code.IsTidy (sliceCode head module names) := by
  rw [sliceCode]
  split
  · exact Code.isTidy_cons_iff.mpr ⟨.inr hempty, Code.isTidy_nil⟩
  · refine (Code.allTexts_bracketed_iff.mpr ⟨hhead, fun l hl => ?_, ?_⟩).isTidy
    · obtain ⟨n, hn, rfl⟩ := List.mem_map.mp hl
      exact hentry n hn
    · simp [isFirm_iff]

/-- The manifest is tidy. -/
theorem Context.OnOneLine.isTidy_manifestCode {c : Context} (hc : c.OnOneLine)
    {ds : List Definition} (has : ∀ a ∈ Definition.actions ds, '\n' ∉ a.providerConst.toList)
    (hms : ∀ m ∈ Definition.markers ds, m.OnOneLine) : Code.IsTidy (manifestCode c ds) := by
  simp only [manifestCode, Code.isTidy_append_iff, Code.isTidy_cons_iff]
  refine ⟨⟨⟨⟨⟨⟨⟨hc.isTidy_fileHeader (by decide), .inr ?_, .inl rfl, Code.isTidy_nil⟩,
    hc.isTidy_importAs _ (by decide) _⟩, hc.isTidy_importAs _ (by decide) _⟩, .inl rfl,
    Code.isTidy_nil⟩, isTidy_sliceCode ?_ ?_ fun n hn => ?_⟩, .inl rfl, Code.isTidy_nil⟩,
    isTidy_sliceCode ?_ ?_ fun n hn => ?_⟩
  · simp [Code.line, isFirm_iff, List.getLast?_cons, hc.runtimePath]
  · simp [isFirm_iff]
  · simp [isFirm_iff]
  · obtain ⟨a, ha, rfl⟩ := List.mem_map.mp hn
    simp [isFirm_iff, List.getLast?_cons, has a ha]
  · simp [isFirm_iff]
  · simp [isFirm_iff]
  · obtain ⟨m, hm, rfl⟩ := List.mem_map.mp hn
    simp [isFirm_iff, List.getLast?_cons, (hms m hm).idConst]

/-! ### Kinds of files -/

/-- Whether anything is defined that a file of the kind is for. -/
def ArtifactKind.isCalledFor (ds : List Definition) : ArtifactKind → Bool
  | actionTypeIds | portKeys | actionProviders => ds.any fun x => x.action?.isSome
  | markerTypeIds | markerComponents | markerProviders => ds.any fun x => x.marker?.isSome
  | manifest => !ds.isEmpty

/-- Nothing is left of a list if none of its items gives anything. -/
theorem isEmpty_filterMap {α β : Type} (f : α → Option β) (xs : List α) :
    (xs.filterMap f).isEmpty = !xs.any fun x => (f x).isSome := by
  rw [Bool.eq_iff_iff]
  simp [List.filterMap_eq_nil_iff]

/-- There is a file of a kind exactly if something is defined that it is for. -/
theorem map_kind_artifact? (c : Context) (ds : List Definition) (k : ArtifactKind) :
    (artifact? c ds k).map Artifact.kind = Option.guard (ArtifactKind.isCalledFor ds) k := by
  have hof {α : Type} (items : List α) (code : List α → Code) :
      (Artifact.of? k c items code).map Artifact.kind =
        Option.guard (fun _ => !items.isEmpty) k := by
    rw [Artifact.of?, Option.guard]
    cases items.isEmpty <;> rfl
  have hactions : (!(Definition.actions ds).isEmpty) = ds.any fun x => x.action?.isSome := by
    rw [Definition.actions, isEmpty_filterMap, Bool.not_not]
  have hmarkers : (!(Definition.markers ds).isEmpty) = ds.any fun x => x.marker?.isSome := by
    rw [Definition.markers, isEmpty_filterMap, Bool.not_not]
  cases k
  case manifest => exact hof ds _
  case markerTypeIds | markerComponents | markerProviders =>
    refine (hof _ _).trans ?_
    rw [hmarkers]
    rfl
  all_goals
    refine (hof _ _).trans ?_
    rw [hactions]
    rfl

/-- There is a file of each kind that is called for, and of no other. -/
theorem map_kind_artifacts (c : Context) (ds : List Definition) :
    (artifacts c ds).map Artifact.kind = ArtifactKind.all.filter (ArtifactKind.isCalledFor ds) := by
  rw [artifacts, List.map_filterMap, funext (map_kind_artifact? c ds), List.filterMap_eq_filter]

/-! ### Agreement -/

/-- **The files of a document agree.** -/
structure Document.IsCoherent (d : Document) (o : Options) : Prop where
  /-- There is a file of each kind that something is defined for, in the order of the kinds. -/
  kinds : (d.compile o).artifacts.map Artifact.kind =
    ArtifactKind.all.filter (ArtifactKind.isCalledFor (d.resolve o).definitions)
  /-- The manifest lists the providers of actions that are declared, -/
  providers : (d.compile o).read .manifest (between? "providers::" ",") =
    ((d.compile o).read .actionProviders (declared? "ActionProvider")).map Prod.fst
  /-- and imports the file that declares them if there are any. -/
  providersImport : (d.compile o).read .manifest (between? "use " " as providers;") =
    if (d.compile o).read .manifest (between? "providers::" ",") = [] then []
    else [o.generatedPath ++ "::action_providers::" ++ moduleName d.name]
  /-- The manifest lists the type ids of markers that are declared, -/
  markerIds : (d.compile o).read .manifest (between? "marker_ids::" ",") =
    ((d.compile o).read .markerTypeIds (declared? "&str")).map Prod.fst
  /-- and imports the file that declares them if there are any. -/
  markerIdsImport : (d.compile o).read .manifest (between? "use " " as marker_ids;") =
    if (d.compile o).read .manifest (between? "marker_ids::" ",") = [] then []
    else [o.generatedPath ++ "::marker_type_ids::" ++ moduleName d.name]
  /-- A component is declared for each marker, -/
  components : (d.compile o).read .markerComponents (between? "pub struct " ";") =
    (Definition.markers (d.resolve o).definitions).map MarkerDefinition.ident
  /-- it is registered, -/
  impls : (d.compile o).read .markerComponents
      (between? ("impl " ++ o.runtimePath ++ "::MarkerComponent for ") " \x7b") =
    (d.compile o).read .markerComponents (between? "pub struct " ";")
  /-- and its type id is the one constant that has the name of the marker as its value. -/
  typeIds : List.Forall₂ (fun m path => ∃ y,
      path = o.generatedPath ++ "::marker_type_ids::" ++ moduleName d.name ++ "::" ++ y ∧
        ∀ z, (z, quote m.name ++ ";") ∈ (d.compile o).read .markerTypeIds (declared? "&str") ↔
          z = y)
    (Definition.markers (d.resolve o).definitions)
    ((d.compile o).read .markerComponents (between? "const TYPE_ID: &'static str = " ";"))
  /-- A provider is declared for each marker, -/
  providedIds : (d.compile o).read .markerProviders (between? "type_id: " ",") =
    (Definition.markers (d.resolve o).definitions).map fun m => quote m.name
  /-- and it refers to the component of the marker. -/
  componentTypes : (d.compile o).read .markerProviders (between? "component_type: " ",") =
    ((d.compile o).read .markerComponents (between? "pub struct " ";")).map fun z =>
      quote (o.generatedPath ++ "::markers::" ++ moduleName d.name ++ "::" ++ z)

namespace Document

variable {d : Document} {o : Options}

/-- A context without line feeds comes from a name and options without them. -/
theorem context_onOneLine (hname : '\n' ∉ d.name.toList) (hruntime : '\n' ∉ o.runtimePath.toList)
    (heditor : '\n' ∉ o.editorPath.toList) (hgenerated : '\n' ∉ o.generatedPath.toList) :
    (d.context o).OnOneLine where
  document := hname
  module := by
    rw [module_context]
    exact (isWordy_moduleName d.name).isIdent.isUnbroken.1
  runtimePath := hruntime
  editorPath := heditor
  generatedPath := hgenerated

/-- Where a component looks for its type id. -/
theorem markerIdPath_context (d : Document) (o : Options) (m : MarkerDefinition) :
    (d.context o).markerIdPath m =
      o.generatedPath ++ "::marker_type_ids::" ++ moduleName d.name ++ "::" ++ m.idConst :=
  String.toList_inj.mp (by simp [Context.markerIdPath, Context.runtimeName, context,
    ArtifactKind.module])

/-- Where a provider looks for its component. -/
theorem componentPath_context (d : Document) (o : Options) (m : MarkerDefinition) :
    (d.context o).componentPath m =
      o.generatedPath ++ "::markers::" ++ moduleName d.name ++ "::" ++ m.ident :=
  String.toList_inj.mp (by simp [Context.componentPath, Context.runtimeName, context,
    ArtifactKind.module])

/-- Of the constants with the type ids of markers, one has the name of a marker as its value. -/
theorem mem_markerIds_iff {m : MarkerDefinition}
    (hm : m ∈ Definition.markers (d.resolve o).definitions) {z : String} :
    (z, quote m.name ++ ";") ∈ (Definition.markers (d.resolve o).definitions).map
        (fun m => (m.idConst, quote m.name ++ ";")) ↔ z = m.idConst := by
  rw [List.mem_map]
  constructor
  · rintro ⟨m', hm', heq⟩
    obtain ⟨rfl, hvalue⟩ := Prod.mk.inj heq
    have hname : m'.name = m.name := quote_injective ((String.append_left_inj _).mp hvalue)
    have hsame : Definition.marker m' = .marker m :=
      List.inj_on_of_nodup_map (nodup_ids_definitions d o) (Definition.mem_markers_iff.mp hm')
        (Definition.mem_markers_iff.mp hm) hname
    rw [Definition.marker.inj hsame]
  · rintro rfl
    exact ⟨m, hm, rfl⟩

/-- The markers of a document have identifiers, so no line feeds. -/
theorem onOneLine_of_mem_markers :
    ∀ m ∈ Definition.markers (d.resolve o).definitions, m.OnOneLine := by
  intro m hm
  obtain ⟨hident, hconst⟩ := isIdent_of_marker (Definition.mem_markers_iff.mp hm)
  exact ⟨hident.isUnbroken.1, hconst.isUnbroken.1⟩

section Reading

variable {α : Type} {reader : String → Option α} {f : MarkerDefinition → α}
variable (hmodule : moduleName d.name ≠ "") (hc : (d.context o).OnOneLine)
include hmodule hc

/-- What is read of the manifest, if there is one. Without definitions there is no file, and nothing
is read. -/
theorem read_manifest {out : List α}
    (hread : Code.read reader (manifestCode (d.context o) (d.resolve o).definitions) = out)
    (hnone : (d.resolve o).definitions = [] → out = []) :
    (d.compile o).read .manifest reader = out := by
  refine read_compile hmodule rfl (hc.isTidy_manifestCode (fun a ha => ?_) ?_) hread hnone
  · exact (isIdent_of_action (Definition.mem_actions_iff.mp ha)).isUnbroken.1
  · exact onOneLine_of_mem_markers

/-- The file of action providers declares the providers of the actions. -/
theorem read_actionProviders :
    (d.compile o).read .actionProviders (declared? "ActionProvider") =
      (Definition.actions (d.resolve o).definitions).map fun a =>
        (a.providerConst, "ActionProvider \x7b") := by
  refine read_compile hmodule rfl (hc.isTidy_actionProvidersCode (d.isTidy_actionProviders o))
    (read_actionProvidersCode fun a ha => ?_) fun h => by rw [h, List.map_nil]
  exact (isIdent_of_action (Definition.mem_actions_iff.mp ha)).not_mem (by decide)

/-- The file of marker type ids declares the type ids of the markers. -/
theorem read_markerTypeIds :
    (d.compile o).read .markerTypeIds (declared? "&str") =
      (Definition.markers (d.resolve o).definitions).map fun m =>
        (m.idConst, quote m.name ++ ";") := by
  refine read_compile hmodule rfl (hc.isTidy_markerTypeIdsCode onOneLine_of_mem_markers)
    (read_markerTypeIdsCode fun m hm => ?_) fun h => by rw [h, List.map_nil]
  exact (isIdent_of_marker (Definition.mem_markers_iff.mp hm)).2.not_mem (by decide)

/-- What is read of each component is read of the file of components. -/
theorem read_markerComponents
    (hread : Code.read reader (markerComponentsCode (d.context o)
        (Definition.markers (d.resolve o).definitions)) =
      (Definition.markers (d.resolve o).definitions).map f) :
    (d.compile o).read .markerComponents reader =
      (Definition.markers (d.resolve o).definitions).map f :=
  read_compile hmodule rfl (hc.isTidy_markerComponentsCode onOneLine_of_mem_markers) hread
    fun h => by rw [h, List.map_nil]

/-- What is read of each provider is read of the file of marker providers. -/
theorem read_markerProviders
    (hread : Code.read reader (markerProvidersCode (d.context o)
        (Definition.markers (d.resolve o).definitions)) =
      (Definition.markers (d.resolve o).definitions).map f) :
    (d.compile o).read .markerProviders reader =
      (Definition.markers (d.resolve o).definitions).map f :=
  read_compile hmodule rfl (hc.isTidy_markerProvidersCode onOneLine_of_mem_markers) hread
    fun h => by rw [h, List.map_nil]

end Reading

/-- **The files of a document refer to what their siblings define.** Whatever its text, a document
that has a module is compiled to files that agree, unless its name or one of the paths in the
options has a line feed in it. -/
theorem isCoherent_of_lineFeed_not_mem (hmodule : moduleName d.name ≠ "")
    (hname : '\n' ∉ d.name.toList) (hruntime : '\n' ∉ o.runtimePath.toList)
    (heditor : '\n' ∉ o.editorPath.toList) (hgenerated : '\n' ∉ o.generatedPath.toList) :
    d.IsCoherent o := by
  have hc := context_onOneLine hname hruntime heditor hgenerated
  have hlisted (x : ManifestList) : (d.compile o).read .manifest (between? x.opening ",") =
      x.names (d.resolve o).definitions :=
    read_manifest hmodule hc (read_listed _ _ x) fun h => by rw [h]; cases x <;> rfl
  have himport (x : ManifestList) : (d.compile o).read .manifest (between? "use " x.closing) =
      if (d.compile o).read .manifest (between? x.opening ",") = [] then []
      else [o.generatedPath ++ x.segment ++ moduleName d.name] := by
    rw [hlisted x]
    refine read_manifest hmodule hc (read_listImport rfl (d.module_context o) _ x) fun h => ?_
    rw [h]
    cases x <;> rfl
  have hstructs := read_markerComponents hmodule hc (read_structs _ _)
  refine
    { kinds := ?_, providers := (hlisted .providers).trans ?_, providersImport := himport .providers
      markerIds := (hlisted .markerIds).trans ?_, markerIdsImport := himport .markerIds
      components := hstructs, impls := ?_, typeIds := ?_, providedIds := ?_, componentTypes := ?_ }
  · rw [compile_eq rfl hmodule rfl]
    exact map_kind_artifacts _ _
  · rw [read_actionProviders hmodule hc, List.map_map]
    rfl
  · rw [read_markerTypeIds hmodule hc, List.map_map]
    rfl
  · rw [hstructs]
    exact read_markerComponents hmodule hc (read_impls (d.context o) _)
  · rw [read_markerComponents hmodule hc (read_typeIdPaths _ _), read_markerTypeIds hmodule hc,
      List.forall₂_map_right_iff, List.forall₂_same]
    intro m hm
    exact ⟨m.idConst, markerIdPath_context d o m, fun z => mem_markerIds_iff hm⟩
  · exact read_markerProviders hmodule hc (read_providedIds _ _)
  · rw [read_markerProviders hmodule hc (read_componentTypes _ _), hstructs, List.map_map]
    exact List.map_congr_left fun m _ => congrArg quote (componentPath_context d o m)

end Document

/-- The document has an action and a marker, so every kind of file is there. -/
theorem isCoherent_levelSheet :
    ArtifactKind.all.filter (ArtifactKind.isCalledFor (levelSheet.resolve {}).definitions) =
        ArtifactKind.all ∧
      levelSheet.IsCoherent {} := by
  refine ⟨?_, Document.isCoherent_of_lineFeed_not_mem ?_ ?_ ?_ ?_ ?_⟩
  · rw [definitions_levelSheet]
    decide
  all_goals decide +kernel

end Defsheet

import Defsheet.Proofs.GeneratedNames
import Defsheet.Proofs.TextLines
import Defsheet.Proofs.Writing
import Mathlib.Data.List.Nodup

/-!
# What a document is compiled to

Every name that the manifest of a document refers to is defined by a line of one of the document's
files. The files are of different kinds and carry the module of the document, which can be used as a
file name.

## Main results

* `Document.fits_compile`: the files of a document can be kept apart.
* `Document.mem_manifest_compile_iff`: entries of the manifest come from definitions.
* `Document.defines_action` and `Document.defines_marker`: the lines that define what an entry
  refers to.
-/

namespace Defsheet

/-! ### Files -/

/-- A file has the kind and the module that it is generated for. -/
theorem artifact?_eq_some {c : Context} {ds : List Definition} {k : ArtifactKind} {a : Artifact}
    (h : artifact? c ds k = some a) : a.kind = k ∧ a.module = c.module := by
  have hof {α : Type} {items : List α} {code : List α → Code}
      (h : Artifact.of? k c items code = some a) : a.kind = k ∧ a.module = c.module := by
    unfold Artifact.of? at h
    split at h
    · cases h
    · obtain rfl := Option.some.inj h
      exact ⟨rfl, rfl⟩
  cases k <;> exact hof h

/-- The files of a document are of different kinds. -/
theorem nodup_kinds_artifacts (c : Context) (ds : List Definition) :
    ((artifacts c ds).map Artifact.kind).Nodup := by
  rw [artifacts, List.map_filterMap]
  refine List.Nodup.filterMap (fun k k' kind hk hk' => ?_) (by decide)
  obtain ⟨a, ha, rfl⟩ := Option.map_eq_some_iff.mp hk
  obtain ⟨a', ha', hkind⟩ := Option.map_eq_some_iff.mp hk'
  rw [← (artifact?_eq_some ha).1, ← hkind, (artifact?_eq_some ha').1]

namespace Document

variable {d : Document} {o : Options}

/-- What the files of a document need to know. -/
def context (d : Document) (o : Options) : Context := ⟨d.name, moduleName d.name, o⟩

/-- The module of a document's files is named for the document. -/
theorem module_context (d : Document) (o : Options) : (d.context o).module = moduleName d.name := by
  rw [context]

/-- What a document that has a module is compiled to. -/
theorem compile_eq {m : String} {ds : List Definition} (hmodule : moduleName d.name = m)
    (hne : m ≠ "") (hds : (d.resolve o).definitions = ds) :
    d.compile o = ⟨d.name, m, artifacts ⟨d.name, m, o⟩ ds, (d.resolve o).diagnostics,
      manifestEntries ⟨d.name, m, o⟩ ds⟩ := by
  simp only [compile, hmodule, if_neg hne, hds]

/-- A document without a module is compiled to nothing but a diagnostic. -/
theorem compile_eq_of_empty (h : moduleName d.name = "") :
    d.compile o = ⟨d.name, "", [], [(Issue.noModuleName d.name).diagnostic d.name .start], []⟩ := by
  simp only [compile, h, if_true]

/-- The module of a compiled document is named for the document. -/
theorem module_compile (d : Document) (o : Options) :
    (d.compile o).module = moduleName d.name := by
  by_cases h : moduleName d.name = ""
  · rw [compile_eq_of_empty h, h]
  · rw [compile_eq rfl h rfl]

/-- A document without a module has no manifest. -/
theorem mem_manifest_compile_iff {e : ManifestEntry} :
    e ∈ (d.compile o).manifest ↔ moduleName d.name ≠ "" ∧
      ∃ x ∈ (d.resolve o).definitions, ManifestEntry.ofDefinition (d.context o) x = e := by
  by_cases h : moduleName d.name = ""
  · simp [compile_eq_of_empty h, h]
  · rw [compile_eq rfl h rfl, manifestEntries, List.mem_map]
    exact (and_iff_right h).symm

/-- **The files of a document can be kept apart**, from one another and from the indexes. -/
theorem fits_compile (d : Document) (o : Options) : (d.compile o).Fits := by
  have hslash : '/' ∉ (moduleName d.name).toList :=
    (isWordy_moduleName d.name).isIdent.not_mem (by decide)
  have hfiles : (∀ a ∈ (d.compile o).artifacts, a.module = moduleName d.name) ∧
      ((d.compile o).artifacts.map Artifact.kind).Nodup := by
    by_cases h : moduleName d.name = ""
    · rw [compile_eq_of_empty h]
      exact ⟨List.forall_mem_nil _, .nil⟩
    · rw [compile_eq rfl h rfl]
      refine ⟨fun a ha => ?_, nodup_kinds_artifacts _ _⟩
      obtain ⟨k, -, hk⟩ := List.mem_filterMap.mp ha
      exact (artifact?_eq_some hk).2
  rw [← d.module_compile o] at hslash hfiles
  refine ⟨hfiles.1, hfiles.2, hslash, ?_⟩
  rw [d.module_compile o]
  exact moduleName_ne_mod d.name

/-- So can the files of every document of a batch. -/
theorem fits_of_mem_batch {docs : List Document} {c : Compilation}
    (h : c ∈ docs.map fun d => d.compile o) : c.Fits := by
  obtain ⟨d, -, rfl⟩ := List.mem_map.mp h
  exact d.fits_compile o

end Document

/-! ### Lines -/

/-- The line that begins the provider of an action. -/
def actionProviderLine (const : String) : String :=
  "pub const " ++ const ++ ": ActionProvider = ActionProvider \x7b"

/-- The line that begins the provider of a marker. -/
def markerProviderLine (const : String) : String :=
  "pub const " ++ const ++ ": MarkerProvider = MarkerProvider \x7b"

/-- The line that declares the component of a marker. -/
def componentLine (ident : String) : String := "pub struct " ++ ident ++ ";"

/-- A name stays on one line. -/
theorem IsIdent.isUnbroken {s : String} (h : IsIdent s) : IsUnbroken s :=
  ⟨h.not_mem (by decide), h.not_mem (by decide)⟩

/-- The opening line of a block is a line of the code. -/
theorem line_mem_block {header line suffix : String} {body : Code} (h : header ++ " \x7b" = line) :
    Code.line line ∈ Code.block header body suffix := by
  rw [← h]
  exact List.mem_cons_self

/-- The file of action providers begins a provider for each action. -/
theorem line_mem_actionProvidersCode {c : Context} {as : List ActionDefinition}
    {a : ActionDefinition} (h : a ∈ as) :
    Code.line (actionProviderLine a.providerConst) ∈ actionProvidersCode c as := by
  refine List.mem_append_right _ (List.mem_flatMap.mpr ⟨a, h, ?_⟩)
  refine List.mem_cons_of_mem _ (List.mem_cons_of_mem _ (line_mem_block ?_))
  exact String.toList_inj.mp (by simp [actionProviderLine])

/-- The file of marker providers begins a provider for each marker. -/
theorem line_mem_markerProvidersCode {c : Context} {ms : List MarkerDefinition}
    {m : MarkerDefinition} (h : m ∈ ms) :
    Code.line (markerProviderLine m.idConst) ∈ markerProvidersCode c ms := by
  refine List.mem_append_right _ (List.mem_flatMap.mpr ⟨m, h, ?_⟩)
  refine List.mem_cons_of_mem _ (line_mem_block ?_)
  exact String.toList_inj.mp (by simp [markerProviderLine])

/-- The lines of each piece are among the lines of all pieces. -/
theorem mem_joinWithGaps {codes : List Code} {code : Code} {l : CodeLine} (hcode : code ∈ codes)
    (h : l ∈ code) : l ∈ joinWithGaps codes := by
  fun_induction joinWithGaps codes with
  | case1 => cases hcode
  | case2 code' => rwa [← List.mem_singleton.mp hcode]
  | case3 code' codes _ ih =>
      obtain rfl | hcode := List.mem_cons.mp hcode
      · exact List.mem_append_left _ h
      · exact List.mem_append_right _ (List.mem_cons_of_mem _ (ih hcode))

/-- The file of marker components declares a component for each marker. -/
theorem line_mem_markerComponentsCode {c : Context} {ms : List MarkerDefinition}
    {m : MarkerDefinition} (h : m ∈ ms) :
    Code.line (componentLine m.ident) ∈ markerComponentsCode c ms := by
  refine List.mem_append_right _ (mem_joinWithGaps (List.mem_map_of_mem h) ?_)
  simp [markerComponent, componentLine]

/-! ### Definitions -/

/-- The actions of a document are the definitions that are actions. -/
theorem Definition.mem_actions_iff {a : ActionDefinition} {ds : List Definition} :
    a ∈ actions ds ↔ .action a ∈ ds := by
  rw [actions, List.mem_filterMap]
  constructor
  · rintro ⟨_ | _, hx, hxa⟩
    · rwa [← Option.some.inj hxa]
    · cases hxa
  · intro ha
    exact ⟨_, ha, rfl⟩

/-- The markers of a document are the definitions that are markers. -/
theorem Definition.mem_markers_iff {m : MarkerDefinition} {ds : List Definition} :
    m ∈ markers ds ↔ .marker m ∈ ds := by
  rw [markers, List.mem_filterMap]
  constructor
  · rintro ⟨_ | _, hx, hxm⟩
    · cases hxm
    · rwa [← Option.some.inj hxm]
  · intro hm
    exact ⟨_, hm, rfl⟩

/-- A file of the document has the line. -/
def Compilation.Defines (c : Compilation) (k : ArtifactKind) (line : String) : Prop :=
  ∃ a ∈ c.artifacts, a.kind = k ∧ HasLine a.content line

namespace Document

variable {d : Document} {o : Options}

/-- The file that is made from some items, if there are any. -/
theorem file_mem_artifacts {α : Type} {k : ArtifactKind} {items : List α} {x : α}
    {code : List α → Code} (hmodule : moduleName d.name ≠ "")
    (hfile : artifact? (d.context o) (d.resolve o).definitions k =
      Artifact.of? k (d.context o) items code)
    (hx : x ∈ items) : ⟨k, (d.context o).module, code items⟩ ∈ (d.compile o).artifacts := by
  have hsome : Artifact.of? k (d.context o) items code =
      some ⟨k, (d.context o).module, code items⟩ := by
    rw [Artifact.of?, if_neg]
    simpa using List.ne_nil_of_mem hx
  rw [compile_eq rfl hmodule rfl]
  exact List.mem_filterMap.mpr ⟨k, k.mem_all, hfile.trans hsome⟩

/-- A line of the code for some items is a line of the file that is made from them. -/
theorem defines_of_mem {α : Type} {k : ArtifactKind} {items : List α} {x : α}
    {code : List α → Code} {line : String} (hmodule : moduleName d.name ≠ "")
    (hfile : artifact? (d.context o) (d.resolve o).definitions k =
      Artifact.of? k (d.context o) items code)
    (hx : x ∈ items) (hline : IsUnbroken line) (hmem : Code.line line ∈ code items) :
    (d.compile o).Defines k line :=
  ⟨_, file_mem_artifacts hmodule hfile hx, rfl, hasLine_render hline hmem⟩

/-- The constant of a provider is an identifier. -/
theorem isIdent_of_action {a : ActionDefinition} (ha : .action a ∈ (d.resolve o).definitions) :
    IsIdent a.providerConst :=
  (legible_of_mem_definitions ha ⟨.provider, [a.providerConst]⟩
    (by simp [Definition.generatedNames])).isIdent _ List.mem_cons_self

/-- The component and the constant of a marker are identifiers. -/
theorem isIdent_of_marker {m : MarkerDefinition} (hm : .marker m ∈ (d.resolve o).definitions) :
    IsIdent m.ident ∧ IsIdent m.idConst := by
  have hlegible := legible_of_mem_definitions hm
  constructor
  · exact (hlegible ⟨.component, [m.ident]⟩ (by simp [Definition.generatedNames])).isIdent _
      List.mem_cons_self
  · exact (hlegible ⟨.markerId, [m.idConst]⟩ (by simp [Definition.generatedNames])).isIdent _
      List.mem_cons_self

/-- The string under which a definition registers has no line end. -/
theorem isUnbroken_id {x : Definition} (hx : x ∈ (d.resolve o).definitions) :
    IsUnbroken x.id := by
  obtain ⟨y, hy, hfrom⟩ := resolvedFrom_of_mem hx
  have hchars : ∀ c ∈ y.id.toList, isWordChar c = true ∨ c = '.' := by
    have hname {name : String} (h : name ∈ y.names) :
        ∀ c ∈ name.toList, isWordChar c = true ∨ c = '.' :=
      fun c hc => .inl ((isName_of_mem_names hy h).wordy c hc)
    cases y with
    | action a =>
        rw [Declaration.id, TypeId.text, String.toList_intercalate]
        refine forall_mem_intercalate (by simp) fun w hw => ?_
        obtain ⟨s, hs, rfl⟩ := List.mem_map.mp hw
        exact hname hs
    | marker m => exact hname List.mem_cons_self
  have hid : x.id = y.id := by
    cases x <;> cases y
    · exact congrArg TypeId.text hfrom.realizes.1
    · exact hfrom.realizes.elim
    · exact hfrom.realizes.elim
    · exact hfrom.realizes.1
  rw [IsUnbroken, hid]
  exact ⟨fun h => absurd (hchars _ h) (by decide), fun h => absurd (hchars _ h) (by decide)⟩

/-- **The provider of an action** is defined by a line of a file. -/
theorem defines_action {a : ActionDefinition} (hmodule : moduleName d.name ≠ "")
    (ha : .action a ∈ (d.resolve o).definitions) :
    (d.compile o).Defines .actionProviders (actionProviderLine a.providerConst) := by
  have hmem := Definition.mem_actions_iff.mpr ha
  refine defines_of_mem hmodule rfl hmem ?_ (line_mem_actionProvidersCode hmem)
  simpa [IsUnbroken, actionProviderLine] using (isIdent_of_action ha).isUnbroken

/-- **The provider and the component of a marker** are defined by lines of files. -/
theorem defines_marker {m : MarkerDefinition} (hmodule : moduleName d.name ≠ "")
    (hm : .marker m ∈ (d.resolve o).definitions) :
    (d.compile o).Defines .markerProviders (markerProviderLine m.idConst) ∧
      (d.compile o).Defines .markerComponents (componentLine m.ident) := by
  have hmem := Definition.mem_markers_iff.mpr hm
  obtain ⟨hident, hconst⟩ := isIdent_of_marker hm
  constructor
  · refine defines_of_mem hmodule rfl hmem ?_ (line_mem_markerProvidersCode hmem)
    simpa [IsUnbroken, markerProviderLine] using hconst.isUnbroken
  · refine defines_of_mem hmodule rfl hmem ?_ (line_mem_markerComponentsCode hmem)
    simpa [IsUnbroken, componentLine] using hident.isUnbroken

end Document

end Defsheet

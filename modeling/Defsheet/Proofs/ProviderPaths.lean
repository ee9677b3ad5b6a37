import Defsheet.Proofs.Compiling
import Defsheet.Proofs.Registration

/-!
# Registered paths

A registry refers to generated code by paths: to a provider for every entry and to a component for
every marker. A path is a text, put together from a path that the options give, the module of a
kind of files, the module of the document and an identifier. The options may hold anything, colons
included, so a path is read from its end: the last three parts are free of colons and can be told
from the text, whatever stands before them.

Two entries of one document differ in their identifiers, because the resolver saw to it; two entries
of different documents differ in their modules, because the registry did.

## Main results

* `colons_append_inj`: the last part of a path is determined by its text.
* `Document.pathsApart_ofDefinition`: the paths of two definitions.
* `Registry.nodup_paths`: no path is registered twice.
-/

namespace Defsheet

/-- What stands before the last two colons of a text, and what after them, are determined by the
text. -/
theorem colons_append_inj {s s' t t' : String} (ht : ':' ∉ t.toList) (ht' : ':' ∉ t'.toList)
    (h : s ++ "::" ++ t = s' ++ "::" ++ t') : s = s' ∧ t = t' := by
  have hlist : s.toList ++ [':', ':'] ++ t.toList = s'.toList ++ [':', ':'] ++ t'.toList := by
    simpa [String.toList_append] using congrArg String.toList h
  -- Backwards, the colons are the first ones.
  have hreverse := congrArg List.reverse hlist
  simp only [List.reverse_append, List.reverse_cons, List.reverse_nil, List.nil_append,
    List.cons_append] at hreverse
  obtain ⟨htail, hhead⟩ := append_colon_inj (mt List.mem_reverse.mp ht) (mt List.mem_reverse.mp ht')
    hreverse
  exact ⟨String.toList_inj.mp (List.reverse_inj.mp (List.cons.inj hhead).2),
    String.toList_inj.mp (List.reverse_inj.mp htail)⟩

/-- No module of a kind has a colon in its name. -/
theorem ArtifactKind.colon_not_mem_module (k : ArtifactKind) : ':' ∉ k.module.toList := by
  cases k <;> decide

/-- Nor has the module of a document. -/
theorem colon_not_mem_moduleName (document : String) : ':' ∉ (moduleName document).toList :=
  (isWordy_moduleName document).isIdent.not_mem (by decide)

/-- The path of a name in the file of a kind that a document has, with something in front. -/
def qualified (front : String) (k : ArtifactKind) (document name : String) : String :=
  front ++ "::" ++ k.module ++ "::" ++ moduleName document ++ "::" ++ name

/-- **A path determines its last three parts**, whatever stands in front of them. -/
theorem qualified_inj {front front' : String} {k k' : ArtifactKind} {document document' : String}
    {name name' : String} (hname : IsIdent name) (hname' : IsIdent name')
    (h : qualified front k document name = qualified front' k' document' name') :
    k.module = k'.module ∧ moduleName document = moduleName document' ∧ name = name' := by
  obtain ⟨h, hsame⟩ := colons_append_inj (hname.not_mem (by decide)) (hname'.not_mem (by decide)) h
  obtain ⟨h, hmodule⟩ := colons_append_inj (colon_not_mem_moduleName document)
    (colon_not_mem_moduleName document') h
  obtain ⟨-, hkind⟩ := colons_append_inj k.colon_not_mem_module k'.colon_not_mem_module h
  exact ⟨hkind, hmodule, hsame⟩

/-! ### Entries -/

/-- Two entries have no path in common that would have to be different. -/
def ManifestEntry.PathsApart (e e' : ManifestEntry) : Prop :=
  e.provider ≠ e'.provider ∧ ∀ path, e.component = some path → e'.component ≠ some path

/-- Every marker has a component, and nothing else has one. -/
theorem ManifestEntry.isSome_component_ofDefinition (c : Context) (x : Definition) :
    (ofDefinition c x).component.isSome = true ↔ (ofDefinition c x).kind = .marker := by
  cases x with
  | action a => simp [ofDefinition]
  | marker m => simp [ofDefinition]

/-- A name that two definitions claim is a string that they claim. -/
theorem Definition.not_mem_generatedNames {x x' : Definition} (h : ∀ k ∈ x.keys, k ∉ x'.keys)
    {n : GeneratedName} (hx : n ∈ x.generatedNames) : n ∉ x'.generatedNames :=
  fun hx' => h _ (List.mem_map_of_mem hx) (List.mem_map_of_mem hx')

namespace Document

variable {d d' : Document} {o o' : Options}

/-- The entry of an action names its provider among those of the generated code. -/
theorem provider_action (a : ActionDefinition) :
    (ManifestEntry.ofDefinition (d.context o) (.action a)).provider =
      qualified o.generatedPath .actionProviders d.name a.providerConst := by
  simp only [ManifestEntry.ofDefinition, Context.runtimeName, context, qualified]

/-- The entry of a marker names its provider among those of the generated editor code. -/
theorem provider_marker (m : MarkerDefinition) :
    (ManifestEntry.ofDefinition (d.context o) (.marker m)).provider =
      qualified o.editorGeneratedPath .markerProviders d.name m.idConst := by
  simp only [ManifestEntry.ofDefinition, Context.editorName, context, qualified]

/-- The entry of a marker names its component. -/
theorem component_marker (m : MarkerDefinition) :
    (ManifestEntry.ofDefinition (d.context o) (.marker m)).component =
      some (qualified o.generatedPath .markerComponents d.name m.ident) := by
  simp only [ManifestEntry.ofDefinition, Context.componentPath, Context.runtimeName, context,
    qualified]

/-- **The paths of two definitions** are apart if these belong to different modules or claim
different names. -/
theorem pathsApart_ofDefinition {x x' : Definition} (hx : x ∈ (d.resolve o).definitions)
    (hx' : x' ∈ (d'.resolve o').definitions)
    (h : moduleName d.name = moduleName d'.name → ∀ k ∈ x.keys, k ∉ x'.keys) :
    (ManifestEntry.ofDefinition (d.context o) x).PathsApart
      (ManifestEntry.ofDefinition (d'.context o') x') := by
  cases x with
  | action a =>
      have ha := isIdent_of_action hx
      refine ⟨fun heq => ?_, fun path hpath => by cases hpath⟩
      rw [provider_action] at heq
      cases x' with
      | action a' =>
          rw [provider_action] at heq
          obtain ⟨-, hmodule, hconst⟩ := qualified_inj ha (isIdent_of_action hx') heq
          refine Definition.not_mem_generatedNames (h hmodule)
            (n := ⟨.provider, [a.providerConst]⟩) ?_ ?_
          · simp [Definition.generatedNames]
          · simp [Definition.generatedNames, hconst]
      | marker m' =>
          rw [provider_marker] at heq
          obtain ⟨hkind, -⟩ := qualified_inj ha (isIdent_of_marker hx').2 heq
          exact absurd hkind (by decide)
  | marker m =>
      obtain ⟨hident, hconst⟩ := isIdent_of_marker hx
      cases x' with
      | action a' =>
          refine ⟨fun heq => ?_, fun path _ hpath => by cases hpath⟩
          rw [provider_marker, provider_action] at heq
          obtain ⟨hkind, -⟩ := qualified_inj hconst (isIdent_of_action hx') heq
          exact absurd hkind (by decide)
      | marker m' =>
          obtain ⟨hident', hconst'⟩ := isIdent_of_marker hx'
          refine ⟨fun heq => ?_, fun path hpath hpath' => ?_⟩
          · rw [provider_marker, provider_marker] at heq
            obtain ⟨-, hmodule, hsame⟩ := qualified_inj hconst hconst' heq
            refine Definition.not_mem_generatedNames (h hmodule)
              (n := ⟨.markerId, [m.idConst]⟩) ?_ ?_
            · simp [Definition.generatedNames]
            · simp [Definition.generatedNames, hsame]
          · rw [← hpath', component_marker, component_marker] at hpath
            obtain ⟨-, hmodule, hsame⟩ := qualified_inj hident hident' (Option.some.inj hpath)
            refine Definition.not_mem_generatedNames (h hmodule)
              (n := ⟨.component, [m.ident]⟩) ?_ ?_
            · simp [Definition.generatedNames]
            · simp [Definition.generatedNames, hsame]

/-- The entries of one document have different paths. -/
theorem pairwise_pathsApart_manifest (d : Document) (o : Options) :
    (d.compile o).manifest.Pairwise ManifestEntry.PathsApart := by
  by_cases hmodule : moduleName d.name = ""
  · rw [compile_eq_of_empty hmodule]
    exact .nil
  · rw [compile_eq rfl hmodule rfl, manifestEntries, List.pairwise_map]
    exact (d.apart_definitions o).imp_of_mem fun hx hx' hkeys =>
      pathsApart_ofDefinition hx hx' fun _ => hkeys

/-- Entries of documents with different modules have different paths. -/
theorem pathsApart_of_module_ne (hmodule : (d.compile o).module ≠ (d'.compile o').module)
    {e e' : ManifestEntry} (he : e ∈ (d.compile o).manifest) (he' : e' ∈ (d'.compile o').manifest) :
    e.PathsApart e' := by
  obtain ⟨-, x, hx, rfl⟩ := mem_manifest_compile_iff.mp he
  obtain ⟨-, x', hx', rfl⟩ := mem_manifest_compile_iff.mp he'
  rw [module_compile, module_compile] at hmodule
  exact pathsApart_ofDefinition hx hx' fun hsame => absurd hsame hmodule

end Document

namespace Registry

variable (docs : List Document) (o : Options)

/-- The entries of a registry have different paths. -/
theorem pairwise_pathsApart_entries :
    (ofBatch (docs.map fun d => d.compile o)).1.entries.Pairwise ManifestEntry.PathsApart := by
  have hcompiled : ∀ c ∈ (ofBatch (docs.map fun d => d.compile o)).1.writable
      (docs.map fun d => d.compile o), ∃ d : Document, d.compile o = c := by
    intro c hc
    obtain ⟨d, -, hd⟩ := List.mem_map.mp (mem_of_mem_writable hc).1
    exact ⟨d, hd⟩
  rw [entries_ofBatch]
  refine List.Pairwise.sublist (firstOfEach_sublist _) (List.pairwise_flatMap.mpr ⟨?_, ?_⟩)
  · intro c hc
    obtain ⟨d, rfl⟩ := hcompiled c hc
    exact d.pairwise_pathsApart_manifest o
  · refine (List.pairwise_map.mp (nodup_module_writable _)).imp_of_mem ?_
    intro c c' hc hc' hne e he e' he'
    obtain ⟨d, rfl⟩ := hcompiled c hc
    obtain ⟨d', rfl⟩ := hcompiled c' hc'
    exact Document.pathsApart_of_module_ne hne he he'

/-- A registered marker has a component. -/
theorem exists_component_of_mem_markers {e : ManifestEntry}
    (h : e ∈ (ofBatch (docs.map fun d => d.compile o)).1.markers) :
    ∃ path, e.component = some path := by
  obtain ⟨hmem, hkind⟩ := List.mem_filter.mp h
  obtain ⟨c, hc, he⟩ := exists_of_mem_entries (List.mem_mergeSort.mp hmem)
  obtain ⟨d, -, rfl⟩ := List.mem_map.mp (mem_of_mem_writable hc).1
  obtain ⟨-, x, -, rfl⟩ := Document.mem_manifest_compile_iff.mp he
  exact Option.isSome_iff_exists.mp
    ((ManifestEntry.isSome_component_ofDefinition _ x).mpr (of_decide_eq_true hkind))

/-- **No path is registered twice**: no provider path among the entries, and no component path among
the markers, which all have one. -/
theorem nodup_paths :
    ((ofBatch (docs.map fun d => d.compile o)).1.sorted.map ManifestEntry.provider).Nodup ∧
      ((ofBatch (docs.map fun d => d.compile o)).1.markers.map ManifestEntry.component).Nodup ∧
      ∀ e ∈ (ofBatch (docs.map fun d => d.compile o)).1.markers,
        ∃ path, e.component = some path := by
  have hapart := pairwise_pathsApart_entries docs o
  have hsorted := List.mergeSort_perm (ofBatch (docs.map fun d => d.compile o)).1.entries
    fun a b => decide (a.typeId ≤ b.typeId)
  have hcomponent (e : ManifestEntry) := exists_component_of_mem_markers docs o (e := e)
  refine ⟨?_, ?_, hcomponent⟩
  · rw [sorted, (hsorted.map _).nodup_iff]
    exact List.pairwise_map.mpr (hapart.imp And.left)
  · rw [markers, sorted, ((hsorted.filter _).map _).nodup_iff]
    refine List.pairwise_map.mpr ((hapart.sublist List.filter_sublist).imp_of_mem ?_)
    intro e e' he _ hapart heq
    obtain ⟨path, hpath⟩ := hcomponent e (((hsorted.filter _).mem_iff).mpr he)
    exact hapart.2 path hpath (heq ▸ hpath)

end Registry

end Defsheet

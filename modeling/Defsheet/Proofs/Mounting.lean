import Defsheet.Proofs.Compiling
import Defsheet.Proofs.Indexes
import Defsheet.Proofs.Registration

/-!
# What a registry refers to is there

The entries of a registry refer to names in generated files by paths. Such a path leads through the
index of a group and the index of a kind to the file of a document. Once a batch has been written,
everything that its registry refers to can be found in this way: no document of the batch undoes
what another one did, and the indexes follow the files.

## Main results

* `writeBatch_eq_ok`: what is left once a batch is written.
* `Layout.mounts_of_mem`: a line of a file of the batch can be found through the indexes.
* `writeBatch_mounts_entries`: so can everything that the registry refers to.
-/

namespace Defsheet

open Work FileTree

variable {l : Layout} {t t' : FileTree} {r : Report}

/-! ### Batches -/

/-- The documents of a batch that are written can be written beside each other. -/
theorem Registry.coexist_writable {cs : List Compilation} (hcs : ∀ c ∈ cs, c.Fits) :
    Compilation.Coexist ((ofBatch cs).1.writable cs) where
  fits c hc := hcs c (mem_of_mem_writable hc).1
  module_ne_empty _ hc := (mem_of_mem_writable hc).2
  nodup_modules := nodup_module_writable cs

/-- **What is left once a batch is written.** The files of its documents are written first; what is
done after that is only done to indexes, which then follow the files. -/
theorem writeBatch_eq_ok {cs : List Compilation} (hsep : l.Separate t.workingDir)
    (hcs : ∀ c ∈ cs, c.Fits) (h : writeBatch l (Registry.ofBatch cs).1 cs t = .ok r t') :
    ∃ t₁, Builds (l.documentsAt t.workingDir ((Registry.ofBatch cs).1.writable cs)) t t₁ ∧
      (∀ c ∈ (Registry.ofBatch cs).1.writable cs, ∀ a ∈ c.artifacts,
        t₁.read? (l.file a.kind c.module) = .ok a.content) ∧
      Edits (l.indexesAt t₁.workingDir) t₁ t' ∧
      (∀ k, l.KindIndexed t' k) ∧ ∀ g, l.RootIndexed t₁ t' g := by
  simp only [writeBatch, bind_eq_ok_iff, pure_eq_ok_iff] at h
  obtain ⟨files, t₁, hfiles, indexes, t₂, hindexes, -, rfl⟩ := h
  obtain ⟨hreads, hbuilds⟩ := reportEach_writeArtifacts (Registry.coexist_writable hcs) hfiles
  obtain ⟨hedits, hkinds, hroots⟩ := writeIndexes_eq_ok (hbuilds.workingDir ▸ hsep) hindexes
  exact ⟨t₁, hbuilds, hreads, hedits, hkinds, hroots⟩

/-! ### Names that can be found -/

/-- A line can be found through the indexes: it is in the file of a kind for a module, the index of
the kind mounts the module, and the index of the group mounts the kind. -/
structure Layout.Mounts (l : Layout) (t : FileTree) (k : ArtifactKind) (m line : String) :
    Prop where
  defined : ∃ content, t.read? (l.file k m) = .ok content ∧ HasLine content line
  module : ∃ content, t.read? ((l.kindDir k).join indexFile) = .ok content ∧
    HasLine content (mountLine m)
  kind : ∃ content, t.read? ((l.dir k.group).join indexFile) = .ok content ∧
    HasLine content (mountLine k.module)

/-- A file that can be read is a module of its kind. -/
theorem Layout.mem_modulesOf {k : ArtifactKind} {m content : String} (hslash : '/' ∉ m.toList)
    (hne : m ≠ "") (hmod : m ≠ "mod") (h : t.read? (l.file k m) = .ok content) :
    m ∈ l.modulesOf t k := by
  obtain ⟨loc, hloc, hfile, -⟩ := read?_eq_ok_iff.mp h
  obtain ⟨hreaches, rfl⟩ := (resolves_file_iff hslash).mp hloc
  refine mem_modulesOf_iff.mpr ⟨hreaches, hne, hmod, ?_⟩
  rw [hfile]
  rfl

/-- A module can be found if the indexes follow the files. -/
theorem Layout.mounts_of_indexed {t₁ : FileTree} {k : ArtifactKind} {m line content : String}
    (hm : m ∈ l.modulesOf t k) (hunbroken : IsUnbroken m)
    (hread : t.read? (l.file k m) = .ok content) (hline : HasLine content line)
    (hkind : l.KindIndexed t k) (hroot : l.RootIndexed t₁ t k.group) : l.Mounts t k m line := by
  have hmodules : l.modulesOf t k ≠ [] := List.ne_nil_of_mem hm
  have hmounted : k ∈ l.mountedKinds t k.group := mem_mountedKinds.mpr ⟨rfl, hmodules⟩
  have hmodule : k.module ∈ sortNames ((l.mountedKinds t k.group).map ArtifactKind.module) :=
    mem_sortNames.mpr (List.mem_map_of_mem hmounted)
  rw [KindIndexed, if_neg hmodules] at hkind
  rw [RootIndexed, if_neg (List.ne_nil_of_mem hmounted)] at hroot
  refine ⟨⟨_, hread, hline⟩, ⟨_, ?_, hasLine_indexContent hunbroken hm⟩,
    ⟨_, hroot, hasLine_indexContent k.isUnbroken_module hmodule⟩⟩
  rw [kindDir_join_indexFile]
  exact hkind

/-- **A line of a file of the batch can be found** through the indexes. -/
theorem Layout.mounts_of_mem {cs : List Compilation} {c : Compilation} {k : ArtifactKind}
    {line : String} (hsep : l.Separate t.workingDir) (hcs : ∀ c ∈ cs, c.Fits)
    (h : writeBatch l (Registry.ofBatch cs).1 cs t = .ok r t')
    (hc : c ∈ (Registry.ofBatch cs).1.writable cs) (hunbroken : IsUnbroken c.module)
    (hline : c.Defines k line) : l.Mounts t' k c.module line := by
  obtain ⟨t₁, hbuilds, hreads, hedits, hkinds, hroots⟩ := writeBatch_eq_ok hsep hcs h
  obtain ⟨a, ha, rfl, hline⟩ := hline
  obtain ⟨hmem, hne⟩ := Registry.mem_of_mem_writable hc
  obtain ⟨-, -, hslash, hmod⟩ := hcs c hmem
  have hsep₁ : l.Separate t₁.workingDir := hbuilds.workingDir ▸ hsep
  have hread := hreads c hc a ha
  have hmodule : c.module ∈ l.modulesOf t' a.kind := by
    rw [hedits.modulesOf_eq hsep₁.indexesApart]
    exact mem_modulesOf hslash hne hmod hread
  refine mounts_of_indexed hmodule hunbroken ?_ hline (hkinds a.kind) (hroots a.kind.group)
  -- The indexes are written after the file, but none of them in its place.
  refine hedits.builds.read?_eq_ok hread fun loc hloc => ?_
  rw [((resolves_file_iff hslash).mp hloc).2]
  exact hsep₁.indexesApart.fileAt_not_mem_indexesAt hmod

/-! ### Entries -/

/-- What an entry refers to can be found: the provider of an action, and the provider and the
component of a marker. -/
def ManifestEntry.IsMounted (e : ManifestEntry) (o : Options) (l : Layout) (t : FileTree) : Prop :=
  match e.kind with
  | .action =>
    ∃ const,
      e.provider =
        o.generatedPath ++ "::action_providers::" ++ moduleName e.document ++ "::" ++ const ∧
      l.Mounts t .actionProviders (moduleName e.document) (actionProviderLine const)
  | .marker =>
    (∃ const,
      e.provider =
        o.editorGeneratedPath ++ "::marker_providers::" ++ moduleName e.document ++ "::" ++ const ∧
      l.Mounts t .markerProviders (moduleName e.document) (markerProviderLine const)) ∧
    ∃ ident,
      e.component =
        some (o.generatedPath ++ "::markers::" ++ moduleName e.document ++ "::" ++ ident) ∧
      l.Mounts t .markerComponents (moduleName e.document) (componentLine ident)

/-- An entry refers to names that are defined by lines of the document's files. -/
theorem ManifestEntry.isMounted_of_defines {d : Document} {o : Options} {e : ManifestEntry}
    (he : e ∈ (d.compile o).manifest)
    (h : ∀ k line, (d.compile o).Defines k line → l.Mounts t k (moduleName d.name) line) :
    e.IsMounted o l t := by
  obtain ⟨hmodule, x, hx, rfl⟩ := Document.mem_manifest_compile_iff.mp he
  cases x with
  | action a =>
      refine ⟨a.providerConst, ?_, h _ _ (Document.defines_action hmodule hx)⟩
      exact String.toList_inj.mp (by simp [ofDefinition, Context.runtimeName, Document.context,
        ArtifactKind.module])
  | marker m =>
      obtain ⟨hprovider, hcomponent⟩ := Document.defines_marker hmodule hx
      refine ⟨⟨m.idConst, ?_, h _ _ hprovider⟩, m.ident, congrArg some ?_, h _ _ hcomponent⟩
      · exact String.toList_inj.mp (by simp [ofDefinition, Context.editorName, Document.context,
          ArtifactKind.module])
      · exact String.toList_inj.mp (by simp [ofDefinition, Context.componentPath,
          Context.runtimeName, Document.context, ArtifactKind.module])

/-- **Everything that the registry of a batch refers to is there** once the batch has been written:
it is defined in a file, and the indexes lead to the file. -/
theorem writeBatch_mounts_entries (docs : List Document) (o : Options) (l : Layout)
    (t t' : FileTree) (r : Report) (hsep : l.Separate t.workingDir)
    (h : writeBatch l (Registry.ofBatch (docs.map fun d => d.compile o)).1
      (docs.map fun d => d.compile o) t = .ok r t') :
    ∀ e ∈ (Registry.ofBatch (docs.map fun d => d.compile o)).1.entries, e.IsMounted o l t' := by
  intro e he
  obtain ⟨c, hc, he⟩ := Registry.exists_of_mem_entries he
  obtain ⟨d, -, rfl⟩ := List.mem_map.mp (Registry.mem_of_mem_writable hc).1
  refine ManifestEntry.isMounted_of_defines he fun k line hline => ?_
  have hunbroken := (isWordy_moduleName d.name).isIdent.isUnbroken
  rw [← d.module_compile o] at hunbroken ⊢
  exact Layout.mounts_of_mem hsep (fun _ => Document.fits_of_mem_batch) h hc hunbroken hline

/-! ### A batch of one document -/

/-- The tree that is left by work that succeeds. -/
def Work.tree? {α : Type} (x : Work α) (t : FileTree) : Option FileTree :=
  match x t with
  | .ok _ t' => some t'
  | .error _ _ => none

/-- There is a tree exactly if the work succeeds and leaves it. -/
theorem Work.tree?_eq_some_iff {α : Type} {x : Work α} :
    x.tree? t = some t' ↔ ∃ a, x t = .ok a t' := by
  unfold tree?
  cases x t with
  | ok a s => simp
  | error e s => simp

/-- A document with an action and a marker. -/
def levelSheet : Document := ⟨"level", "action A \x7b \x7d\nmarker B \x7b \x7d"⟩

/-- What the document defines. -/
def levelDefinitions : List Definition :=
  [.action ⟨⟨["A"]⟩, [], "A", "A", "A", {}, [], 1⟩, .marker ⟨"B", "B", "B", none, none, 2⟩]

/-- What the document defines. -/
theorem definitions_levelSheet : (levelSheet.resolve {}).definitions = levelDefinitions := by
  have htokens : (Scan.ofText levelSheet.text).tokens =
      [⟨.keyword .action, ⟨1, 1⟩⟩, ⟨.ident "A", ⟨1, 8⟩⟩, ⟨.openBrace, ⟨1, 10⟩⟩,
        ⟨.closeBrace, ⟨1, 12⟩⟩, ⟨.keyword .marker, ⟨2, 1⟩⟩, ⟨.ident "B", ⟨2, 8⟩⟩,
        ⟨.openBrace, ⟨2, 10⟩⟩, ⟨.closeBrace, ⟨2, 12⟩⟩, ⟨.endOfFile, ⟨2, 13⟩⟩] := by
    decide +kernel
  have hdeclarations : levelSheet.declarations {} =
      [.action ⟨⟨["A"]⟩, {}, [], 1⟩, .marker ⟨"B", none, none, 2⟩] := by
    rw [Document.declarations, htokens]
    decide +kernel
  change (Resolution.ofDeclarations (levelSheet.declarations {})).definitions = _
  rw [hdeclarations]
  decide +kernel

/-- What the document is compiled to. -/
theorem compile_levelSheet : levelSheet.compile {} =
    ⟨"level", "level", artifacts ⟨"level", "level", {}⟩ levelDefinitions,
      (levelSheet.resolve {}).diagnostics,
      manifestEntries ⟨"level", "level", {}⟩ levelDefinitions⟩ :=
  Document.compile_eq (by decide +kernel) (by decide) definitions_levelSheet

/-- A document without text is compiled to nothing. -/
theorem Document.compile_blank {name m : String} (hmodule : moduleName name = m) (hne : m ≠ "") :
    (⟨name, ""⟩ : Document).compile {} =
      ⟨name, m, artifacts ⟨name, m, {}⟩ [], ((⟨name, ""⟩ : Document).resolve {}).diagnostics,
        manifestEntries ⟨name, m, {}⟩ []⟩ := by
  have htokens : (Scan.ofText "").tokens = [⟨.endOfFile, ⟨1, 1⟩⟩] := by
    decide +kernel
  have hdeclarations : (⟨name, ""⟩ : Document).declarations {} = [] := by
    rw [Document.declarations, htokens]
    decide +kernel
  refine Document.compile_eq hmodule hne ?_
  change (Resolution.ofDeclarations (Document.declarations ⟨name, ""⟩ {})).definitions = _
  rw [hdeclarations]
  rfl

/-- The document is written over an index that mounts something else. -/
theorem writeBatch_mounts_entries_of_level :
    let cs := [levelSheet].map fun d => d.compile {}
    let l : Layout := ⟨⟨"gen"⟩, ⟨"ed"⟩⟩
    let t : FileTree := ⟨["work"], [(["work"], .dir), (["work", "gen"], .dir),
      (["work", "gen", "mod.rs"], .file (.text "pub mod old;\n"))]⟩
    (Registry.ofBatch cs).1.entries.map ManifestEntry.typeId = ["A", "B"] ∧
      l.Separate t.workingDir ∧ ∃ r t', writeBatch l (Registry.ofBatch cs).1 cs t = .ok r t' ∧
        ∀ e ∈ (Registry.ofBatch cs).1.entries, e.IsMounted {} l t' := by
  intro cs l t
  have hcs : cs = [levelSheet.compile {}] := rfl
  have hsep : l.Separate t.workingDir := ⟨by decide +kernel, by decide +kernel⟩
  have hentries : (Registry.ofBatch cs).1.entries.map ManifestEntry.typeId = ["A", "B"] := by
    rw [hcs, compile_levelSheet]
    decide +kernel
  have hsome : ((writeBatch l (Registry.ofBatch cs).1 cs).tree? t).isSome = true := by
    rw [hcs, compile_levelSheet]
    decide +kernel
  obtain ⟨t', ht'⟩ := Option.isSome_iff_exists.mp hsome
  obtain ⟨r, hrun⟩ := tree?_eq_some_iff.mp ht'
  exact ⟨hentries, hsep, r, t', hrun,
    writeBatch_mounts_entries [levelSheet] {} l t t' r hsep hrun⟩

end Defsheet

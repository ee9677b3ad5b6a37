import Defsheet.Proofs.Accumulation

/-!
# The order of writing

Documents with different modules can be written in any order, in one batch or in several, with the
indexes written after each batch. The indexes in between differ, but they are all overwritten or
completed, and the tree that is left in the end is the same.

It is not always the case that writing succeeds: a path of the layout may lead through the place of
a generated file, and back from there by `..`. Then either the directory or the file comes first,
and the work fails when it comes to the other. But it fails in every order or in none, and it does
not fail if the paths step back from existing directories only.

## Main results

* `Layout.Holds.same`: the files that were written determine the tree, up-to-date indexes included.
* `Layout.Holds.feasible`: what has succeeded once can succeed in any order.
* `Layout.Site.feasible_of_grounded`: writing succeeds if the layout is grounded.
* `writeBatches_perm`: the order of writing does not matter.
-/

namespace Defsheet

open Work FileTree

/-- Two trees show the same at every location. -/
structure FileTree.Same (t t' : FileTree) : Prop where
  workingDir : t.workingDir = t'.workingDir
  get?_eq : ∀ x, t.get? x = t'.get? x

namespace Layout

variable {l : Layout} {t₀ t t' : FileTree} {cs : List Compilation} {B : Set Artifact}
  {a : Artifact} {k : ArtifactKind} {g : Group} {m : String} {x : Location} {data : FileData}
  {r : Report}

/-! ### Indexes that are up to date -/

/-- All directories of kinds can be listed or are missing, and all indexes are right. -/
structure UpToDate (l : Layout) (t : FileTree) : Prop where
  lists : ∀ k, t.Lists (l.kindDir k)
  kinds : ∀ k, l.KindIndexed t k
  roots : ∀ g, l.mountedKinds t g ≠ [] → t.read? ((l.dir g).join indexFile) =
    .ok (indexContent (sortNames ((l.mountedKinds t g).map ArtifactKind.module)))

namespace Holds

/-- The file of a document that was written is listed. -/
theorem mem_modulesOf (hsite : l.Site t₀ cs) (h : l.Holds t₀ cs B t) (ha : a ∈ B) :
    a.module ∈ l.modulesOf t a.kind := by
  obtain ⟨-, hne, hmod⟩ := hsite.isModule (h.within ha)
  refine mem_modulesOf_iff.mpr ⟨?_, hne, hmod, ?_⟩
  · rw [reaches_iff_way, h.workingDir]
    exact fun x hx => (h.dirs x).mpr (.inr ⟨a, ha, hx⟩)
  · rw [h.workingDir, ← artifactAt, h.files a ha]
    rfl

/-- Before anything is written, nothing is listed. -/
theorem modulesOf_eq_nil (hsite : l.Site t₀ cs) (h : l.Holds t₀ cs ∅ t) (k : ArtifactKind) :
    l.modulesOf t k = [] := by
  refine List.eq_nil_iff_forall_not_mem.mpr fun m hm => ?_
  obtain ⟨-, -, hmod, hsome⟩ := mem_modulesOf_iff.mp hm
  rw [h.workingDir, h.isSome_iff hsite hmod, h.dirs] at hsome
  rcases hsome with (hdir | ⟨a, ha, -⟩) | ⟨a, ha, -⟩
  · rw [hsite.vacant.places _ (.inl ⟨k, m, rfl⟩)] at hdir
    cases hdir
  · exact ha
  · exact ha

/-- Every file stands at a place for something generated. -/
theorem mem_placesAt (h : l.Holds t₀ cs B t) (hfile : t.get? x = some (.file data)) :
    x ∈ l.placesAt t₀.workingDir := by
  rcases h.rest x data hfile with ⟨a, -, rfl⟩ | ⟨-, hindexed⟩
  · exact .inl ⟨a.kind, a.module, rfl⟩
  · rw [← h.workingDir]
    exact l.indexesAt_subset_placesAt _ hindexed.mem_indexesAt

/-- The directory of a kind can be listed or is missing if the one around it is there. -/
theorem lists_of_reaches (hsite : l.Site t₀ cs) (h : l.Holds t₀ cs B t)
    (hreaches : t.Reaches (l.dir k.group) []) : t.Lists (l.kindDir k) := by
  have hway : l.way t.workingDir k = passed (t.base (l.dir k.group)) (l.dir k.group).steps ++
      [l.root t.workingDir k.group ++ [k.module]] := by
    rw [way, passed_append, passed, if_neg k.isPlain_module.ne_dot, if_neg k.isPlain_module.ne_dots]
    rfl
  have hdirs := follow_eq_ok_iff.mp ⟨_, hreaches⟩
  rw [List.append_nil] at hdirs
  rw [lists_iff_way]
  intro u x v hx _ data hfile
  have hmem : x ∈ l.way t.workingDir k := hx ▸ List.mem_append_right u List.mem_cons_self
  rw [hway, List.mem_append, List.mem_singleton] at hmem
  rcases hmem with hmem | rfl
  · rw [hdirs x hmem] at hfile
    cases hfile
  · rw [h.workingDir] at hfile
    exact hsite.separate.not_prefix_kindDir (h.mem_placesAt hfile) List.prefix_rfl

/-- Kinds without modules are left alone. -/
theorem writeKindIndexes_of_empty {ks kinds : List ArtifactKind} (hsite : l.Site t₀ cs)
    (h : l.Holds t₀ cs B t) (hempty : ∀ k ∈ ks, l.modulesOf t k = [])
    (hwrite : writeKindIndexes l ks t = .ok (r, kinds) t') :
    t' = t ∧ ∀ k ∈ ks, t.Lists (l.kindDir k) := by
  induction ks generalizing r kinds with
  | nil =>
      obtain ⟨-, rfl⟩ := pure_eq_ok_iff.mp hwrite
      exact ⟨rfl, List.forall_mem_nil _⟩
  | cons k ks ih =>
      rw [List.forall_mem_cons] at hempty ⊢
      simp only [writeKindIndexes, bind_eq_ok_iff, pure_eq_ok_iff] at hwrite
      obtain ⟨⟨first, mounted⟩, t₁, hfirst, ⟨others, kinds'⟩, t₂, hothers, -, rfl⟩ := hwrite
      obtain rfl := (h.after_writeKindIndex hsite hfirst).2 hempty.1
      obtain ⟨rfl, hlists⟩ := ih hempty.2 hothers
      exact ⟨rfl, (writeKindIndex_paths hfirst).2, hlists⟩

/-- So are groups without modules. -/
theorem writeGroupIndexes_of_empty (hsite : l.Site t₀ cs) (h : l.Holds t₀ cs B t)
    (hempty : ∀ k, k.group = g → l.modulesOf t k = [])
    (hwrite : writeGroupIndexes l g t = .ok r t') :
    t' = t ∧ ∀ k, k.group = g → t.Lists (l.kindDir k) := by
  simp only [writeGroupIndexes, bind_eq_ok_iff] at hwrite
  obtain ⟨⟨report, kinds⟩, t₁, hrun, hwrite⟩ := hwrite
  obtain rfl := mountedKinds_of_writeKindIndexes (h.workingDir ▸ hsite.separate) hrun
  obtain ⟨rfl, hlists⟩ := h.writeKindIndexes_of_empty hsite
    (fun k hk => hempty k (ArtifactKind.mem_ofGroup.mp hk)) hrun
  have hnone : l.mountedKinds t₁ g = [] := List.eq_nil_iff_forall_not_mem.mpr fun k hk =>
    (mem_mountedKinds.mp hk).2 (hempty k (mem_mountedKinds.mp hk).1)
  rw [if_pos (List.isEmpty_iff.mpr hnone)] at hwrite
  obtain ⟨-, rfl⟩ := pure_eq_ok_iff.mp hwrite
  exact ⟨rfl, fun k hk => hlists k (ArtifactKind.mem_ofGroup.mpr hk)⟩

/-- Once the indexes of a group are written, its directories can be listed. -/
theorem writeGroupIndexes_lists (hsite : l.Site t₀ cs) (h : l.Holds t₀ cs B t)
    (hwrite : writeGroupIndexes l k.group t = .ok r t') : t'.Lists (l.kindDir k) := by
  by_cases hempty : ∀ k', k'.group = k.group → l.modulesOf t k' = []
  · obtain ⟨rfl, hlists⟩ := h.writeGroupIndexes_of_empty hsite hempty hwrite
    exact hlists k rfl
  · simp only [not_forall] at hempty
    obtain ⟨k', hgroup, hmodules⟩ := hempty
    obtain ⟨m, hm⟩ := List.exists_mem_of_ne_nil _ hmodules
    have hreaches := reaches_of_mem_modulesOf hm
    obtain ⟨hedits, -⟩ :=
      writeGroupIndexes_eq_ok (h.workingDir ▸ hsite.separate.indexesApart) hwrite
    rw [hgroup, ← hedits.reaches_iff] at hreaches
    exact (h.after_writeGroupIndexes hsite hwrite).lists_of_reaches hsite hreaches

/-- **Once the indexes are written, they are up to date**, if there are files for the run time
whenever there are any. -/
theorem upToDate (hsite : l.Site t₀ cs) (h : l.Holds t₀ cs B t)
    (hB : B = ∅ ∨ ∃ a ∈ B, a.kind.group = .runtime) (hwrite : writeIndexes l t = .ok r t') :
    l.UpToDate t' := by
  obtain ⟨-, hkinds, hroots⟩ := writeIndexes_eq_ok (h.workingDir ▸ hsite.separate) hwrite
  refine ⟨fun k => ?_, hkinds, fun g hne => ?_⟩
  · have h' := hsite.writeIndexes_adds.adds B t r t' h hwrite
    obtain ⟨first, t₁, others, hruntime, hothers, -⟩ := reportEach_cons_eq_ok_iff.mp hwrite
    obtain ⟨second, t₂, none, heditor, hnone, -⟩ := reportEach_cons_eq_ok_iff.mp hothers
    obtain ⟨-, rfl⟩ := pure_eq_ok_iff.mp hnone
    cases hgroup : k.group with
    | editor =>
        rw [← hgroup] at heditor
        exact (h.after_writeGroupIndexes hsite hruntime).writeGroupIndexes_lists hsite heditor
    | runtime =>
        -- The editor's indexes come later. They are not in the way of what is there already.
        rcases hB with rfl | ⟨a, ha, hagroup⟩
        · have hempty := h.modulesOf_eq_nil hsite
          obtain ⟨rfl, hlists⟩ :=
            h.writeGroupIndexes_of_empty hsite (fun k _ => hempty k) hruntime
          obtain ⟨rfl, -⟩ := h.writeGroupIndexes_of_empty hsite (fun k _ => hempty k) heditor
          exact hlists k hgroup
        · have hmodule := h'.mem_modulesOf hsite (Set.mem_union_left ∅ ha)
          have hreaches := reaches_of_mem_modulesOf hmodule
          rw [hagroup, ← hgroup] at hreaches
          exact h'.lists_of_reaches hsite hreaches
  · have hroot := hroots g
    rwa [RootIndexed, if_neg hne] at hroot

end Holds

/-- An index of a kind that is up to date. -/
theorem UpToDate.kindIndex (h : l.UpToDate t) (hm : m ∈ l.modulesOf t k) :
    t.get? (l.fileAt t.workingDir k "mod") =
      some (.file (.text (indexContent (l.modulesOf t k)))) := by
  have hkind := h.kinds k
  rw [KindIndexed, if_neg (List.ne_nil_of_mem hm)] at hkind
  exact get?_fileAt (by decide) hkind

/-- An index of a group that is up to date. -/
theorem UpToDate.rootIndex (h : l.UpToDate t) (hm : m ∈ l.modulesOf t k) :
    t.get? (l.indexAt t.workingDir k.group) = some (.file (.text (indexContent
      (sortNames ((l.mountedKinds t k.group).map ArtifactKind.module))))) := by
  have hmounted : k ∈ l.mountedKinds t k.group :=
    mem_mountedKinds.mpr ⟨rfl, List.ne_nil_of_mem hm⟩
  exact get?_indexAt (h.roots _ (List.ne_nil_of_mem hmounted))

/-! ### The tree in the end -/

/-- The files that were written determine what is listed. -/
theorem Holds.modulesOf_eq (hsite : l.Site t₀ cs) (h : l.Holds t₀ cs B t)
    (h' : l.Holds t₀ cs B t') (k : ArtifactKind) : l.modulesOf t k = l.modulesOf t' k := by
  refine sortNames_eq_of_mem_iff (nodup_modulesIn _ _) (nodup_modulesIn _ _) fun m => ?_
  have hmem := mem_modulesOf_iff (t := t) (l := l) (k := k) (m := m)
  have hmem' := mem_modulesOf_iff (t := t') (l := l) (k := k) (m := m)
  rw [modulesOf, mem_sortNames] at hmem hmem'
  have hdirs (x : Location) : t.get? x = some .dir ↔ t'.get? x = some .dir :=
    (h.dirs x).trans (h'.dirs x).symm
  rw [hmem, hmem', reaches_iff_way, reaches_iff_way, h.workingDir, h'.workingDir]
  refine and_congr (forall₂_congr fun x _ => hdirs x) (and_congr_right fun _ =>
    and_congr_right fun hmod => ?_)
  rw [h.isSome_iff hsite hmod, h'.isSome_iff hsite hmod, hdirs]

/-- **The files that were written determine the tree** once the indexes are up to date. -/
theorem Holds.same (hsite : l.Site t₀ cs) (h : l.Holds t₀ cs B t) (hup : l.UpToDate t)
    (h' : l.Holds t₀ cs B t') (hup' : l.UpToDate t') : t.Same t' := by
  have hshows {t t' : FileTree} (h : l.Holds t₀ cs B t) (hup : l.UpToDate t)
      (h' : l.Holds t₀ cs B t') (hup' : l.UpToDate t') {x : Location} {e : Entry}
      (he : t.get? x = some e) : t'.get? x = some e := by
    have hmodules := h.modulesOf_eq hsite h'
    have hmounted (g : Group) : l.mountedKinds t g = l.mountedKinds t' g := by
      simp only [mountedKinds, hmodules]
    have hwd : t.workingDir = t'.workingDir := h.workingDir.trans h'.workingDir.symm
    cases e with
    | dir => exact (h'.dirs x).mpr ((h.dirs x).mp he)
    | file data =>
        rcases h.rest x data he with ⟨a, ha, rfl⟩ | ⟨-, k, m, hm, rfl | rfl⟩
        · rw [h'.files a ha, ← h.files a ha, he]
        · rw [hup.kindIndex hm, hmodules] at he
          rw [hmodules] at hm
          rw [hwd, hup'.kindIndex hm, he]
        · rw [hup.rootIndex hm, hmounted] at he
          rw [hmodules] at hm
          rw [hwd, hup'.rootIndex hm, he]
  refine ⟨h.workingDir.trans h'.workingDir.symm, fun x => Option.ext fun e => ?_⟩
  exact ⟨hshows h hup h' hup', hshows h' hup' h hup⟩

/-- **What has succeeded once can succeed in any order**: in the tree in the end everything has a
place of its own. -/
theorem Holds.feasible (h : l.Holds t₀ cs (filesOf cs) t) (hup : l.UpToDate t) :
    l.Feasible t₀ cs := by
  refine ⟨{x | t.get? x = some .dir}, {x | ∃ data, t.get? x = some (.file data)},
    { apart := ?_
      dirs := fun x hx => (h.dirs x).mpr (.inl hx)
      ways := fun a ha x hx => (h.dirs x).mpr (.inr ⟨a, ha, hx⟩)
      files := fun a ha => ⟨_, h.files a ha⟩
      indexes := ?_
      lists := ?_ }⟩
  · rintro x hdir ⟨data, hfile⟩
    exact absurd (hdir.symm.trans hfile) (by simp)
  · intro k m hway hne hmod hplace
    rw [← h.workingDir] at hway hplace ⊢
    have hm : m ∈ l.modulesOf t k := by
      refine mem_modulesOf_iff.mpr ⟨reaches_iff_way.mpr hway, hne, hmod, ?_⟩
      rcases hplace with hdir | ⟨data, hfile⟩
      · exact Option.isSome_iff_exists.mpr ⟨.dir, hdir⟩
      · exact Option.isSome_iff_exists.mpr ⟨.file data, hfile⟩
    exact ⟨⟨_, hup.kindIndex hm⟩, ⟨_, hup.rootIndex hm⟩⟩
  · intro k u x v hway hdirs
    rw [← h.workingDir] at hway
    rintro ⟨data, hfile⟩
    exact lists_iff_way.mp (hup.lists k) u x v hway hdirs data hfile

/-- **Everything has a place of its own if the layout is grounded.** -/
theorem Site.feasible_of_grounded (hsite : l.Site t₀ cs) (hground : l.Grounded t₀) :
    l.Feasible t₀ cs := by
  have hway (k : ArtifactKind) (x : Location) (hx : x ∈ l.way t₀.workingDir k) :
      x ∉ l.placesAt t₀.workingDir := by
    intro hplace
    rw [← passed_kindDir] at hx
    obtain ⟨u, name, v, hsteps, hdot, hdots, rfl⟩ := mem_passed hx
    have hkind : t₀.Grounds (l.kindDir k) := (hground k.group).join k.isPlain_module
    rcases hkind.passes hsteps hdot hdots with hdir | hprefix
    · rw [hsite.vacant.places _ hplace] at hdir
      cases hdir
    · rw [place_kindDir] at hprefix
      exact hsite.separate.not_prefix_kindDir hplace hprefix
  refine ⟨{x | t₀.get? x = some .dir ∨ ∃ a ∈ filesOf cs, x ∈ l.way t₀.workingDir a.kind},
    l.placesAt t₀.workingDir,
    { apart := ?_
      dirs := fun x => .inl
      ways := fun a ha x hx => .inr ⟨a, ha, hx⟩
      files := fun a _ => .inl ⟨a.kind, a.module, rfl⟩
      indexes := fun k m _ _ _ _ => ⟨.inl ⟨k, "mod", rfl⟩, .inr ⟨k.group, rfl⟩⟩
      lists := fun k u x v hx _ => hway k x (hx ▸ List.mem_append_right u List.mem_cons_self) }⟩
  rintro x (hdir | ⟨a, -, hx⟩) hplace
  · rw [hsite.vacant.places _ hplace] at hdir
    cases hdir
  · exact hway a.kind x hx hplace

/-! ### Batches -/

/-- What a tree holds between two batches: the indexes are up to date, and there are files for the
run time if there are any. -/
structure Current (l : Layout) (t₀ : FileTree) (cs : List Compilation) (B : Set Artifact)
    (t : FileTree) : Prop where
  holds : l.Holds t₀ cs B t
  upToDate : l.UpToDate t
  runtime : B = ∅ ∨ ∃ a ∈ B, a.kind.group = .runtime

/-- Before the first batch, everything is up to date. -/
theorem Site.current_empty (hsite : l.Site t₀ cs) : l.Current t₀ cs ∅ t₀ := by
  have h : l.Holds t₀ cs ∅ t₀ := holds_empty hsite.vacant
  have hempty := h.modulesOf_eq_nil hsite
  refine ⟨h, ⟨fun k => ?_, fun k => h.kindIndexed_of_empty hsite (hempty k), fun g hne => ?_⟩,
    .inl rfl⟩
  · exact lists_iff_way.mpr fun _ x _ _ _ data => hsite.vacant.bare x data
  · obtain ⟨k, hk⟩ := List.exists_mem_of_ne_nil _ hne
    exact absurd (hempty k) (mem_mountedKinds.mp hk).2

end Layout

/-- All documents of a batch are written if their modules are different. -/
theorem Compilation.Coexist.writable_eq {cs : List Compilation} (h : Coexist cs) :
    (Registry.ofBatch cs).1.writable cs = cs := by
  have hfilter : (cs.filter fun c => c.module ≠ "") = cs :=
    List.filter_eq_self.mpr fun c hc => decide_eq_true (h.module_ne_empty c hc)
  rw [Registry.writable_ofBatch, hfilter, firstOfEach_eq_self h.nodup_modules]

variable {l : Layout} {t₀ t : FileTree} {docs : List Document} {o : Options}

/-- **Writing a batch** adds the files of its documents. -/
theorem Layout.Site.writeBatch_adds {cs cs' : List Compilation} (hsite : l.Site t₀ cs)
    (hsubset : cs' ⊆ cs) (hcs' : Compilation.Coexist cs')
    (hruntime : ∀ c ∈ cs', ∀ a ∈ c.artifacts, ∃ b ∈ c.artifacts, b.kind.group = .runtime) :
    Adds (l.Feasible t₀ cs) (l.Current t₀ cs) (filesOf cs')
      (writeBatch l (Registry.ofBatch cs').1 cs') := by
  have hfiles : Adds (l.Feasible t₀ cs) (l.Holds t₀ cs) (filesOf cs')
      (reportEach (writeArtifacts l) cs') :=
    .reportEach fun c hc => hsite.writeArtifacts_adds (hsubset hc)
  have hbatch : Adds (l.Feasible t₀ cs) (l.Holds t₀ cs) (filesOf cs')
      (writeBatch l (Registry.ofBatch cs').1 cs') := by
    rw [writeBatch, hcs'.writable_eq]
    exact (hfiles.bind fun _ => hsite.writeIndexes_adds.bind_pure).of_eq (Set.union_empty _)
  refine ⟨fun hS B t h => hbatch.succeeds hS B t h.holds, fun B t r t' h hrun => ?_⟩
  have hB : B ∪ filesOf cs' = ∅ ∨ ∃ a ∈ B ∪ filesOf cs', a.kind.group = .runtime := by
    rcases h.runtime with hB | ⟨a, ha, hgroup⟩
    · rcases (filesOf cs').eq_empty_or_nonempty with hnone | ⟨a, c, hc, ha⟩
      · exact .inl (by rw [hB, hnone, Set.union_empty])
      · obtain ⟨b, hb, hgroup⟩ := hruntime c hc a ha
        exact .inr ⟨b, .inr ⟨c, hc, hb⟩, hgroup⟩
    · exact .inr ⟨a, .inl ha, hgroup⟩
  refine ⟨hbatch.adds B t r t' h.holds hrun, ?_, hB⟩
  rw [writeBatch, hcs'.writable_eq] at hrun
  simp only [bind_eq_ok_iff, pure_eq_ok_iff] at hrun
  obtain ⟨files, t₁, hwrite, indexes, t₂, hindexes, -, rfl⟩ := hrun
  exact (hfiles.adds B t files t₁ h.holds hwrite).upToDate hsite hB hindexes

namespace Document

/-- A document that gives rise to files gives rise to one for the run time. -/
theorem exists_runtime {d : Document} {a : Artifact} (h : a ∈ (d.compile o).artifacts) :
    ∃ b ∈ (d.compile o).artifacts, b.kind.group = .runtime := by
  by_cases hmodule : moduleName d.name = ""
  · rw [compile_eq_of_empty hmodule] at h
    cases h
  rw [compile_eq rfl hmodule rfl] at h ⊢
  have hne : (d.resolve o).definitions.isEmpty = false := by
    rw [Bool.eq_false_iff, ne_eq, List.isEmpty_iff]
    intro hnil
    rw [hnil] at h
    cases h
  refine ⟨⟨.manifest, moduleName d.name, manifestCode ⟨d.name, moduleName d.name, o⟩
    (d.resolve o).definitions⟩, List.mem_filterMap.mpr ⟨.manifest, ArtifactKind.mem_all _, ?_⟩, rfl⟩
  rw [artifact?, Artifact.of?, if_neg (by rw [hne]; decide)]

/-- Documents with modules of their own can be written beside each other. -/
theorem coexist_compile (hne : ∀ d ∈ docs, moduleName d.name ≠ "")
    (hnodup : (docs.map fun d => moduleName d.name).Nodup) :
    Compilation.Coexist (docs.map fun d => d.compile o) := by
  refine ⟨fun c => fits_of_mem_batch, fun c hc => ?_, ?_⟩
  · obtain ⟨d, hd, rfl⟩ := List.mem_map.mp hc
    rw [module_compile]
    exact hne d hd
  · rw [List.map_map]
    simpa only [Function.comp_def, module_compile] using hnodup

end Document

/-- Writes documents batch by batch. -/
def writeBatches (l : Layout) (o : Options) (batches : List (List Document)) : Work Report :=
  reportEach (fun docs => writeBatch l (Registry.ofBatch (docs.map fun d => d.compile o)).1
    (docs.map fun d => d.compile o)) batches

/-- **Writing batches** adds the files of all documents, whatever the order. -/
theorem Layout.Site.writeBatches_adds {batches : List (List Document)}
    (hsite : l.Site t₀ (docs.map fun d => d.compile o)) (hbatches : batches.flatten.Perm docs) :
    Adds (l.Feasible t₀ (docs.map fun d => d.compile o))
      (l.Current t₀ (docs.map fun d => d.compile o)) (filesOf (docs.map fun d => d.compile o))
      (writeBatches l o batches) := by
  have hnodup : (batches.flatten.map fun d => (d.compile o).module).Nodup := by
    rw [(hbatches.map _).nodup_iff]
    simpa only [List.map_map, Function.comp_def] using hsite.coexist.nodup_modules
  have hsubset (batch : List Document) (hmem : batch ∈ batches) :
      (batch.map fun d => d.compile o) ⊆ docs.map fun d => d.compile o :=
    List.map_subset _ fun d hd =>
      hbatches.subset ((List.sublist_flatten_of_mem hmem).subset hd)
  have hcoexist (batch : List Document) (hmem : batch ∈ batches) :
      Compilation.Coexist (batch.map fun d => d.compile o) := by
    refine ⟨fun c => Document.fits_of_mem_batch,
      fun c hc => hsite.coexist.module_ne_empty c (hsubset batch hmem hc), ?_⟩
    rw [List.map_map]
    exact ((List.sublist_flatten_of_mem hmem).map _).nodup hnodup
  have hbatch (batch : List Document) (hmem : batch ∈ batches) :=
    hsite.writeBatch_adds (hsubset batch hmem) (hcoexist batch hmem) fun c hc a ha => by
      obtain ⟨d, -, rfl⟩ := List.mem_map.mp hc
      exact Document.exists_runtime ha
  refine (Adds.reportEach hbatch).of_eq (Set.ext fun a => ⟨?_, ?_⟩)
  · rintro ⟨batch, hmem, c, hc, ha⟩
    exact ⟨c, hsubset batch hmem hc, ha⟩
  · rintro ⟨c, hc, ha⟩
    obtain ⟨d, hd, rfl⟩ := List.mem_map.mp hc
    obtain ⟨batch, hmem, hd⟩ := List.mem_flatten.mp (hbatches.symm.subset hd)
    exact ⟨batch, hmem, _, List.mem_map_of_mem hd, ha⟩

/-- **The order of writing does not matter.** Documents whose modules are different are written to a
tree without files, with nothing in the places of generated files. However they are ordered, and
however they are grouped into batches, down to one document at a time: if the work succeeds, it
succeeds for every other order and grouping, and leaves the same tree. It does succeed if the layout
steps back from existing directories only. -/
theorem writeBatches_perm (docs : List Document) (o : Options) (l : Layout) (t : FileTree)
    (hsep : l.Separate t.workingDir) (hvacant : l.Vacant t)
    (hne : ∀ d ∈ docs, moduleName d.name ≠ "")
    (hnodup : (docs.map fun d => moduleName d.name).Nodup) :
    (∀ bs bs' : List (List Document), bs.flatten.Perm docs → bs'.flatten.Perm docs →
      ∀ r t₁, writeBatches l o bs t = .ok r t₁ →
        ∃ r' t₂, writeBatches l o bs' t = .ok r' t₂ ∧ t₂.Same t₁) ∧
    (l.Grounded t → ∀ bs : List (List Document), bs.flatten.Perm docs →
      ∃ r t₁, writeBatches l o bs t = .ok r t₁) := by
  have hsite : l.Site t (docs.map fun d => d.compile o) :=
    ⟨hsep, hvacant, Document.coexist_compile hne hnodup⟩
  have hbefore := hsite.current_empty
  constructor
  · intro bs bs' hbs hbs' r t₁ hrun
    have hafter := (hsite.writeBatches_adds hbs).adds ∅ t r t₁ hbefore hrun
    rw [Set.empty_union] at hafter
    have hfeasible := hafter.holds.feasible hafter.upToDate
    have hadds := hsite.writeBatches_adds hbs'
    obtain ⟨r', t₂, hrun'⟩ := hadds.succeeds hfeasible ∅ t hbefore
    have hafter' := hadds.adds ∅ t r' t₂ hbefore hrun'
    rw [Set.empty_union] at hafter'
    exact ⟨r', t₂, hrun', hafter'.holds.same hsite hafter'.upToDate hafter.holds hafter.upToDate⟩
  · intro hground bs hbs
    exact (hsite.writeBatches_adds hbs).succeeds (hsite.feasible_of_grounded hground) ∅ t hbefore

/-! ### Two documents -/

/-- A tree with nothing but the working directory. -/
def workTree : FileTree := ⟨["work"], [(["work"], .dir)]⟩

/-- There is nothing else in the tree. -/
theorem get?_workTree {x : Location} (hne : x ≠ []) (hx : x ≠ ["work"]) :
    workTree.get? x = none := by
  rw [get?_of_ne_nil _ hne]
  exact List.lookup_eq_none_iff.mpr (by simpa [workTree] using hx)

/-- The working directory is no place of a generated file. -/
theorem vacant_workTree (l : Layout) : l.Vacant workTree where
  bare x data hfile := by
    by_cases hne : x = []
    · rw [hne, get?_nil] at hfile
      cases hfile
    by_cases hx : x = ["work"]
    · rw [hx] at hfile
      cases hfile
    · rw [get?_workTree hne hx] at hfile
      cases hfile
  places := by
    rintro x (⟨k, m, rfl⟩ | ⟨g, rfl⟩)
    · refine get?_workTree (fun hnil => ?_) fun hwork => ?_
      · simpa [Layout.fileAt] using congrArg List.length hnil
      · simpa [Layout.fileAt] using congrArg List.length hwork
    · refine get?_workTree (fun hnil => ?_) fun hwork => ?_
      · simpa [Layout.indexAt] using congrArg List.length hnil
      · have hlast := congrArg List.getLast? hwork
        rw [Layout.indexAt, List.getLast?_concat] at hlast
        exact absurd (Option.some.inj hlast) (by decide)

/-- Written together or one by one, in whichever order, two documents leave the same tree. -/
theorem writeBatches_perm_of_two :
    Layout.sideBySide.Separate workTree.workingDir ∧ Layout.sideBySide.Vacant workTree ∧
      Layout.sideBySide.Grounded workTree ∧
      (∀ d ∈ [levelSheet, jumpSheet], moduleName d.name ≠ "") ∧
      ([levelSheet, jumpSheet].map fun d => moduleName d.name).Nodup ∧
      ∃ r r' t t', writeBatches Layout.sideBySide {} [[levelSheet, jumpSheet]] workTree = .ok r t ∧
        writeBatches Layout.sideBySide {} [[jumpSheet], [levelSheet]] workTree = .ok r' t' ∧
        t'.Same t := by
  have hground : Layout.sideBySide.Grounded workTree := by
    intro g
    cases g <;> decide +kernel
  have hne : ∀ d ∈ [levelSheet, jumpSheet], moduleName d.name ≠ "" := by decide +kernel
  have hnodup : ([levelSheet, jumpSheet].map fun d => moduleName d.name).Nodup := by
    decide +kernel
  obtain ⟨hsame, hsucceeds⟩ := writeBatches_perm [levelSheet, jumpSheet] {} Layout.sideBySide
    workTree Layout.separate_sideBySide (vacant_workTree _) hne hnodup
  obtain ⟨r, t, hrun⟩ := hsucceeds hground [[levelSheet, jumpSheet]] (.refl _)
  obtain ⟨r', t', hrun', hsame⟩ :=
    hsame _ [[jumpSheet], [levelSheet]] (.refl _) (.swap _ _ []) r t hrun
  exact ⟨Layout.separate_sideBySide, vacant_workTree _, hground, hne, hnodup, r, r', t, t', hrun,
    hrun', hsame⟩

/-- The path to the directory of the editor leads through the place of a generated file. -/
def throughFile : Layout := ⟨⟨"gen"⟩, ⟨"gen/manifest/jump.rs/../../../ed"⟩⟩

/-- The tree that work leaves, whether or not it succeeds. -/
def Work.left {α : Type} (w : Work α) (t : FileTree) : FileTree :=
  match w t with
  | .ok _ t' => t'
  | .error _ t' => t'

/-- **The order matters if the work fails.** One document has a file where the path to a file of the
other one needs a directory. What is left there depends on which comes first. -/
theorem exists_left_not_same :
    throughFile.Separate workTree.workingDir ∧ throughFile.Vacant workTree ∧
      (∀ d ∈ [levelSheet, jumpSheet], moduleName d.name ≠ "") ∧
      ([levelSheet, jumpSheet].map fun d => moduleName d.name).Nodup ∧
      ¬((writeBatches throughFile {} [[levelSheet, jumpSheet]]).left workTree).Same
        ((writeBatches throughFile {} [[jumpSheet, levelSheet]]).left workTree) := by
  have hjump : jumpSheet.compile {} = _ :=
    Document.compile_eq (by decide +kernel : moduleName "jump" = "jump") (by decide)
      definitions_jumpSheet
  have hcheck :
      ((writeBatches throughFile {} [[levelSheet, jumpSheet]]).left workTree).get?
          ["work", "gen", "manifest", "jump.rs"] ≠
        ((writeBatches throughFile {} [[jumpSheet, levelSheet]]).left workTree).get?
          ["work", "gen", "manifest", "jump.rs"] := by
    simp only [writeBatches, reportEach, List.map_cons, List.map_nil, compile_levelSheet, hjump]
    decide +kernel
  exact ⟨⟨by decide +kernel, by decide +kernel⟩, vacant_workTree _, by decide +kernel,
    by decide +kernel, fun hsame => hcheck (hsame.get?_eq _)⟩

end Defsheet

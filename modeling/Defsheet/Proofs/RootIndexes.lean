import Defsheet.Proofs.Mounting

/-!
# Indexes of groups over a history of batches

Batches are written one after another into the same directories, while documents gain and lose
definitions. The index of a group follows the kinds that have modules as long as there are any. A
batch that removes the last module of a group removes the indexes of its kinds, but not the index of
the group: that one stays as it was and mounts kinds that have no index any more.

## Main results

* `Layout.Reached`: the trees that a history of batches leads to.
* `Layout.Reached.rootKept`: what the index of a group can hold.
* `Layout.Reached.rootExact_iff`: when the index of a group is exact.
* `Layout.not_rootExact_after_removal`: a history after which it is not.
-/

namespace Defsheet

open Work FileTree

variable {l : Layout} {t t' : FileTree} {r : Report} {g : Group}

/-- There are no files in the tree, though there may be directories. -/
def FileTree.IsBare (t : FileTree) : Prop := ∀ loc data, t.get? loc ≠ some (.file data)

namespace Layout

/-- The trees that batches lead to, from a tree without files. Every batch may have documents and
options of its own. -/
inductive Reached (l : Layout) (wd : Location) : FileTree → Prop
  | bare {t : FileTree} (hwd : t.workingDir = wd) (h : t.IsBare) : Reached l wd t
  | batch {t t' : FileTree} {r : Report} (docs : List Document) (o : Options)
      (before : Reached l wd t)
      (h : writeBatch l (Registry.ofBatch (docs.map fun d => d.compile o)).1
        (docs.map fun d => d.compile o) t = .ok r t') : Reached l wd t'

/-- The index of a group is exact: if it is there, it mounts the kinds of the group that have
modules and nothing else, and the kinds that it mounts have indexes. -/
def RootExact (l : Layout) (t : FileTree) (g : Group) : Prop :=
  t.isFile ((l.dir g).join indexFile) = true →
    ∃ content, t.read? ((l.dir g).join indexFile) = .ok content ∧
      (∀ x, HasLine content (mountLine x) ↔
        ∃ k : ArtifactKind, k.group = g ∧ l.modulesOf t k ≠ [] ∧ k.module = x) ∧
      ∀ k : ArtifactKind, k.group = g → HasLine content (mountLine k.module) →
        t.isFile ((l.kindDir k).join indexFile) = true

/-! ### What is kept -/

/-- What the index of a group can hold. It mounts some kinds of the group: those that have modules,
or, if none has any, kinds that had some. Beside it the indexes of the kinds are right. -/
structure RootKept (l : Layout) (t : FileTree) (g : Group) (data : FileData) : Prop where
  kindIndexed : ∀ k, l.KindIndexed t k
  exists_kinds : ∃ kinds : List ArtifactKind, kinds ≠ [] ∧ (∀ k ∈ kinds, k.group = g) ∧
    data = .text (indexContent (sortNames (kinds.map ArtifactKind.module))) ∧
    (l.mountedKinds t g ≠ [] → kinds = l.mountedKinds t g)

/-- Files of documents are written beside the indexes of groups. -/
theorem Separate.indexAt_not_mem_documentsAt {wd : Location} (h : l.Separate wd)
    (cs : List Compilation) : l.indexAt wd g ∉ l.documentsAt wd cs := by
  rintro ⟨c, -, k, heq⟩
  exact h.fileAt_ne_indexAt heq.symm

/-- **One batch** keeps what the indexes of groups can hold. -/
theorem rootKept_of_writeBatch {cs : List Compilation} (hsep : l.Separate t.workingDir)
    (hcs : ∀ c ∈ cs, c.Fits)
    (hkept : ∀ data, t.get? (l.indexAt t.workingDir g) = some (.file data) → l.RootKept t g data)
    (h : writeBatch l (Registry.ofBatch cs).1 cs t = .ok r t') :
    t'.workingDir = t.workingDir ∧
      ∀ data, t'.get? (l.indexAt t.workingDir g) = some (.file data) → l.RootKept t' g data := by
  obtain ⟨t₁, hbuilds, -, hedits, hkinds, hroots⟩ := writeBatch_eq_ok hsep hcs h
  have hwd : t'.workingDir = t.workingDir := hedits.workingDir.trans hbuilds.workingDir
  refine ⟨hwd, fun data hdata => ⟨hkinds, ?_⟩⟩
  have hroot := hroots g
  unfold RootIndexed at hroot
  split at hroot
  · next hempty =>
    -- Nothing is mounted, so the index is the one from before the batch.
    rw [hbuilds.workingDir] at hroot
    rw [hroot, hbuilds.get?_file_iff (hsep.indexAt_not_mem_documentsAt _)] at hdata
    obtain ⟨-, kinds, hne, hgroup, htext, -⟩ := hkept data hdata
    exact ⟨kinds, hne, hgroup, htext, fun hmounted => absurd hempty hmounted⟩
  · next hne =>
    obtain ⟨loc, hloc, hfile, -⟩ := read?_eq_ok_iff.mp hroot
    rw [(resolves_index_iff.mp hloc).2, hwd, hdata] at hfile
    refine ⟨l.mountedKinds t' g, hne, fun k hk => ?_, ?_, fun _ => rfl⟩
    · exact (mem_mountedKinds.mp hk).1
    · exact Entry.file.inj (Option.some.inj hfile)

/-- **A history of batches** keeps what the indexes of groups can hold. -/
theorem Reached.rootKept {wd : Location} (hsep : l.Separate wd) (h : l.Reached wd t) :
    t.workingDir = wd ∧
      ∀ data, t.get? (l.indexAt wd g) = some (.file data) → l.RootKept t g data := by
  induction h with
  | bare hwd hbare => exact ⟨hwd, fun data hdata => absurd hdata (hbare _ data)⟩
  | batch docs o before hrun ih =>
      obtain ⟨rfl, hkept⟩ := ih
      exact rootKept_of_writeBatch hsep (fun _ => Document.fits_of_mem_batch) hkept hrun

/-! ### Exact indexes -/

/-- The kinds that an index mounts. -/
theorem hasLine_mount_iff (kinds : List ArtifactKind) {x : String} :
    HasLine (indexContent (sortNames (kinds.map ArtifactKind.module))) (mountLine x) ↔
      ∃ k ∈ kinds, k.module = x := by
  rw [hasLine_indexContent_iff, mem_sortNames, List.mem_map]
  intro m hm
  obtain ⟨k, -, rfl⟩ := List.mem_map.mp (mem_sortNames.mp hm)
  exact k.isUnbroken_module

/-- The index of a kind is there if the kind has modules. -/
theorem KindIndexed.isFile_iff {k : ArtifactKind} (h : l.KindIndexed t k) :
    t.isFile ((l.kindDir k).join indexFile) = true ↔ l.modulesOf t k ≠ [] := by
  rw [kindDir_join_indexFile]
  unfold KindIndexed at h
  split at h
  · next hempty => simp [h, hempty]
  · next hne =>
    obtain ⟨loc, hloc, hfile, hslash⟩ := read?_eq_ok_iff.mp h
    exact iff_of_true (FileTree.isFile_iff.mpr ⟨loc, _, hloc, hfile, hslash⟩) hne

/-- An index that mounts the kinds that have modules is exact. -/
theorem rootExact_of_read (hkinds : ∀ k, l.KindIndexed t k)
    (h : t.read? ((l.dir g).join indexFile) =
      .ok (indexContent (sortNames ((l.mountedKinds t g).map ArtifactKind.module)))) :
    l.RootExact t g := by
  refine fun _ => ⟨_, h, fun x => ?_, fun k _ hline => ?_⟩
  · simp only [hasLine_mount_iff, mem_mountedKinds, and_assoc]
  · obtain ⟨k', hk', hmodule⟩ := (hasLine_mount_iff _).mp hline
    obtain rfl := ArtifactKind.module_injective hmodule
    exact (hkinds k').isFile_iff.mpr (mem_mountedKinds.mp hk').2

/-- The index of a group mounts a kind that has no index. -/
def RootDangling (l : Layout) (t : FileTree) (g : Group) : Prop :=
  ∃ content, t.read? ((l.dir g).join indexFile) = .ok content ∧
    ∃ k : ArtifactKind, k.group = g ∧ HasLine content (mountLine k.module) ∧
      t.isFile ((l.kindDir k).join indexFile) = false

/-- An index that mounts a kind without an index is not exact. -/
theorem RootDangling.not_rootExact (h : l.RootDangling t g) : ¬l.RootExact t g := by
  obtain ⟨content, hread, k, hk, hline, hindex⟩ := h
  intro hexact
  obtain ⟨loc, hloc, hfile, hslash⟩ := read?_eq_ok_iff.mp hread
  obtain ⟨content', hread', -, hindexed⟩ :=
    hexact (FileTree.isFile_iff.mpr ⟨loc, _, hloc, hfile, hslash⟩)
  obtain rfl := Except.ok.inj (hread.symm.trans hread')
  exact Bool.eq_false_iff.mp hindex (hindexed k hk hline)

/-- An index that is there is exact if kinds have modules, and dangling if none has. -/
theorem Reached.rootExact_or_dangling {wd : Location} (hsep : l.Separate wd) (h : l.Reached wd t)
    (hroot : t.isFile ((l.dir g).join indexFile) = true) :
    (l.mountedKinds t g ≠ [] → l.RootExact t g) ∧
      (l.mountedKinds t g = [] → l.RootDangling t g) := by
  obtain ⟨hwd, hkept⟩ := h.rootKept (g := g) hsep
  obtain ⟨loc, data, hloc, hfile, hslash⟩ := FileTree.isFile_iff.mp hroot
  obtain ⟨hkinds, kinds, hne, hgroup, rfl, hmounted⟩ := hkept data (by
    rwa [← hwd, ← (resolves_index_iff.mp hloc).2])
  have hread := read?_eq_ok_iff.mpr ⟨loc, hloc, hfile, hslash⟩
  refine ⟨fun hsome => ?_, fun hnone => ?_⟩
  · rw [hmounted hsome] at hread
    exact rootExact_of_read hkinds hread
  · obtain ⟨k, hk⟩ := List.exists_mem_of_ne_nil kinds hne
    refine ⟨_, hread, k, hgroup k hk, (hasLine_mount_iff kinds).mpr ⟨k, hk, rfl⟩, ?_⟩
    rw [Bool.eq_false_iff, ne_eq, (hkinds k).isFile_iff]
    exact fun hmodules => List.ne_nil_of_mem (mem_mountedKinds.mpr ⟨hgroup k hk, hmodules⟩) hnone

/-- **When the index of a group is exact.** After every history of batches it is, unless it is there
although no kind of the group has modules. Then it mounts a kind that has no index. -/
theorem Reached.rootExact_iff (l : Layout) (wd : Location) (t : FileTree) (g : Group)
    (hsep : l.Separate wd) (h : l.Reached wd t) :
    (l.RootExact t g ↔ (t.isFile ((l.dir g).join indexFile) = false ∨
        ∃ k : ArtifactKind, k.group = g ∧ l.modulesOf t k ≠ [])) ∧
      (¬l.RootExact t g → l.RootDangling t g) := by
  cases hroot : t.isFile ((l.dir g).join indexFile) with
  | false =>
      have hexact : l.RootExact t g := fun htrue => absurd (hroot.symm.trans htrue) (by decide)
      exact ⟨iff_of_true hexact (.inl rfl), absurd hexact⟩
  | true =>
      obtain ⟨hexact, hdangling⟩ := h.rootExact_or_dangling hsep hroot
      by_cases hnone : l.mountedKinds t g = []
      · refine ⟨iff_of_false (hdangling hnone).not_rootExact ?_, fun _ => hdangling hnone⟩
        rintro (hfalse | ⟨k, hk⟩)
        · cases hfalse
        · exact List.ne_nil_of_mem (mem_mountedKinds.mpr hk) hnone
      · obtain ⟨k, hk⟩ := List.exists_mem_of_ne_nil _ hnone
        exact ⟨iff_of_true (hexact hnone) (.inr ⟨k, mem_mountedKinds.mp hk⟩),
          absurd (hexact hnone)⟩

/-! ### A history of two batches -/

/-- The document from which everything has been removed. -/
def emptiedSheet : Document := ⟨"level", ""⟩

/-- What the emptied document is compiled to: nothing. -/
theorem compile_emptiedSheet : emptiedSheet.compile {} =
    ⟨"level", "level", artifacts ⟨"level", "level", {}⟩ [], (emptiedSheet.resolve {}).diagnostics,
      manifestEntries ⟨"level", "level", {}⟩ []⟩ :=
  Document.compile_blank (by decide +kernel) (by decide)

/-- Two directories beside each other. -/
def sideBySide : Layout := ⟨⟨"gen"⟩, ⟨"ed"⟩⟩

/-- Directories beside each other are separate. -/
theorem separate_sideBySide : sideBySide.Separate ["work"] :=
  ⟨by decide +kernel, by decide +kernel⟩

/-- The tree after a batch of one document. -/
def treeAfter? (d : Document) (t : FileTree) : Option FileTree :=
  (writeBatch sideBySide (Registry.ofBatch [d.compile {}]).1 [d.compile {}]).tree? t

/-- A batch of one document leads from one reached tree to another. -/
theorem Reached.treeAfter? {d : Document} (ht : sideBySide.Reached ["work"] t)
    (h : treeAfter? d t = some t') : sideBySide.Reached ["work"] t' := by
  obtain ⟨r, hrun⟩ := tree?_eq_some_iff.mp h
  exact ht.batch [d] {} hrun

/-- A document is written, and written again after everything has been removed from it. The index of
the group is there both times. -/
theorem exists_reached_of_removal :
    ∃ t t', sideBySide.Reached ["work"] t ∧ sideBySide.Reached ["work"] t' ∧
      t.isFile ((sideBySide.dir .runtime).join indexFile) = true ∧
      sideBySide.modulesOf t .actionProviders ≠ [] ∧
      t'.isFile ((sideBySide.dir .runtime).join indexFile) = true ∧
      sideBySide.mountedKinds t' .runtime = [] := by
  have hcheck : ((treeAfter? levelSheet ⟨["work"], [(["work"], .dir)]⟩).any fun t =>
      t.isFile ((sideBySide.dir .runtime).join indexFile) &&
        sideBySide.modulesOf t .actionProviders ≠ [] &&
        (treeAfter? emptiedSheet t).any fun t' =>
          t'.isFile ((sideBySide.dir .runtime).join indexFile) &&
            sideBySide.mountedKinds t' .runtime = []) = true := by
    simp only [treeAfter?, compile_levelSheet, compile_emptiedSheet]
    decide +kernel
  obtain ⟨t, ht, hcheck⟩ := (Option.any_eq_true _ _).mp hcheck
  simp only [Bool.and_eq_true, decide_eq_true_eq] at hcheck
  obtain ⟨⟨hroot, hmodules⟩, hcheck⟩ := hcheck
  obtain ⟨t', ht', hcheck⟩ := (Option.any_eq_true _ _).mp hcheck
  simp only [Bool.and_eq_true, decide_eq_true_eq] at hcheck
  obtain ⟨hroot', hnone⟩ := hcheck
  have hbare : FileTree.IsBare ⟨["work"], [(["work"], .dir)]⟩ := by
    intro loc data h
    by_cases hloc : loc = []
    · rw [hloc, get?_nil] at h
      cases h
    · rw [get?_of_ne_nil _ hloc, List.lookup_cons] at h
      split at h <;> cases h
  have hreached : sideBySide.Reached ["work"] t := Reached.treeAfter? (.bare rfl hbare) ht
  exact ⟨t, t', hreached, hreached.treeAfter? ht', hroot, hmodules, hroot', hnone⟩

/-- The index is exact while the document has definitions. -/
theorem rootExact_before_removal :
    ∃ t, sideBySide.Separate ["work"] ∧ sideBySide.Reached ["work"] t ∧
      t.isFile ((sideBySide.dir .runtime).join indexFile) = true ∧
      sideBySide.RootExact t .runtime := by
  obtain ⟨t, -, hreached, -, hroot, hmodules, -⟩ := exists_reached_of_removal
  refine ⟨t, separate_sideBySide, hreached, hroot, ?_⟩
  exact (Reached.rootExact_iff sideBySide ["work"] t .runtime separate_sideBySide hreached).1.mpr
    (.inr ⟨.actionProviders, rfl, hmodules⟩)

/-- **Removing the last module of a group** leaves an index that is not exact. -/
theorem not_rootExact_after_removal :
    ∃ t, sideBySide.Separate ["work"] ∧ sideBySide.Reached ["work"] t ∧
      ¬sideBySide.RootExact t .runtime := by
  obtain ⟨-, t, -, hreached, -, -, hroot, hnone⟩ := exists_reached_of_removal
  refine ⟨t, separate_sideBySide, hreached, ?_⟩
  exact ((hreached.rootExact_or_dangling separate_sideBySide hroot).2 hnone).not_rootExact

end Layout

end Defsheet

import Defsheet.Proofs.Directories
import Defsheet.Proofs.RootIndexes

/-!
# Both groups in one directory

Nothing keeps the run time and the editor from being written to the same directory. The files of the
kinds do not get in each other's way there, but the two groups have their index at the same place.
It is written once for each group, and the second time it mounts the kinds of the editor alone: if
there are marker providers, no other kind can be found through it.

## Main results

* `Layout.Shared`: both groups have the same directory.
* `Layout.rootMounts_iff_of_writeIndexes`: which kinds the index mounts in the end.
* `writeBatch_rootMounts_iff_of_shared`: when all kinds with modules are mounted once a batch is
  written.
* `Layout.not_rootMounts_of_level`: a batch after which they are not.
-/

namespace Defsheet

open Work FileTree

variable {l : Layout} {t t' : FileTree} {r : Report} {g g' : Group} {k : ArtifactKind}

/-- The editor has one kind of files. -/
theorem ArtifactKind.group_eq_editor_iff : k.group = .editor ↔ k = .markerProviders := by
  cases k <;> decide

namespace Layout

/-- Both groups have the same directory. -/
def Shared (l : Layout) (wd : Location) : Prop := l.root wd .runtime = l.root wd .editor

instance (l : Layout) (wd : Location) : Decidable (l.Shared wd) :=
  inferInstanceAs (Decidable (_ = _))

/-- In a shared directory, every group has the same root. -/
theorem Shared.root_eq {wd : Location} (h : l.Shared wd) (g g' : Group) :
    l.root wd g = l.root wd g' := by
  cases g <;> cases g'
  · rfl
  · exact h
  · exact h.symm
  · rfl

/-- So the groups have one index between them. -/
theorem Shared.indexAt_eq {wd : Location} (h : l.Shared wd) (g g' : Group) :
    l.indexAt wd g = l.indexAt wd g' := by
  rw [indexAt, indexAt, h.root_eq g g']

/-- The files of kinds lie one level below the index. -/
theorem Shared.indexesApart {wd : Location} (h : l.Shared wd) : l.IndexesApart wd := by
  intro k m g heq
  rw [fileAt, indexAt, h.root_eq g k.group] at heq
  simpa using congrArg List.length heq

/-- The index beside the directory of a kind mounts the kind. -/
def RootMounts (l : Layout) (t : FileTree) (k : ArtifactKind) : Prop :=
  ∃ content, t.read? ((l.dir k.group).join indexFile) = .ok content ∧
    HasLine content (mountLine k.module)

/-- The marker providers are all that the editor has. -/
theorem mountedKinds_editor (l : Layout) (t : FileTree) :
    l.mountedKinds t .editor =
      if l.modulesOf t .markerProviders = [] then [] else [.markerProviders] := by
  have hkinds : ArtifactKind.ofGroup .editor = [.markerProviders] := by decide
  rw [mountedKinds, hkinds, List.filter_cons, List.filter_nil]
  split <;> split <;> simp_all

/-! ### Two passes -/

/-- What the index of a group holds can be read by the path of the other group. -/
theorem Shared.read?_eq (h : l.Shared t.workingDir) {content content' : String}
    (hread : t.read? ((l.dir g).join indexFile) = .ok content)
    (hread' : t.read? ((l.dir g').join indexFile) = .ok content') : content = content' := by
  obtain ⟨loc, hloc, hfile, -⟩ := read?_eq_ok_iff.mp hread
  obtain ⟨loc', hloc', hfile', -⟩ := read?_eq_ok_iff.mp hread'
  rw [(resolves_index_iff.mp hloc).2, h.indexAt_eq g g'] at hfile
  rw [(resolves_index_iff.mp hloc').2, hfile] at hfile'
  exact FileData.text.inj (Entry.file.inj (Option.some.inj hfile'))

/-- The second pass leaves the index of the run time as it was if the editor has nothing to
mount. -/
theorem Shared.read?_of_rootIndexed (h : l.Shared t.workingDir) {S : Set Location}
    {content : String} (hedits : Edits S t t') (hroot : l.RootIndexed t t' .editor)
    (hnone : l.modulesOf t' .markerProviders = [])
    (hread : t.read? ((l.dir .runtime).join indexFile) = .ok content) :
    t'.read? ((l.dir .runtime).join indexFile) = .ok content := by
  obtain ⟨loc, hloc, hfile, hslash⟩ := read?_eq_ok_iff.mp hread
  rw [RootIndexed, mountedKinds_editor, if_pos hnone, if_pos rfl] at hroot
  refine read?_eq_ok_iff.mpr ⟨loc, hedits.resolves_iff.mpr hloc, ?_, hslash⟩
  rw [(resolves_index_iff.mp hloc).2, h.indexAt_eq .runtime .editor] at hfile ⊢
  rw [hroot, hfile]

/-- **Which kinds the index mounts** once it has been written for both groups: those of the editor
if there are any, and otherwise those of the run time. -/
theorem rootMounts_iff_of_writeIndexes (hshared : l.Shared t.workingDir)
    (h : writeIndexes l t = .ok r t') (hk : l.modulesOf t' k ≠ []) :
    l.RootMounts t' k ↔ k = .markerProviders ∨ l.modulesOf t' .markerProviders = [] := by
  have hapart := hshared.indexesApart
  obtain ⟨t₁, hedits₁, hroot₁, hedits₂, hroot₂, -⟩ := exists_passes_of_writeIndexes hapart h
  have hwd₁ := hedits₁.workingDir
  have hwd₂ := hedits₂.workingDir
  by_cases hnone : l.modulesOf t' .markerProviders = []
  · -- The second pass does not write the index, so it mounts what the first pass mounted.
    refine iff_of_true ?_ (.inr hnone)
    have hgroup : k.group = .runtime := by
      cases hgroup : k.group with
      | runtime => rfl
      | editor => exact absurd (ArtifactKind.group_eq_editor_iff.mp hgroup ▸ hnone) hk
    have hsame := (hedits₂.mono (hwd₁ ▸ l.groupIndexesAt_subset t.workingDir .editor)).modulesOf_eq
      (k := k) (hwd₁ ▸ hapart)
    have hmounted : k ∈ l.mountedKinds t₁ .runtime := mem_mountedKinds.mpr ⟨hgroup, hsame ▸ hk⟩
    rw [RootIndexed, if_neg (List.ne_nil_of_mem hmounted)] at hroot₁
    refine ⟨_, ?_, (hasLine_mount_iff _).mpr ⟨k, hmounted, rfl⟩⟩
    rw [hgroup]
    exact Shared.read?_of_rootIndexed (hwd₁ ▸ hshared) hedits₂ hroot₂ hnone hroot₁
  · rw [RootIndexed, mountedKinds_editor, if_neg hnone, if_neg (List.cons_ne_nil _ _)] at hroot₂
    rw [or_iff_left hnone]
    constructor
    · rintro ⟨content, hread, hline⟩
      have hshared' : l.Shared t'.workingDir := by
        rw [hwd₂, hwd₁]
        exact hshared
      rw [hshared'.read?_eq hread hroot₂, hasLine_mount_iff] at hline
      obtain ⟨k', hk', hmodule⟩ := hline
      rw [← ArtifactKind.module_injective hmodule, List.mem_singleton.mp hk']
    · rintro rfl
      exact ⟨_, hroot₂, (hasLine_mount_iff _).mpr ⟨_, List.mem_singleton_self _, rfl⟩⟩

/-- **One batch** in a directory that both groups share. -/
theorem rootMounts_iff_of_writeBatch {cs : List Compilation} (hshared : l.Shared t.workingDir)
    (hcs : ∀ c ∈ cs, c.Fits) (h : writeBatch l (Registry.ofBatch cs).1 cs t = .ok r t')
    (hk : l.modulesOf t' k ≠ []) :
    l.RootMounts t' k ↔ k = .markerProviders ∨ l.modulesOf t' .markerProviders = [] := by
  simp only [writeBatch, bind_eq_ok_iff, pure_eq_ok_iff] at h
  obtain ⟨files, t₁, hfiles, indexes, t₂, hindexes, -, rfl⟩ := h
  obtain ⟨-, hbuilds⟩ := reportEach_writeArtifacts (Registry.coexist_writable hcs) hfiles
  exact rootMounts_iff_of_writeIndexes (hbuilds.workingDir ▸ hshared) hindexes hk

end Layout

/-- **When all kinds with modules are mounted.** If a batch has been written to a directory that
both groups share, a kind with modules is mounted by the index of the directory exactly if it is
the one of the editor or the editor has none. So nothing is left out exactly if only one of the two
groups has modules. -/
theorem writeBatch_rootMounts_iff_of_shared (docs : List Document) (o : Options) (l : Layout)
    (t t' : FileTree) (r : Report) (hshared : l.Shared t.workingDir)
    (h : writeBatch l (Registry.ofBatch (docs.map fun d => d.compile o)).1
      (docs.map fun d => d.compile o) t = .ok r t') :
    (∀ k, l.modulesOf t' k ≠ [] →
        (l.RootMounts t' k ↔ k = .markerProviders ∨ l.modulesOf t' .markerProviders = [])) ∧
      ((∀ k, l.modulesOf t' k ≠ [] → l.RootMounts t' k) ↔
        l.modulesOf t' .markerProviders = [] ∨
          ∀ k : ArtifactKind, k.group = .runtime → l.modulesOf t' k = []) := by
  have hmounts (k : ArtifactKind) (hk : l.modulesOf t' k ≠ []) :=
    Layout.rootMounts_iff_of_writeBatch hshared (fun _ => Document.fits_of_mem_batch) h hk
  refine ⟨hmounts, fun hall => ?_, ?_⟩
  · by_contra hboth
    rw [not_or] at hboth
    obtain ⟨hmarkers, hruntime⟩ := hboth
    refine hruntime fun k hgroup => ?_
    by_contra hk
    obtain rfl := ((hmounts k hk).mp (hall k hk)).resolve_right hmarkers
    cases hgroup
  · rintro (hnone | hruntime) k hk
    · exact (hmounts k hk).mpr (.inr hnone)
    · refine (hmounts k hk).mpr (.inl (ArtifactKind.group_eq_editor_iff.mp ?_))
      cases hgroup : k.group with
      | runtime => exact absurd (hruntime k hgroup) hk
      | editor => rfl

/-! ### A document in a shared directory -/

namespace Layout

/-- One directory, named in two ways. -/
def oneDirectory : Layout := ⟨⟨"gen"⟩, ⟨"./gen"⟩⟩

/-- An index that can be read can be written. -/
theorem exists_writeGroupIndexes_of_read {t₁ : FileTree} {found : Report × List ArtifactKind}
    {text : String} (hkinds : writeKindIndexes l (ArtifactKind.ofGroup g) t = .ok found t₁)
    (hread : t₁.read? ((l.dir g).join indexFile) = .ok text) :
    ∃ r t', writeGroupIndexes l g t = .ok r t' := by
  obtain ⟨report, kinds⟩ := found
  obtain ⟨loc, hloc, hfile, hslash⟩ := read?_eq_ok_iff.mp hread
  obtain ⟨changed, t', hwrite⟩ := writeIfChanged_of_resolves hloc hslash (.inr ⟨text, hfile⟩)
    (indexContent (sortNames (kinds.map ArtifactKind.module)))
  simp only [writeGroupIndexes, bind_eq_ok_iff]
  by_cases hempty : kinds.isEmpty = true
  · refine ⟨report, t₁, ⟨report, kinds⟩, t₁, hkinds, ?_⟩
    rw [if_pos hempty]
    rfl
  · refine ⟨report ++ .ofWrite ((l.dir g).join indexFile) changed, t', ⟨report, kinds⟩, t₁, hkinds,
      ?_⟩
    rw [if_neg hempty]
    exact bind_eq_ok_iff.mpr ⟨changed, t', hwrite, rfl⟩

/-- If the indexes of the run time can be written, and an index can be read where that of the editor
belongs, all indexes can be written. What they hold does not matter. -/
theorem exists_writeIndexes_of_read {t₁ t₂ : FileTree}
    (hruntime : (writeGroupIndexes l .runtime).tree? t = some t₁)
    (heditor : (writeKindIndexes l (ArtifactKind.ofGroup .editor)).tree? t₁ = some t₂)
    (hread : (t₂.read? ((l.dir .editor).join indexFile)).isOk = true) :
    ∃ r t', writeIndexes l t = .ok r t' := by
  obtain ⟨first, hfirst⟩ := tree?_eq_some_iff.mp hruntime
  obtain ⟨found, hfound⟩ := tree?_eq_some_iff.mp heditor
  cases htext : t₂.read? ((l.dir .editor).join indexFile) with
  | error e =>
      rw [htext] at hread
      cases hread
  | ok text =>
      obtain ⟨second, t', hsecond⟩ := exists_writeGroupIndexes_of_read hfound htext
      exact ⟨_, t', reportEach_cons_eq_ok_iff.mpr ⟨first, t₁, _, hfirst,
        reportEach_cons_eq_ok_iff.mpr ⟨second, t', {}, hsecond, rfl, rfl⟩, rfl⟩⟩

/-- A document with an action and a marker can be written, and is found in both groups. -/
theorem exists_writeBatch_of_level :
    ∃ r t', writeBatch oneDirectory (Registry.ofBatch [levelSheet.compile {}]).1
        [levelSheet.compile {}] ⟨["work"], [(["work"], .dir)]⟩ = .ok r t' ∧
      oneDirectory.modulesOf t' .actionProviders ≠ [] ∧
      oneDirectory.modulesOf t' .markerProviders ≠ [] := by
  have hcheck : ((reportEach (writeArtifacts oneDirectory)
      ((Registry.ofBatch [levelSheet.compile {}]).1.writable [levelSheet.compile {}])).tree?
        ⟨["work"], [(["work"], .dir)]⟩).any (fun t₁ =>
          oneDirectory.modulesOf t₁ .actionProviders ≠ [] &&
          oneDirectory.modulesOf t₁ .markerProviders ≠ [] &&
          oneDirectory.Shared t₁.workingDir &&
          ((writeGroupIndexes oneDirectory .runtime).tree? t₁).any fun t₂ =>
            ((writeKindIndexes oneDirectory (ArtifactKind.ofGroup .editor)).tree? t₂).any fun t₃ =>
              (t₃.read? ((oneDirectory.dir .editor).join indexFile)).isOk) = true := by
    simp only [compile_levelSheet]
    decide +kernel
  obtain ⟨t₁, ht₁, hcheck⟩ := (Option.any_eq_true _ _).mp hcheck
  simp only [Bool.and_eq_true, decide_eq_true_eq, and_assoc] at hcheck
  obtain ⟨hactions, hmarkers, hshared, hcheck⟩ := hcheck
  obtain ⟨t₂, ht₂, hcheck⟩ := (Option.any_eq_true _ _).mp hcheck
  obtain ⟨t₃, ht₃, hread⟩ := (Option.any_eq_true _ _).mp hcheck
  obtain ⟨files, hfiles⟩ := tree?_eq_some_iff.mp ht₁
  obtain ⟨indexes, t', hindexes⟩ := exists_writeIndexes_of_read ht₂ ht₃ hread
  have hapart := hshared.indexesApart
  have hedits := writeIndexes_edits hapart hindexes
  refine ⟨files ++ indexes, t', ?_, ?_, ?_⟩
  · exact bind_eq_ok_iff.mpr ⟨_, _, hfiles, bind_eq_ok_iff.mpr ⟨_, _, hindexes, rfl⟩⟩
  · rwa [hedits.modulesOf_eq hapart]
  · rwa [hedits.modulesOf_eq hapart]

/-- A dot changes nothing about where a path leads. -/
theorem shared_oneDirectory : oneDirectory.Shared ["work"] := by
  decide +kernel

/-- The index mounts the marker providers, and no other kind. -/
theorem rootMounts_of_level :
    oneDirectory.Shared ["work"] ∧
      ∃ r t', writeBatch oneDirectory (Registry.ofBatch [levelSheet.compile {}]).1
          [levelSheet.compile {}] ⟨["work"], [(["work"], .dir)]⟩ = .ok r t' ∧
        oneDirectory.RootMounts t' .markerProviders ∧
        ∀ k : ArtifactKind, k.group = .runtime → oneDirectory.modulesOf t' k ≠ [] →
          ¬oneDirectory.RootMounts t' k := by
  obtain ⟨r, t', hrun, -, hmarkers⟩ := exists_writeBatch_of_level
  obtain ⟨hmounts, -⟩ := writeBatch_rootMounts_iff_of_shared [levelSheet] {} oneDirectory
    ⟨["work"], [(["work"], .dir)]⟩ t' r shared_oneDirectory hrun
  refine ⟨shared_oneDirectory, r, t', hrun, (hmounts _ hmarkers).mpr (.inl rfl), ?_⟩
  intro k hgroup hk hmount
  obtain rfl := ((hmounts k hk).mp hmount).resolve_right hmarkers
  cases hgroup

/-- **A document with an action and a marker** cannot be found as a whole: the action providers have
a module, but the index does not mount them. -/
theorem not_rootMounts_of_level :
    oneDirectory.Shared ["work"] ∧
      ∃ r t', writeBatch oneDirectory (Registry.ofBatch [levelSheet.compile {}]).1
          [levelSheet.compile {}] ⟨["work"], [(["work"], .dir)]⟩ = .ok r t' ∧
        oneDirectory.modulesOf t' .actionProviders ≠ [] ∧
        ¬oneDirectory.RootMounts t' .actionProviders := by
  obtain ⟨r, t', hrun, hactions, hmarkers⟩ := exists_writeBatch_of_level
  have hfits : ∀ c ∈ [levelSheet.compile {}], c.Fits :=
    List.forall_mem_singleton.mpr (levelSheet.fits_compile {})
  refine ⟨shared_oneDirectory, r, t', hrun, hactions, fun hmount => ?_⟩
  rcases (rootMounts_iff_of_writeBatch shared_oneDirectory hfits hrun hactions).mp hmount with
    hkind | hnone
  · cases hkind
  · exact hmarkers hnone

end Layout

end Defsheet

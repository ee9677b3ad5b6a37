import Defsheet.Proofs.Grounded
import Defsheet.Proofs.RootIndexes

/-!
# Writing a batch again

Once a batch has been written, writing it again changes nothing: every file holds its text already,
and what had to be removed is gone. What one document leaves behind is not undone by the documents
after it, nor by the indexes, and the indexes are derived from directories that they do not change.

This needs paths that lead to the same places during the whole run. A path that goes back from a
directory that is not there fails that: the first run makes the directory, and only the second run
finds what has to be removed.

## Main results

* `reportEach_writeArtifacts_cleared`: files that documents do not give rise to are gone for good.
* `writeIndexes_paths` and `writeIndexes_rests`: work on indexes, the first and the second time.
* `writeBatch_settles`: writing a batch again changes nothing.
* `not_settled_of_missing_directory`: why the paths matter.
-/

namespace Defsheet

open Work FileTree

variable {l : Layout} {t t' : FileTree} {p : Path} {r : Report}

/-! ### Reports -/

namespace Report

/-- The report of work that found some files as they should be. -/
def resting (ps : List Path) : Report := { unchanged := ps }

/-- The files that are as they should be now. -/
def paths (r : Report) : List Path := r.written ++ r.unchanged

/-- The path of a file that was to be written is reported, whether or not it was. -/
theorem paths_ofWrite (p : Path) (written : Bool) : (ofWrite p written).paths = [p] := by
  cases written <;> rfl

/-- A removal reports no path among those of files that are there. -/
theorem paths_ofRemoval (p : Path) (removed : Bool) : (ofRemoval p removed).paths = [] := by
  cases removed <;> rfl

/-- Reports are joined part by part. -/
theorem paths_append (a b : Report) : (a ++ b).paths.Perm (a.paths ++ b.paths) := by
  have h : (a ++ b).paths = a.written ++ (b.written ++ (a.unchanged ++ b.unchanged)) :=
    List.append_assoc _ _ _
  have h' : a.paths ++ b.paths = a.written ++ (a.unchanged ++ (b.written ++ b.unchanged)) :=
    List.append_assoc _ _ _
  rw [h, h', ← List.append_assoc b.written, ← List.append_assoc a.unchanged]
  exact (List.perm_append_comm.append_right _).append_left _

end Report

/-- Work on all items takes care of the paths of each. -/
theorem reportEach_paths {α : Type} {f : α → Work Report} {ps : α → List Path} {as : List α}
    (step : ∀ a ∈ as, ∀ t r t', f a t = .ok r t' → r.paths.Perm (ps a))
    (h : reportEach f as t = .ok r t') : r.paths.Perm (as.flatMap ps) := by
  induction as generalizing t r with
  | nil =>
      obtain ⟨rfl, -⟩ := pure_eq_ok_iff.mp h
      exact .nil
  | cons a as ih =>
      obtain ⟨first, t₁, others, hfirst, hothers, rfl⟩ := reportEach_cons_eq_ok_iff.mp h
      rw [List.forall_mem_cons] at step
      rw [List.flatMap_cons]
      exact (Report.paths_append first others).trans
        ((step.1 t first t₁ hfirst).append (ih step.2 hothers))

/-- Work on all items rests if work on each does. -/
theorem reportEach_rests {α : Type} {f : α → Work Report} {ps : α → List Path} {as : List α}
    (h : ∀ a ∈ as, f a t = .ok (.resting (ps a)) t) :
    reportEach f as t = .ok (.resting (as.flatMap ps)) t := by
  induction as with
  | nil => rfl
  | cons a as ih =>
      rw [List.forall_mem_cons] at h
      exact reportEach_cons_eq_ok_iff.mpr ⟨_, t, _, h.1, ih h.2, rfl⟩

/-! ### Files -/

/-- A file that holds the text already is left alone. -/
theorem writeIfChanged_of_read {content : String} (h : t.read? p = .ok content) :
    writeIfChanged p content t = .ok false t := by
  have hread : readIfThere p t = .ok (some content) t := look_eq_ok_iff.mpr ⟨by rw [h], rfl⟩
  refine bind_eq_ok_iff.mpr ⟨_, _, hread, ?_⟩
  rw [if_pos rfl]
  rfl

/-- What is not there is not removed. -/
theorem removeIfThere_of_isFile (h : t.isFile p = false) : removeIfThere p t = .ok false t := by
  refine bind_eq_ok_iff.mpr ⟨t, t, rfl, ?_⟩
  rw [h]
  rfl

/-! ### Documents -/

/-- The paths of the files of a document. -/
def Layout.documentPaths (l : Layout) (c : Compilation) : List Path :=
  c.artifacts.map fun a => l.file a.kind a.module

/-- Writing a file reports its path. -/
theorem writeArtifact_paths {a : Artifact} (h : writeArtifact l a t = .ok r t') :
    r.paths = [l.file a.kind a.module] := by
  simp only [writeArtifact, bind_eq_ok_iff, pure_eq_ok_iff] at h
  obtain ⟨written, t₁, -, rfl, -⟩ := h
  exact Report.paths_ofWrite _ _

/-- Removing a stale file does not. -/
theorem removeStale_paths {c : Compilation} {k : ArtifactKind}
    (h : removeStale l c k t = .ok r t') : r.paths = [] := by
  obtain ⟨-, rfl, -⟩ | ⟨-, removed, -, rfl⟩ := removeStale_eq_ok h
  · rfl
  · exact Report.paths_ofRemoval _ _

/-- Writing a document reports the paths of its files, each once. -/
theorem writeArtifacts_paths {c : Compilation} (hne : c.module ≠ "")
    (h : writeArtifacts l c t = .ok r t') : r.paths.Perm (l.documentPaths c) := by
  obtain ⟨written, t₁, removed, hwrite, hremove, rfl⟩ := (writeArtifacts_eq_ok_iff hne).mp h
  have hwritten : written.paths.Perm (c.artifacts.flatMap fun a => [l.file a.kind a.module]) :=
    reportEach_paths (fun a _ t r t' h => .of_eq (writeArtifact_paths h)) hwrite
  have hremoved : removed.paths.Perm (ArtifactKind.all.flatMap fun _ => []) :=
    reportEach_paths (fun k _ t r t' h => .of_eq (removeStale_paths h)) hremove
  rw [Layout.documentPaths, List.map_eq_flatMap, ← List.append_nil (List.flatMap _ _)]
  exact (Report.paths_append written removed).trans (hwritten.append hremoved)

/-- The files that a document does not give rise to are gone. -/
def Layout.Cleared (l : Layout) (t : FileTree) (c : Compilation) : Prop :=
  ∀ k ∈ c.staleKinds, ∀ data, t.get? (l.fileAt t.workingDir k c.module) ≠ some (.file data)

/-- Stale files stay away unless something is done where they stood. -/
theorem FileTree.Builds.cleared {S : Set Location} {c : Compilation} (h : Builds S t t')
    (hS : ∀ k, l.fileAt t.workingDir k c.module ∉ S) (hc : l.Cleared t c) : l.Cleared t' c := by
  intro k hk data hfile
  rw [h.workingDir, h.get?_file_iff (hS k)] at hfile
  exact hc k hk data hfile

/-- A stale file that is gone is not found by its path. -/
theorem Layout.Cleared.isFile {c : Compilation} {k : ArtifactKind} (h : l.Cleared t c)
    (hm : '/' ∉ c.module.toList) (hk : k ∈ c.staleKinds) :
    t.isFile (l.file k c.module) = false := by
  rw [Bool.eq_false_iff, ne_eq, FileTree.isFile_iff]
  rintro ⟨loc, data, hloc, hfile, -⟩
  rw [((resolves_file_iff hm).mp hloc).2] at hfile
  exact h k hk data hfile

/-- If every file could be reached, so can the new one, because it was written through its path. -/
theorem writeArtifact_isOpen {a : Artifact} (hm : '/' ∉ a.module.toList)
    (h : writeArtifact l a t = .ok r t') (hopen : l.IsOpen t) : l.IsOpen t' := by
  simp only [writeArtifact, bind_eq_ok_iff, pure_eq_ok_iff] at h
  obtain ⟨written, t₁, hwrite, -, rfl⟩ := h
  obtain ⟨-, loc, hloc, hbuilds, -⟩ := writeIfChanged_eq_ok hwrite
  exact hopen.builds hm hloc hbuilds

/-- Files may have gone. Those that are left can be reached. -/
structure Layout.Sheds (l : Layout) (t t' : FileTree) : Prop where
  isOpen : l.IsOpen t'
  workingDir : t'.workingDir = t.workingDir
  files : ∀ loc data, t'.get? loc = some (.file data) → t.get? loc = some (.file data)

/-- Removing the file of a kind that a document does not give rise to. -/
theorem removeStale_sheds {c : Compilation} {k : ArtifactKind} (hm : '/' ∉ c.module.toList)
    (hopen : l.IsOpen t) (h : removeStale l c k t = .ok r t') :
    l.Sheds t t' ∧ (k ∈ c.staleKinds → t'.isFile (l.file k c.module) = false) := by
  obtain ⟨hk, -, rfl⟩ | ⟨-, removed, hremove, -⟩ := removeStale_eq_ok h
  · exact ⟨⟨hopen, rfl, fun _ _ hfile => hfile⟩, fun hstale => absurd hstale hk⟩
  obtain ⟨hgone, rfl | ⟨loc, hloc, hedits, hnone⟩⟩ := removeIfThere_eq_ok hremove
  · exact ⟨⟨hopen, rfl, fun _ _ hfile => hfile⟩, fun _ => hgone⟩
  have hopen' := hopen.builds hm (hedits.resolves_iff.mpr hloc) hedits.builds
  refine ⟨⟨hopen', hedits.workingDir, fun loc' data hfile => ?_⟩, fun _ => hgone⟩
  by_cases heq : loc' = loc
  · rw [heq, hnone] at hfile
    cases hfile
  · rwa [hedits.rest loc' heq] at hfile

/-- Removing the files of some kinds that a document does not give rise to. -/
theorem reportEach_removeStale_sheds {c : Compilation} {ks : List ArtifactKind}
    (hm : '/' ∉ c.module.toList) (hopen : l.IsOpen t)
    (h : reportEach (removeStale l c) ks t = .ok r t') :
    l.Sheds t t' ∧ ∀ k ∈ ks, k ∈ c.staleKinds →
      ∀ data, t'.get? (l.fileAt t'.workingDir k c.module) ≠ some (.file data) := by
  induction ks generalizing t r with
  | nil =>
      obtain ⟨-, rfl⟩ := pure_eq_ok_iff.mp h
      exact ⟨⟨hopen, rfl, fun _ _ hfile => hfile⟩, List.forall_mem_nil _⟩
  | cons k ks ih =>
      obtain ⟨first, t₁, others, hfirst, hothers, -⟩ := reportEach_cons_eq_ok_iff.mp h
      obtain ⟨hsheds₁, hgone⟩ := removeStale_sheds hm hopen hfirst
      obtain ⟨hsheds₂, hgones⟩ := ih hsheds₁.isOpen hothers
      refine ⟨⟨hsheds₂.isOpen, hsheds₂.workingDir.trans hsheds₁.workingDir, ?_⟩,
        List.forall_mem_cons.mpr ⟨fun hk data hfile => ?_, hgones⟩⟩
      · exact fun loc data hfile => hsheds₁.files loc data (hsheds₂.files loc data hfile)
      · -- The file would have been there after the first step, where it could be reached.
        have hfile₁ := hsheds₂.files _ data hfile
        rw [hsheds₂.workingDir] at hfile₁
        have hthere := (hsheds₁.isOpen.isFile_iff hm).mpr ⟨data, hfile₁⟩
        rw [hgone hk] at hthere
        cases hthere

/-- **Writing a document clears** what it does not give rise to. -/
theorem writeArtifacts_cleared {c : Compilation} (hc : c.Fits) (hne : c.module ≠ "")
    (hopen : l.IsOpen t) (h : writeArtifacts l c t = .ok r t') : l.IsOpen t' ∧ l.Cleared t' c := by
  obtain ⟨written, t₁, removed, hwrite, hremove, -⟩ := (writeArtifacts_eq_ok_iff hne).mp h
  have hopen₁ : l.IsOpen t₁ := by
    refine reportEach_induction (fun t t' => l.IsOpen t → l.IsOpen t') (fun _ => id)
      (fun h h' hopen => h' (h hopen)) (fun a ha t r t' hstep => ?_) hwrite hopen
    exact writeArtifact_isOpen (hc.module_eq a ha ▸ hc.slash_not_mem) hstep
  obtain ⟨hsheds, hgone⟩ := reportEach_removeStale_sheds hc.slash_not_mem hopen₁ hremove
  exact ⟨hsheds.isOpen, fun k hk => hgone k k.mem_all hk⟩

/-- **Writing documents** whose modules are different clears what they do not give rise to: what is
gone for one document does not come back with another. -/
theorem reportEach_writeArtifacts_cleared {cs : List Compilation} (hcs : Compilation.Coexist cs)
    (hopen : l.IsOpen t) (h : reportEach (writeArtifacts l) cs t = .ok r t') :
    ∀ c ∈ cs, l.Cleared t' c := by
  induction cs generalizing t r with
  | nil => exact List.forall_mem_nil _
  | cons c cs ih =>
      obtain ⟨first, t₁, others, hfirst, hothers, -⟩ := reportEach_cons_eq_ok_iff.mp h
      obtain ⟨hc, hne, hmodule, hcs⟩ := hcs.of_cons
      obtain ⟨hopen₁, hcleared⟩ := writeArtifacts_cleared hc hne hopen hfirst
      refine List.forall_mem_cons.mpr ⟨?_, ih hcs hopen₁ hothers⟩
      obtain ⟨-, hbuilds⟩ := reportEach_writeArtifacts hcs hothers
      refine hbuilds.cleared ?_ hcleared
      rintro k ⟨c', hc', k', heq⟩
      exact hmodule ((Layout.fileAt_injective heq).2 ▸ List.mem_map_of_mem hc')

/-- A document whose files hold their texts and whose other files are gone is at rest. -/
theorem writeArtifacts_rests {c : Compilation} (hc : c.Fits) (hne : c.module ≠ "")
    (hreads : ∀ a ∈ c.artifacts, t.read? (l.file a.kind c.module) = .ok a.content)
    (hcleared : l.Cleared t c) :
    writeArtifacts l c t = .ok (.resting (l.documentPaths c)) t := by
  have hwrite : reportEach (writeArtifact l) c.artifacts t =
      .ok (.resting (c.artifacts.flatMap fun a => [l.file a.kind a.module])) t := by
    refine reportEach_rests fun a ha => ?_
    have hread := hreads a ha
    rw [← hc.module_eq a ha] at hread
    exact bind_eq_ok_iff.mpr ⟨_, _, writeIfChanged_of_read hread, rfl⟩
  have hremove : reportEach (removeStale l c) ArtifactKind.all t =
      .ok (.resting (ArtifactKind.all.flatMap fun _ => [])) t := by
    refine reportEach_rests fun k _ => ?_
    rw [removeStale]
    split
    · rfl
    · next hnone =>
      have hk : k ∈ c.staleKinds := Compilation.mem_staleKinds.mpr (Bool.eq_false_iff.mpr hnone)
      exact bind_eq_ok_iff.mpr
        ⟨_, _, removeIfThere_of_isFile (hcleared.isFile hc.slash_not_mem hk), rfl⟩
  rw [Layout.documentPaths, List.map_eq_flatMap, ← List.append_nil (List.flatMap _ _)]
  exact (writeArtifacts_eq_ok_iff hne).mpr ⟨_, _, _, hwrite, hremove, rfl⟩

/-! ### Indexes -/

/-- The paths of the indexes of a group, as far as there is something to mount. -/
def Layout.indexPaths (l : Layout) (t : FileTree) (g : Group) : List Path :=
  (l.mountedKinds t g).map (fun k => l.file k "mod") ++
    if l.mountedKinds t g = [] then [] else [(l.dir g).join indexFile]

/-- Which indexes there should be is not changed by writing indexes. -/
theorem FileTree.Edits.indexPaths_eq (hsep : l.Separate t.workingDir)
    (h : Edits (l.indexesAt t.workingDir) t t') : l.indexPaths t' = l.indexPaths t := by
  funext g
  rw [Layout.indexPaths, h.mountedKinds_eq hsep.indexesApart, Layout.indexPaths]

/-- Modules can be listed where the directory of the kind can be, or is missing. -/
theorem listModules_eq_ok_iff {k : ArtifactKind} :
    (∃ ms, listModules (l.kindDir k) t = .ok ms t) ↔ t.Lists (l.kindDir k) := by
  simp only [listModules, look_eq_ok_iff, and_true, FileTree.Lists]
  cases t.names? (l.kindDir k) with
  | ok names => simp
  | error e =>
      cases e <;> simp

/-- Work on the index of a kind takes care of its path if there is something to mount. -/
theorem writeKindIndex_paths {k : ArtifactKind} {mounted : Bool}
    (h : writeKindIndex l k t = .ok (r, mounted) t') :
    r.paths = (if l.modulesOf t k = [] then [] else [l.file k "mod"]) ∧ t.Lists (l.kindDir k) := by
  simp only [writeKindIndex, bind_eq_ok_iff] at h
  obtain ⟨ms, t₁, hlist, h⟩ := h
  obtain ⟨rfl, rfl⟩ := listModules_eq_ok hlist
  refine ⟨?_, listModules_eq_ok_iff.mp ⟨_, hlist⟩⟩
  rw [Layout.kindDir_join_indexFile] at h
  split at h
  · next hempty =>
    simp only [bind_eq_ok_iff, pure_eq_ok_iff, Prod.mk.injEq] at h
    obtain ⟨removed, t₂, -, ⟨rfl, -⟩, -⟩ := h
    rw [if_pos (List.isEmpty_iff.mp hempty), Report.paths_ofRemoval]
  · next hne =>
    simp only [bind_eq_ok_iff, pure_eq_ok_iff, Prod.mk.injEq] at h
    obtain ⟨written, t₂, -, ⟨rfl, -⟩, -⟩ := h
    rw [if_neg (mt List.isEmpty_iff.mpr hne), Report.paths_ofWrite]

/-- Work on the indexes of some kinds. All directories can be listed before the work begins, since
the work does not change that. -/
theorem writeKindIndexes_paths {ks kinds : List ArtifactKind} (hsep : l.Separate t.workingDir)
    (hground : l.Grounded t) (h : writeKindIndexes l ks t = .ok (r, kinds) t') :
    r.paths.Perm ((ks.filter fun k => l.modulesOf t k ≠ []).map fun k => l.file k "mod") ∧
      ∀ k ∈ ks, t.Lists (l.kindDir k) := by
  induction ks generalizing t r kinds with
  | nil =>
      obtain ⟨hresult, -⟩ := pure_eq_ok_iff.mp h
      rw [← (Prod.mk.inj hresult).1]
      exact ⟨.nil, List.forall_mem_nil _⟩
  | cons k ks ih =>
      simp only [writeKindIndexes, bind_eq_ok_iff, pure_eq_ok_iff] at h
      obtain ⟨⟨first, mounted⟩, t₁, hfirst, ⟨others, kinds'⟩, t₂, hothers, hresult, rfl⟩ := h
      obtain ⟨hpaths, hlists⟩ := writeKindIndex_paths hfirst
      have hedits := (writeKindIndex_eq_ok hsep.indexesApart hfirst).1.mono (l.kindIndex_subset _ k)
      have hground₁ := hground.mono hedits.workingDir hedits.builds.dirs
      obtain ⟨hpaths', hlists'⟩ := ih (hedits.workingDir ▸ hsep) hground₁ hothers
      simp only [hedits.modulesOf_eq hsep.indexesApart] at hpaths'
      refine ⟨?_, List.forall_mem_cons.mpr ⟨hlists, fun k' hk' => ?_⟩⟩
      · rw [← (Prod.mk.inj hresult).1]
        refine (Report.paths_append first others).trans ?_
        by_cases hempty : l.modulesOf t k = []
        · rw [List.filter_cons_of_neg (by simpa using hempty), hpaths, if_pos hempty]
          exact hpaths'
        · rw [List.filter_cons_of_pos (by simpa using hempty), hpaths, if_neg hempty]
          exact hpaths'.cons _
      · exact (hedits.lists_iff hsep hground).mp (hlists' k' hk')

/-- Work on the indexes of a group. -/
theorem writeGroupIndexes_paths {g : Group} (hsep : l.Separate t.workingDir)
    (hground : l.Grounded t) (h : writeGroupIndexes l g t = .ok r t') :
    r.paths.Perm (l.indexPaths t g) ∧ ∀ k ∈ ArtifactKind.ofGroup g, t.Lists (l.kindDir k) := by
  simp only [writeGroupIndexes, bind_eq_ok_iff] at h
  obtain ⟨⟨report, kinds⟩, t₁, hkinds, h⟩ := h
  have hnodup : (ArtifactKind.ofGroup g).Nodup := by
    cases g <;> decide
  obtain ⟨-, -, hmounted⟩ := writeKindIndexes_eq_ok hsep.indexesApart hnodup hkinds
  obtain ⟨hpaths, hlists⟩ := writeKindIndexes_paths hsep hground hkinds
  refine ⟨?_, hlists⟩
  have hkinds' : l.mountedKinds t g = kinds := hmounted.symm
  have hpaths' : report.paths.Perm (kinds.map fun k => l.file k "mod") := hkinds' ▸ hpaths
  rw [Layout.indexPaths, hkinds']
  split at h
  · next hempty =>
    obtain ⟨rfl, -⟩ := pure_eq_ok_iff.mp h
    rw [if_pos (List.isEmpty_iff.mp hempty), List.append_nil]
    exact hpaths'
  · next hne =>
    simp only [bind_eq_ok_iff, pure_eq_ok_iff] at h
    obtain ⟨written, t₂, -, rfl, -⟩ := h
    rw [if_neg (mt List.isEmpty_iff.mpr hne)]
    refine (Report.paths_append _ _).trans (hpaths'.append ?_)
    rw [Report.paths_ofWrite]

/-- **Work on all indexes** takes care of the indexes that mount something, and all directories
could be listed. -/
theorem writeIndexes_paths (hsep : l.Separate t.workingDir) (hground : l.Grounded t)
    (h : writeIndexes l t = .ok r t') :
    r.paths.Perm (Group.all.flatMap (l.indexPaths t)) ∧ ∀ k, t.Lists (l.kindDir k) := by
  obtain ⟨first, t₁, others, hruntime, hothers, rfl⟩ := reportEach_cons_eq_ok_iff.mp h
  obtain ⟨second, t₂, none, heditor, hnone, rfl⟩ := reportEach_cons_eq_ok_iff.mp hothers
  obtain ⟨rfl, -⟩ := pure_eq_ok_iff.mp hnone
  have hedits := (writeGroupIndexes_eq_ok hsep.indexesApart hruntime).1.mono
    (l.groupIndexesAt_subset _ _)
  have hground₁ := hground.mono hedits.workingDir hedits.builds.dirs
  obtain ⟨hpaths, hlists⟩ := writeGroupIndexes_paths hsep hground hruntime
  obtain ⟨hpaths', hlists'⟩ :=
    writeGroupIndexes_paths (hedits.workingDir ▸ hsep) hground₁ heditor
  rw [hedits.indexPaths_eq hsep] at hpaths'
  constructor
  · exact (Report.paths_append _ _).trans
      (hpaths.append ((Report.paths_append _ _).trans (hpaths'.append .nil)))
  · intro k
    cases hgroup : k.group with
    | runtime => exact hlists k (ArtifactKind.mem_ofGroup.mpr hgroup)
    | editor =>
        exact (hedits.lists_iff hsep hground).mp (hlists' k (ArtifactKind.mem_ofGroup.mpr hgroup))

/-- The index of a kind that is right is at rest. -/
theorem writeKindIndex_rests {k : ArtifactKind} (hlists : t.Lists (l.kindDir k))
    (hindexed : l.KindIndexed t k) :
    writeKindIndex l k t = .ok (.resting (if l.modulesOf t k = [] then [] else [l.file k "mod"]),
      decide (l.modulesOf t k ≠ [])) t := by
  obtain ⟨ms, hlist⟩ := listModules_eq_ok_iff.mpr hlists
  obtain ⟨-, rfl⟩ := listModules_eq_ok hlist
  refine bind_eq_ok_iff.mpr ⟨_, _, hlist, ?_⟩
  rw [Layout.kindDir_join_indexFile]
  rw [Layout.KindIndexed] at hindexed
  by_cases hempty : l.modulesOf t k = []
  · rw [if_pos hempty] at hindexed ⊢
    rw [if_pos (List.isEmpty_iff.mpr hempty), decide_eq_false (not_not_intro hempty)]
    exact bind_eq_ok_iff.mpr ⟨_, _, removeIfThere_of_isFile hindexed, rfl⟩
  · rw [if_neg hempty] at hindexed ⊢
    rw [if_neg (mt List.isEmpty_iff.mp hempty), decide_eq_true hempty]
    exact bind_eq_ok_iff.mpr ⟨_, _, writeIfChanged_of_read hindexed, rfl⟩

/-- Indexes that are right already are left alone, and reported as unchanged. -/
theorem writeKindIndexes_rests {ks : List ArtifactKind}
    (hlists : ∀ k ∈ ks, t.Lists (l.kindDir k)) (hindexed : ∀ k ∈ ks, l.KindIndexed t k) :
    writeKindIndexes l ks t =
      .ok (.resting ((ks.filter fun k => l.modulesOf t k ≠ []).map fun k => l.file k "mod"),
        ks.filter fun k => l.modulesOf t k ≠ []) t := by
  induction ks with
  | nil => rfl
  | cons k ks ih =>
      rw [List.forall_mem_cons] at hlists hindexed
      refine bind_eq_ok_iff.mpr ⟨_, _, writeKindIndex_rests hlists.1 hindexed.1, ?_⟩
      refine bind_eq_ok_iff.mpr ⟨_, _, ih hlists.2 hindexed.2, ?_⟩
      by_cases hempty : l.modulesOf t k = []
      · rw [List.filter_cons_of_neg (by simpa using hempty), if_pos hempty]
        simp only [hempty]
        rfl
      · rw [List.filter_cons_of_pos (by simpa using hempty), if_neg hempty]
        simp only [ne_eq, hempty, not_false_eq_true, decide_true]
        rfl

/-- The indexes of a group that are right and up to date are at rest. -/
theorem writeGroupIndexes_rests {t₁ : FileTree} {g : Group} (hlists : ∀ k, t.Lists (l.kindDir k))
    (hindexed : ∀ k, l.KindIndexed t k) (hroot : l.RootIndexed t₁ t g) :
    writeGroupIndexes l g t = .ok (.resting (l.indexPaths t g)) t := by
  refine bind_eq_ok_iff.mpr ⟨_, _, writeKindIndexes_rests (fun k _ => hlists k)
    (fun k _ => hindexed k), ?_⟩
  change (if (l.mountedKinds t g).isEmpty = true then _ else _ : Work Report) t = _
  rw [Layout.RootIndexed] at hroot
  rw [Layout.indexPaths]
  by_cases hempty : l.mountedKinds t g = []
  · rw [if_pos (List.isEmpty_iff.mpr hempty), if_pos hempty, List.append_nil]
    rfl
  · rw [if_neg hempty] at hroot
    rw [if_neg (mt List.isEmpty_iff.mp hempty), if_neg hempty]
    exact bind_eq_ok_iff.mpr ⟨_, _, writeIfChanged_of_read hroot, rfl⟩

/-- **Indexes that are right and up to date are at rest.** -/
theorem writeIndexes_rests {t₁ : FileTree} (hlists : ∀ k, t.Lists (l.kindDir k))
    (hindexed : ∀ k, l.KindIndexed t k) (hroots : ∀ g, l.RootIndexed t₁ t g) :
    writeIndexes l t = .ok (.resting (Group.all.flatMap (l.indexPaths t))) t :=
  reportEach_rests fun g _ => writeGroupIndexes_rests hlists hindexed (hroots g)

/-! ### Batches -/

/-- Documents that were written are at rest, also once the indexes have been written. -/
theorem reportEach_writeArtifacts_rests {cs : List Compilation} {t₁ : FileTree}
    (hsep : l.Separate t.workingDir) (hopen : l.IsOpen t) (hcs : Compilation.Coexist cs)
    (h : reportEach (writeArtifacts l) cs t = .ok r t₁)
    (hedits : Edits (l.indexesAt t₁.workingDir) t₁ t') :
    reportEach (writeArtifacts l) cs t' = .ok (.resting (cs.flatMap l.documentPaths)) t' := by
  obtain ⟨hreads, hbuilds⟩ := reportEach_writeArtifacts hcs h
  have hcleared := reportEach_writeArtifacts_cleared hcs hopen h
  have hsep₁ : l.Separate t₁.workingDir := hbuilds.workingDir ▸ hsep
  refine reportEach_rests fun c hc => ?_
  obtain ⟨-, -, hslash, hmod⟩ := hcs.fits c hc
  refine writeArtifacts_rests (hcs.fits c hc) (hcs.module_ne_empty c hc) (fun a ha => ?_) ?_
  · refine hedits.builds.read?_eq_ok (hreads c hc a ha) fun loc hloc => ?_
    rw [((Layout.resolves_file_iff hslash).mp hloc).2]
    exact hsep₁.indexesApart.fileAt_not_mem_indexesAt hmod
  · exact hedits.builds.cleared (fun k => hsep₁.indexesApart.fileAt_not_mem_indexesAt hmod)
      (hcleared c hc)

/-- A batch that was written with the report `r` is settled in a tree: writing it again succeeds and
changes nothing, and the files that were taken care of are found as they should be. -/
def Layout.Settled (l : Layout) (cs : List Compilation) (r : Report) (t : FileTree) : Prop :=
  ∃ r', writeBatch l (Registry.ofBatch cs).1 cs t = .ok r' t ∧ r'.written = [] ∧ r'.removed = [] ∧
    r'.unchanged.Perm (r.written ++ r.unchanged)

/-- Nothing is left over where a batch is settled. -/
theorem Layout.Settled.cleared {cs : List Compilation} (hsep : l.Separate t.workingDir)
    (hopen : l.IsOpen t) (hcs : ∀ c ∈ cs, c.Fits) (h : l.Settled cs r t) :
    ∀ c ∈ (Registry.ofBatch cs).1.writable cs, l.Cleared t c := by
  intro c hc
  obtain ⟨r', hrun, -⟩ := h
  simp only [writeBatch, bind_eq_ok_iff, pure_eq_ok_iff] at hrun
  obtain ⟨files, t₁, hfiles, indexes, t₂, hindexes, -, rfl⟩ := hrun
  have hwritable := Registry.coexist_writable hcs
  obtain ⟨-, hbuilds⟩ := reportEach_writeArtifacts hwritable hfiles
  have hsep₁ : l.Separate t₁.workingDir := hbuilds.workingDir ▸ hsep
  have hedits := (writeIndexes_eq_ok hsep₁ hindexes).1
  refine hedits.builds.cleared (fun k => ?_)
    (reportEach_writeArtifacts_cleared hwritable hopen hfiles c hc)
  exact hsep₁.indexesApart.fileAt_not_mem_indexesAt (hwritable.fits c hc).ne_mod

/-- **Writing a batch again changes nothing**, if both paths of the layout go back from existing
directories only. -/
theorem writeBatch_settles (docs : List Document) (o : Options) (l : Layout) (t t' : FileTree)
    (r : Report) (htree : t.IsClosed) (hsep : l.Separate t.workingDir) (hground : l.Grounded t)
    (h : writeBatch l (Registry.ofBatch (docs.map fun d => d.compile o)).1
      (docs.map fun d => d.compile o) t = .ok r t') :
    l.Settled (docs.map fun d => d.compile o) r t' := by
  set cs := docs.map fun d => d.compile o
  have hwritable : Compilation.Coexist ((Registry.ofBatch cs).1.writable cs) :=
    Registry.coexist_writable fun _ => Document.fits_of_mem_batch
  simp only [writeBatch, bind_eq_ok_iff, pure_eq_ok_iff] at h
  obtain ⟨files, t₁, hfiles, indexes, t₂, hindexes, rfl, rfl⟩ := h
  -- The documents leave the separation of the directories and the ground under the paths as is.
  obtain ⟨-, hbuilds⟩ := reportEach_writeArtifacts hwritable hfiles
  have hsep₁ : l.Separate t₁.workingDir := hbuilds.workingDir ▸ hsep
  have hground₁ := hground.mono hbuilds.workingDir hbuilds.dirs
  obtain ⟨hedits, hkinds, hroots⟩ := writeIndexes_eq_ok hsep₁ hindexes
  obtain ⟨hpaths, hlists⟩ := writeIndexes_paths hsep₁ hground₁ hindexes
  have hdocuments : files.paths.Perm (((Registry.ofBatch cs).1.writable cs).flatMap
      l.documentPaths) :=
    reportEach_paths (fun c hc t r t' => writeArtifacts_paths (hwritable.module_ne_empty c hc))
      hfiles
  -- Written again, both parts are at rest.
  have hrest := reportEach_writeArtifacts_rests hsep (hground.isOpen htree) hwritable hfiles hedits
  have hrest' := writeIndexes_rests (fun k => (hedits.lists_iff hsep₁ hground₁).mpr (hlists k))
    hkinds hroots
  rw [hedits.indexPaths_eq hsep₁] at hrest'
  refine ⟨_, bind_eq_ok_iff.mpr ⟨_, _, hrest, bind_eq_ok_iff.mpr ⟨_, _, hrest', rfl⟩⟩, rfl, rfl, ?_⟩
  exact ((Report.paths_append files indexes).trans (hdocuments.append hpaths)).symm

/-! ### A path that goes back -/

/-- A document with an action. -/
def jumpSheet : Document := ⟨"jump", "action A \x7b \x7d"⟩

/-- What the document defines. -/
def jumpDefinitions : List Definition := [.action ⟨⟨["A"]⟩, [], "A", "A", "A", {}, [], 1⟩]

/-- The text is resolved to these definitions. -/
theorem definitions_jumpSheet : (jumpSheet.resolve {}).definitions = jumpDefinitions := by
  have htokens : (Scan.ofText jumpSheet.text).tokens =
      [⟨.keyword .action, ⟨1, 1⟩⟩, ⟨.ident "A", ⟨1, 8⟩⟩, ⟨.openBrace, ⟨1, 10⟩⟩,
        ⟨.closeBrace, ⟨1, 12⟩⟩, ⟨.endOfFile, ⟨1, 13⟩⟩] := by
    decide +kernel
  have hdeclarations : jumpSheet.declarations {} = [.action ⟨⟨["A"]⟩, {}, [], 1⟩] := by
    rw [Document.declarations, htokens]
    decide +kernel
  change (Resolution.ofDeclarations (jumpSheet.declarations {})).definitions = _
  rw [hdeclarations]
  decide +kernel

/-- What the document is compiled to. -/
theorem compile_jumpSheet : jumpSheet.compile {} =
    ⟨"jump", "jump", artifacts ⟨"jump", "jump", {}⟩ jumpDefinitions,
      (jumpSheet.resolve {}).diagnostics,
      manifestEntries ⟨"jump", "jump", {}⟩ jumpDefinitions⟩ :=
  Document.compile_eq (by decide +kernel) (by decide) definitions_jumpSheet

/-- A document without text, and one with an action after it. -/
def bareAndJump : List Compilation := [⟨"bare", ""⟩, jumpSheet].map fun d => d.compile {}

/-- What both documents are compiled to: nothing, and the files of an action. -/
theorem bareAndJump_eq : bareAndJump =
    [⟨"bare", "bare", artifacts ⟨"bare", "bare", {}⟩ [],
        ((⟨"bare", ""⟩ : Document).resolve {}).diagnostics,
        manifestEntries ⟨"bare", "bare", {}⟩ []⟩,
      ⟨"jump", "jump", artifacts ⟨"jump", "jump", {}⟩ jumpDefinitions,
        (jumpSheet.resolve {}).diagnostics,
        manifestEntries ⟨"jump", "jump", {}⟩ jumpDefinitions⟩] := by
  have hbare := Document.compile_blank (by decide +kernel : moduleName "bare" = "bare") (by decide)
  rw [bareAndJump, List.map_cons, List.map_cons, List.map_nil, hbare, compile_jumpSheet]

/-- A layout with a path that goes back from a directory. -/
def steppingBack : Layout := ⟨⟨"x/../gen"⟩, ⟨"ed"⟩⟩

/-- A path may go back and still lead to a directory of its own. -/
theorem separate_steppingBack : steppingBack.Separate ["work"] :=
  ⟨by decide +kernel, by decide +kernel⟩

/-- Where the first document has left a file. -/
def leftover : Location := ["work", "gen", "marker_type_ids", "bare.rs"]

/-- A tree with the file that was left, and with more directories. -/
def leftoverTree (dirs : List Location) : FileTree :=
  ⟨["work"], (([["work"], ["work", "gen"], ["work", "gen", "marker_type_ids"]] ++ dirs).map
    fun loc => (loc, .dir)) ++ [(leftover, .file (.text "old"))]⟩

/-- If the directory is there, the batch removes the file that was left, and is settled. -/
theorem writeBatch_settles_of_directory :
    let t := leftoverTree [["work", "x"]]
    t.IsClosed ∧ steppingBack.Separate t.workingDir ∧ steppingBack.Grounded t ∧
      ∃ r t', writeBatch steppingBack (Registry.ofBatch bareAndJump).1 bareAndJump t = .ok r t' ∧
        t'.get? leftover = none ∧ steppingBack.Settled bareAndJump r t' := by
  intro t
  have htree : t.IsClosed := by decide +kernel
  have hground : steppingBack.Grounded t := by
    intro g
    cases g <;> decide +kernel
  have hcheck : (((writeBatch steppingBack (Registry.ofBatch bareAndJump).1 bareAndJump).tree?
      t).any fun t' => t'.get? leftover = none) = true := by
    rw [bareAndJump_eq]
    decide +kernel
  obtain ⟨t', ht', hgone⟩ := (Option.any_eq_true _ _).mp hcheck
  obtain ⟨r, hrun⟩ := tree?_eq_some_iff.mp ht'
  exact ⟨htree, separate_steppingBack, hground, r, t', hrun, of_decide_eq_true hgone,
    writeBatch_settles [⟨"bare", ""⟩, jumpSheet] {} steppingBack t t' r htree
      separate_steppingBack hground hrun⟩

/-- The first document is written, but it gives rise to no file. -/
theorem exists_bare_writable :
    ∃ c ∈ (Registry.ofBatch bareAndJump).1.writable bareAndJump,
      c.module = "bare" ∧ .markerTypeIds ∈ c.staleKinds := by
  have hcheck : (((Registry.ofBatch bareAndJump).1.writable bareAndJump).any fun c =>
      c.module = "bare" && .markerTypeIds ∈ c.staleKinds) = true := by
    rw [bareAndJump_eq]
    decide +kernel
  simpa using hcheck

/-- **If the directory is not there**, the first run makes it when it comes to the second document.
The file that the first document has left is found by the second run only. -/
theorem not_settled_of_missing_directory :
    let t := leftoverTree []
    t.IsClosed ∧ steppingBack.Separate t.workingDir ∧
      ∃ r t', writeBatch steppingBack (Registry.ofBatch bareAndJump).1 bareAndJump t = .ok r t' ∧
        ¬steppingBack.Settled bareAndJump r t' := by
  intro t
  have hcheck : (((writeBatch steppingBack (Registry.ofBatch bareAndJump).1 bareAndJump).tree?
      t).any fun t' => t'.workingDir = ["work"] && t'.IsClosed &&
        t'.Grounds (steppingBack.dir .runtime) && t'.Grounds (steppingBack.dir .editor) &&
        t'.get? leftover = some (.file (.text "old"))) = true := by
    rw [bareAndJump_eq]
    decide +kernel
  obtain ⟨t', ht', hcheck⟩ := (Option.any_eq_true _ _).mp hcheck
  simp only [Bool.and_eq_true, decide_eq_true_eq] at hcheck
  obtain ⟨⟨⟨⟨hwd, htree⟩, hruntime⟩, heditor⟩, hfile⟩ := hcheck
  obtain ⟨r, hrun⟩ := tree?_eq_some_iff.mp ht'
  refine ⟨by decide +kernel, separate_steppingBack, r, t', hrun, fun hsettled => ?_⟩
  have hground : steppingBack.Grounded t' := by
    intro g
    cases g
    · exact hruntime
    · exact heditor
  -- If a second run changed nothing, nothing would be left over.
  obtain ⟨c, hc, hmodule, hstale⟩ := exists_bare_writable
  have hcleared := hsettled.cleared (hwd ▸ separate_steppingBack) (hground.isOpen htree)
    (fun _ => Document.fits_of_mem_batch) c hc
  have hleftover : steppingBack.fileAt ["work"] .markerTypeIds "bare" = leftover := by
    decide +kernel
  refine hcleared .markerTypeIds hstale (.text "old") ?_
  rw [hmodule, hwd, hleftover, hfile]

end Defsheet

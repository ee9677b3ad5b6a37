import Defsheet.Proofs.WritingOrder

/-!
# What writing a document changes

Writing a document works on the seven places that its files can have, one for each kind. It makes
directories on the way to the files that it writes, and touches nothing else, even if it fails
half-way. If it succeeds, its report tells what was there before.

A report is made while directories come into being. A path that goes back from a directory which is
not there leads nowhere when the work begins, and may lead to a file before it ends. The report is
exact if every file at one of the seven places is found by its path from the beginning
(`Layout.Finds`).

## Main results

* `Work.Always.reportEach`: what each step does at most, the whole work does at most.
* `Layout.writeArtifacts_confined`: what is touched, whether or not the work succeeds.
* `reportEach_removeStale_eq_ok` and `reportEach_writeArtifact_eq_ok`: the two halves of a report.
* `writeArtifacts_effects`: what writing a document does.
* `exists_not_reports`: why the paths matter.
-/

namespace Defsheet

open Work FileTree

/-! ### Work that may fail -/

/-- Whatever the work is done on, and whether or not it succeeds, the tree that it leaves is related
to the one that it found. -/
def Work.Always {α : Type} (R : FileTree → FileTree → Prop) (w : Work α) : Prop :=
  ∀ t, R t (w.left t)

namespace Work.Always

variable {α β : Type} {R : FileTree → FileTree → Prop} [IsPreorder FileTree R] {p : Path}

/-- To give a result leaves the tree as it was. -/
protected theorem pure (a : α) : Always R (pure a : Work α) := fun t => Std.Refl.refl t

/-- Two steps are related as each of them is, also if the second is not reached. -/
protected theorem bind {w : Work α} {f : α → Work β} (hw : Always R w)
    (hf : ∀ a, Always R (f a)) : Always R (w >>= f) := by
  intro t
  have hfirst := hw t
  change R t (left (EStateM.bind w f) t)
  unfold left at hfirst ⊢
  unfold EStateM.bind
  cases h : w t with
  | ok a t₁ =>
      rw [h] at hfirst
      exact IsTrans.trans _ _ _ hfirst (hf a t₁)
  | error e t₁ =>
      rw [h] at hfirst
      exact hfirst

/-- Looking changes nothing. -/
theorem look (f : FileTree → Except TreeError α) : Always R (look p f) := by
  intro t
  unfold left Work.look
  cases f t <;> exact Std.Refl.refl t

/-- A change is made, or none. -/
theorem change {f : FileTree → Except TreeError FileTree} (hf : ∀ t t', f t = .ok t' → R t t') :
    Always R (change p f) := by
  intro t
  unfold left Work.change
  cases h : f t with
  | ok t' => exact hf t t' h
  | error e => exact Std.Refl.refl t

/-- **What work on each item does at most, work on all items does at most.** -/
theorem reportEach {f : α → Work Report} {as : List α} (h : ∀ a ∈ as, Always R (f a)) :
    Always R (reportEach f as) := by
  induction as with
  | nil => exact .pure _
  | cons a as ih =>
      rw [List.forall_mem_cons] at h
      exact h.1.bind fun _ => (ih h.2).bind fun _ => .pure _

/-- A file is left alone, or directories are made for it and it is written. -/
theorem writeIfChanged {content : String} (hmake : Always R (makeParent p))
    (hwrite : ∀ t t', t.write p content = .ok t' → R t t') :
    Always R (writeIfChanged p content) := by
  refine .bind (.look _) fun found => ?_
  split
  · exact .pure _
  · exact hmake.bind fun _ => .bind (.change hwrite) fun _ => .pure _

/-- A file is removed, or nothing is done. -/
theorem removeIfThere (hremove : ∀ t t', t.remove p = .ok t' → R t t') :
    Always R (removeIfThere p) := by
  have hget : Always R (get : Work FileTree) := fun t => Std.Refl.refl t
  refine hget.bind fun s => ?_
  split
  · exact .bind (.change hremove) fun _ => .pure _
  · exact .pure _

end Work.Always

/-- Changes may stop half-way. -/
theorem Work.Always.changes {R : FileTree → FileTree → Prop} {p : Path}
    {f : FileTree → FileTree.Change Unit} (hf : ∀ t, R t (f t).2) : Always R (changes p f) := by
  intro t
  have hstep := hf t
  unfold left Work.changes
  revert hstep
  obtain ⟨e | u, t'⟩ := f t <;> exact id

/-! ### What is touched -/

namespace Layout

variable {l : Layout} {t t' t'' : FileTree} {ks : List ArtifactKind} {k : ArtifactKind} {m : String}

/-- Files of the module may have come and gone, and directories may have been made on the way to
those of the given kinds. Everything else is as it was. -/
structure Confined (l : Layout) (ks : List ArtifactKind) (m : String) (t t' : FileTree) : Prop where
  builds : Builds (l.filesAt t.workingDir ArtifactKind.all m) t t'
  made : ∀ x, t.get? x ≠ some .dir → t'.get? x = some .dir → ∃ k ∈ ks, x ∈ l.way t.workingDir k

theorem Confined.refl (l : Layout) (ks : List ArtifactKind) (m : String) (t : FileTree) :
    l.Confined ks m t t :=
  ⟨.refl _ _, fun _ hnone hdir => absurd hdir hnone⟩

theorem Confined.trans (h : l.Confined ks m t t') (h' : l.Confined ks m t' t'') :
    l.Confined ks m t t'' := by
  have hwd := h.builds.workingDir
  refine ⟨h.builds.trans (hwd ▸ h'.builds), fun x hnot hdir => ?_⟩
  by_cases hthere : t'.get? x = some .dir
  · exact h.made x hnot hthere
  · exact hwd ▸ h'.made x hthere hdir

/-- Work on one file of the module. -/
theorem Confined.of_edits (h : Edits {l.fileAt t.workingDir k m} t t') : l.Confined ks m t t' := by
  refine ⟨h.builds.mono ?_, fun x hnot hdir => absurd ((h.dirs x).mp hdir) hnot⟩
  rw [Set.singleton_subset_iff]
  exact ⟨k, k.mem_all, rfl⟩

/-- Making directories on the way to a file. -/
theorem Confined.of_paves (hk : k ∈ ks) (h : Paves {x | x ∈ l.way t.workingDir k} t t') :
    l.Confined ks m t t' := by
  refine ⟨h.builds.mono (Set.empty_subset _), fun x hnot hdir => ⟨k, hk, ?_⟩⟩
  obtain hsame | ⟨hnone, -⟩ := h.builds.rest x (Set.notMem_empty x)
  · exact absurd (hsame.symm.trans hdir) hnot
  · exact h.made x hnone hdir

instance : IsPreorder FileTree (l.Confined ks m) where
  refl := .refl l ks m
  trans _ _ _ := .trans

/-- The directories for a file are on the way to it. -/
theorem makeParent_confined (hm : '/' ∉ m.toList) (hk : k ∈ ks) :
    Always (l.Confined ks m) (makeParent (l.file k m)) := by
  rw [makeParent, parent?_file hm]
  refine .changes fun t => .of_paves hk ?_
  have hpaves := makeDirs_join_paves k.isPlain_module (l.dir k.group) t
  rwa [← kindDir, passed_kindDir] at hpaves

/-- To write a file touches the file and the way to it. -/
theorem writeIfChanged_confined (hm : '/' ∉ m.toList) (hk : k ∈ ks) (content : String) :
    Always (l.Confined ks m) (writeIfChanged (l.file k m) content) := by
  refine .writeIfChanged (makeParent_confined hm hk) fun t t' h => ?_
  obtain ⟨loc, hloc, hdir, -, rfl⟩ := write_eq_ok h
  obtain ⟨-, rfl⟩ := (resolves_file_iff hm).mp hloc
  exact .of_edits (edits_insert_file hloc.ne_nil hdir _)

/-- To remove a file touches the file. -/
theorem removeIfThere_confined (hm : '/' ∉ m.toList) :
    Always (l.Confined ks m) (removeIfThere (l.file k m)) := by
  refine .removeIfThere fun t t' h => ?_
  obtain ⟨loc, data, hloc, hfile, rfl⟩ := remove_eq_ok h
  obtain ⟨-, rfl⟩ := (resolves_file_iff hm).mp hloc
  exact .of_edits (edits_erase_file hloc.ne_nil hfile)

/-- **What writing a document touches**, whether or not it succeeds. -/
theorem writeArtifacts_confined {c : Compilation} (hc : c.Fits) :
    Always (l.Confined (c.artifacts.map Artifact.kind) c.module) (writeArtifacts l c) := by
  unfold writeArtifacts
  split
  · exact .pure _
  refine .bind (.reportEach fun a ha => ?_) fun _ =>
    .bind (.reportEach fun k _ => ?_) fun _ => .pure _
  · refine .bind ?_ fun _ => .pure _
    rw [hc.module_eq a ha]
    exact writeIfChanged_confined hc.slash_not_mem (List.mem_map_of_mem ha) _
  · unfold removeStale
    split
    · exact .pure _
    · exact (removeIfThere_confined hc.slash_not_mem).bind fun _ => .pure _

/-! ### Files that are found -/

/-- A file that is found is found by its path as long as nothing is done to it. -/
theorem Finds.find?_eq_file_iff {S : Set Location} {loc : Location} {data : FileData}
    (h : l.Finds t m) (hm : '/' ∉ m.toList) (hbuilds : Builds S t t')
    (hk : l.fileAt t.workingDir k m ∉ S) :
    t'.find? (l.file k m) = .ok (loc, .file data) ↔
      t.find? (l.file k m) = .ok (loc, .file data) := by
  rw [FileTree.find?_eq_file_iff, FileTree.find?_eq_file_iff, resolves_file_iff hm,
    resolves_file_iff hm, hbuilds.workingDir]
  constructor
  · rintro ⟨⟨-, rfl⟩, hfile, hslash⟩
    have hbefore := (hbuilds.get?_file_iff hk).mp hfile
    exact ⟨⟨h k data hbefore, rfl⟩, hbefore, hslash⟩
  · rintro ⟨⟨hreaches, rfl⟩, hfile, hslash⟩
    exact ⟨⟨hreaches.mono hbuilds.workingDir hbuilds.dirs, rfl⟩,
      (hbuilds.get?_file_iff hk).mpr hfile, hslash⟩

/-- A file that is found stays, or stays missing, if nothing is done at its location. -/
theorem Finds.isFile_eq {S : Set Location} (h : l.Finds t m) (hm : '/' ∉ m.toList)
    (hbuilds : Builds S t t') (hk : l.fileAt t.workingDir k m ∉ S) :
    t'.isFile (l.file k m) = t.isFile (l.file k m) := by
  rw [Bool.eq_iff_iff, FileTree.isFile_iff, FileTree.isFile_iff]
  simp only [← FileTree.find?_eq_file_iff, h.find?_eq_file_iff hm hbuilds hk]

/-- A file that is found keeps its text if nothing is done at its location. -/
theorem Finds.read?_eq_ok_iff {S : Set Location} {content : String} (h : l.Finds t m)
    (hm : '/' ∉ m.toList) (hbuilds : Builds S t t') (hk : l.fileAt t.workingDir k m ∉ S) :
    t'.read? (l.file k m) = .ok content ↔ t.read? (l.file k m) = .ok content := by
  simp only [FileTree.read?_eq_ok_iff, ← FileTree.find?_eq_file_iff,
    h.find?_eq_file_iff hm hbuilds hk]

/-! ### Reports -/

/-- Whether the file of the module holds the generated text. -/
def isCurrent (l : Layout) (t : FileTree) (m : String) (a : Artifact) : Bool :=
  t.read? (l.file a.kind m) = .ok a.content

/-- The report tells what was there before: in the order of the generated files, those that did not
hold their texts were written and the others left alone, and of the remaining kinds those that had a
file were removed. -/
structure Reports (l : Layout) (c : Compilation) (t : FileTree) (r : Report) : Prop where
  written : r.written =
    (c.artifacts.filter fun a => !l.isCurrent t c.module a).map fun a => l.file a.kind c.module
  unchanged : r.unchanged =
    (c.artifacts.filter (l.isCurrent t c.module)).map fun a => l.file a.kind c.module
  removed : r.removed =
    (c.staleKinds.filter fun k => t.isFile (l.file k c.module)).map fun k => l.file k c.module

end Layout

variable {l : Layout} {t t' : FileTree} {p : Path} {r : Report} {m : String} {c : Compilation}

/-- A file is written unless it holds the text already. -/
theorem changed_eq_of_writeIfChanged {content : String} {changed : Bool}
    (h : writeIfChanged p content t = .ok changed t') :
    changed = !decide (t.read? p = .ok content) := by
  by_cases hread : t.read? p = .ok content
  · rw [writeIfChanged_of_read hread] at h
    cases h
    simp [hread]
  · simp only [writeIfChanged, readIfThere, bind_eq_ok_iff, look_eq_ok_iff] at h
    obtain ⟨found, t₁, ⟨hfound, rfl⟩, h⟩ := h
    split at h
    · next hsame =>
      subst hsame
      split at hfound
      · next hcontent =>
        rw [hcontent, Option.some.inj (Except.ok.inj hfound)] at hread
        exact absurd rfl hread
      · cases hfound
      · cases hfound
    · simp only [bind_eq_ok_iff, pure_eq_ok_iff] at h
      obtain ⟨-, -, -, -, -, -, rfl, -⟩ := h
      simp [hread]

/-- A file is removed if it is there. -/
theorem removed_eq_of_removeIfThere {removed : Bool} (h : removeIfThere p t = .ok removed t') :
    removed = t.isFile p := by
  cases hfile : t.isFile p with
  | false =>
      rw [removeIfThere_of_isFile hfile] at h
      cases h
      rfl
  | true =>
      simp only [removeIfThere, bind_eq_ok_iff, get_eq_ok_iff] at h
      obtain ⟨s, t₁, ⟨rfl, rfl⟩, h⟩ := h
      rw [if_pos hfile] at h
      simp only [bind_eq_ok_iff, pure_eq_ok_iff] at h
      obtain ⟨-, -, -, rfl, -⟩ := h
      rfl

/-- **What is reported of the files that are written.** -/
theorem reportEach_writeArtifact_eq_ok {as : List Artifact} (hm : '/' ∉ m.toList)
    (hmodule : ∀ a ∈ as, a.module = m) (hkinds : (as.map Artifact.kind).Nodup)
    (hfinds : l.Finds t m) (h : reportEach (writeArtifact l) as t = .ok r t') :
    r = { written := (as.filter fun a => !l.isCurrent t m a).map fun a => l.file a.kind m
          unchanged := (as.filter (l.isCurrent t m)).map fun a => l.file a.kind m } := by
  induction as generalizing t r with
  | nil =>
      obtain ⟨rfl, -⟩ := pure_eq_ok_iff.mp h
      rfl
  | cons a as ih =>
      obtain ⟨first, t₁, others, hfirst, hothers, rfl⟩ := reportEach_cons_eq_ok_iff.mp h
      rw [List.forall_mem_cons] at hmodule
      rw [List.map_cons, List.nodup_cons] at hkinds
      obtain ⟨rfl, hmodule⟩ := hmodule
      simp only [writeArtifact, bind_eq_ok_iff, pure_eq_ok_iff] at hfirst
      obtain ⟨written, t₂, hwrite, rfl, rfl⟩ := hfirst
      obtain ⟨-, loc, hloc, hbuilds, -⟩ := writeIfChanged_eq_ok hwrite
      -- The files of the other kinds are as they were, so they are reported as found at first.
      have hsame : ∀ b ∈ as, l.isCurrent t₂ a.module b = l.isCurrent t a.module b := by
        intro b hb
        rw [Layout.isCurrent, Layout.isCurrent, Bool.eq_iff_iff, decide_eq_true_eq,
          decide_eq_true_eq]
        refine hfinds.read?_eq_ok_iff hm hbuilds fun heq => ?_
        rw [Set.mem_singleton_iff, ((Layout.resolves_file_iff hm).mp hloc).2, hbuilds.workingDir]
          at heq
        exact hkinds.1 ((Layout.fileAt_injective heq).1 ▸ List.mem_map_of_mem hb)
      have hwritten : written = !l.isCurrent t a.module a := changed_eq_of_writeIfChanged hwrite
      rw [ih hmodule hkinds.2 (hfinds.builds hm hloc hbuilds) hothers, hwritten,
        List.filter_congr hsame, List.filter_congr fun b hb => congrArg (!·) (hsame b hb)]
      cases hcurrent : l.isCurrent t a.module a with
      | true =>
          rw [List.filter_cons_of_neg (by simp [hcurrent]), List.filter_cons_of_pos hcurrent]
          rfl
      | false =>
          rw [List.filter_cons_of_pos (by simp [hcurrent]),
            List.filter_cons_of_neg (by simp [hcurrent])]
          rfl

/-- What is done about one stale file: it is removed if it is there, and then reported. -/
theorem removeStale_edits {k : ArtifactKind} (hm : '/' ∉ c.module.toList)
    (h : removeStale l c k t = .ok r t') :
    Edits {l.fileAt t.workingDir k c.module} t t' ∧
      (k ∈ c.staleKinds → t'.isFile (l.file k c.module) = false) ∧
      r = .ofRemoval (l.file k c.module)
        (t.isFile (l.file k c.module) && (c.artifact? k).isNone) := by
  have hnone : (c.artifact? k).isNone = decide (k ∈ c.staleKinds) := by
    rw [Bool.eq_iff_iff, decide_eq_true_eq, Compilation.mem_staleKinds, Option.isSome_eq_false_iff]
  obtain ⟨hk, rfl, rfl⟩ | ⟨hk, removed, hremove, rfl⟩ := removeStale_eq_ok h
  · exact ⟨.refl _ _, fun hstale => absurd hstale hk, by simp [hnone, hk, Report.ofRemoval]⟩
  have hremoved := removed_eq_of_removeIfThere hremove
  obtain ⟨hgone, hedits⟩ := removeIfThere_eq_ok hremove
  refine ⟨?_, fun _ => hgone, by simp [hnone, hk, hremoved]⟩
  obtain rfl | ⟨loc, hloc, hedits, -⟩ := hedits
  · exact .refl _ _
  · rwa [((Layout.resolves_file_iff hm).mp hloc).2] at hedits

/-- **What is reported of the files that are removed**, and that they are gone. -/
theorem reportEach_removeStale_eq_ok {ks : List ArtifactKind} (hm : '/' ∉ c.module.toList)
    (hks : ks.Nodup) (h : reportEach (removeStale l c) ks t = .ok r t') :
    Edits (l.filesAt t.workingDir ks c.module) t t' ∧
      (∀ k ∈ ks, k ∈ c.staleKinds → t'.isFile (l.file k c.module) = false) ∧
      r = { removed := (ks.filter fun k =>
              t.isFile (l.file k c.module) && (c.artifact? k).isNone).map
              fun k => l.file k c.module } := by
  induction ks generalizing t r with
  | nil =>
      obtain ⟨rfl, rfl⟩ := pure_eq_ok_iff.mp h
      exact ⟨.refl _ _, List.forall_mem_nil _, rfl⟩
  | cons k ks ih =>
      obtain ⟨first, t₁, others, hfirst, hothers, rfl⟩ := reportEach_cons_eq_ok_iff.mp h
      rw [List.nodup_cons] at hks
      obtain ⟨hedits₁, hgone, rfl⟩ := removeStale_edits hm hfirst
      obtain ⟨hedits₂, hgones, rfl⟩ := ih hks.2 hothers
      have hwd := hedits₁.workingDir
      have hsame : ∀ k' ∈ ks, t₁.isFile (l.file k' c.module) = t.isFile (l.file k' c.module) := by
        refine fun k' hk' => hedits₁.isFile_eq fun loc hloc heq => ?_
        rw [Set.mem_singleton_iff, ((Layout.resolves_file_iff hm).mp hloc).2] at heq
        exact hks.1 ((Layout.fileAt_injective heq).1 ▸ hk')
      refine ⟨?_, List.forall_mem_cons.mpr ⟨fun hk => ?_, hgones⟩, ?_⟩
      · refine (hedits₁.mono ?_).trans ((hwd ▸ hedits₂).mono ?_)
        · exact Set.singleton_subset_iff.mpr ⟨k, List.mem_cons_self, rfl⟩
        · exact Layout.filesAt_mono (List.subset_cons_self k ks)
      · rw [hedits₂.isFile_eq, hgone hk]
        rintro loc hloc ⟨k', hk', heq⟩
        rw [((Layout.resolves_file_iff hm).mp hloc).2] at heq
        exact hks.1 ((Layout.fileAt_injective heq).1 ▸ hk')
      · rw [List.filter_cons, List.filter_congr fun k' hk' => congrArg (· && _) (hsame k' hk')]
        split
        · next hthere =>
          rw [hthere]
          rfl
        · next hthere =>
          rw [Bool.eq_false_iff.mpr hthere]
          rfl

/-- **Writing a document removes** the files that it does not give rise to. -/
theorem writeArtifacts_removes (hc : c.Fits) (hne : c.module ≠ "")
    (h : writeArtifacts l c t = .ok r t') :
    ∀ k ∈ c.staleKinds, t'.isFile (l.file k c.module) = false := by
  obtain ⟨written, t₁, removed, -, hremove, -⟩ := (writeArtifacts_eq_ok_iff hne).mp h
  obtain ⟨-, hgone, -⟩ := reportEach_removeStale_eq_ok hc.slash_not_mem (by decide) hremove
  exact fun k hk => hgone k k.mem_all hk

/-- **Writing a document reports** what was there before, if all files of the module were found. -/
theorem writeArtifacts_reports (hc : c.Fits) (hne : c.module ≠ "") (hfinds : l.Finds t c.module)
    (h : writeArtifacts l c t = .ok r t') : l.Reports c t r := by
  obtain ⟨written, t₁, removed, hwrite, hremove, rfl⟩ := (writeArtifacts_eq_ok_iff hne).mp h
  obtain ⟨-, hbuilds⟩ :=
    reportEach_writeArtifact hc.slash_not_mem hc.module_eq hc.nodup_kinds hwrite
  obtain ⟨-, -, rfl⟩ := reportEach_removeStale_eq_ok hc.slash_not_mem (by decide) hremove
  rw [reportEach_writeArtifact_eq_ok hc.slash_not_mem hc.module_eq hc.nodup_kinds hfinds hwrite]
  -- Writing leaves the files of the other kinds alone, so they are found as at the beginning.
  have hstale : ArtifactKind.all.filter (fun k =>
      t₁.isFile (l.file k c.module) && (c.artifact? k).isNone) =
        c.staleKinds.filter fun k => t.isFile (l.file k c.module) := by
    rw [← List.filter_filter]
    refine List.filter_congr fun k hk => hfinds.isFile_eq hc.slash_not_mem hbuilds ?_
    rintro ⟨k', hk', heq⟩
    obtain ⟨a, ha, rfl⟩ := List.mem_map.mp hk'
    exact Compilation.not_mem_staleKinds ha ((Layout.fileAt_injective heq).1 ▸ hk)
  exact ⟨List.append_nil _, List.append_nil _, congrArg (List.map _) hstale⟩

/-- **What writing a document does.** It touches nothing but the files that the module can have, one
for each kind, and makes directories on the way to those that it writes, whether or not it succeeds.
If it succeeds, every generated file holds its text, the other kinds have no file, and the report
tells what was there before if every file of the module was found by its path; so it is if the
layout goes back from existing directories only. -/
theorem writeArtifacts_effects (d : Document) (o : Options) (l : Layout) (t : FileTree)
    (hne : moduleName d.name ≠ "") :
    l.Confined ((d.compile o).artifacts.map Artifact.kind) (d.compile o).module t
        ((writeArtifacts l (d.compile o)).left t) ∧
      (∀ r t', writeArtifacts l (d.compile o) t = .ok r t' →
        (∀ a ∈ (d.compile o).artifacts,
          t'.read? (l.file a.kind (d.compile o).module) = .ok a.content) ∧
        (∀ k ∈ (d.compile o).staleKinds,
          t'.isFile (l.file k (d.compile o).module) = false) ∧
        (l.Finds t (d.compile o).module → l.Reports (d.compile o) t r)) ∧
      (t.IsClosed → l.Grounded t → l.Finds t (d.compile o).module) := by
  have hc := Document.fits_compile d o
  rw [← Document.module_compile d o] at hne
  refine ⟨Layout.writeArtifacts_confined hc t, fun r t' h => ⟨?_, ?_, ?_⟩, ?_⟩
  · exact (writeArtifacts_eq_ok hc h).1 hne
  · exact writeArtifacts_removes hc hne h
  · exact fun hfinds => writeArtifacts_reports hc hne hfinds h
  · exact fun hclosed hground => (hground.isOpen hclosed).finds _

/-- A tree with two files of a document, the first one up to date and the second one stale, and with
more directories. -/
def hiddenTree (dirs : List Location) : FileTree :=
  ⟨["work"], (([["work"], ["work", "gen"], ["work", "gen", "action_type_ids"],
    ["work", "gen", "marker_type_ids"]] ++ dirs).map fun loc => (loc, .dir)) ++
    [(["work", "gen", "action_type_ids", "jump.rs"], .file (.text
        "// @generated by actiondef from `jump`. Do not edit by hand.
//! Action type ids declared in `jump`.

pub const A: &str = \"A\";\n")),
      (["work", "gen", "marker_type_ids", "jump.rs"], .file (.text "old"))]⟩

/-- The result of work that succeeds. -/
def Work.result? {α : Type} (w : Work α) (t : FileTree) : Option α :=
  match w t with
  | .ok a _ => some a
  | .error _ _ => none

/-- There is a result exactly if the work succeeds with it. -/
theorem Work.result?_eq_some_iff {α : Type} {w : Work α} {a : α} :
    w.result? t = some a ↔ ∃ t', w t = .ok a t' := by
  unfold result?
  cases w t with
  | ok b t' => simp
  | error e t' => simp

/-- If the directory is there, the first file is left alone and the second one is removed. -/
theorem writeArtifacts_effects_of_stale :
    let c := jumpSheet.compile {}
    let l := steppingBack
    let t := hiddenTree [["work", "x"]]
    moduleName jumpSheet.name ≠ "" ∧ t.IsClosed ∧ l.Grounded t ∧
      ∃ r t', writeArtifacts l c t = .ok r t' ∧ r.unchanged = [l.file .actionTypeIds "jump"] ∧
        r.removed = [l.file .markerTypeIds "jump"] ∧ l.Reports c t r ∧
        l.Confined (c.artifacts.map Artifact.kind) c.module t ((writeArtifacts l c).left t) ∧
        (∀ a ∈ c.artifacts, t'.read? (l.file a.kind c.module) = .ok a.content) ∧
        ∀ k ∈ c.staleKinds, t'.isFile (l.file k c.module) = false := by
  intro c l t
  have hne : moduleName jumpSheet.name ≠ "" := by decide +kernel
  have hclosed : t.IsClosed := by decide +kernel
  have hground : l.Grounded t := by
    intro g
    cases g <;> decide +kernel
  obtain ⟨hconfined, hsuccess, hfinds⟩ := writeArtifacts_effects jumpSheet {} l t hne
  have hresult : (writeArtifacts l (jumpSheet.compile {})).result? t = some
      { written := [.portKeys, .actionProviders, .manifest].map (l.file · "jump")
        unchanged := [l.file .actionTypeIds "jump"]
        removed := [l.file .markerTypeIds "jump"] } := by
    rw [compile_jumpSheet]
    decide +kernel
  obtain ⟨t', hrun⟩ := result?_eq_some_iff.mp hresult
  obtain ⟨hreads, hgone, hreports⟩ := hsuccess _ t' hrun
  exact ⟨hne, hclosed, hground, _, t', hrun, rfl, rfl, hreports (hfinds hclosed hground), hconfined,
    hreads, hgone⟩

/-- **If the directory is not there**, the paths of both files lead nowhere until the first file is
written. By the paths, a file is removed that was not there; by the places, a file is written that
was up to date. -/
theorem exists_not_reports :
    let c := jumpSheet.compile {}
    let l := steppingBack
    let t := hiddenTree []
    moduleName jumpSheet.name ≠ "" ∧ t.IsClosed ∧
      ∃ r t', writeArtifacts l c t = .ok r t' ∧ ¬l.Reports c t r ∧
        ∃ a ∈ c.artifacts, l.file a.kind c.module ∈ r.written ∧
          t.get? (l.fileAt t.workingDir a.kind c.module) = some (.file (.text a.content)) := by
  intro c l t
  have hresult : (writeArtifacts l (jumpSheet.compile {})).result? t = some
      { written := [.actionTypeIds, .portKeys, .actionProviders, .manifest].map (l.file · "jump")
        removed := [l.file .markerTypeIds "jump"] } := by
    rw [compile_jumpSheet]
    decide +kernel
  have hmodule : c.module = "jump" := by
    rw [Document.module_compile]
    decide +kernel
  have hnowhere : ∀ k, t.isFile (l.file k c.module) = false := by
    rw [hmodule]
    intro k
    cases k <;> decide +kernel
  have hcurrent : ∃ a ∈ (jumpSheet.compile {}).artifacts, a.kind = .actionTypeIds ∧
      t.get? (l.fileAt t.workingDir a.kind (jumpSheet.compile {}).module) =
        some (.file (.text a.content)) := by
    rw [compile_jumpSheet]
    decide +kernel
  obtain ⟨t', hrun⟩ := result?_eq_some_iff.mp hresult
  obtain ⟨a, ha, hkind, hplace⟩ := hcurrent
  refine ⟨by decide +kernel, by decide +kernel, _, t', hrun, fun hreports => ?_, a, ha, ?_, hplace⟩
  · have hremoved := hreports.removed
    simp [hnowhere] at hremoved
  · rw [hkind, hmodule]
    exact List.mem_cons_self

end Defsheet

import Defsheet.Proofs.Directories
import Defsheet.Proofs.Settling

/-!
# What accumulates in a tree

Files are written one after the other, and indexes in between. What the tree holds at any time can
be told from the set of files that were written so far, whatever the order: these files, the
directories on the way to them, and indexes of what is there. A step of the work adds to this set,
and it succeeds if all that there will be in the end has a place of its own.

## Main results

* `Work.Adds.reportEach`: what each step adds, the whole work adds.
* `Layout.Holds`: what a tree holds once some files were written.
* `Layout.Plan`: everything has a place of its own in the end.
* `Layout.Site.writeArtifacts_adds`: the files of a document are added.
* `Layout.Site.writeIndexes_adds`: writing indexes adds nothing.
-/

namespace Defsheet

open Work FileTree

/-! ### Work that adds something -/

/-- Work that adds things. The invariant `I` tells which things a tree holds, and tells afterwards
that it holds the new ones as well. Under the condition `S` the work succeeds. -/
structure Work.Adds {α β : Type} (S : Prop) (I : Set β → FileTree → Prop) (X : Set β)
    (w : Work α) : Prop where
  succeeds : S → ∀ B t, I B t → ∃ a t', w t = .ok a t'
  adds : ∀ B t a t', I B t → w t = .ok a t' → I (B ∪ X) t'

namespace Work.Adds

variable {α β γ : Type} {S : Prop} {I : Set β → FileTree → Prop} {X Y : Set β} {w : Work α}

theorem of_eq (h : Adds S I X w) (hX : X = Y) : Adds S I Y w := hX ▸ h

/-- A result that is there already adds nothing. -/
protected theorem pure (a : α) : Adds S I ∅ (pure a : Work α) where
  succeeds _ _ t _ := ⟨a, t, rfl⟩
  adds B t b t' h hpure := by
    obtain ⟨-, rfl⟩ := pure_eq_ok_iff.mp hpure
    rwa [Set.union_empty]

/-- Two steps add what each of them adds. -/
protected theorem bind {f : α → Work γ} (hw : Adds S I X w) (hf : ∀ a, Adds S I Y (f a)) :
    Adds S I (X ∪ Y) (w >>= f) where
  succeeds hS B t h := by
    obtain ⟨a, t₁, ha⟩ := hw.succeeds hS B t h
    obtain ⟨c, t₂, hc⟩ := (hf a).succeeds hS _ t₁ (hw.adds B t a t₁ h ha)
    exact ⟨c, t₂, bind_eq_ok_iff.mpr ⟨a, t₁, ha, hc⟩⟩
  adds B t c t' h hbind := by
    obtain ⟨a, t₁, ha, hc⟩ := bind_eq_ok_iff.mp hbind
    rw [← Set.union_assoc]
    exact (hf a).adds _ t₁ c t' (hw.adds B t a t₁ h ha) hc

/-- A step whose result is only rewritten adds what it added. -/
theorem bind_pure {f : α → γ} (hw : Adds S I X w) : Adds S I X (w >>= fun a => pure (f a)) :=
  (hw.bind fun a => .pure (f a)).of_eq (Set.union_empty X)

/-- **What work on each item adds, work on all items adds.** -/
theorem reportEach {f : α → Work Report} {X : α → Set β} {as : List α}
    (h : ∀ a ∈ as, Adds S I (X a) (f a)) :
    Adds S I {x | ∃ a ∈ as, x ∈ X a} (reportEach f as) := by
  induction as with
  | nil =>
      refine (Adds.pure _).of_eq ?_
      simp
  | cons a as ih =>
      rw [List.forall_mem_cons] at h
      refine (h.1.bind fun first => (ih h.2).bind_pure).of_eq ?_
      ext x
      simp

end Work.Adds

/-! ### What a tree holds -/

/-- The files that documents give rise to. -/
def filesOf (cs : List Compilation) : Set Artifact := {a | ∃ c ∈ cs, a ∈ c.artifacts}

namespace Layout

variable {l : Layout} {t₀ t t' : FileTree} {cs : List Compilation} {B : Set Artifact}
  {D F : Set Location} {c : Compilation} {a : Artifact} {k : ArtifactKind} {g : Group} {m : String}
  {x : Location} {data : FileData} {r : Report}

/-- The location of a generated file. -/
def artifactAt (l : Layout) (wd : Location) (a : Artifact) : Location := l.fileAt wd a.kind a.module

/-- There are no files in the tree, and nothing stands where files are generated. -/
structure Vacant (l : Layout) (t : FileTree) : Prop where
  bare : t.IsBare
  places : ∀ x ∈ l.placesAt t.workingDir, t.get? x = none

/-- Documents that can be written beside each other, and a tree to write them to. -/
structure Site (l : Layout) (t : FileTree) (cs : List Compilation) : Prop where
  separate : l.Separate t.workingDir
  vacant : l.Vacant t
  coexist : Compilation.Coexist cs

/-- The location is one of an index that mounts something. -/
def IsIndexed (l : Layout) (t : FileTree) (x : Location) : Prop :=
  ∃ k m, m ∈ l.modulesOf t k ∧
    (x = l.fileAt t.workingDir k "mod" ∨ x = l.indexAt t.workingDir k.group)

/-- What has become of a tree once some files of documents were written to it: there are these
files, the directories on the way to them, and indexes. -/
structure Holds (l : Layout) (t₀ : FileTree) (cs : List Compilation) (B : Set Artifact)
    (t : FileTree) : Prop where
  within : B ⊆ filesOf cs
  workingDir : t.workingDir = t₀.workingDir
  dirs : ∀ x, t.get? x = some .dir ↔
    t₀.get? x = some .dir ∨ ∃ a ∈ B, x ∈ l.way t₀.workingDir a.kind
  files : ∀ a ∈ B, t.get? (l.artifactAt t₀.workingDir a) = some (.file (.text a.content))
  rest : ∀ x data, t.get? x = some (.file data) →
    (∃ a ∈ B, x = l.artifactAt t₀.workingDir a) ∨ (∃ text, data = .text text) ∧ l.IsIndexed t x

/-- A file of a kind that can be read stands in its place. -/
theorem get?_fileAt {content : String} (hm : '/' ∉ m.toList)
    (h : t.read? (l.file k m) = .ok content) :
    t.get? (l.fileAt t.workingDir k m) = some (.file (.text content)) := by
  obtain ⟨loc, hloc, hfile, -⟩ := read?_eq_ok_iff.mp h
  rwa [((resolves_file_iff hm).mp hloc).2] at hfile

/-- So does the index of a group. -/
theorem get?_indexAt {content : String} (h : t.read? ((l.dir g).join indexFile) = .ok content) :
    t.get? (l.indexAt t.workingDir g) = some (.file (.text content)) := by
  obtain ⟨loc, hloc, hfile, -⟩ := read?_eq_ok_iff.mp h
  rwa [(resolves_index_iff.mp hloc).2] at hfile

/-- If a kind has modules, the directory of its group is there. -/
theorem reaches_of_mem_modulesOf (h : m ∈ l.modulesOf t k) : t.Reaches (l.dir k.group) [] :=
  .of_append (List.forall_mem_nil _) (mem_modulesOf_iff.mp h).1

/-- Before anything was written, the tree holds no file of the documents. -/
theorem holds_empty (h : l.Vacant t₀) : l.Holds t₀ cs ∅ t₀ :=
  ⟨Set.empty_subset _, rfl, fun x => by simp, fun a ha => ha.elim,
    fun x data hfile => absurd hfile (h.bare x data)⟩

/-- An index that mounts something stands at one of the places for indexes. -/
theorem IsIndexed.mem_indexesAt (h : l.IsIndexed t x) : x ∈ l.indexesAt t.workingDir := by
  obtain ⟨k, -, -, rfl | rfl⟩ := h
  · exact .inl ⟨k, rfl⟩
  · exact .inr ⟨k.group, rfl⟩

/-- Modules do not go away as long as nothing does. -/
theorem modulesOf_subset (hwd : t'.workingDir = t.workingDir)
    (hdirs : ∀ x, t.get? x = some .dir → t'.get? x = some .dir)
    (hsome : ∀ x, (t.get? x).isSome = true → (t'.get? x).isSome = true) :
    l.modulesOf t k ⊆ l.modulesOf t' k := by
  intro m hm
  obtain ⟨hreaches, hne, hmod, hfile⟩ := mem_modulesOf_iff.mp hm
  exact mem_modulesOf_iff.mpr ⟨hreaches.mono hwd hdirs, hne, hmod, hwd ▸ hsome _ hfile⟩

/-- An index goes on to mount something as long as the modules it mounts are there. -/
theorem IsIndexed.mono (hwd : t'.workingDir = t.workingDir)
    (hmodules : ∀ k, l.modulesOf t k ⊆ l.modulesOf t' k) (h : l.IsIndexed t x) :
    l.IsIndexed t' x := by
  obtain ⟨k, m, hm, hx⟩ := h
  rw [← hwd] at hx
  exact ⟨k, m, hmodules k hm, hx⟩

/-- The files of documents can be told apart by their locations. -/
theorem Site.artifactAt_inj (hsite : l.Site t₀ cs) {b : Artifact} {wd : Location}
    (ha : a ∈ filesOf cs) (hb : b ∈ filesOf cs) (h : l.artifactAt wd a = l.artifactAt wd b) :
    a = b := by
  obtain ⟨hkind, hmodule⟩ := fileAt_injective h
  obtain ⟨c, hc, ha⟩ := ha
  obtain ⟨c', hc', hb⟩ := hb
  obtain ⟨hfits, -, hnodup⟩ := hsite.coexist
  rw [(hfits c hc).module_eq a ha, (hfits c' hc').module_eq b hb] at hmodule
  obtain rfl := List.inj_on_of_nodup_map hnodup hc hc' hmodule
  exact List.inj_on_of_nodup_map (hfits c hc).nodup_kinds ha hb hkind

/-- The module of a file can be the name of a file, and of no index. -/
theorem Site.isModule (hsite : l.Site t₀ cs) (ha : a ∈ filesOf cs) :
    '/' ∉ a.module.toList ∧ a.module ≠ "" ∧ a.module ≠ "mod" := by
  obtain ⟨c, hc, ha⟩ := ha
  have hfits := hsite.coexist.fits c hc
  rw [hfits.module_eq a ha]
  exact ⟨hfits.slash_not_mem, hsite.coexist.module_ne_empty c hc, hfits.ne_mod⟩

/-- The file of a document is no index. -/
theorem Site.artifactAt_not_mem_indexesAt (hsite : l.Site t₀ cs) (ha : a ∈ filesOf cs) :
    l.artifactAt t₀.workingDir a ∉ l.indexesAt t₀.workingDir :=
  hsite.separate.indexesApart.fileAt_not_mem_indexesAt (hsite.isModule ha).2.2

namespace Holds

/-- All files in the tree are texts. -/
theorem exists_text (h : l.Holds t₀ cs B t) (hfile : t.get? x = some (.file data)) :
    ∃ text, data = .text text := by
  rcases h.rest x data hfile with ⟨a, ha, rfl⟩ | ⟨htext, -⟩
  · rw [h.files a ha] at hfile
    cases hfile
    exact ⟨_, rfl⟩
  · exact htext

/-- A file that is no index is one that was written. -/
theorem exists_of_file (hsite : l.Site t₀ cs) (h : l.Holds t₀ cs B t) (hm : m ≠ "mod")
    (hfile : t.get? (l.fileAt t₀.workingDir k m) = some (.file data)) :
    ∃ a ∈ B, l.fileAt t₀.workingDir k m = l.artifactAt t₀.workingDir a := by
  rcases h.rest _ _ hfile with hwritten | ⟨-, hindexed⟩
  · exact hwritten
  · refine absurd hindexed.mem_indexesAt ?_
    rw [h.workingDir]
    exact hsite.separate.indexesApart.fileAt_not_mem_indexesAt hm

/-- A module is there as a directory or as a file that was written. -/
theorem isSome_iff (hsite : l.Site t₀ cs) (h : l.Holds t₀ cs B t) (hm : m ≠ "mod") :
    (t.get? (l.fileAt t₀.workingDir k m)).isSome = true ↔
      t.get? (l.fileAt t₀.workingDir k m) = some .dir ∨
        ∃ a ∈ B, l.fileAt t₀.workingDir k m = l.artifactAt t₀.workingDir a := by
  constructor
  · intro hsome
    obtain ⟨e, he⟩ := Option.isSome_iff_exists.mp hsome
    cases e with
    | dir => exact .inl he
    | file data => exact .inr (h.exists_of_file hsite hm he)
  · rintro (hdir | ⟨a, ha, heq⟩)
    · rw [hdir]
      rfl
    · rw [heq, h.files a ha]
      rfl

/-- There is an index of a kind only if there is something to mount. -/
theorem modulesOf_ne_nil_of_kindIndex (hsite : l.Site t₀ cs) (h : l.Holds t₀ cs B t)
    (hfile : t.get? (l.fileAt t₀.workingDir k "mod") = some (.file data)) :
    l.modulesOf t k ≠ [] := by
  rcases h.rest _ _ hfile with ⟨a, ha, heq⟩ | ⟨-, k', m, hm, heq | heq⟩
  · refine absurd (.inl ⟨k, heq.symm⟩) (hsite.artifactAt_not_mem_indexesAt (h.within ha))
  · rw [h.workingDir] at heq
    rw [(fileAt_injective heq).1]
    exact List.ne_nil_of_mem hm
  · rw [h.workingDir] at heq
    exact absurd heq hsite.separate.fileAt_ne_indexAt

end Holds

/-! ### Room for everything -/

/-- Everything has a place of its own: `D` has room for all directories and `F` for all files, the
indexes of what there is included, and no directory of a kind is looked for behind a file. -/
structure Plan (l : Layout) (t₀ : FileTree) (cs : List Compilation) (D F : Set Location) :
    Prop where
  apart : ∀ x ∈ D, x ∉ F
  dirs : ∀ x, t₀.get? x = some .dir → x ∈ D
  ways : ∀ a ∈ filesOf cs, ∀ x ∈ l.way t₀.workingDir a.kind, x ∈ D
  files : ∀ a ∈ filesOf cs, l.artifactAt t₀.workingDir a ∈ F
  indexes : ∀ k m, (∀ x ∈ l.way t₀.workingDir k, x ∈ D) → m ≠ "" → m ≠ "mod" →
    l.fileAt t₀.workingDir k m ∈ D ∪ F →
    l.fileAt t₀.workingDir k "mod" ∈ F ∧ l.indexAt t₀.workingDir k.group ∈ F
  lists : ∀ k u x v, l.way t₀.workingDir k = u ++ x :: v → (∀ y ∈ u, y ∈ D) → x ∉ F

/-- Everything can have a place of its own. -/
def Feasible (l : Layout) (t₀ : FileTree) (cs : List Compilation) : Prop :=
  ∃ D F, l.Plan t₀ cs D F

/-- The directory of a kind can be listed, or is missing, unless a file stands on the way to it. -/
theorem lists_iff_way : t.Lists (l.kindDir k) ↔
    ∀ u x v, l.way t.workingDir k = u ++ x :: v → (∀ y ∈ u, t.get? y = some .dir) →
      ∀ data, t.get? x ≠ some (.file data) := by
  have htext : (l.kindDir k).text ≠ "" := Path.text_join_ne k.isPlain_module.isRelative _
  rw [← passed_kindDir, FileTree.Lists, names?_eq htext]
  constructor
  · intro hlists u x v hway hdirs data hfile
    rw [follow_of_file hway hdirs hfile] at hlists
    exact absurd (hlists .notADirectory rfl) (by decide)
  · intro hway e he
    rcases t.follow_cases (t.base (l.kindDir k)) (l.kindDir k).steps with
        ⟨hfollow, -⟩ | ⟨u, x, v, hpassed, hdirs, ⟨-, hfollow⟩ | ⟨⟨data, hfile⟩, -⟩⟩
    · rw [hfollow] at he
      cases he
    · rw [hfollow] at he
      exact (Except.error.inj he).symm
    · exact absurd hfile (hway u x v hpassed hdirs data)

namespace Plan

/-- The directories of the tree have a place. -/
theorem mem_dirs (h : l.Plan t₀ cs D F) (hholds : l.Holds t₀ cs B t)
    (hdir : t.get? x = some .dir) : x ∈ D := by
  rcases (hholds.dirs x).mp hdir with hbefore | ⟨a, ha, hx⟩
  · exact h.dirs x hbefore
  · exact h.ways a (hholds.within ha) x hx

/-- The indexes of what there is have a place. -/
theorem indexes_of_modulesOf (h : l.Plan t₀ cs D F) (hsite : l.Site t₀ cs)
    (hholds : l.Holds t₀ cs B t) (hm : m ∈ l.modulesOf t k) :
    l.fileAt t₀.workingDir k "mod" ∈ F ∧ l.indexAt t₀.workingDir k.group ∈ F := by
  obtain ⟨hreaches, hne, hmod, hsome⟩ := mem_modulesOf_iff.mp hm
  rw [reaches_iff_way, hholds.workingDir] at hreaches
  rw [hholds.workingDir] at hsome
  refine h.indexes k m (fun x hx => h.mem_dirs hholds (hreaches x hx)) hne hmod ?_
  rcases (hholds.isSome_iff hsite hmod).mp hsome with hdir | ⟨a, ha, heq⟩
  · exact .inl (h.mem_dirs hholds hdir)
  · rw [heq]
    exact .inr (h.files a (hholds.within ha))

/-- The files of the tree have a place. -/
theorem mem_files (h : l.Plan t₀ cs D F) (hsite : l.Site t₀ cs) (hholds : l.Holds t₀ cs B t)
    (hfile : t.get? x = some (.file data)) : x ∈ F := by
  rcases hholds.rest x data hfile with ⟨a, ha, rfl⟩ | ⟨-, k, m, hm, rfl | rfl⟩
  · exact h.files a (hholds.within ha)
  · rw [hholds.workingDir]
    exact (h.indexes_of_modulesOf hsite hholds hm).1
  · rw [hholds.workingDir]
    exact (h.indexes_of_modulesOf hsite hholds hm).2

/-- Where a file has its place, a text can be written. -/
theorem isFree (h : l.Plan t₀ cs D F) (hholds : l.Holds t₀ cs B t) (hx : x ∈ F) :
    t.get? x = none ∨ ∃ text, t.get? x = some (.file (.text text)) := by
  cases hget : t.get? x with
  | none => exact .inl rfl
  | some e =>
      cases e with
      | dir => exact absurd hx (h.apart x (h.mem_dirs hholds hget))
      | file data =>
          obtain ⟨text, rfl⟩ := hholds.exists_text hget
          exact .inr ⟨text, rfl⟩

/-- No directory of a kind is looked for behind a file. -/
theorem lists_kindDir (h : l.Plan t₀ cs D F) (hsite : l.Site t₀ cs) (hholds : l.Holds t₀ cs B t)
    (k : ArtifactKind) : t.Lists (l.kindDir k) := by
  rw [lists_iff_way, hholds.workingDir]
  intro u x v hway hdirs data hfile
  exact h.lists k u x v hway (fun y hy => h.mem_dirs hholds (hdirs y hy))
    (h.mem_files hsite hholds hfile)

end Plan

/-! ### Documents -/

/-- What writing one file of a document does. -/
theorem writeArtifact_builds (hm : '/' ∉ a.module.toList) (h : writeArtifact l a t = .ok r t') :
    Builds {l.artifactAt t.workingDir a} t t' ∧
      t'.get? (l.artifactAt t.workingDir a) = some (.file (.text a.content)) ∧
      ∀ x, t'.get? x = some .dir ↔ t.get? x = some .dir ∨ x ∈ l.way t.workingDir a.kind := by
  simp only [writeArtifact, bind_eq_ok_iff, pure_eq_ok_iff] at h
  obtain ⟨written, t₁, hwrite, -, rfl⟩ := h
  obtain ⟨hread, loc, hloc, hbuilds, -⟩ := writeIfChanged_eq_ok hwrite
  obtain ⟨hreaches, rfl⟩ := (resolves_file_iff hm).mp hloc
  have hfile := get?_fileAt hm hread
  rw [reaches_iff_way, hbuilds.workingDir] at hreaches
  rw [hbuilds.workingDir] at hbuilds hfile
  refine ⟨hbuilds, hfile, fun x => ⟨fun hdir => ?_, ?_⟩⟩
  · cases hget : t.get? x with
    | none => exact .inr (writeIfChanged_file_made hm hwrite hget hdir)
    | some e =>
        cases e with
        | dir => exact .inl rfl
        | file data =>
            have hx : x ≠ l.fileAt t.workingDir a.kind a.module := by
              rintro rfl
              rw [hfile] at hdir
              cases hdir
            rw [(hbuilds.get?_file_iff hx).mpr hget] at hdir
            cases hdir
  · rintro (hdir | hx)
    · exact hbuilds.dirs x hdir
    · exact hreaches x hx

/-- Writing a file adds it to what the tree holds. -/
theorem Holds.after_writeArtifact (hsite : l.Site t₀ cs) (ha : a ∈ filesOf cs)
    (h : l.Holds t₀ cs B t) (hwrite : writeArtifact l a t = .ok r t') :
    l.Holds t₀ cs (insert a B) t' := by
  obtain ⟨hbuilds, hfile, hdirs⟩ := writeArtifact_builds (hsite.isModule ha).1 hwrite
  have hwd := h.workingDir
  rw [hwd] at hbuilds hfile hdirs
  have hmodules (k : ArtifactKind) : l.modulesOf t k ⊆ l.modulesOf t' k := by
    refine modulesOf_subset hbuilds.workingDir hbuilds.dirs fun x hsome => ?_
    by_cases hx : x = l.artifactAt t₀.workingDir a
    · rw [hx, hfile]
      rfl
    · rcases hbuilds.rest x hx with hsame | ⟨-, hdir⟩
      · rwa [hsame]
      · rw [hdir]
        rfl
  refine ⟨Set.insert_subset ha h.within, hbuilds.workingDir.trans hwd, fun x => ?_, ?_,
    fun x data hx => ?_⟩
  · rw [hdirs, h.dirs, or_assoc]
    refine or_congr_right ?_
    simp only [Set.mem_insert_iff, exists_eq_or_imp]
    exact or_comm
  · rintro b (rfl | hb)
    · exact hfile
    · by_cases heq : l.artifactAt t₀.workingDir b = l.artifactAt t₀.workingDir a
      · obtain rfl := hsite.artifactAt_inj (h.within hb) ha heq
        exact hfile
      · exact (hbuilds.get?_file_iff heq).mpr (h.files b hb)
  · by_cases heq : x = l.artifactAt t₀.workingDir a
    · exact .inl ⟨a, Set.mem_insert a B, heq⟩
    · rcases h.rest x data ((hbuilds.get?_file_iff heq).mp hx) with ⟨b, hb, hxb⟩ | ⟨htext, hindexed⟩
      · exact .inl ⟨b, Set.mem_insert_of_mem a hb, hxb⟩
      · exact .inr ⟨htext, hindexed.mono hbuilds.workingDir hmodules⟩

/-- **Writing one file** adds it. -/
theorem Site.writeArtifact_adds (hsite : l.Site t₀ cs) (ha : a ∈ filesOf cs) :
    Adds (l.Feasible t₀ cs) (l.Holds t₀ cs) {a} (writeArtifact l a) where
  succeeds := by
    rintro ⟨D, F, hplan⟩ B t h
    have hmem := hplan.files a ha
    have hways := hplan.ways a ha
    rw [artifactAt] at hmem
    rw [← h.workingDir] at hmem hways
    obtain ⟨changed, t', hwrite⟩ := writeIfChanged_file_of_clear (hsite.isModule ha).1
      (fun x hx data hfile =>
        hplan.apart x (hways x hx) (hplan.mem_files hsite h hfile))
      (fun hway => hplan.apart _ (hways _ hway) hmem) (hplan.isFree h hmem) a.content
    exact ⟨_, t', bind_eq_ok_iff.mpr ⟨changed, t', hwrite, rfl⟩⟩
  adds B t r t' h hwrite := by
    rw [Set.union_singleton]
    exact h.after_writeArtifact hsite ha hwrite

/-- There is nothing to remove. -/
theorem Holds.cleared (hsite : l.Site t₀ cs) (hc : c ∈ cs) (h : l.Holds t₀ cs B t) :
    l.Cleared t c := by
  intro k hk data hfile
  rw [h.workingDir] at hfile
  obtain ⟨a, ha, heq⟩ := h.exists_of_file hsite (hsite.coexist.fits c hc).ne_mod hfile
  obtain ⟨rfl, hmodule⟩ := fileAt_injective heq
  -- The file has the module of the document, so it is one of the document's files.
  obtain ⟨c', hc', ha⟩ := h.within ha
  rw [(hsite.coexist.fits c' hc').module_eq a ha] at hmodule
  obtain rfl := List.inj_on_of_nodup_map hsite.coexist.nodup_modules hc hc' hmodule
  exact Compilation.not_mem_staleKinds ha hk

/-- To look for stale files adds nothing, because there are none. -/
theorem Site.removeStale_adds (hsite : l.Site t₀ cs) (hc : c ∈ cs) (k : ArtifactKind) :
    Adds (l.Feasible t₀ cs) (l.Holds t₀ cs) ∅ (removeStale l c k) := by
  have hrests (B : Set Artifact) (t : FileTree) (h : l.Holds t₀ cs B t) :
      ∃ r, removeStale l c k t = .ok r t := by
    rw [removeStale]
    split
    · exact ⟨_, rfl⟩
    · next hnone =>
      have hstale := Compilation.mem_staleKinds.mpr (Bool.eq_false_iff.mpr hnone)
      have hfile := (h.cleared hsite hc).isFile (hsite.coexist.fits c hc).slash_not_mem hstale
      exact ⟨_, bind_eq_ok_iff.mpr ⟨_, _, removeIfThere_of_isFile hfile, rfl⟩⟩
  refine ⟨fun _ B t h => ?_, fun B t r t' h hremove => ?_⟩
  · obtain ⟨r, hr⟩ := hrests B t h
    exact ⟨r, t, hr⟩
  · obtain ⟨r', hr'⟩ := hrests B t h
    rw [hr'] at hremove
    cases hremove
    rwa [Set.union_empty]

/-- **Writing a document** adds its files. -/
theorem Site.writeArtifacts_adds (hsite : l.Site t₀ cs) (hc : c ∈ cs) :
    Adds (l.Feasible t₀ cs) (l.Holds t₀ cs) {a | a ∈ c.artifacts} (writeArtifacts l c) := by
  have hwrite : Adds (l.Feasible t₀ cs) (l.Holds t₀ cs) {x | ∃ a ∈ c.artifacts, x ∈ ({a} : Set _)}
      (reportEach (writeArtifact l) c.artifacts) :=
    .reportEach fun a ha => hsite.writeArtifact_adds ⟨c, hc, ha⟩
  have hremove : Adds (l.Feasible t₀ cs) (l.Holds t₀ cs)
      {x | ∃ k ∈ ArtifactKind.all, x ∈ (∅ : Set Artifact)}
      (reportEach (removeStale l c) ArtifactKind.all) :=
    .reportEach fun k _ => hsite.removeStale_adds hc k
  rw [writeArtifacts, if_neg (hsite.coexist.module_ne_empty c hc)]
  refine (hwrite.bind fun written => hremove.bind_pure).of_eq ?_
  ext a
  simp

/-! ### Indexes -/

/-- Writing an index that mounts something changes nothing else. -/
theorem Holds.edits (hsite : l.Site t₀ cs) (h : l.Holds t₀ cs B t) (hindexed : l.IsIndexed t x)
    (hedits : Edits {x} t t') (htext : ∃ text, t'.get? x = some (.file (.text text))) :
    l.Holds t₀ cs B t' := by
  have hapart : l.IndexesApart t.workingDir := h.workingDir ▸ hsite.separate.indexesApart
  have hmodules (k : ArtifactKind) : l.modulesOf t' k = l.modulesOf t k :=
    (hedits.mono (Set.singleton_subset_iff.mpr hindexed.mem_indexesAt)).modulesOf_eq hapart
  have hmono {y : Location} (hy : l.IsIndexed t y) : l.IsIndexed t' y :=
    hy.mono hedits.workingDir fun k => by rw [hmodules]; exact fun m hm => hm
  refine ⟨h.within, hedits.workingDir.trans h.workingDir, fun y => ?_, fun a ha => ?_,
    fun y data hy => ?_⟩
  · rw [hedits.dirs, h.dirs]
  · rw [hedits.rest, h.files a ha]
    rintro rfl
    have hindex := hindexed.mem_indexesAt
    rw [h.workingDir] at hindex
    exact hsite.artifactAt_not_mem_indexesAt (h.within ha) hindex
  · by_cases hyx : y = x
    · subst hyx
      obtain ⟨text, htext⟩ := htext
      rw [htext] at hy
      cases hy
      exact .inr ⟨⟨text, rfl⟩, hmono hindexed⟩
    · rw [hedits.rest y hyx] at hy
      exact (h.rest y data hy).imp_right fun hrest => ⟨hrest.1, hmono hrest.2⟩

/-- If a kind has no modules, its index is right as it is. -/
theorem Holds.kindIndexed_of_empty (hsite : l.Site t₀ cs) (h : l.Holds t₀ cs B t)
    (hempty : l.modulesOf t k = []) : l.KindIndexed t k := by
  rw [KindIndexed, if_pos hempty, Bool.eq_false_iff, ne_eq, FileTree.isFile_iff]
  rintro ⟨loc, data, hloc, hfile, -⟩
  rw [((resolves_file_iff (by decide)).mp hloc).2, h.workingDir] at hfile
  exact h.modulesOf_ne_nil_of_kindIndex hsite hfile hempty

/-- The index of a kind adds nothing to what the tree holds, and is not written without modules. -/
theorem Holds.after_writeKindIndex {mounted : Bool} (hsite : l.Site t₀ cs) (h : l.Holds t₀ cs B t)
    (hwrite : writeKindIndex l k t = .ok (r, mounted) t') :
    l.Holds t₀ cs B t' ∧ (l.modulesOf t k = [] → t' = t) := by
  by_cases hempty : l.modulesOf t k = []
  · rw [writeKindIndex_rests (writeKindIndex_paths hwrite).2
      (h.kindIndexed_of_empty hsite hempty)] at hwrite
    cases hwrite
    exact ⟨h, fun _ => rfl⟩
  · have hapart : l.IndexesApart t.workingDir := h.workingDir ▸ hsite.separate.indexesApart
    obtain ⟨hedits, hindexed, -⟩ := writeKindIndex_eq_ok hapart hwrite
    obtain ⟨m, hm⟩ := List.exists_mem_of_ne_nil _ hempty
    refine ⟨h.edits hsite ⟨k, m, hm, .inl rfl⟩ hedits ?_, fun h => absurd h hempty⟩
    rw [KindIndexed, (hedits.mono (l.kindIndex_subset _ k)).modulesOf_eq hapart,
      if_neg hempty] at hindexed
    have hfile := get?_fileAt (by decide) hindexed
    rw [hedits.workingDir] at hfile
    exact ⟨_, hfile⟩

/-- To write the index of a kind succeeds if everything can have a place of its own. -/
theorem Site.writeKindIndex_adds (hsite : l.Site t₀ cs) (k : ArtifactKind) :
    Adds (l.Feasible t₀ cs) (l.Holds t₀ cs) ∅ (writeKindIndex l k) where
  succeeds := by
    rintro ⟨D, F, hplan⟩ B t h
    have hlists := hplan.lists_kindDir hsite h k
    by_cases hempty : l.modulesOf t k = []
    · exact ⟨_, t, writeKindIndex_rests hlists (h.kindIndexed_of_empty hsite hempty)⟩
    · obtain ⟨ms, hlist⟩ := listModules_eq_ok_iff.mpr hlists
      obtain ⟨-, rfl⟩ := listModules_eq_ok hlist
      obtain ⟨m, hm⟩ := List.exists_mem_of_ne_nil _ hempty
      have hfree := hplan.isFree h (hplan.indexes_of_modulesOf hsite h hm).1
      rw [← h.workingDir] at hfree
      have hslash : '/' ∉ "mod".toList := by decide
      obtain ⟨changed, t', hwrite⟩ := writeIfChanged_of_resolves
        ((resolves_file_iff hslash).mpr ⟨reaches_of_modulesOf_ne_nil hempty, rfl⟩)
        (endsWithSlash_file hslash) hfree (indexContent (l.modulesOf t k))
      refine ⟨(.ofWrite (l.file k "mod") changed, true), t',
        bind_eq_ok_iff.mpr ⟨_, _, hlist, ?_⟩⟩
      rw [if_neg (mt List.isEmpty_iff.mp hempty), kindDir_join_indexFile]
      exact bind_eq_ok_iff.mpr ⟨changed, t', hwrite, rfl⟩
  adds B t a t' h hwrite := by
    rw [Set.union_empty]
    exact (h.after_writeKindIndex hsite hwrite).1

/-- So does writing the indexes of several kinds. -/
theorem Site.writeKindIndexes_adds (hsite : l.Site t₀ cs) (ks : List ArtifactKind) :
    Adds (l.Feasible t₀ cs) (l.Holds t₀ cs) ∅ (writeKindIndexes l ks) := by
  induction ks with
  | nil => exact .pure _
  | cons k ks ih =>
      refine ((hsite.writeKindIndex_adds k).bind fun first => ih.bind_pure).of_eq ?_
      exact Set.union_empty ∅

/-- It is the kinds with modules that are found. -/
theorem mountedKinds_of_writeKindIndexes {kinds : List ArtifactKind}
    (hsep : l.Separate t.workingDir)
    (h : writeKindIndexes l (ArtifactKind.ofGroup g) t = .ok (r, kinds) t') :
    kinds = l.mountedKinds t' g := by
  have hnodup : (ArtifactKind.ofGroup g).Nodup := by
    cases g <;> decide
  obtain ⟨hedits, -, hkinds⟩ := writeKindIndexes_eq_ok hsep.indexesApart hnodup h
  have hsubset : l.filesAt t.workingDir (ArtifactKind.ofGroup g) "mod" ⊆
      l.indexesAt t.workingDir := by
    rintro _ ⟨k, -, rfl⟩
    exact .inl ⟨k, rfl⟩
  rw [(hedits.mono hsubset).mountedKinds_eq hsep.indexesApart, hkinds]
  rfl

/-- If a group has something to mount, the path of its index leads somewhere. -/
theorem exists_of_mountedKinds (h : l.mountedKinds t g ≠ []) :
    ∃ k m, k.group = g ∧ m ∈ l.modulesOf t k ∧
      t.Resolves ((l.dir g).join indexFile) (l.indexAt t.workingDir g) := by
  obtain ⟨k, hk⟩ := List.exists_mem_of_ne_nil _ h
  obtain ⟨rfl, hmodules⟩ := mem_mountedKinds.mp hk
  obtain ⟨m, hm⟩ := List.exists_mem_of_ne_nil _ hmodules
  exact ⟨k, m, rfl, hm, resolves_index_iff.mpr ⟨reaches_of_mem_modulesOf hm, rfl⟩⟩

/-- Nor do the indexes of a group add anything. -/
theorem Holds.after_writeGroupIndexes (hsite : l.Site t₀ cs) (h : l.Holds t₀ cs B t)
    (hwrite : writeGroupIndexes l g t = .ok r t') : l.Holds t₀ cs B t' := by
  simp only [writeGroupIndexes, bind_eq_ok_iff] at hwrite
  obtain ⟨⟨report, kinds⟩, t₁, hrun, hwrite⟩ := hwrite
  obtain rfl := mountedKinds_of_writeKindIndexes (h.workingDir ▸ hsite.separate) hrun
  have h₁ := (hsite.writeKindIndexes_adds (ArtifactKind.ofGroup g)).adds B t _ t₁ h hrun
  rw [Set.union_empty] at h₁
  split at hwrite
  · obtain ⟨-, rfl⟩ := pure_eq_ok_iff.mp hwrite
    exact h₁
  · next hne =>
    simp only [bind_eq_ok_iff, pure_eq_ok_iff] at hwrite
    obtain ⟨written, t₂, hwrite, -, rfl⟩ := hwrite
    obtain ⟨k, m, rfl, hm, hresolves⟩ := exists_of_mountedKinds (mt List.isEmpty_iff.mpr hne)
    obtain ⟨hread, hedits⟩ := writeIfChanged_edits hwrite hresolves
    have hfile := get?_indexAt hread
    rw [hedits.workingDir] at hfile
    exact h₁.edits hsite ⟨k, m, hm, .inr rfl⟩ hedits ⟨_, hfile⟩

/-- **Writing the indexes of a group** adds nothing. -/
theorem Site.writeGroupIndexes_adds (hsite : l.Site t₀ cs) (g : Group) :
    Adds (l.Feasible t₀ cs) (l.Holds t₀ cs) ∅ (writeGroupIndexes l g) where
  succeeds hplan B t h := by
    have hkinds := hsite.writeKindIndexes_adds (ArtifactKind.ofGroup g)
    obtain ⟨⟨report, kinds⟩, t₁, hrun⟩ := hkinds.succeeds hplan B t h
    obtain rfl := mountedKinds_of_writeKindIndexes (h.workingDir ▸ hsite.separate) hrun
    have h₁ := hkinds.adds B t _ t₁ h hrun
    by_cases hempty : l.mountedKinds t₁ g = []
    · refine ⟨report, t₁, bind_eq_ok_iff.mpr ⟨_, _, hrun, ?_⟩⟩
      change (if (l.mountedKinds t₁ g).isEmpty = true then _ else _ : Work Report) t₁ = _
      rw [if_pos (List.isEmpty_iff.mpr hempty)]
      rfl
    · obtain ⟨D, F, hplan⟩ := hplan
      obtain ⟨k, m, rfl, hm, hresolves⟩ := exists_of_mountedKinds hempty
      have hfree := hplan.isFree h₁ (hplan.indexes_of_modulesOf hsite h₁ hm).2
      rw [← h₁.workingDir] at hfree
      obtain ⟨changed, t', hwrite⟩ := writeIfChanged_of_resolves hresolves
        (Path.endsWithSlash_join isPlain_indexFile.isRelative _) hfree
        (indexContent (sortNames ((l.mountedKinds t₁ k.group).map ArtifactKind.module)))
      refine ⟨report ++ .ofWrite ((l.dir k.group).join indexFile) changed, t',
        bind_eq_ok_iff.mpr ⟨_, _, hrun, ?_⟩⟩
      change (if (l.mountedKinds t₁ k.group).isEmpty = true then _ else _ : Work Report) t₁ = _
      rw [if_neg (mt List.isEmpty_iff.mp hempty)]
      exact bind_eq_ok_iff.mpr ⟨changed, t', hwrite, rfl⟩
  adds B t r t' h hwrite := by
    rw [Set.union_empty]
    exact h.after_writeGroupIndexes hsite hwrite

/-- **Writing indexes** adds nothing. -/
theorem Site.writeIndexes_adds (hsite : l.Site t₀ cs) :
    Adds (l.Feasible t₀ cs) (l.Holds t₀ cs) ∅ (writeIndexes l) := by
  refine (Adds.reportEach fun g _ => hsite.writeGroupIndexes_adds g).of_eq ?_
  simp

end Layout

end Defsheet

import Defsheet.Output
import Defsheet.Proofs.TreeChanges

/-!
# Writing files

Work on a file tree is described by what it has done once it has succeeded. A file that was written
if necessary can be read with its new content; a file that was removed if necessary is not there.
All that both can change besides is one location, and for a file that was not there the directories
around it.

## Main results

* `writeIfChanged_eq_ok` and `removeIfThere_eq_ok` describe work on one file.
* `writeArtifacts_builds` and `writeArtifacts_eq_ok` describe work on the files of a document.
-/

namespace Defsheet

variable {t t' : FileTree} {p : Path}

/-! ### Work -/

namespace Work

variable {α β : Type}

/-- Work in two stages succeeds if both do. -/
theorem bind_eq_ok_iff {x : Work α} {f : α → Work β} {b : β} :
    (x >>= f) t = .ok b t' ↔ ∃ a t₁, x t = .ok a t₁ ∧ f a t₁ = .ok b t' := by
  change EStateM.bind x f t = _ ↔ _
  unfold EStateM.bind
  cases x t with
  | ok a t₁ => simp
  | error e t₁ => simp

/-- A result that is there already leaves the tree as it was. -/
theorem pure_eq_ok_iff {a b : α} : (pure a : Work α) t = .ok b t' ↔ a = b ∧ t = t' := by
  change EStateM.Result.ok a t = _ ↔ _
  simp

/-- To look at the whole tree leaves it as it was. -/
theorem get_eq_ok_iff {s : FileTree} : (get : Work FileTree) t = .ok s t' ↔ t = s ∧ t = t' := by
  change EStateM.Result.ok t t = _ ↔ _
  simp

/-- To look at a path leaves the tree as it was. -/
theorem look_eq_ok_iff {f : FileTree → Except TreeError α} {a : α} :
    look p f t = .ok a t' ↔ f t = .ok a ∧ t = t' := by
  unfold look
  cases f t with
  | ok a => simp
  | error e => simp

/-- A change succeeds with the tree that it makes. -/
theorem change_eq_ok_iff {f : FileTree → Except TreeError FileTree} {u : Unit} :
    change p f t = .ok u t' ↔ f t = .ok t' := by
  unfold change
  cases f t with
  | ok t₁ => simp
  | error e => simp

/-- A change that may fail on the way succeeds if it does not. -/
theorem changes_eq_ok_iff {f : FileTree → FileTree.Change Unit} {u : Unit} :
    changes p f t = .ok u t' ↔ f t = (.ok u, t') := by
  unfold changes
  obtain ⟨e | u, t₁⟩ := f t
  · simp
  · simp

end Work

open Work

/-- Work on each of some items, in two steps. -/
theorem reportEach_cons_eq_ok_iff {α : Type} {f : α → Work Report} {a : α} {as : List α}
    {r : Report} : reportEach f (a :: as) t = .ok r t' ↔
      ∃ first t₁ others, f a t = .ok first t₁ ∧ reportEach f as t₁ = .ok others t' ∧
        first ++ others = r := by
  simp only [reportEach, bind_eq_ok_iff, pure_eq_ok_iff]
  constructor
  · rintro ⟨first, t₁, hfirst, others, t₂, hothers, rfl, rfl⟩
    exact ⟨first, t₁, others, hfirst, hothers, rfl⟩
  · rintro ⟨first, t₁, others, hfirst, hothers, rfl⟩
    exact ⟨first, t₁, hfirst, others, t', hothers, rfl, rfl⟩

/-- What work on each item preserves, work on all items does. -/
theorem reportEach_induction {α : Type} {f : α → Work Report} (R : FileTree → FileTree → Prop)
    (refl : ∀ t, R t t) (trans : ∀ {t t' t''}, R t t' → R t' t'' → R t t'') {as : List α}
    (step : ∀ a ∈ as, ∀ t r t', f a t = .ok r t' → R t t') {r : Report}
    (h : reportEach f as t = .ok r t') : R t t' := by
  induction as generalizing t r with
  | nil =>
      obtain ⟨-, rfl⟩ := pure_eq_ok_iff.mp h
      exact refl t
  | cons a as ih =>
      obtain ⟨first, t₁, others, hfirst, hothers, -⟩ := reportEach_cons_eq_ok_iff.mp h
      rw [List.forall_mem_cons] at step
      exact trans (step.1 t first t₁ hfirst) (ih step.2 hothers)

/-! ### Files -/

open FileTree

/-- Making the directory around a file makes directories only, and none if the file has one. -/
theorem makeParent_eq_ok {u : Unit} (h : makeParent p t = .ok u t') :
    Builds ∅ t t' ∧ ∀ loc, t.Resolves p loc → t' = t := by
  cases hq : p.parent? with
  | none =>
      simp only [makeParent, hq, pure_eq_ok_iff] at h
      obtain ⟨-, rfl⟩ := h
      exact ⟨.refl _ _, fun _ _ => rfl⟩
  | some q =>
      simp only [makeParent, hq, changes_eq_ok_iff] at h
      constructor
      · have hbuilds := makeDirs_builds t q
        rwa [h] at hbuilds
      · intro loc hloc
        rw [hloc.makeDirs_parent hq] at h
        exact (Prod.mk.inj h).2.symm

/-- **Writing one file.** Afterwards it can be read. Nothing else has changed, but for directories
that were made if the file had none. -/
theorem writeIfChanged_eq_ok {content : String} {changed : Bool}
    (h : writeIfChanged p content t = .ok changed t') :
    t'.read? p = .ok content ∧ ∃ loc, t'.Resolves p loc ∧ Builds {loc} t t' ∧
      (t.Resolves p loc → Edits {loc} t t') := by
  simp only [writeIfChanged, readIfThere, bind_eq_ok_iff, look_eq_ok_iff] at h
  obtain ⟨found, t₁, ⟨hfound, rfl⟩, h⟩ := h
  split at h
  · next hsame =>
    obtain ⟨-, rfl⟩ := pure_eq_ok_iff.mp h
    have hread : t.read? p = .ok content := by
      subst hsame
      split at hfound
      · next hread => rw [hread, Option.some.inj (Except.ok.inj hfound)]
      · cases hfound
      · cases hfound
    obtain ⟨loc, hloc, -⟩ := read?_eq_ok_iff.mp hread
    exact ⟨hread, loc, hloc, .refl _ _, fun _ => .refl _ _⟩
  · simp only [bind_eq_ok_iff, pure_eq_ok_iff, change_eq_ok_iff] at h
    obtain ⟨_, t₁, hparent, _, t₂, hwrite, -, rfl⟩ := h
    obtain ⟨hbuilds, hstays⟩ := makeParent_eq_ok hparent
    obtain ⟨loc, hloc, hdir, hslash, rfl⟩ := write_eq_ok hwrite
    have hedits := edits_insert_file hloc.ne_nil hdir (.text content)
    have hloc' := hedits.resolves_iff.mpr hloc
    refine ⟨read?_eq_ok_iff.mpr ⟨loc, hloc', get?_insert_self hloc.ne_nil _, hslash⟩, loc, hloc',
      (hbuilds.mono (Set.empty_subset _)).trans hedits.builds, fun hbefore => ?_⟩
    obtain rfl := hstays loc hbefore
    exact hedits

/-- If the directory of the file is there, none has to be made. -/
theorem writeIfChanged_edits {content : String} {changed : Bool} {loc : Location}
    (h : writeIfChanged p content t = .ok changed t') (hloc : t.Resolves p loc) :
    t'.read? p = .ok content ∧ Edits {loc} t t' := by
  obtain ⟨hread, loc', hloc', hbuilds, hedits⟩ := writeIfChanged_eq_ok h
  obtain rfl := (hbuilds.resolves hloc).unique hloc'
  exact ⟨hread, hedits hloc⟩

/-- **Removing one file.** Afterwards it is not there, and nothing else has changed. -/
theorem removeIfThere_eq_ok {removed : Bool} (h : removeIfThere p t = .ok removed t') :
    t'.isFile p = false ∧
      (t' = t ∨ ∃ loc, t.Resolves p loc ∧ Edits {loc} t t' ∧ t'.get? loc = none) := by
  simp only [removeIfThere, bind_eq_ok_iff, get_eq_ok_iff] at h
  obtain ⟨s, t₁, ⟨rfl, rfl⟩, h⟩ := h
  split at h
  · simp only [bind_eq_ok_iff, pure_eq_ok_iff, change_eq_ok_iff] at h
    obtain ⟨_, t₁, hremove, -, rfl⟩ := h
    obtain ⟨loc, data, hloc, hfile, rfl⟩ := remove_eq_ok hremove
    have hedits := edits_erase_file hloc.ne_nil hfile
    have hnone := get?_erase_self (t := t) hloc.ne_nil
    refine ⟨?_, .inr ⟨loc, hloc, hedits, hnone⟩⟩
    rw [Bool.eq_false_iff, ne_eq, isFile_iff]
    rintro ⟨loc', data', hloc', hfile', -⟩
    rw [(hedits.resolves_iff.mp hloc').unique hloc, hnone] at hfile'
    cases hfile'
  · next hfile =>
    obtain ⟨-, rfl⟩ := pure_eq_ok_iff.mp h
    exact ⟨by simpa using hfile, .inl rfl⟩

/-! ### Layouts -/

/-- Kinds have different modules. -/
theorem ArtifactKind.module_injective {k k' : ArtifactKind} (h : k.module = k'.module) :
    k = k' := by
  revert h
  cases k <;> cases k' <;> decide

/-- The module of a kind is a plain name. -/
theorem ArtifactKind.isPlain_module (k : ArtifactKind) : Path.IsPlain k.module := by
  cases k <;> exact ⟨by decide, by decide, by decide, by decide⟩

/-- The file of a module is a plain name. -/
theorem isPlain_moduleFile {m : String} (h : '/' ∉ m.toList) : Path.IsPlain (m ++ ".rs") := by
  have hne (s : String) (hs : s.toList.getLast? ≠ some 's') : m ++ ".rs" ≠ s := by
    rintro rfl
    simp at hs
  refine ⟨hne _ (by decide), ?_, hne _ (by decide), hne _ (by decide)⟩
  rw [String.toList_append, List.mem_append, not_or]
  exact ⟨h, by decide⟩

/-- So is the name of an index. -/
theorem isPlain_indexFile : Path.IsPlain indexFile :=
  ⟨by decide, by decide, by decide, by decide⟩

namespace Layout

variable {l : Layout} {wd loc : Location} {k k' : ArtifactKind} {m m' : String} {g g' : Group}

/-- The location of the directory of a group. -/
def root (l : Layout) (wd : Location) (g : Group) : Location := place wd (l.dir g)

/-- The location of the file of a kind for a module. -/
def fileAt (l : Layout) (wd : Location) (k : ArtifactKind) (m : String) : Location :=
  l.root wd k.group ++ [k.module, m ++ ".rs"]

/-- The location of the index of a group. -/
def indexAt (l : Layout) (wd : Location) (g : Group) : Location := l.root wd g ++ [indexFile]

/-- The directories of the two groups are different, and neither is inside the other. -/
structure Separate (l : Layout) (wd : Location) : Prop where
  runtime : ¬l.root wd .runtime <+: l.root wd .editor
  editor : ¬l.root wd .editor <+: l.root wd .runtime

/-- In a separate layout, no root is within another. -/
theorem Separate.eq_of_root_within (h : l.Separate wd) (hg : l.root wd g <+: l.root wd g') :
    g = g' := by
  cases g <;> cases g'
  · rfl
  · exact absurd hg h.runtime
  · exact absurd hg h.editor
  · rfl

/-- Files of different kinds or modules are different files. -/
theorem fileAt_injective (h : l.fileAt wd k m = l.fileAt wd k' m') : k = k' ∧ m = m' := by
  obtain ⟨-, htail⟩ := List.append_inj' h rfl
  obtain ⟨hkind, hfile⟩ := List.cons.inj htail
  refine ⟨ArtifactKind.module_injective hkind, ?_⟩
  have hchars := congrArg String.toList (List.cons.inj hfile).1
  rw [String.toList_append, String.toList_append] at hchars
  exact String.toList_inj.mp (List.append_cancel_right hchars)

/-- The file of a module is inside the directory of its kind. -/
theorem fileAt_eq_concat (l : Layout) (wd : Location) (k : ArtifactKind) (m : String) :
    l.fileAt wd k m = (l.root wd k.group ++ [k.module]) ++ [m ++ ".rs"] := by
  rw [fileAt, List.append_assoc]
  rfl

/-- The index of a group is not the file of a kind. -/
theorem Separate.fileAt_ne_indexAt (h : l.Separate wd) : l.fileAt wd k m ≠ l.indexAt wd g := by
  intro heq
  have hdrop := congrArg List.dropLast heq
  rw [fileAt_eq_concat, indexAt, List.dropLast_concat, List.dropLast_concat] at hdrop
  obtain rfl :=
    h.eq_of_root_within (hdrop ▸ List.prefix_append _ _ : l.root wd k.group <+: l.root wd g)
  simpa using congrArg List.length hdrop

/-- The index of no group lies where files of kinds do. Then work on one of them leaves the others
alone. -/
def IndexesApart (l : Layout) (wd : Location) : Prop :=
  ∀ k m g, l.fileAt wd k m ≠ l.indexAt wd g

/-- In a separate layout, indexes lie apart from files of kinds. -/
theorem Separate.indexesApart (h : l.Separate wd) : l.IndexesApart wd := fun _ _ _ =>
  h.fileAt_ne_indexAt

/-- In a separate layout, every group has its own index. -/
theorem Separate.indexAt_injective (h : l.Separate wd) (heq : l.indexAt wd g = l.indexAt wd g') :
    g = g' := by
  obtain ⟨hroot, -⟩ := List.append_inj' heq rfl
  exact h.eq_of_root_within (hroot ▸ List.prefix_rfl)

/-- The file of a kind is one name below the directory of the kind. -/
theorem isRoute_relativePath (hm : '/' ∉ m.toList) :
    Path.IsRoute (Artifact.relativePath k m) [k.module] (m ++ ".rs") := by
  rw [Artifact.relativePath, String.append_assoc]
  exact k.isPlain_module.isRoute.concat (isPlain_moduleFile hm)

/-- The path of a file does not end with a slash. -/
theorem endsWithSlash_file (hm : '/' ∉ m.toList) : (l.file k m).endsWithSlash = false :=
  Path.endsWithSlash_join (isRoute_relativePath hm).relative _

/-- The path of the file of a kind leads to its location if the directory of the kind is there. -/
theorem resolves_file_iff (hm : '/' ∉ m.toList) :
    t.Resolves (l.file k m) loc ↔
      t.Reaches (l.dir k.group) [k.module] ∧ loc = l.fileAt t.workingDir k m := by
  rw [file, resolves_join_iff (isRoute_relativePath hm), fileAt_eq_concat]
  rfl

/-- The path of the index of a group leads to its location if the directory of the group is
there. -/
theorem resolves_index_iff :
    t.Resolves ((l.dir g).join indexFile) loc ↔
      t.Reaches (l.dir g) [] ∧ loc = l.indexAt t.workingDir g := by
  rw [resolves_join_iff isPlain_indexFile.isRoute, List.append_nil]
  rfl

/-- The index of a kind lies beside the files of the kind. -/
theorem kindDir_join_indexFile (l : Layout) (k : ArtifactKind) :
    (l.kindDir k).join indexFile = l.file k "mod" := by
  have hname : indexFile = "mod" ++ ".rs" := by decide
  rw [kindDir, Path.join_join k.isPlain_module.isRelative, hname, file, Artifact.relativePath]
  simp only [String.append_assoc]

end Layout

/-! ### Documents -/

/-- A file can still be read if nothing was done to it. -/
theorem FileTree.Builds.read?_eq_ok {S : Set Location} {content : String} (h : Builds S t t')
    (hread : t.read? p = .ok content) (hp : ∀ loc, t.Resolves p loc → loc ∉ S) :
    t'.read? p = .ok content := by
  obtain ⟨loc, hloc, hfile, hslash⟩ := read?_eq_ok_iff.mp hread
  exact read?_eq_ok_iff.mpr
    ⟨loc, h.resolves hloc, (h.get?_file_iff (hp loc hloc)).mpr hfile, hslash⟩

/-- What is generated for a document fits into a layout: its files have its module and different
kinds, and the module can be the name of a file beside an index. -/
structure Compilation.Fits (c : Compilation) : Prop where
  module_eq : ∀ a ∈ c.artifacts, a.module = c.module
  nodup_kinds : (c.artifacts.map Artifact.kind).Nodup
  slash_not_mem : '/' ∉ c.module.toList
  ne_mod : c.module ≠ "mod"

section

variable {l : Layout} {k : ArtifactKind} {m : String} {r : Report}

/-- The locations of the files of some kinds for a module. -/
def Layout.filesAt (l : Layout) (wd : Location) (ks : List ArtifactKind) (m : String) :
    Set Location :=
  {loc | ∃ k ∈ ks, loc = l.fileAt wd k m}

/-- More kinds have more files. -/
theorem Layout.filesAt_mono {wd : Location} {ks ks' : List ArtifactKind} (h : ks ⊆ ks') :
    l.filesAt wd ks m ⊆ l.filesAt wd ks' m := by
  rintro _ ⟨k, hk, rfl⟩
  exact ⟨k, h hk, rfl⟩

/-- Writing one file of a document. -/
theorem writeArtifact_eq_ok {a : Artifact} (hm : '/' ∉ a.module.toList)
    (h : writeArtifact l a t = .ok r t') :
    t'.read? (l.file a.kind a.module) = .ok a.content ∧
      Builds (l.filesAt t.workingDir [a.kind] a.module) t t' := by
  simp only [writeArtifact, bind_eq_ok_iff, pure_eq_ok_iff] at h
  obtain ⟨written, t₁, hwrite, -, rfl⟩ := h
  obtain ⟨hread, loc, hloc, hbuilds, -⟩ := writeIfChanged_eq_ok hwrite
  refine ⟨hread, hbuilds.mono ?_⟩
  rw [Set.singleton_subset_iff, ← hbuilds.workingDir]
  exact ⟨a.kind, List.mem_singleton_self _, ((Layout.resolves_file_iff hm).mp hloc).2⟩

/-- The kinds that a document gives rise to no file of. -/
def Compilation.staleKinds (c : Compilation) : List ArtifactKind :=
  ArtifactKind.all.filter fun k => (c.artifact? k).isNone

/-- There are no other kinds. -/
theorem ArtifactKind.mem_all (k : ArtifactKind) : k ∈ all := by
  cases k <;> decide

/-- A kind is stale if the document does not give rise to a file of it. -/
theorem Compilation.mem_staleKinds {c : Compilation} :
    k ∈ c.staleKinds ↔ (c.artifact? k).isSome = false := by
  rw [staleKinds, List.mem_filter, and_iff_right k.mem_all]
  exact Option.isSome_eq_false_iff.symm

/-- A file that a document gives rise to is not stale. -/
theorem Compilation.not_mem_staleKinds {c : Compilation} {a : Artifact} (ha : a ∈ c.artifacts) :
    a.kind ∉ c.staleKinds := by
  rw [mem_staleKinds, artifact?, Option.isSome_eq_false_iff, Option.isNone_iff_eq_none,
    List.find?_eq_none]
  exact fun hnone => hnone a ha (decide_eq_true rfl)

/-- What is done about the file of a kind: it is removed if the document does not give rise to it.
-/
theorem removeStale_eq_ok {c : Compilation} (h : removeStale l c k t = .ok r t') :
    (k ∉ c.staleKinds ∧ r = {} ∧ t' = t) ∨
      k ∈ c.staleKinds ∧ ∃ removed, removeIfThere (l.file k c.module) t = .ok removed t' ∧
        r = .ofRemoval (l.file k c.module) removed := by
  rw [Compilation.mem_staleKinds]
  rw [removeStale] at h
  split at h
  · next hsome =>
    obtain ⟨rfl, rfl⟩ := pure_eq_ok_iff.mp h
    exact .inl ⟨by simp [hsome], rfl, rfl⟩
  · next hnone =>
    simp only [bind_eq_ok_iff, pure_eq_ok_iff] at h
    obtain ⟨removed, t₁, hremove, rfl, rfl⟩ := h
    exact .inr ⟨Bool.eq_false_iff.mpr hnone, removed, hremove, rfl⟩

/-- Removing the files that a document does not give rise to. -/
theorem removeStale_builds {c : Compilation} (hm : '/' ∉ c.module.toList)
    (h : removeStale l c k t = .ok r t') :
    Builds (l.filesAt t.workingDir c.staleKinds c.module) t t' := by
  obtain ⟨-, -, rfl⟩ | ⟨hk, removed, hremove, -⟩ := removeStale_eq_ok h
  · exact .refl _ _
  obtain ⟨-, rfl | ⟨loc, hloc, hedits, -⟩⟩ := removeIfThere_eq_ok hremove
  · exact .refl _ _
  · refine hedits.builds.mono ?_
    rw [Set.singleton_subset_iff]
    exact ⟨k, hk, ((Layout.resolves_file_iff hm).mp hloc).2⟩

/-- Writing files of different kinds for a module. -/
theorem reportEach_writeArtifact {as : List Artifact} (hm : '/' ∉ m.toList)
    (hmodule : ∀ a ∈ as, a.module = m) (hkinds : (as.map Artifact.kind).Nodup)
    (h : reportEach (writeArtifact l) as t = .ok r t') :
    (∀ a ∈ as, t'.read? (l.file a.kind m) = .ok a.content) ∧
      Builds (l.filesAt t.workingDir (as.map Artifact.kind) m) t t' := by
  induction as generalizing t r with
  | nil =>
      obtain ⟨-, rfl⟩ := pure_eq_ok_iff.mp h
      exact ⟨List.forall_mem_nil _, .refl _ _⟩
  | cons a as ih =>
      obtain ⟨first, t₁, others, hfirst, hothers, -⟩ := reportEach_cons_eq_ok_iff.mp h
      rw [List.forall_mem_cons] at hmodule ⊢
      rw [List.map_cons, List.nodup_cons] at hkinds
      obtain ⟨rfl, hmodule⟩ := hmodule
      obtain ⟨hread, hbuilds₁⟩ := writeArtifact_eq_ok hm hfirst
      obtain ⟨hreads, hbuilds₂⟩ := ih hmodule hkinds.2 hothers
      rw [hbuilds₁.workingDir] at hbuilds₂
      refine ⟨⟨hbuilds₂.read?_eq_ok hread ?_, hreads⟩, ?_⟩
      · rintro loc hloc ⟨k, hk, hkloc⟩
        have hloc' := ((Layout.resolves_file_iff hm).mp hloc).2
        rw [hbuilds₁.workingDir, hkloc] at hloc'
        exact hkinds.1 ((Layout.fileAt_injective hloc').1 ▸ hk)
      · rw [List.map_cons]
        exact (hbuilds₁.mono (Layout.filesAt_mono (by simp))).trans
          (hbuilds₂.mono (Layout.filesAt_mono (List.subset_cons_self _ _)))

/-- Work on a document that has a module. -/
theorem writeArtifacts_eq_ok_iff {c : Compilation} (hne : c.module ≠ "") :
    writeArtifacts l c t = .ok r t' ↔
      ∃ written t₁ removed, reportEach (writeArtifact l) c.artifacts t = .ok written t₁ ∧
        reportEach (removeStale l c) ArtifactKind.all t₁ = .ok removed t' ∧
        written ++ removed = r := by
  simp only [writeArtifacts, if_neg hne, bind_eq_ok_iff, pure_eq_ok_iff]
  constructor
  · rintro ⟨written, t₁, hwrite, removed, t₂, hremove, rfl, rfl⟩
    exact ⟨written, t₁, removed, hwrite, hremove, rfl⟩
  · rintro ⟨written, t₁, removed, hwrite, hremove, rfl⟩
    exact ⟨written, t₁, hwrite, removed, t', hremove, rfl, rfl⟩

/-- **Writing a document.** All of its files can be read afterwards, and nothing was done to files
of other modules. -/
theorem writeArtifacts_eq_ok {c : Compilation} (hc : c.Fits)
    (h : writeArtifacts l c t = .ok r t') :
    (c.module ≠ "" → ∀ a ∈ c.artifacts, t'.read? (l.file a.kind c.module) = .ok a.content) ∧
      Builds (l.filesAt t.workingDir ArtifactKind.all c.module) t t' := by
  by_cases hne : c.module = ""
  · rw [writeArtifacts, if_pos hne] at h
    obtain ⟨-, rfl⟩ := pure_eq_ok_iff.mp h
    exact ⟨absurd hne, .refl _ _⟩
  obtain ⟨written, t₁, removed, hwrite, hremove, -⟩ := (writeArtifacts_eq_ok_iff hne).mp h
  obtain ⟨hreads, hbuilds₁⟩ :=
    reportEach_writeArtifact hc.slash_not_mem hc.module_eq hc.nodup_kinds hwrite
  have hbuilds₂ : Builds (l.filesAt t₁.workingDir c.staleKinds c.module) t₁ t' := by
    refine reportEach_induction
      (fun t t' => Builds (l.filesAt t.workingDir c.staleKinds c.module) t t')
      (fun t => .refl _ t) (fun h h' => h.trans (h.workingDir ▸ h')) ?_ hremove
    exact fun k _ t r t' => removeStale_builds hc.slash_not_mem
  rw [hbuilds₁.workingDir] at hbuilds₂
  refine ⟨fun _ a ha => hbuilds₂.read?_eq_ok (hreads a ha) ?_, ?_⟩
  · -- A file that was just written is not stale.
    rintro loc hloc ⟨k, hk, hkloc⟩
    have hloc' := ((Layout.resolves_file_iff hc.slash_not_mem).mp hloc).2
    rw [hbuilds₁.workingDir, hkloc] at hloc'
    obtain ⟨rfl, -⟩ := Layout.fileAt_injective hloc'
    exact Compilation.not_mem_staleKinds ha hk
  · exact (hbuilds₁.mono (Layout.filesAt_mono fun k _ => k.mem_all)).trans
      (hbuilds₂.mono (Layout.filesAt_mono fun k _ => k.mem_all))

/-- The locations of the files of some documents. -/
def Layout.documentsAt (l : Layout) (wd : Location) (cs : List Compilation) : Set Location :=
  {loc | ∃ c ∈ cs, ∃ k, loc = l.fileAt wd k c.module}

/-- Documents that can be written beside each other: they fit into a layout and have modules of
their own. -/
structure Compilation.Coexist (cs : List Compilation) : Prop where
  fits : ∀ c ∈ cs, c.Fits
  module_ne_empty : ∀ c ∈ cs, c.module ≠ ""
  nodup_modules : (cs.map Compilation.module).Nodup

/-- The first document fits, and has a module that no other has. -/
theorem Compilation.Coexist.of_cons {c : Compilation} {cs : List Compilation}
    (h : Coexist (c :: cs)) :
    c.Fits ∧ c.module ≠ "" ∧ c.module ∉ cs.map Compilation.module ∧ Coexist cs := by
  obtain ⟨hfits, hne, hnodup⟩ := h
  rw [List.forall_mem_cons] at hfits hne
  rw [List.map_cons, List.nodup_cons] at hnodup
  exact ⟨hfits.1, hne.1, hnodup.1, hfits.2, hne.2, hnodup.2⟩

/-- **Writing documents** whose modules are different. All of their files can be read afterwards,
and nothing was done to files of other modules. -/
theorem reportEach_writeArtifacts {cs : List Compilation} (hcs : Compilation.Coexist cs)
    (h : reportEach (writeArtifacts l) cs t = .ok r t') :
    (∀ c ∈ cs, ∀ a ∈ c.artifacts, t'.read? (l.file a.kind c.module) = .ok a.content) ∧
      Builds (l.documentsAt t.workingDir cs) t t' := by
  induction cs generalizing t r with
  | nil =>
      obtain ⟨-, rfl⟩ := pure_eq_ok_iff.mp h
      exact ⟨List.forall_mem_nil _, .refl _ _⟩
  | cons c cs ih =>
      obtain ⟨first, t₁, others, hfirst, hothers, -⟩ := reportEach_cons_eq_ok_iff.mp h
      obtain ⟨hc, hne, hmodule, hcs⟩ := hcs.of_cons
      rw [List.forall_mem_cons]
      obtain ⟨hread, hbuilds₁⟩ := writeArtifacts_eq_ok hc hfirst
      obtain ⟨hreads, hbuilds₂⟩ := ih hcs hothers
      rw [hbuilds₁.workingDir] at hbuilds₂
      refine ⟨⟨fun a ha => hbuilds₂.read?_eq_ok (hread hne a ha) ?_, hreads⟩, ?_⟩
      · rintro loc hloc ⟨c', hc', k, hkloc⟩
        have hloc' := ((Layout.resolves_file_iff hc.slash_not_mem).mp hloc).2
        rw [hbuilds₁.workingDir, hkloc] at hloc'
        exact hmodule ((Layout.fileAt_injective hloc').2 ▸ List.mem_map_of_mem hc')
      · refine .trans (hbuilds₁.mono ?_) (hbuilds₂.mono ?_)
        · rintro _ ⟨k, -, rfl⟩
          exact ⟨c, List.mem_cons_self, k, rfl⟩
        · rintro _ ⟨c', hc', k, rfl⟩
          exact ⟨c', List.mem_cons_of_mem c hc', k, rfl⟩

end

end Defsheet

import Defsheet.Proofs.Writing
import Mathlib.Data.List.Nodup
import Mathlib.Data.String.Basic

/-!
# Indexes

The index of a directory of a kind mounts the modules whose files are there. Writing the indexes
does not change which modules these are, so the indexes of all kinds can be described by the tree
that is left: each of them that has something to mount does so, and the others are gone. For this it
is enough that the index of no group lies among the files of a kind (`Layout.IndexesApart`).

## Main results

* `mem_modulesOf_iff`: a module is listed if its file is there.
* `FileTree.Edits.modulesOf_eq`: working on indexes does not change what there is to mount.
* `exists_passes_of_writeIndexes`: the indexes are written in two passes.
* `writeIndexes_eq_ok`: what the indexes hold once they are written.
-/

namespace Defsheet

open Work FileTree

variable {t t' : FileTree} {p : Path}

/-! ### Files of modules -/

/-- The part of a file name from its last dot on. -/
theorem dotPart_eq_cons_iff {name cs : List Char} (hcs : '.' ∉ cs) :
    Path.dotPart name = '.' :: cs ↔ ∃ stem, stem ≠ [] ∧ name = stem ++ '.' :: cs := by
  simp only [Path.dotPart]
  constructor
  · intro h
    split at h
    · cases h
    · next hlength =>
      obtain ⟨-, hcs⟩ := List.cons.inj h
      have hhead := List.head?_dropWhile_not (fun c => decide (c ≠ '.')) name.reverse
      have hname : name.reverse.takeWhile (fun c => decide (c ≠ '.')) ++
          name.reverse.dropWhile (fun c => decide (c ≠ '.')) = name.reverse :=
        List.takeWhile_append_dropWhile
      generalize name.reverse.takeWhile (fun c => decide (c ≠ '.')) = tail at *
      generalize name.reverse.dropWhile (fun c => decide (c ≠ '.')) = rest at *
      obtain _ | ⟨c, rest⟩ := rest
      · have hlength' := congrArg List.length hname
        rw [List.append_nil, List.length_reverse] at hlength'
        omega
      · obtain rfl : c = '.' := by simpa using hhead
        have hsplit : name = rest.reverse ++ '.' :: cs := by
          rw [← hcs, ← List.reverse_reverse name, ← hname]
          simp
        refine ⟨rest.reverse, fun hnil => ?_, hsplit⟩
        rw [hsplit, hnil, ← hcs] at hlength
        simp at hlength
  · rintro ⟨stem, hne, rfl⟩
    have htail :
        (stem ++ '.' :: cs).reverse.takeWhile (fun c => decide (c ≠ '.')) = cs.reverse := by
      rw [List.reverse_append, List.reverse_cons, List.append_assoc, List.takeWhile_append_of_pos]
      · simp
      · intro c hc
        simpa using fun hdot : c = '.' => hcs (hdot ▸ List.mem_reverse.mp hc)
    have hlength := List.length_pos_iff.mpr hne
    rw [htail, if_neg, List.reverse_reverse]
    rw [List.length_append, List.length_cons, List.length_reverse]
    omega

/-- The extension of a file name follows its last dot, which is not its first character. -/
theorem nameExtension?_eq_some_iff {name ext : List Char} (hext : '.' ∉ ext) :
    Path.nameExtension? name = some ext ↔ ∃ stem, stem ≠ [] ∧ name = stem ++ '.' :: ext := by
  have hpart : Path.dotPart name = [] ∨ ∃ cs, Path.dotPart name = '.' :: cs := by
    simp only [Path.dotPart]
    split
    · exact .inl rfl
    · exact .inr ⟨_, rfl⟩
  rw [← dotPart_eq_cons_iff hext, Path.nameExtension?]
  obtain hpart | ⟨cs, hpart⟩ := hpart
  · simp [hpart]
  · simp [hpart]

/-- The stem of a name is what stands before the last dot. -/
theorem nameStem_append {stem ext : List Char} (hstem : stem ≠ []) (hext : '.' ∉ ext) :
    Path.nameStem (stem ++ '.' :: ext) = stem := by
  rw [Path.nameStem, (dotPart_eq_cons_iff hext).mpr ⟨stem, hstem, rfl⟩]
  simp

/-- The file of a module is named after it. No module is named after an index or after nothing. -/
theorem moduleOfFile?_eq_some_iff {n m : String} :
    moduleOfFile? n = some m ↔ n = m ++ ".rs" ∧ m ≠ "" ∧ m ≠ "mod" := by
  have hdot : '.' ∉ ['r', 's'] := by decide
  simp only [moduleOfFile?]
  constructor
  · intro h
    split at h
    · next hext =>
      obtain ⟨stem, hstem, hname⟩ := (nameExtension?_eq_some_iff hdot).mp hext
      rw [hname, nameStem_append hstem hdot] at h
      split at h
      · cases h
      · next hmod =>
        obtain rfl := Option.some.inj h
        refine ⟨String.toList_inj.mp (by simp [hname]), fun hempty => hstem ?_, hmod⟩
        simpa using congrArg String.toList hempty
    · cases h
  · rintro ⟨rfl, hne, hmod⟩
    have hstem : m.toList ≠ [] := fun hnil => hne (String.toList_inj.mp hnil)
    have hname : (m ++ ".rs").toList = m.toList ++ ['.', 'r', 's'] := by simp
    rw [hname, if_pos ((nameExtension?_eq_some_iff hdot).mpr ⟨_, hstem, rfl⟩),
      nameStem_append hstem hdot, String.ofList_toList, if_neg hmod]

/-- The modules whose files are in a directory. -/
def FileTree.modulesIn (t : FileTree) (p : Path) : List String :=
  match t.names? p with
  | .ok names => names.filterMap moduleOfFile?
  | .error _ => []

/-- The modules of a kind, sorted. -/
def Layout.modulesOf (l : Layout) (t : FileTree) (k : ArtifactKind) : List String :=
  sortNames (t.modulesIn (l.kindDir k))

/-- Sorting keeps names. -/
theorem mem_sortNames {names : List String} {m : String} : m ∈ sortNames names ↔ m ∈ names :=
  List.mem_mergeSort

/-- Sorted names are in order. -/
theorem pairwise_sortNames (names : List String) : (sortNames names).Pairwise (· ≤ ·) := by
  refine (List.pairwise_mergeSort ?_ ?_ names).imp of_decide_eq_true
  · intro a b c hab hbc
    exact decide_eq_true ((of_decide_eq_true hab).trans (of_decide_eq_true hbc))
  · intro a b
    simpa using le_total a b

/-- Sorting forgets the order. -/
theorem sortNames_eq_of_mem_iff {u v : List String} (hu : u.Nodup) (hv : v.Nodup)
    (h : ∀ m, m ∈ u ↔ m ∈ v) : sortNames u = sortNames v := by
  refine List.Perm.eq_of_pairwise (fun a b _ _ => le_antisymm) (pairwise_sortNames u)
    (pairwise_sortNames v) ?_
  have hperm : u.Perm v := (List.perm_ext_iff_of_nodup hu hv).mpr h
  exact (List.mergeSort_perm u _).trans (hperm.trans (List.mergeSort_perm v _).symm)

/-- A directory has no two modules of one name. -/
theorem FileTree.nodup_modulesIn (t : FileTree) (p : Path) : (t.modulesIn p).Nodup := by
  unfold modulesIn
  split
  · next names hnames =>
    have hnodup : names.Nodup := by
      unfold names? at hnames
      split at hnames
      · cases hnames
      · rw [← Except.ok.inj hnames]
        exact nodup_names t _
      · cases hnames
    refine hnodup.filterMap fun n n' m hn hn' => ?_
    rw [(moduleOfFile?_eq_some_iff.mp hn).1, (moduleOfFile?_eq_some_iff.mp hn').1]
  · exact .nil

/-- **What there is to mount.** A module of a kind is listed if the directory of the kind can be
reached and the file of the module is there. -/
theorem mem_modulesOf_iff {l : Layout} {k : ArtifactKind} {m : String} :
    m ∈ l.modulesOf t k ↔ t.Reaches (l.dir k.group) [k.module] ∧ m ≠ "" ∧ m ≠ "mod" ∧
      (t.get? (l.fileAt t.workingDir k m)).isSome = true := by
  rw [Layout.modulesOf, mem_sortNames, modulesIn]
  cases hnames : t.names? (l.kindDir k) with
  | error e =>
      have hreaches : ¬t.Reaches (l.dir k.group) [k.module] := by
        intro hreaches
        have hok := (names?_join_eq_ok_iff k.isPlain_module).mpr ⟨hreaches, rfl⟩
        rw [Layout.kindDir, hok] at hnames
        cases hnames
      simp [hreaches]
  | ok names =>
      obtain ⟨hreaches, rfl⟩ := (names?_join_eq_ok_iff k.isPlain_module).mp hnames
      simp only [List.mem_filterMap, moduleOfFile?_eq_some_iff, mem_names, hreaches, true_and]
      rw [Layout.fileAt_eq_concat]
      constructor
      · rintro ⟨n, hn, rfl, hne, hmod⟩
        exact ⟨hne, hmod, hn⟩
      · rintro ⟨hne, hmod, hn⟩
        exact ⟨m ++ ".rs", hn, rfl, hne, hmod⟩

/-- The directory of a kind that has modules can be reached. -/
theorem Layout.reaches_of_modulesOf_ne_nil {l : Layout} {k : ArtifactKind}
    (h : l.modulesOf t k ≠ []) : t.Reaches (l.dir k.group) [k.module] := by
  obtain ⟨m, hm⟩ := List.exists_mem_of_ne_nil _ h
  exact (mem_modulesOf_iff.mp hm).1

/-! ### Work on indexes -/

section

variable {l : Layout} {k : ArtifactKind} {g : Group} {r : Report}

/-- The locations of all indexes. -/
def Layout.indexesAt (l : Layout) (wd : Location) : Set Location :=
  {loc | (∃ k, loc = l.fileAt wd k "mod") ∨ ∃ g, loc = l.indexAt wd g}

/-- The index of a kind stands at one of the places for indexes. -/
theorem Layout.kindIndex_subset (l : Layout) (wd : Location) (k : ArtifactKind) :
    {l.fileAt wd k "mod"} ⊆ l.indexesAt wd :=
  Set.singleton_subset_iff.mpr (.inl ⟨k, rfl⟩)

/-- The file of a document is no index. -/
theorem Layout.IndexesApart.fileAt_not_mem_indexesAt {wd : Location} {m : String}
    (h : l.IndexesApart wd) (hm : m ≠ "mod") : l.fileAt wd k m ∉ l.indexesAt wd := by
  rintro (⟨k', hk'⟩ | ⟨g, hg⟩)
  · exact hm (fileAt_injective hk').2
  · exact h _ _ _ hg

/-- **Working on indexes does not change what there is to mount.** -/
theorem FileTree.Edits.modulesOf_eq (hapart : l.IndexesApart t.workingDir)
    (h : Edits (l.indexesAt t.workingDir) t t') : l.modulesOf t' k = l.modulesOf t k := by
  refine sortNames_eq_of_mem_iff (nodup_modulesIn _ _) (nodup_modulesIn _ _) fun m => ?_
  have hmem := mem_modulesOf_iff (t := t) (l := l) (k := k) (m := m)
  have hmem' := mem_modulesOf_iff (t := t') (l := l) (k := k) (m := m)
  rw [Layout.modulesOf, mem_sortNames] at hmem hmem'
  rw [hmem, hmem', h.reaches_iff, h.workingDir]
  refine and_congr_right fun _ => and_congr_right fun _ => and_congr_right fun hmod => ?_
  rw [h.rest _ (hapart.fileAt_not_mem_indexesAt hmod)]

/-- A file is there if it was, unless something was done to it. -/
theorem FileTree.Edits.isFile_eq {S : Set Location} (h : Edits S t t')
    (hp : ∀ loc, t.Resolves p loc → loc ∉ S) : t'.isFile p = t.isFile p := by
  rw [Bool.eq_iff_iff, isFile_iff, isFile_iff]
  refine exists_congr fun loc => exists_congr fun data => ?_
  rw [h.resolves_iff]
  refine and_congr_right fun hloc => ?_
  rw [h.rest loc (hp loc hloc)]

/-- The index of a kind is right: it mounts the modules of the kind, and is not there if there are
none. -/
def Layout.KindIndexed (l : Layout) (t : FileTree) (k : ArtifactKind) : Prop :=
  if l.modulesOf t k = [] then t.isFile (l.file k "mod") = false
  else t.read? (l.file k "mod") = .ok (indexContent (l.modulesOf t k))

/-- The kinds of a group that have modules to mount. -/
def Layout.mountedKinds (l : Layout) (t : FileTree) (g : Group) : List ArtifactKind :=
  (ArtifactKind.ofGroup g).filter fun k => l.modulesOf t k ≠ []

/-- Listing modules changes nothing, and gives those of the kind. -/
theorem listModules_eq_ok {ms : List String} (h : listModules (l.kindDir k) t = .ok ms t') :
    t' = t ∧ ms = l.modulesOf t k := by
  obtain ⟨hlist, rfl⟩ := look_eq_ok_iff.mp h
  refine ⟨rfl, ?_⟩
  unfold Layout.modulesOf modulesIn
  split at hlist
  · next hnames => rw [hnames, ← Except.ok.inj hlist]
  · next hnames => simp [hnames, ← Except.ok.inj hlist, sortNames]
  · cases hlist

/-- Work on the index of a kind. -/
theorem writeKindIndex_eq_ok {mounted : Bool} (hapart : l.IndexesApart t.workingDir)
    (h : writeKindIndex l k t = .ok (r, mounted) t') :
    Edits {l.fileAt t.workingDir k "mod"} t t' ∧ l.KindIndexed t' k ∧
      (mounted = true ↔ l.modulesOf t k ≠ []) := by
  have hslash : '/' ∉ "mod".toList := by decide
  have hsubset := l.kindIndex_subset t.workingDir k
  simp only [writeKindIndex, bind_eq_ok_iff] at h
  obtain ⟨ms, t₁, hlist, h⟩ := h
  obtain ⟨rfl, rfl⟩ := listModules_eq_ok hlist
  rw [Layout.kindDir_join_indexFile] at h
  split at h
  · next hempty =>
    rw [List.isEmpty_iff] at hempty
    simp only [bind_eq_ok_iff, pure_eq_ok_iff, Prod.mk.injEq] at h
    obtain ⟨removed, t₂, hremove, ⟨-, rfl⟩, rfl⟩ := h
    obtain ⟨hfile, hedits⟩ := removeIfThere_eq_ok hremove
    have hedits : Edits {l.fileAt t₁.workingDir k "mod"} t₁ t₂ := by
      obtain rfl | ⟨loc, hloc, hedits, -⟩ := hedits
      · exact .refl _ _
      · rwa [((Layout.resolves_file_iff hslash).mp hloc).2] at hedits
    refine ⟨hedits, ?_, by simp [hempty]⟩
    rw [Layout.KindIndexed, (hedits.mono hsubset).modulesOf_eq hapart, if_pos hempty]
    exact hfile
  · next hne =>
    rw [List.isEmpty_iff] at hne
    simp only [bind_eq_ok_iff, pure_eq_ok_iff, Prod.mk.injEq] at h
    obtain ⟨written, t₂, hwrite, ⟨-, rfl⟩, rfl⟩ := h
    -- There are modules, so the directory is there and need not be made.
    obtain ⟨hread, hedits⟩ := writeIfChanged_edits hwrite
      ((Layout.resolves_file_iff hslash).mpr ⟨Layout.reaches_of_modulesOf_ne_nil hne, rfl⟩)
    refine ⟨hedits, ?_, by simp [hne]⟩
    rw [Layout.KindIndexed, (hedits.mono hsubset).modulesOf_eq hapart, if_neg hne]
    exact hread

/-- An index stays right if work is done on other indexes only. -/
theorem FileTree.Edits.kindIndexed {S : Set Location} (hapart : l.IndexesApart t.workingDir)
    (h : Edits S t t') (hS : S ⊆ l.indexesAt t.workingDir)
    (hk : l.fileAt t.workingDir k "mod" ∉ S) (hindex : l.KindIndexed t k) :
    l.KindIndexed t' k := by
  have hpath : ∀ loc, t.Resolves (l.file k "mod") loc → loc ∉ S := by
    intro loc hloc
    rwa [((Layout.resolves_file_iff (by decide)).mp hloc).2]
  unfold Layout.KindIndexed at hindex ⊢
  rw [(h.mono hS).modulesOf_eq hapart]
  split
  · next hempty =>
    rw [if_pos hempty] at hindex
    rw [h.isFile_eq hpath, hindex]
  · next hne =>
    rw [if_neg hne] at hindex
    exact h.builds.read?_eq_ok hindex hpath

/-- Work on the indexes of some kinds. -/
theorem writeKindIndexes_eq_ok {ks kinds : List ArtifactKind} (hapart : l.IndexesApart t.workingDir)
    (hks : ks.Nodup) (h : writeKindIndexes l ks t = .ok (r, kinds) t') :
    Edits (l.filesAt t.workingDir ks "mod") t t' ∧ (∀ k ∈ ks, l.KindIndexed t' k) ∧
      kinds = ks.filter fun k => l.modulesOf t k ≠ [] := by
  induction ks generalizing t r kinds with
  | nil =>
      obtain ⟨hresult, rfl⟩ := pure_eq_ok_iff.mp h
      obtain ⟨-, rfl⟩ := Prod.mk.inj hresult
      exact ⟨.refl _ _, List.forall_mem_nil _, rfl⟩
  | cons k ks ih =>
      simp only [writeKindIndexes, bind_eq_ok_iff, pure_eq_ok_iff] at h
      obtain ⟨⟨first, mounted⟩, t₁, hfirst, ⟨others, kinds'⟩, t₂, hothers, hresult, rfl⟩ := h
      rw [List.nodup_cons] at hks
      obtain ⟨hedits₁, hindexed, hmounted⟩ := writeKindIndex_eq_ok hapart hfirst
      have hwd := hedits₁.workingDir
      have hsub₁ := l.kindIndex_subset t.workingDir k
      obtain ⟨hedits₂, hindexeds, rfl⟩ := ih (hwd ▸ hapart) hks.2 hothers
      have hsub₂ : l.filesAt t₁.workingDir ks "mod" ⊆ l.indexesAt t₁.workingDir := by
        rintro _ ⟨k', -, rfl⟩
        exact .inl ⟨k', rfl⟩
      refine ⟨?_, List.forall_mem_cons.mpr ⟨?_, hindexeds⟩, ?_⟩
      · rw [hwd] at hedits₂
        refine (hedits₁.mono ?_).trans (hedits₂.mono ?_)
        · exact Set.singleton_subset_iff.mpr ⟨k, List.mem_cons_self, rfl⟩
        · exact Layout.filesAt_mono (List.subset_cons_self k ks)
      · refine hedits₂.kindIndexed (hwd ▸ hapart) hsub₂ ?_ hindexed
        rintro ⟨k', hk', heq⟩
        exact hks.1 ((Layout.fileAt_injective heq).1 ▸ hk')
      · have hsame (k' : ArtifactKind) : l.modulesOf t₁ k' = l.modulesOf t k' :=
          (hedits₁.mono hsub₁).modulesOf_eq hapart
        rw [← (Prod.mk.inj hresult).2]
        simp only [hsame, List.filter_cons, decide_eq_true_eq, hmounted]

/-- The locations of the indexes of a group. -/
def Layout.groupIndexesAt (l : Layout) (wd : Location) (g : Group) : Set Location :=
  {loc | (∃ k ∈ ArtifactKind.ofGroup g, loc = l.fileAt wd k "mod") ∨ loc = l.indexAt wd g}

/-- The indexes of a group stand at places for indexes. -/
theorem Layout.groupIndexesAt_subset (l : Layout) (wd : Location) (g : Group) :
    l.groupIndexesAt wd g ⊆ l.indexesAt wd := by
  rintro _ (⟨k, -, rfl⟩ | rfl)
  · exact .inl ⟨k, rfl⟩
  · exact .inr ⟨g, rfl⟩

/-- The index of a kind is none of the indexes of another group. -/
theorem Layout.IndexesApart.fileAt_not_mem {wd : Location} (h : l.IndexesApart wd)
    (hk : k.group ≠ g) : l.fileAt wd k "mod" ∉ l.groupIndexesAt wd g := by
  rintro (⟨k', hk', heq⟩ | heq)
  · obtain ⟨rfl, -⟩ := fileAt_injective heq
    exact hk (of_decide_eq_true (List.mem_filter.mp hk').2)
  · exact h _ _ _ heq

/-- The index of a group is none of the indexes of another one. -/
theorem Layout.Separate.indexAt_not_mem {wd : Location} (h : l.Separate wd) {g' : Group}
    (hg : g ≠ g') : l.indexAt wd g ∉ l.groupIndexesAt wd g' := by
  rintro (⟨k, -, heq⟩ | heq)
  · exact h.fileAt_ne_indexAt heq.symm
  · exact hg (h.indexAt_injective heq)

/-- The index of a group has been brought up to date: it mounts the kinds that have modules. If
there are none, it is as it was. -/
def Layout.RootIndexed (l : Layout) (t t' : FileTree) (g : Group) : Prop :=
  if l.mountedKinds t' g = [] then
    t'.get? (l.indexAt t.workingDir g) = t.get? (l.indexAt t.workingDir g)
  else
    t'.read? ((l.dir g).join indexFile) =
      .ok (indexContent (sortNames ((l.mountedKinds t' g).map ArtifactKind.module)))

/-- A kind belongs to one group. -/
theorem ArtifactKind.mem_ofGroup {k : ArtifactKind} {g : Group} : k ∈ ofGroup g ↔ k.group = g := by
  rw [ofGroup, List.mem_filter, decide_eq_true_eq]
  exact and_iff_right k.mem_all

/-- The kinds to mount are those of the group that have modules. -/
theorem Layout.mem_mountedKinds : k ∈ l.mountedKinds t g ↔ k.group = g ∧ l.modulesOf t k ≠ [] := by
  rw [mountedKinds, List.mem_filter, ArtifactKind.mem_ofGroup, decide_eq_true_eq]

/-- Indexes do not count as modules, so writing them does not change what is mounted. -/
theorem FileTree.Edits.mountedKinds_eq (hapart : l.IndexesApart t.workingDir)
    (h : Edits (l.indexesAt t.workingDir) t t') : l.mountedKinds t' g = l.mountedKinds t g := by
  unfold Layout.mountedKinds
  congr 1
  funext k
  rw [h.modulesOf_eq hapart]

/-- The index of a group stays up to date if work is done on other indexes only. -/
theorem FileTree.Edits.rootIndexed {S : Set Location} {t₁ : FileTree} (h : Edits S t₁ t')
    (hapart : l.IndexesApart t₁.workingDir) (hS : S ⊆ l.indexesAt t₁.workingDir)
    (hg : l.indexAt t₁.workingDir g ∉ S) (hwd : t₁.workingDir = t.workingDir)
    (hroot : l.RootIndexed t t₁ g) : l.RootIndexed t t' g := by
  unfold Layout.RootIndexed at hroot ⊢
  rw [(h.mono hS).mountedKinds_eq hapart]
  split
  · next hempty =>
    rw [if_pos hempty] at hroot
    rw [← hroot, ← hwd]
    exact h.rest _ hg
  · next hne =>
    rw [if_neg hne] at hroot
    refine h.builds.read?_eq_ok hroot fun loc hloc => ?_
    rwa [(Layout.resolves_index_iff.mp hloc).2]

/-- Work on the indexes of a group. -/
theorem writeGroupIndexes_eq_ok (hapart : l.IndexesApart t.workingDir)
    (h : writeGroupIndexes l g t = .ok r t') :
    Edits (l.groupIndexesAt t.workingDir g) t t' ∧
      (∀ k ∈ ArtifactKind.ofGroup g, l.KindIndexed t' k) ∧ l.RootIndexed t t' g := by
  simp only [writeGroupIndexes, bind_eq_ok_iff] at h
  obtain ⟨⟨report, kinds⟩, t₁, hkinds, h⟩ := h
  have hnodup : (ArtifactKind.ofGroup g).Nodup := by
    cases g <;> decide
  obtain ⟨hfiles, hindexed, hmounted⟩ := writeKindIndexes_eq_ok hapart hnodup hkinds
  have hwd := hfiles.workingDir
  have hsubset := l.groupIndexesAt_subset t.workingDir g
  have hedits₁ : Edits (l.groupIndexesAt t.workingDir g) t t₁ := by
    refine hfiles.mono ?_
    rintro _ ⟨k, hk, rfl⟩
    exact .inl ⟨k, hk, rfl⟩
  have hkinds₁ : kinds = l.mountedKinds t₁ g := by
    rw [hmounted, (hedits₁.mono hsubset).mountedKinds_eq hapart]
    rfl
  split at h
  · next hempty =>
    obtain ⟨-, rfl⟩ := pure_eq_ok_iff.mp h
    refine ⟨hedits₁, hindexed, ?_⟩
    rw [Layout.RootIndexed, ← hkinds₁, if_pos (List.isEmpty_iff.mp hempty)]
    refine hfiles.rest _ ?_
    rintro ⟨k, -, heq⟩
    exact hapart _ _ _ heq.symm
  · next hne =>
    have hne : kinds ≠ [] := fun hempty => hne (List.isEmpty_iff.mpr hempty)
    simp only [bind_eq_ok_iff, pure_eq_ok_iff] at h
    obtain ⟨written, t₂, hwrite, -, rfl⟩ := h
    -- A kind has modules, so its directory is there, and so is the one around it.
    obtain ⟨k, hk⟩ := List.exists_mem_of_ne_nil _ hne
    rw [hkinds₁, Layout.mem_mountedKinds] at hk
    obtain ⟨rfl, hmodules⟩ := hk
    have hreaches := Layout.reaches_of_modulesOf_ne_nil hmodules
    obtain ⟨hread, hedits₂⟩ := writeIfChanged_edits hwrite
      (Layout.resolves_index_iff.mpr ⟨.of_append (List.forall_mem_nil _) hreaches, rfl⟩)
    have hsubset₂ : {l.indexAt t₁.workingDir k.group} ⊆ l.indexesAt t₁.workingDir :=
      Set.singleton_subset_iff.mpr (.inr ⟨k.group, rfl⟩)
    refine ⟨hedits₁.trans ?_, fun k' hk' => ?_, ?_⟩
    · rw [hwd] at hedits₂
      exact hedits₂.mono (Set.singleton_subset_iff.mpr (.inr rfl))
    · exact hedits₂.kindIndexed (hwd ▸ hapart) hsubset₂ (hwd ▸ hapart _ _ _)
        (hindexed k' hk')
    · have hkinds₂ : l.mountedKinds t₂ k.group = kinds := by
        rw [(hedits₂.mono hsubset₂).mountedKinds_eq (hwd ▸ hapart), hkinds₁]
      rw [Layout.RootIndexed, hkinds₂, if_neg hne]
      exact hread

/-- **Work on all indexes** is done in two passes, one for each group. The indexes of all kinds are
right once it is done. -/
theorem exists_passes_of_writeIndexes (hapart : l.IndexesApart t.workingDir)
    (h : writeIndexes l t = .ok r t') :
    ∃ t₁, Edits (l.groupIndexesAt t.workingDir .runtime) t t₁ ∧ l.RootIndexed t t₁ .runtime ∧
      Edits (l.groupIndexesAt t.workingDir .editor) t₁ t' ∧ l.RootIndexed t₁ t' .editor ∧
      ∀ k, l.KindIndexed t' k := by
  obtain ⟨first, t₁, others, hruntime, hothers, -⟩ := reportEach_cons_eq_ok_iff.mp h
  obtain ⟨second, t₂, none, heditor, hnone, -⟩ := reportEach_cons_eq_ok_iff.mp hothers
  obtain ⟨-, rfl⟩ := pure_eq_ok_iff.mp hnone
  obtain ⟨hedits₁, hkinds₁, hroot₁⟩ := writeGroupIndexes_eq_ok hapart hruntime
  have hwd := hedits₁.workingDir
  have hapart₁ : l.IndexesApart t₁.workingDir := hwd ▸ hapart
  obtain ⟨hedits₂, hkinds₂, hroot₂⟩ := writeGroupIndexes_eq_ok hapart₁ heditor
  refine ⟨t₁, hedits₁, hroot₁, hwd ▸ hedits₂, hroot₂, fun k => ?_⟩
  cases hgroup : k.group with
  | runtime =>
      have hother : k.group ≠ .editor := by
        rw [hgroup]
        decide
      exact hedits₂.kindIndexed hapart₁ (l.groupIndexesAt_subset _ .editor)
        (hapart₁.fileAt_not_mem hother) (hkinds₁ k (ArtifactKind.mem_ofGroup.mpr hgroup))
  | editor => exact hkinds₂ k (ArtifactKind.mem_ofGroup.mpr hgroup)

/-- Nothing is done to anything but indexes. -/
theorem writeIndexes_edits (hapart : l.IndexesApart t.workingDir)
    (h : writeIndexes l t = .ok r t') : Edits (l.indexesAt t.workingDir) t t' := by
  obtain ⟨t₁, hedits₁, -, hedits₂, -⟩ := exists_passes_of_writeIndexes hapart h
  have hsubset := l.groupIndexesAt_subset t.workingDir
  exact (hedits₁.mono (hsubset .runtime)).trans (hedits₂.mono (hsubset .editor))

/-- **What the indexes hold once they are written.** The indexes of all kinds are right and those of
the groups up to date, and nothing else has changed. -/
theorem writeIndexes_eq_ok (hsep : l.Separate t.workingDir) (h : writeIndexes l t = .ok r t') :
    Edits (l.indexesAt t.workingDir) t t' ∧ (∀ k, l.KindIndexed t' k) ∧
      ∀ g, l.RootIndexed t t' g := by
  obtain ⟨t₁, hedits₁, hroot₁, hedits₂, hroot₂, hkinds⟩ :=
    exists_passes_of_writeIndexes hsep.indexesApart h
  have hwd := hedits₁.workingDir
  refine ⟨writeIndexes_edits hsep.indexesApart h, hkinds, fun g => ?_⟩
  cases g with
  | runtime =>
      have hnotMem := hsep.indexAt_not_mem (by decide : Group.runtime ≠ .editor)
      rw [← hwd] at hsep hnotMem hedits₂
      exact hedits₂.rootIndexed hsep.indexesApart (l.groupIndexesAt_subset _ .editor) hnotMem hwd
        hroot₁
  | editor =>
      have hnotMem := hsep.indexAt_not_mem (by decide : Group.editor ≠ .runtime)
      unfold Layout.RootIndexed at hroot₂ ⊢
      rw [hwd, hedits₁.rest _ hnotMem] at hroot₂
      exact hroot₂

end

end Defsheet

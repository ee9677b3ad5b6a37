import Defsheet.Proofs.Effects
import Defsheet.Proofs.FirstWins
import Defsheet.Proofs.RootIndexes

/-!
# Exact indexes

The indexes are written while directories are listed that hold the indexes themselves, and files
that nobody generated. Nothing but indexes is touched on the way, even if the work fails half-way.
If it succeeds, the index of every kind mounts what the directory of the kind holds, each module
once and in the order of the encoded names, and there is no index in a directory without modules.

## Main results

* `Layout.writeIndexes_spares`: nothing but indexes is touched, whether or not the work succeeds.
* `Layout.mem_modulesOf_iff_holdsModule`: the modules that are mounted are those in the directory.
* `Layout.pairwise_modulesOf`: they are mounted in the order of their bytes.
* `writeIndexes_exact`: what writing the indexes does.
-/

namespace Defsheet

open Work FileTree

variable {l : Layout} {t t' t'' : FileTree} {p : Path} {loc : Location} {k : ArtifactKind}

namespace Layout

/-! ### What is spared -/

/-- Indexes may have come and gone, and directories may have been made. Everything else is as it
was. -/
def Spares (l : Layout) (t t' : FileTree) : Prop := Builds (l.indexesAt t.workingDir) t t'

theorem Spares.trans (h : l.Spares t t') (h' : l.Spares t' t'') : l.Spares t t'' := by
  unfold Spares at h h' ⊢
  rw [h.workingDir] at h'
  exact Builds.trans h h'

instance : IsPreorder FileTree l.Spares where
  refl t := .refl _ t
  trans _ _ _ := .trans

/-- Work on an index. -/
theorem Spares.of_edits (hloc : loc ∈ l.indexesAt t.workingDir) (h : Edits {loc} t t') :
    l.Spares t t' :=
  h.builds.mono (Set.singleton_subset_iff.mpr hloc)

/-- To make directories spares every file. -/
theorem makeParent_spares (l : Layout) (p : Path) : Always l.Spares (makeParent p) := by
  unfold makeParent
  split
  · exact .changes fun t => (makeDirs_builds t _).mono (Set.empty_subset _)
  · exact .pure _

/-- The path leads to an index, if it leads anywhere. -/
def IsIndex (l : Layout) (p : Path) : Prop :=
  ∀ (t : FileTree) (loc : Location), t.Resolves p loc → loc ∈ l.indexesAt t.workingDir

/-- The index of a kind is an index. -/
theorem isIndex_kind (l : Layout) (k : ArtifactKind) :
    l.IsIndex ((l.kindDir k).join indexFile) := by
  intro t loc hloc
  rw [kindDir_join_indexFile] at hloc
  exact .inl ⟨k, ((resolves_file_iff (by decide)).mp hloc).2⟩

/-- So is the index of a group. -/
theorem isIndex_group (l : Layout) (g : Group) : l.IsIndex ((l.dir g).join indexFile) :=
  fun _ _ hloc => .inr ⟨g, (resolves_index_iff.mp hloc).2⟩

/-- To write an index spares everything else. -/
theorem IsIndex.writeIfChanged (hp : l.IsIndex p) (content : String) :
    Always l.Spares (writeIfChanged p content) := by
  refine .writeIfChanged (l.makeParent_spares p) fun t t' h => ?_
  obtain ⟨loc, hloc, hdir, -, rfl⟩ := write_eq_ok h
  exact .of_edits (hp t loc hloc) (edits_insert_file hloc.ne_nil hdir _)

/-- To remove an index spares everything else. -/
theorem IsIndex.removeIfThere (hp : l.IsIndex p) : Always l.Spares (removeIfThere p) := by
  refine .removeIfThere fun t t' h => ?_
  obtain ⟨loc, data, hloc, hfile, rfl⟩ := remove_eq_ok h
  exact .of_edits (hp t loc hloc) (edits_erase_file hloc.ne_nil hfile)

/-- What is done about the index of a kind spares everything else. -/
theorem writeKindIndex_spares (l : Layout) (k : ArtifactKind) :
    Always l.Spares (writeKindIndex l k) := by
  refine .bind (.look _) fun ms => ?_
  split
  · exact (l.isIndex_kind k).removeIfThere.bind fun _ => .pure _
  · exact ((l.isIndex_kind k).writeIfChanged _).bind fun _ => .pure _

/-- So does what is done about several of them. -/
theorem writeKindIndexes_spares (l : Layout) (ks : List ArtifactKind) :
    Always l.Spares (writeKindIndexes l ks) := by
  induction ks with
  | nil => exact .pure _
  | cons k ks ih => exact (l.writeKindIndex_spares k).bind fun _ => ih.bind fun _ => .pure _

/-- So does what is done about a group. -/
theorem writeGroupIndexes_spares (l : Layout) (g : Group) :
    Always l.Spares (writeGroupIndexes l g) := by
  refine (l.writeKindIndexes_spares _).bind fun x => ?_
  obtain ⟨report, kinds⟩ := x
  dsimp only
  split
  · exact .pure _
  · exact ((l.isIndex_group g).writeIfChanged _).bind fun _ => .pure _

/-- **What writing the indexes touches**, whether or not it succeeds. -/
theorem writeIndexes_spares (l : Layout) : Always l.Spares (writeIndexes l) :=
  .reportEach fun g _ => l.writeGroupIndexes_spares g

/-! ### What is mounted -/

/-- The directory of a kind holds the module: there is an entry with its name and the extension
`rs`, and it is not an index. -/
def HoldsModule (l : Layout) (t : FileTree) (k : ArtifactKind) (s : String) : Prop :=
  s ≠ "" ∧ s ≠ "mod" ∧ ∃ names, t.names? (l.kindDir k) = .ok names ∧ s ++ ".rs" ∈ names

/-- The modules to mount are those that the directory holds. -/
theorem mem_modulesOf_iff_holdsModule {s : String} :
    s ∈ l.modulesOf t k ↔ l.HoldsModule t k s := by
  rw [modulesOf, mem_sortNames, modulesIn, HoldsModule]
  cases hnames : t.names? (l.kindDir k) with
  | error e => simp
  | ok names =>
      simp only [List.mem_filterMap, moduleOfFile?_eq_some_iff, Except.ok.injEq, exists_eq_left']
      constructor
      · rintro ⟨_, hname, rfl, hne, hmod⟩
        exact ⟨hne, hmod, hname⟩
      · rintro ⟨hne, hmod, hname⟩
        exact ⟨_, hname, rfl, hne, hmod⟩

/-- **The modules of a kind come in the order of their bytes**, each once. -/
theorem pairwise_modulesOf (l : Layout) (t : FileTree) (k : ArtifactKind) :
    (l.modulesOf t k).Pairwise fun s s' => s.toUTF8.data.toList < s'.toUTF8.data.toList := by
  have hle : (l.modulesOf t k).Pairwise (· ≤ ·) := pairwise_sortNames _
  have hne : (l.modulesOf t k).Nodup :=
    (List.mergeSort_perm _ _).nodup_iff.mpr (nodup_modulesIn t _)
  exact hle.imp₂ (fun _ _ hle hne => toUTF8_lt (lt_of_le_of_ne hle hne)) hne

/-- The index of a kind is exact. If the directory holds modules, the index has a line for each of
them, in the order of their bytes; otherwise there is no index. -/
structure KindExact (l : Layout) (t : FileTree) (k : ArtifactKind) : Prop where
  mounts : (∃ s, l.HoldsModule t k s) → ∃ ms : List String,
    t.read? ((l.kindDir k).join indexFile) =
        .ok ("// @generated by actiondef. Do not edit by hand.\n\n" ++
          String.join (ms.map fun s => "pub mod " ++ s ++ ";\n")) ∧
      ms.Pairwise (fun s s' => s.toUTF8.data.toList < s'.toUTF8.data.toList) ∧
      ∀ s, s ∈ ms ↔ l.HoldsModule t k s
  absent : (∀ s, ¬l.HoldsModule t k s) → t.isFile ((l.kindDir k).join indexFile) = false

/-- An index that is right has one line for each module, in order. -/
theorem KindIndexed.kindExact (h : l.KindIndexed t k) : l.KindExact t k := by
  rw [KindIndexed, ← kindDir_join_indexFile] at h
  constructor
  · rintro ⟨s, hs⟩
    rw [if_neg (List.ne_nil_of_mem (mem_modulesOf_iff_holdsModule.mpr hs))] at h
    exact ⟨l.modulesOf t k, h, l.pairwise_modulesOf t k, fun s => mem_modulesOf_iff_holdsModule⟩
  · intro hnone
    have hempty : l.modulesOf t k = [] := List.eq_nil_iff_forall_not_mem.mpr fun s hs =>
      hnone s (mem_modulesOf_iff_holdsModule.mp hs)
    rwa [if_pos hempty] at h

end Layout

/-- **What writing the indexes does.** It touches nothing but indexes, whether or not it succeeds.
If it succeeds, no directory was made, the directories hold the modules that they held before, and
the indexes of all kinds are exact. -/
theorem writeIndexes_exact (l : Layout) (t : FileTree) (hsep : l.Separate t.workingDir) :
    l.Spares t ((writeIndexes l).left t) ∧
      ∀ r t', writeIndexes l t = .ok r t' →
        Edits (l.indexesAt t.workingDir) t t' ∧
          (∀ k s, l.HoldsModule t' k s ↔ l.HoldsModule t k s) ∧ ∀ k, l.KindExact t' k := by
  refine ⟨l.writeIndexes_spares t, fun r t' h => ?_⟩
  obtain ⟨hedits, hkinds, -⟩ := writeIndexes_eq_ok hsep h
  refine ⟨hedits, fun k s => ?_, fun k => (hkinds k).kindExact⟩
  rw [← Layout.mem_modulesOf_iff_holdsModule, ← Layout.mem_modulesOf_iff_holdsModule,
    hedits.modulesOf_eq hsep.indexesApart]

/-- A directory with a module, a file that is none and an old index, beside one that has an index
only. -/
def mixedTree : FileTree :=
  ⟨["work"], ([["work"], ["work", "gen"], ["work", "gen", "manifest"],
    ["work", "gen", "markers"]].map fun loc => (loc, .dir)) ++
    [(["work", "gen", "manifest", "level.rs"], .file (.text "")),
      (["work", "gen", "manifest", "notes.txt"], .file (.text "")),
      (["work", "gen", "manifest", "mod.rs"], .file (.text "pub mod old;\n")),
      (["work", "gen", "markers", "mod.rs"], .file (.text "pub mod old;\n"))]⟩

/-- The first index is written anew and the second one removed. -/
theorem writeIndexes_exact_of_mixed :
    let l := Layout.sideBySide
    let t := mixedTree
    l.Separate t.workingDir ∧ t.isFile ((l.kindDir .markerComponents).join indexFile) = true ∧
      l.Spares t ((writeIndexes l).left t) ∧
      ∃ r t', writeIndexes l t = .ok r t' ∧ Edits (l.indexesAt t.workingDir) t t' ∧
        l.HoldsModule t' .manifest "level" ∧ (∀ k, l.KindExact t' k) ∧
        t'.isFile ((l.kindDir .markerComponents).join indexFile) = false := by
  intro l t
  obtain ⟨hspares, hsuccess⟩ := writeIndexes_exact l t Layout.separate_sideBySide
  have hsome : ((writeIndexes l).tree? t).isSome = true := by decide +kernel
  obtain ⟨t', ht'⟩ := Option.isSome_iff_exists.mp hsome
  obtain ⟨r, hrun⟩ := tree?_eq_some_iff.mp ht'
  obtain ⟨hedits, hholds, hexact⟩ := hsuccess r t' hrun
  have hlevel : l.modulesOf t .manifest = ["level"] := by decide +kernel
  have hempty : l.modulesOf t .markerComponents = [] := by decide +kernel
  refine ⟨Layout.separate_sideBySide, by decide +kernel, hspares, r, t', hrun, hedits, ?_, hexact,
    (hexact .markerComponents).absent fun s => ?_⟩
  · rw [hholds, ← Layout.mem_modulesOf_iff_holdsModule, hlevel]
    exact List.mem_singleton_self _
  · rw [hholds, ← Layout.mem_modulesOf_iff_holdsModule, hempty]
    exact List.not_mem_nil

end Defsheet

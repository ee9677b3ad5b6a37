import Defsheet.Proofs.Indexes
import Mathlib.Data.List.Induction

/-!
# Paths that do not depend on what is written

A path may step back with `..` from a directory that is not there. Such a path leads nowhere until
somebody makes the directory, and then it leads to files that were there all the time. A path that
steps back from existing directories only has no such surprises: in a tree in which everything
stands in a directory, it leads to every file that has its location.

## Main results

* `FileTree.IsClosed.reaches`: a directory at the location of a grounded path can be reached.
* `FileTree.Grounds.follow_eq`: where a grounded path leads is not changed by work elsewhere.
* `Layout.Grounded.isOpen`: the files of a grounded layout can be reached.
* `FileTree.Edits.lists_iff`: working on indexes does not change which directories can be listed.
-/

namespace Defsheet

namespace FileTree

variable {t t' : FileTree} {p : Path} {l loc : Location} {names : List String}

/-! ### Steps back -/

/-- Everything stands in a directory. -/
def IsClosed (t : FileTree) : Prop := ∀ x ∈ t.entries, t.get? x.1.dropLast = some .dir

instance (t : FileTree) : Decidable t.IsClosed :=
  inferInstanceAs (Decidable (∀ x ∈ t.entries, t.get? x.1.dropLast = some .dir))

/-- Every directory that a step `..` of the path goes back from is there. -/
def Grounds (t : FileTree) (p : Path) : Prop :=
  ∀ n < p.steps.length, p.steps[n]? = some ".." →
    (t.follow (t.base p) (p.steps.take n)).isOk = true

instance (t : FileTree) (p : Path) : Decidable (t.Grounds p) :=
  inferInstanceAs (Decidable (∀ n < p.steps.length, p.steps[n]? = some ".." →
    (t.follow (t.base p) (p.steps.take n)).isOk = true))

/-- What stands somewhere stands in a directory. -/
theorem IsClosed.get?_eq_dir (ht : t.IsClosed) {name : String}
    (h : (t.get? (l ++ [name])).isSome = true) : t.get? l = some .dir := by
  rw [get?_of_ne_nil _ (List.append_ne_nil_of_right_ne_nil _ (List.cons_ne_nil _ _)),
    List.lookup_isSome_iff] at h
  obtain ⟨x, hx, hloc⟩ := h
  have hdir := ht x hx
  rwa [← beq_iff_eq.mp hloc, List.dropLast_concat] at hdir

/-- A grounded path leads somewhere each time before it goes back. -/
theorem Grounds.follow_before (h : t.Grounds p) {u v : List String}
    (huv : p.steps = u ++ ".." :: v) : ∃ loc, t.follow (t.base p) u = .ok loc := by
  have hlength : u.length < p.steps.length := by
    rw [huv, List.length_append, List.length_cons]
    omega
  have hok := h u.length hlength (by rw [huv]; simp)
  rw [huv, List.take_left] at hok
  cases hfollow : t.follow (t.base p) u with
  | ok loc => exact ⟨loc, rfl⟩
  | error e =>
      rw [hfollow] at hok
      cases hok

/-- A path stays grounded as long as directories stay. -/
theorem Grounds.mono (hwd : t'.workingDir = t.workingDir)
    (hdirs : ∀ l, t.get? l = some .dir → t'.get? l = some .dir) (h : t.Grounds p) :
    t'.Grounds p := by
  intro n hn hstep
  have hbase : t'.base p = t.base p := by rw [base, hwd, base]
  have hok := h n hn hstep
  rw [hbase]
  cases hfollow : t.follow (t.base p) (p.steps.take n) with
  | ok loc =>
      rw [follow_mono hdirs hfollow]
      rfl
  | error e =>
      rw [hfollow] at hok
      cases hok

/-- A plain name at the end goes back from nowhere. -/
theorem Grounds.join {name : String} (hname : Path.IsPlain name) (h : t.Grounds p) :
    t.Grounds (p.join name) := by
  intro n hn hstep
  rw [Path.steps_join, hname.steps] at hn hstep ⊢
  rw [base_join hname.isRelative]
  rw [List.length_append, List.length_singleton] at hn
  rcases Nat.lt_or_ge n p.steps.length with hlt | hge
  · rw [List.getElem?_append_left hlt] at hstep
    rw [List.take_append_of_le_length hlt.le]
    exact h n hlt hstep
  · obtain rfl : n = p.steps.length := by omega
    rw [List.getElem?_concat_length] at hstep
    exact absurd (Option.some.inj hstep) hname.ne_dots

/-- Names that go back from existing directories only lead to the directory at their location. -/
theorem IsClosed.follow_walk (ht : t.IsClosed)
    (hnames : ∀ u v, names = u ++ ".." :: v → ∃ loc, t.follow l u = .ok loc)
    (hdir : t.get? (walk l names) = some .dir) : t.follow l names = .ok (walk l names) := by
  -- The induction goes from the end: above a directory stands a directory.
  induction names using List.reverseRecOn with
  | nil => rfl
  | append_singleton u name ih =>
      have hu : ∀ u' v, u = u' ++ ".." :: v → ∃ loc, t.follow l u' = .ok loc := by
        intro u' v huv
        refine hnames u' (v ++ [name]) ?_
        rw [huv, List.append_assoc, List.cons_append]
      rw [walk_append] at hdir ⊢
      by_cases hdots : name = ".."
      · obtain ⟨loc, hloc⟩ := hnames u [] (by rw [hdots])
        rw [follow_append, hloc, follow_eq_ok hloc, hdots]
        rfl
      by_cases hdot : name = "."
      · subst hdot
        rw [follow_append, ih hu hdir]
        rfl
      simp only [walk, if_neg hdot, if_neg hdots] at hdir ⊢
      have habove : t.get? (walk l u) = some .dir := ht.get?_eq_dir (by rw [hdir]; rfl)
      exact (follow_concat_eq_ok_iff hdot hdots).mpr ⟨ih hu habove, hdir, rfl⟩

/-- **A directory at the location of a grounded path can be reached.** -/
theorem IsClosed.reaches (ht : t.IsClosed) (hp : t.Grounds p)
    (hdir : t.get? (place t.workingDir p) = some .dir) : t.Reaches p [] := by
  rw [Reaches, List.append_nil, List.append_nil]
  exact ht.follow_walk (fun _ _ => hp.follow_before) hdir

/-- Without steps back names lead further down. -/
theorem prefix_walk (h : ".." ∉ names) (l : Location) : l <+: walk l names := by
  induction names generalizing l with
  | nil => exact List.prefix_rfl
  | cons name names ih =>
      rw [List.mem_cons, not_or] at h
      rw [walk, if_neg (Ne.symm h.1)]
      split
      · exact ih h.2 l
      · exact (List.prefix_append l [name]).trans (ih h.2 _)

/-- A grounded path passes directories that are there and locations above its own. -/
theorem Grounds.passes (hp : t.Grounds p) {u v : List String} {name : String}
    (huv : p.steps = u ++ name :: v) (hdot : name ≠ ".") (hdots : name ≠ "..") :
    t.get? (walk (t.base p) u ++ [name]) = some .dir ∨
      walk (t.base p) u ++ [name] <+: place t.workingDir p := by
  by_cases hv : ".." ∈ v
  · -- The path goes back, so what it passes here is a directory.
    obtain ⟨v₁, v₂, rfl⟩ := List.append_of_mem hv
    have hsteps : p.steps = (u ++ [name] ++ v₁) ++ ".." :: v₂ := by simpa using huv
    obtain ⟨loc, hloc⟩ := hp.follow_before hsteps
    obtain ⟨-, hdir, -⟩ := (follow_concat_eq_ok_iff hdot hdots).mp
      (follow_initial (List.prefix_append _ v₁) hloc)
    exact .inl hdir
  · have hplace : place t.workingDir p = walk (walk (t.base p) u ++ [name]) v := by
      rw [place, huv, walk_append, walk, if_neg hdot, if_neg hdots]
      rfl
    rw [hplace]
    exact .inr (prefix_walk hv _)

/-- **Where a grounded path leads is not changed** by work on files that are not above its
location. -/
theorem Grounds.follow_eq {S : Set Location} (hp : t.Grounds p) (h : Edits S t t')
    (hS : ∀ loc ∈ S, ¬loc <+: place t.workingDir p) :
    t'.follow (t.base p) p.steps = t.follow (t.base p) p.steps := by
  refine follow_congr fun u name v huv hdot hdots => ?_
  obtain hdir | hprefix := hp.passes huv hdot hdots
  · rw [hdir, (h.dirs _).mpr hdir]
  · exact h.rest _ fun hmem => hS _ hmem hprefix

/-- The path leads to a directory that can be listed, or nothing is there. -/
def Lists (t : FileTree) (p : Path) : Prop := ∀ e, t.names? p = .error e → e = .notFound

/-- Whether a directory can be listed is changed only by what is done on the way to it. -/
theorem Grounds.lists_iff {S : Set Location} (htext : p.text ≠ "") (hp : t.Grounds p)
    (h : Edits S t t') (hS : ∀ loc ∈ S, ¬loc <+: place t.workingDir p) :
    t'.Lists p ↔ t.Lists p := by
  have hbase : t'.base p = t.base p := by rw [base, h.workingDir, base]
  rw [Lists, Lists, names?_eq htext, names?_eq htext, hbase, hp.follow_eq h hS]
  cases t.follow (t.base p) p.steps with
  | ok loc => exact iff_of_true (fun _ h => by cases h) (fun _ h => by cases h)
  | error e => exact .rfl

end FileTree

/-! ### Layouts -/

open Work FileTree

namespace Layout

variable {l : Layout} {t t' : FileTree} {loc : Location} {k : ArtifactKind} {m : String}

/-- Both paths of the layout go back from existing directories only. -/
def Grounded (l : Layout) (t : FileTree) : Prop := ∀ g, t.Grounds (l.dir g)

/-- A layout stays grounded as long as directories stay. -/
theorem Grounded.mono (hwd : t'.workingDir = t.workingDir)
    (hdirs : ∀ l, t.get? l = some .dir → t'.get? l = some .dir) (h : l.Grounded t) :
    l.Grounded t' :=
  fun g => (h g).mono hwd hdirs

/-- Every file of a kind can be reached. -/
def IsOpen (l : Layout) (t : FileTree) : Prop :=
  ∀ k m data, t.get? (l.fileAt t.workingDir k m) = some (.file data) →
    t.Reaches (l.dir k.group) [k.module]

/-- **The files of a grounded layout can be reached.** -/
theorem Grounded.isOpen (h : l.Grounded t) (ht : t.IsClosed) : l.IsOpen t := by
  intro k m data hfile
  rw [fileAt_eq_concat] at hfile
  have hkind := ht.get?_eq_dir (by rw [hfile]; rfl)
  have hroot := ht.get?_eq_dir (by rw [hkind]; rfl)
  have hreaches := ht.reaches (h k.group) hroot
  rw [← List.nil_append [k.module]]
  refine (reaches_concat_iff (List.forall_mem_nil _) k.isPlain_module).mpr ⟨hreaches, ?_⟩
  rw [List.append_nil]
  exact hkind

/-- Every file of the module is found by its path. -/
def Finds (l : Layout) (t : FileTree) (m : String) : Prop :=
  ∀ k data, t.get? (l.fileAt t.workingDir k m) = some (.file data) →
    t.Reaches (l.dir k.group) [k.module]

/-- Files are still found once something was done to one that is. -/
theorem Finds.builds {m' : String} (h : l.Finds t m') (hm : '/' ∉ m.toList)
    (hloc : t'.Resolves (l.file k m) loc) (hbuilds : Builds {loc} t t') : l.Finds t' m' := by
  obtain ⟨hreaches, rfl⟩ := (resolves_file_iff hm).mp hloc
  intro k' data hfile
  by_cases heq : l.fileAt t'.workingDir k' m' = l.fileAt t'.workingDir k m
  · rwa [(fileAt_injective heq).1]
  · rw [hbuilds.get?_file_iff heq, hbuilds.workingDir] at hfile
    exact (h k' data hfile).mono hbuilds.workingDir hbuilds.dirs

/-- If every file can be reached, those of a module can. -/
theorem IsOpen.finds (h : l.IsOpen t) (m : String) : l.Finds t m := fun k => h k m

/-- Files can still be reached once something was done to one that can. -/
theorem IsOpen.builds (h : l.IsOpen t) (hm : '/' ∉ m.toList) (hloc : t'.Resolves (l.file k m) loc)
    (hbuilds : Builds {loc} t t') : l.IsOpen t' :=
  fun k' m' => (h.finds m').builds hm hloc hbuilds k'

/-- A file that can be reached is found by its path. -/
theorem IsOpen.isFile_iff (h : l.IsOpen t) (hm : '/' ∉ m.toList) :
    t.isFile (l.file k m) = true ↔
      ∃ data, t.get? (l.fileAt t.workingDir k m) = some (.file data) := by
  rw [FileTree.isFile_iff]
  constructor
  · rintro ⟨loc, data, hloc, hfile, -⟩
    rw [((resolves_file_iff hm).mp hloc).2] at hfile
    exact ⟨data, hfile⟩
  · rintro ⟨data, hfile⟩
    exact ⟨_, data, (resolves_file_iff hm).mpr ⟨h k m data hfile, rfl⟩, hfile,
      endsWithSlash_file hm⟩

/-! ### Listing directories of kinds -/

/-- The locations of everything that can be generated. -/
def placesAt (l : Layout) (wd : Location) : Set Location :=
  {loc | (∃ k m, loc = l.fileAt wd k m) ∨ ∃ g, loc = l.indexAt wd g}

/-- Indexes are among what can be generated. -/
theorem indexesAt_subset_placesAt (l : Layout) (wd : Location) :
    l.indexesAt wd ⊆ l.placesAt wd := by
  rintro _ (⟨k, rfl⟩ | hindex)
  · exact .inl ⟨k, "mod", rfl⟩
  · exact .inr hindex

/-- Nothing that can be generated is above the directory of a kind. -/
theorem Separate.not_prefix_kindDir {wd : Location} (h : l.Separate wd)
    (hloc : loc ∈ l.placesAt wd) : ¬loc <+: l.root wd k.group ++ [k.module] := by
  intro hprefix
  have hlength := hprefix.length_le
  have hroot (g : Group) (hwithin : l.root wd g <+: loc)
      (hle : (l.root wd g).length ≤ (l.root wd k.group).length) : g = k.group :=
    h.eq_of_root_within
      (List.prefix_of_prefix_length_le (hwithin.trans hprefix) (List.prefix_append _ _) hle)
  rcases hloc with ⟨k', m, rfl⟩ | ⟨g, rfl⟩
  · simp only [fileAt, List.length_append, List.length_cons, List.length_nil] at hlength
    have hgroup := hroot k'.group (List.prefix_append _ _) (by omega)
    rw [hgroup] at hlength
    omega
  · simp only [indexAt, List.length_append, List.length_cons, List.length_nil] at hlength
    obtain rfl := hroot g (List.prefix_append _ _) (by omega)
    have hname := (List.prefix_append_right_inj _).mp hprefix
    simp only [List.cons_prefix_cons] at hname
    exact absurd hname.1 (by cases k <;> decide)

/-- The directory of a kind is inside the one of its group. -/
theorem place_kindDir (l : Layout) (wd : Location) (k : ArtifactKind) :
    place wd (l.kindDir k) = l.root wd k.group ++ [k.module] := by
  have hplain : ∀ s ∈ [k.module], Path.IsPlain s := by simpa using k.isPlain_module
  rw [kindDir, place, Path.isAbsolute_join k.isPlain_module.isRelative, Path.steps_join,
    k.isPlain_module.steps, walk_append, walk_plain hplain]
  rfl

end Layout

/-- **Working on indexes does not change which directories can be listed.** -/
theorem FileTree.Edits.lists_iff {l : Layout} {t t' : FileTree} {k : ArtifactKind}
    (hsep : l.Separate t.workingDir) (hground : l.Grounded t)
    (h : Edits (l.indexesAt t.workingDir) t t') :
    t'.Lists (l.kindDir k) ↔ t.Lists (l.kindDir k) := by
  refine Grounds.lists_iff (Path.text_join_ne k.isPlain_module.isRelative _)
    ((hground k.group).join k.isPlain_module) h fun loc hloc => ?_
  rw [Layout.place_kindDir]
  exact hsep.not_prefix_kindDir (l.indexesAt_subset_placesAt _ hloc)

end Defsheet

import Defsheet.Proofs.Trees
import Mathlib.Data.Set.Insert

/-!
# What stays as it is in a file tree

Two relations say what work on a tree leaves alone. `Builds S t t'` allows files to come and go in
`S`, and directories to appear where nothing stood. `Edits S t t'` allows the former only. Neither
ever loses a directory, so a path that resolves goes on doing so.

## Main results

* `FileTree.edits_insert_file`, `FileTree.edits_erase_file`: work on one file.
* `FileTree.makeDirs_builds` and `FileTree.makeDirs_of_isDir`: what making directories does.
* `FileTree.resolves_join_iff`: where a route below a directory leads.
-/

namespace Defsheet

namespace FileTree

variable {t t' t'' : FileTree} {p : Path} {l loc : Location}

/-! ### Building and editing -/

/-- Files may have come and gone in `S`, and directories may have been made where nothing stood.
Everything else is as it was. -/
structure Builds (S : Set Location) (t t' : FileTree) : Prop where
  workingDir : t'.workingDir = t.workingDir
  dirs : ∀ l, t.get? l = some .dir → t'.get? l = some .dir
  rest : ∀ l ∉ S, t'.get? l = t.get? l ∨ t.get? l = none ∧ t'.get? l = some .dir

/-- Files may have come and gone in `S`. Everything else is as it was. -/
structure Edits (S : Set Location) (t t' : FileTree) : Prop where
  workingDir : t'.workingDir = t.workingDir
  dirs : ∀ l, t'.get? l = some .dir ↔ t.get? l = some .dir
  rest : ∀ l ∉ S, t'.get? l = t.get? l

variable {S S' : Set Location}

theorem Builds.refl (S : Set Location) (t : FileTree) : Builds S t t :=
  ⟨rfl, fun _ h => h, fun _ _ => .inl rfl⟩

theorem Builds.trans (h : Builds S t t') (h' : Builds S t' t'') : Builds S t t'' := by
  refine ⟨h'.workingDir.trans h.workingDir, fun l hl => h'.dirs l (h.dirs l hl), fun l hl => ?_⟩
  obtain hsame | ⟨hnone, hdir⟩ := h.rest l hl
  · rw [← hsame]
    exact h'.rest l hl
  · exact .inr ⟨hnone, h'.dirs l hdir⟩

theorem Builds.mono (hS : S ⊆ S') (h : Builds S t t') : Builds S' t t' :=
  ⟨h.workingDir, h.dirs, fun l hl => h.rest l fun hmem => hl (hS hmem)⟩

/-- A file outside is as it was. -/
theorem Builds.get?_file_iff (h : Builds S t t') (hl : l ∉ S) {data : FileData} :
    t'.get? l = some (.file data) ↔ t.get? l = some (.file data) := by
  obtain hsame | ⟨hnone, hdir⟩ := h.rest l hl
  · rw [hsame]
  · rw [hnone, hdir]
    simp

/-- A path goes on to lead where it led, because directories stay. -/
theorem Builds.resolves (h : Builds S t t') (hp : t.Resolves p loc) : t'.Resolves p loc :=
  hp.mono h.workingDir h.dirs

theorem Edits.refl (S : Set Location) (t : FileTree) : Edits S t t :=
  ⟨rfl, fun _ => .rfl, fun _ _ => rfl⟩

theorem Edits.trans (h : Edits S t t') (h' : Edits S t' t'') : Edits S t t'' :=
  ⟨h'.workingDir.trans h.workingDir, fun l => (h'.dirs l).trans (h.dirs l),
    fun l hl => (h'.rest l hl).trans (h.rest l hl)⟩

theorem Edits.mono (hS : S ⊆ S') (h : Edits S t t') : Edits S' t t' :=
  ⟨h.workingDir, h.dirs, fun l hl => h.rest l fun hmem => hl (hS hmem)⟩

/-- Editing is building without new directories. -/
theorem Edits.builds (h : Edits S t t') : Builds S t t' :=
  ⟨h.workingDir, fun l => (h.dirs l).mpr, fun l hl => .inl (h.rest l hl)⟩

/-- A path leads to the same place before and after. -/
theorem Edits.resolves_iff (h : Edits S t t') : t'.Resolves p loc ↔ t.Resolves p loc :=
  ⟨.mono h.workingDir.symm fun l => (h.dirs l).mp, .mono h.workingDir fun l => (h.dirs l).mpr⟩

/-- Writing a file where no directory stands. -/
theorem edits_insert_file (hloc : loc ≠ []) (hdir : t.get? loc ≠ some .dir) (data : FileData) :
    Edits {loc} t (t.insert loc (.file data)) := by
  refine ⟨rfl, fun l => ?_, fun l hl => get?_insert_of_ne hl _⟩
  by_cases hl : l = loc
  · rw [hl, get?_insert_self hloc]
    simp [hdir]
  · rw [get?_insert_of_ne hl]

/-- Removing a file. -/
theorem edits_erase_file (hloc : loc ≠ []) {data : FileData}
    (hfile : t.get? loc = some (.file data)) : Edits {loc} t (t.erase loc) := by
  refine ⟨rfl, fun l => ?_, fun l hl => get?_erase_of_ne hl⟩
  by_cases hl : l = loc
  · rw [hl, get?_erase_self hloc, hfile]
    simp
  · rw [get?_erase_of_ne hl]

/-! ### Directories -/

/-- Making one directory. -/
theorem makeDir_builds (h : t.makeDir p = .ok t') : Builds ∅ t t' := by
  unfold makeDir at h
  split at h
  · cases h
  · cases h
  · next l name htarget =>
    split at h
    · cases h
    · next hfree =>
      obtain rfl := Except.ok.inj h
      have hloc : l ++ [name] ≠ [] :=
        List.append_ne_nil_of_right_ne_nil l (List.cons_ne_nil name [])
      have hnone : t.get? (l ++ [name]) = none := by simpa using hfree
      have hget (l' : Location) : (t.insert (l ++ [name]) .dir).get? l' = t.get? l' ∨
          t.get? l' = none ∧ (t.insert (l ++ [name]) .dir).get? l' = some .dir := by
        by_cases hl' : l' = l ++ [name]
        · rw [hl', get?_insert_self hloc]
          exact .inr ⟨hnone, rfl⟩
        · exact .inl (get?_insert_of_ne hl' _)
      refine ⟨rfl, fun l' hdir => ?_, fun l' _ => hget l'⟩
      obtain hsame | ⟨hnone', -⟩ := hget l'
      · rw [hsame, hdir]
      · rw [hdir] at hnone'
        cases hnone'

/-- To make a directory if it is missing touches no file. -/
theorem ensureDir_builds (h : t.ensureDir p = .ok t') : Builds ∅ t t' := by
  unfold ensureDir at h
  split at h
  · next hmake =>
    obtain rfl := Except.ok.inj h
    exact makeDir_builds hmake
  · split at h
    · obtain rfl := Except.ok.inj h
      exact .refl _ _
    · cases h

/-- Making nested directories makes directories only, also if it fails half-way. -/
theorem makeNested_builds (ps : List Path) (t : FileTree) : Builds ∅ t (t.makeNested ps).2 := by
  induction ps generalizing t with
  | nil => exact .refl _ _
  | cons p outer ih =>
      rw [makeNested]
      split
      · next hmake => exact makeDir_builds hmake
      · have houter := ih t
        split
        · next heq =>
          rw [heq] at houter
          exact houter
        · next heq =>
          rw [heq] at houter
          split
          · next hensure => exact houter.trans (ensureDir_builds hensure)
          · exact houter
      · split <;> exact .refl _ _

/-- Nor does making all directories of a path, also if it fails on the way. -/
theorem makeDirs_builds (t : FileTree) (p : Path) : Builds ∅ t (t.makeDirs p).2 := by
  unfold makeDirs
  split
  · exact .refl _ _
  · exact makeNested_builds _ _

/-- A directory that is there need not be made. -/
theorem makeDirs_of_isDir (h : t.isDir p = true) : t.makeDirs p = (.ok (), t) := by
  have hmake : p.text ≠ "" → t.makeDir p = .error .alreadyThere := by
    intro htext
    unfold isDir find? at h
    unfold makeDir
    cases htarget : t.target p with
    | error e => simp [htarget] at h
    | ok target =>
        cases target with
        | place l => rfl
        | child l name =>
            cases hget : t.get? (l ++ [name]) with
            | none => simp [htarget, hget] at h
            | some e => simp [hget]
  unfold makeDirs
  split
  · rfl
  · next htext => simp [makeNested, hmake htext, h]

/-- Names that lead somewhere lead to a directory. -/
theorem isDir_of_follow (htext : p.text ≠ "") (h : t.follow (t.base p) p.steps = .ok loc) :
    t.isDir p = true := by
  unfold isDir find? target
  rw [if_neg htext]
  cases hlast : p.steps.getLast? with
  | none => rfl
  | some last =>
      obtain ⟨u, hu⟩ := List.getLast?_eq_some_iff.mp hlast
      have hbefore := follow_initial (List.prefix_append u [last]) (hu ▸ h)
      rw [hu, List.dropLast_concat, hbefore]
      by_cases hdot : last = "."
      · simp [hdot]
      by_cases hdots : last = ".."
      · simp [hdots]
      obtain ⟨-, hdir, -⟩ := (follow_concat_eq_ok_iff hdot hdots).mp (hu ▸ h)
      simp [hdot, hdots, hdir]

/-- The directory around a path that leads somewhere is there. -/
theorem Resolves.makeDirs_parent {q : Path} (h : t.Resolves p loc) (hq : p.parent? = some q) :
    t.makeDirs q = (.ok (), t) := by
  obtain ⟨l, name, htarget, -⟩ := h
  obtain ⟨-, hlast, hdot, -, hfollow⟩ := target_eq_child_iff.mp htarget
  have hlast' : p.steps.getLast? ≠ some "." := by
    rw [hlast]
    exact fun hname => hdot (Option.some.inj hname)
  by_cases htext : q.text = ""
  · rw [makeDirs, if_pos htext]
  · obtain hempty | ⟨habsolute, hsteps⟩ := Path.parent?_cases hlast' hq
    · exact absurd hempty htext
    · have hbase : t.base q = t.base p := by
        rw [base, habsolute]
        rfl
      rw [← hbase] at hfollow
      exact makeDirs_of_isDir (isDir_of_follow htext (follow_initial hsteps hfollow))

/-! ### Below a directory -/

/-- The location of a directory, given by a path and the working directory. -/
def place (wd : Location) (p : Path) : Location := walk (if p.isAbsolute then [] else wd) p.steps

/-- The path leads to a directory, and from there so do the names. -/
def Reaches (t : FileTree) (p : Path) (inner : List String) : Prop :=
  t.follow (t.base p) (p.steps ++ inner) = .ok (place t.workingDir p ++ inner)

variable {inner : List String} {rest name : String}

/-- Plain names lead further inside. -/
theorem walk_plain {names : List String} (h : ∀ s ∈ names, Path.IsPlain s) (l : Location) :
    walk l names = l ++ names := by
  induction names generalizing l with
  | nil => exact (List.append_nil l).symm
  | cons name names ih =>
      rw [List.forall_mem_cons] at h
      rw [walk, if_neg h.1.ne_dot, if_neg h.1.ne_dots, ih h.2, List.append_assoc]
      rfl

/-- A path reaches plain names if they can be followed at all. -/
theorem reaches_iff (h : ∀ s ∈ inner, Path.IsPlain s) :
    t.Reaches p inner ↔ ∃ l, t.follow (t.base p) (p.steps ++ inner) = .ok l := by
  refine ⟨fun hreaches => ⟨_, hreaches⟩, ?_⟩
  rintro ⟨l, hl⟩
  rw [Reaches, hl, follow_eq_ok hl, walk_append, walk_plain h]
  rfl

/-- A directory that is reached is reached as long as directories stay. -/
theorem Reaches.mono (hwd : t'.workingDir = t.workingDir)
    (hdirs : ∀ l, t.get? l = some .dir → t'.get? l = some .dir) (h : t.Reaches p inner) :
    t'.Reaches p inner := by
  rw [Reaches, base, hwd]
  exact follow_mono hdirs h

/-- Editing files does not change what a path reaches. -/
theorem Edits.reaches_iff (h : Edits S t t') : t'.Reaches p inner ↔ t.Reaches p inner :=
  ⟨.mono h.workingDir.symm fun l => (h.dirs l).mp, .mono h.workingDir fun l => (h.dirs l).mpr⟩

/-- Something put after a path does not change where it starts. -/
theorem base_join (h : Path.IsRelative rest) (p : Path) : t.base (p.join rest) = t.base p := by
  rw [base, Path.isAbsolute_join h]
  rfl

/-- Where a route leads. -/
theorem resolves_join_iff (h : Path.IsRoute rest inner name) :
    t.Resolves (p.join rest) loc ↔
      t.Reaches p inner ∧ loc = place t.workingDir p ++ inner ++ [name] := by
  have hinner : ∀ s ∈ inner, Path.IsPlain s := fun s hs => h.plain s (List.mem_append_left _ hs)
  have hname := h.plain name (List.mem_append_right _ List.mem_cons_self)
  have hsteps : (p.join rest).steps = p.steps ++ inner ++ [name] := by
    rw [Path.steps_join, h.steps, List.append_assoc]
  have hbase : t.base (p.join rest) = t.base p := base_join h.relative p
  constructor
  · rintro ⟨l, last, htarget, rfl⟩
    obtain ⟨-, hlast, -, -, hfollow⟩ := target_eq_child_iff.mp htarget
    rw [hsteps, List.getLast?_concat] at hlast
    rw [hsteps, hbase, List.dropLast_concat] at hfollow
    have hreaches := (reaches_iff hinner).mpr ⟨l, hfollow⟩
    rw [Reaches, hfollow] at hreaches
    rw [← Option.some.inj hlast, ← Except.ok.inj hreaches]
    exact ⟨(reaches_iff hinner).mpr ⟨l, hfollow⟩, rfl⟩
  · rintro ⟨hreaches, rfl⟩
    refine ⟨_, name, target_eq_child_iff.mpr ⟨Path.text_join_ne h.relative p, ?_, hname.ne_dot,
      hname.ne_dots, ?_⟩, rfl⟩
    · rw [hsteps, List.getLast?_concat]
    · rw [hsteps, hbase, List.dropLast_concat]
      exact hreaches

/-- The directories on the way are reached too. -/
theorem Reaches.of_append {u v : List String} (hu : ∀ s ∈ u, Path.IsPlain s)
    (h : t.Reaches p (u ++ v)) : t.Reaches p u := by
  rw [Reaches, ← List.append_assoc] at h
  exact (reaches_iff hu).mpr ⟨_, follow_initial (List.prefix_append _ v) h⟩

/-- One more name leads to a directory if there is one. -/
theorem reaches_concat_iff (hinner : ∀ s ∈ inner, Path.IsPlain s) (hname : Path.IsPlain name) :
    t.Reaches p (inner ++ [name]) ↔
      t.Reaches p inner ∧ t.get? (place t.workingDir p ++ inner ++ [name]) = some .dir := by
  have hwalk : walk (t.base p) (p.steps ++ inner) = place t.workingDir p ++ inner := by
    rw [walk_append, walk_plain hinner]
    rfl
  rw [Reaches, ← List.append_assoc, ← List.append_assoc,
    follow_concat_eq_ok_iff hname.ne_dot hname.ne_dots, hwalk, and_iff_left rfl]
  rfl

/-- When the names inside a directory can be listed. -/
theorem names?_join_eq_ok_iff (hname : Path.IsPlain name) {names : List String} :
    t.names? (p.join name) = .ok names ↔
      t.Reaches p [name] ∧ names = t.names (place t.workingDir p ++ [name]) := by
  have hplain : ∀ s ∈ [name], Path.IsPlain s := by simpa using hname
  rw [names?_eq (Path.text_join_ne hname.isRelative p), base_join hname.isRelative,
    Path.steps_join, hname.steps]
  constructor
  · intro h
    cases hfollow : t.follow (t.base p) (p.steps ++ [name]) with
    | error e =>
        rw [hfollow] at h
        cases h
    | ok l =>
        have hreaches : t.Reaches p [name] := (reaches_iff hplain).mpr ⟨l, hfollow⟩
        rw [show t.follow _ _ = _ from hreaches] at h
        exact ⟨hreaches, (Except.ok.inj h).symm⟩
  · rintro ⟨hreaches, rfl⟩
    rw [show t.follow _ _ = _ from hreaches]
    rfl

end FileTree

end Defsheet

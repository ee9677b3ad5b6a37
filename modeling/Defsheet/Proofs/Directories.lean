import Defsheet.Proofs.Writing

/-!
# Making directories

A path leads to a directory exactly if everything that it passes is a directory. What it passes can
be listed without looking at a tree, steps back included. If no file stands among these locations,
the directories that are missing can be made, and these are all that is made.

## Main results

* `FileTree.follow_cases`: how far names lead.
* `FileTree.makeDirs_join_paves`: only directories that the path passes are made.
* `FileTree.makeDirs_join_of_isClear`: directories are made unless a file stands in the way.
* `writeIfChanged_of_resolves`, `Layout.writeIfChanged_file_of_clear`: when a file can be written.
-/

namespace Defsheet

namespace Path

/-! ### Nested paths -/

/-- Segments without slashes can be told from the path that they make up. -/
theorem segments_joined {segments : List (List Char)} (hne : segments ≠ [])
    (hslash : ∀ s ∈ segments, '/' ∉ s) :
    (Path.mk (String.ofList (joinSlash segments))).segments = segments := by
  rw [Path.segments, String.toList_ofList]
  exact splitSlash_joinSlash hne hslash

/-- A segment that leads somewhere adds a step to the path. -/
theorem stepsOf_concat {first s : List Char} {outer : List (List Char)} (hs : isIdle s = false) :
    stepsOf (first :: (s :: outer).reverse) =
      stepsOf (first :: outer.reverse) ++ [String.ofList s] := by
  have hne : s ≠ [] := by
    rintro rfl
    cases hs
  rw [List.reverse_cons, ← List.cons_append, stepsOf_append]
  simp [stepsOf, hne]

/-- A path that is put together from segments with one at the end that leads somewhere. -/
theorem joined_concat {first s : List Char} {outer : List (List Char)}
    (hslash : ∀ s' ∈ first :: s :: outer, '/' ∉ s') (hs : isIdle s = false) :
    (Path.mk (String.ofList (joinSlash (first :: (s :: outer).reverse)))).text ≠ "" ∧
      (Path.mk (String.ofList (joinSlash (first :: (s :: outer).reverse)))).isAbsolute =
        decide (first = []) ∧
      (Path.mk (String.ofList (joinSlash (first :: (s :: outer).reverse)))).steps =
        stepsOf (first :: (s :: outer).reverse) := by
  have hslash' : ∀ s' ∈ first :: (s :: outer).reverse, '/' ∉ s' := fun s' hs' =>
    hslash s' (by rwa [List.mem_cons, List.mem_reverse, ← List.mem_cons] at hs')
  have hsegments := segments_joined (List.cons_ne_nil _ _) hslash'
  generalize Path.mk (String.ofList (joinSlash (first :: (s :: outer).reverse))) = p at hsegments ⊢
  have hsteps : p.steps = stepsOf (first :: (s :: outer).reverse) := by
    rw [steps_eq_stepsOf, hsegments]
  refine ⟨fun htext => ?_, isAbsolute_of_segments hsegments (by simp), hsteps⟩
  have hp : p = ⟨""⟩ := by rw [← htext]
  rw [hp, stepsOf_concat hs] at hsteps
  exact absurd hsteps.symm (List.append_ne_nil_of_right_ne_nil _ (List.cons_ne_nil _ _))

variable {name name' : String}

/-- A plain name leads somewhere. -/
theorem IsPlain.isIdle (h : IsPlain name) : isIdle name.toList = false := by
  rw [Bool.eq_false_iff]
  intro hidle
  simp only [Defsheet.isIdle, Bool.or_eq_true, decide_eq_true_eq] at hidle
  rcases hidle with hidle | hidle
  · exact h.ne_empty (String.toList_inj.mp hidle)
  · exact h.ne_dot (String.toList_inj.mp hidle)

/-- A plain name is one segment behind those of the path. -/
theorem splitSlash_append_plain (h : IsPlain name) (s : String) :
    splitSlash (s ++ "/" ++ name).toList = splitSlash s.toList ++ [name.toList] := by
  rw [String.toList_append, String.toList_append, List.append_assoc]
  exact (splitSlash_append_slash _ _).trans
    (congrArg (splitSlash s.toList ++ ·) (splitSlash_of_not_mem h.slash_not_mem))

/-- The segments of a joined path end with the name. -/
theorem segments_join (h : IsPlain name) (p : Path) :
    ∃ front, (p.join name).segments = front ++ [name.toList] := by
  have hname := splitSlash_of_not_mem h.slash_not_mem
  simp only [segments]
  rcases text_join p name with ⟨htext, hp | hp⟩ | ⟨htext, -⟩
  · refine ⟨[], ?_⟩
    rw [htext, hp, String.empty_append, hname]
    rfl
  · obtain ⟨u, hu⟩ := List.getLast?_eq_some_iff.mp (of_decide_eq_true hp)
    refine ⟨splitSlash u, ?_⟩
    rw [htext, String.toList_append, hu, List.append_assoc, List.singleton_append,
      splitSlash_append_slash, hname]
  · exact ⟨splitSlash p.text.toList, by rw [htext, splitSlash_append_plain h]⟩

/-- Behind a plain name, another one is one more segment. -/
theorem segments_join_join (h : IsPlain name) (h' : IsPlain name') (p : Path) :
    ((p.join name).join name').segments = (p.join name).segments ++ [name'.toList] := by
  have htext : ((p.join name).join name').text = (p.join name).text ++ "/" ++ name' := by
    rw [join, if_neg]
    simp [endsWithSlash_join h.isRelative, text_join_ne h.isRelative]
  rw [segments, htext, splitSlash_append_plain h', segments]

/-- A joined path and the directories around it, from its segments. -/
theorem upward_join (h : IsPlain name) (p : Path) :
    ∃ first rest, (p.join name).segments = first :: rest ∧
      (∀ s ∈ first :: rest.reverse, '/' ∉ s) ∧
      (p.join name).isAbsolute = decide (first = []) ∧
      upward first rest.reverse = p.join name :: (p.join name).ancestors := by
  obtain ⟨front, hfront⟩ := segments_join h p
  generalize p.join name = q at hfront ⊢
  have hslash {first : List Char} {rest : List (List Char)} (hq : q.segments = first :: rest) :
      ∀ s ∈ first :: rest.reverse, '/' ∉ s := by
    intro s hs
    refine slash_not_mem_of_mem_splitSlash (?_ : s ∈ q.segments)
    rwa [hq, List.mem_cons, ← List.mem_reverse, ← List.mem_cons]
  have htext : q = ⟨String.ofList (joinSlash q.segments)⟩ := by
    rw [segments, joinSlash_splitSlash, String.ofList_toList]
  cases front with
  | nil =>
      have hne : name.toList ≠ [] := fun hnil => h.ne_empty (String.toList_inj.mp hnil)
      have hq : q = ⟨String.ofList name.toList⟩ := by
        rw [htext, hfront]
        simp [joinSlash]
      refine ⟨name.toList, [], hfront, hslash hfront, ?_, ?_⟩
      · rw [hq, isAbsolute, String.toList_ofList, decide_eq_false hne]
        exact decide_eq_false fun hhead => h.slash_not_mem (List.mem_of_head? hhead)
      · rw [ancestors, hfront, hq]
        simp [upward, hne]
  | cons first front =>
      refine ⟨first, front ++ [name.toList], hfront, hslash hfront, ?_, ?_⟩
      · exact isAbsolute_of_segments hfront (by simp)
      · have hancestors : q.ancestors = upward first front.reverse := by
          rw [ancestors, hfront]
          simp [h.isIdle]
        rw [hancestors, List.reverse_concat, upward, if_neg (by simp [h.isIdle]), htext, hfront]
        simp

/-- The directory around a joined path is the path that was joined to. -/
theorem parent?_join_join (h : IsPlain name) (h' : IsPlain name') (p : Path) :
    ((p.join name).join name').parent? = some (p.join name) := by
  obtain ⟨first, rest, hsegments, -, -, hupward⟩ := upward_join h p
  have hancestors : ((p.join name).join name').ancestors = upward first rest.reverse := by
    rw [ancestors, segments_join_join h h', hsegments, List.cons_append]
    simp [h'.isIdle]
  rw [parent?, hancestors, hupward]

/-- Every path upward starts from the same place and takes some of the steps. -/
theorem mem_upward {first : List Char} {outer : List (List Char)} {q : Path}
    (hslash : ∀ s ∈ first :: outer, '/' ∉ s) (h : q ∈ upward first outer) :
    q.isAbsolute = decide (first = []) ∧ q.steps <+: stepsOf (first :: outer.reverse) := by
  induction outer with
  | nil =>
      obtain rfl := List.mem_singleton.mp h
      exact first_within (hslash first List.mem_cons_self)
  | cons s outer ih =>
      have hslash' : ∀ s' ∈ first :: outer, '/' ∉ s' := fun s' hs' =>
        hslash s' (List.cons_subset_cons first (List.subset_cons_self s outer) hs')
      have hinitial : stepsOf (first :: outer.reverse) <+:
          stepsOf (first :: (s :: outer).reverse) := by
        rw [List.reverse_cons, ← List.cons_append]
        exact stepsOf_initial (List.prefix_append _ _)
      have hrest (h : q ∈ upward first outer) : q.isAbsolute = decide (first = []) ∧
          q.steps <+: stepsOf (first :: (s :: outer).reverse) := by
        obtain ⟨habsolute, hsteps⟩ := ih hslash' h
        exact ⟨habsolute, hsteps.trans hinitial⟩
      rw [upward] at h
      split at h
      · exact hrest h
      · next hidle =>
        rcases List.mem_cons.mp h with rfl | h
        · obtain ⟨-, habsolute, hsteps⟩ := joined_concat hslash (Bool.eq_false_iff.mpr hidle)
          exact ⟨habsolute, hsteps ▸ List.prefix_rfl⟩
        · exact hrest h

end Path

namespace FileTree

variable {t t' t'' : FileTree} {p : Path} {l loc : Location} {names : List String}

/-! ### What a path passes -/

/-- The locations that names lead to, one after the other. -/
def passed (l : Location) : List String → List Location
  | [] => []
  | name :: names =>
    if name = "." then passed l names
    else if name = ".." then passed l.dropLast names
    else (l ++ [name]) :: passed (l ++ [name]) names

/-- To follow names is to pass what the first of them lead to, and then the rest from there. -/
theorem passed_append (l : Location) (u v : List String) :
    passed l (u ++ v) = passed l u ++ passed (walk l u) v := by
  induction u generalizing l with
  | nil => rfl
  | cons name u ih =>
      rw [List.cons_append, passed, passed, walk, ih, ih, ih]
      split
      · rfl
      · split <;> rfl

/-- A location that is passed is one that a name leads to. -/
theorem mem_passed {x : Location} (h : x ∈ passed l names) :
    ∃ u name v, names = u ++ name :: v ∧ name ≠ "." ∧ name ≠ ".." ∧ x = walk l u ++ [name] := by
  induction names generalizing l with
  | nil => cases h
  | cons name names ih =>
      rw [passed] at h
      by_cases hdot : name = "."
      · rw [if_pos hdot] at h
        obtain ⟨u, name', v, rfl, hdot', hdots', rfl⟩ := ih h
        exact ⟨name :: u, name', v, rfl, hdot', hdots', by rw [walk, if_pos hdot]⟩
      by_cases hdots : name = ".."
      · rw [if_neg hdot, if_pos hdots] at h
        obtain ⟨u, name', v, rfl, hdot', hdots', rfl⟩ := ih h
        exact ⟨name :: u, name', v, rfl, hdot', hdots', by rw [walk, if_neg hdot, if_pos hdots]⟩
      rw [if_neg hdot, if_neg hdots, List.mem_cons] at h
      rcases h with rfl | h
      · exact ⟨[], name, names, rfl, hdot, hdots, rfl⟩
      · obtain ⟨u, name', v, rfl, hdot', hdots', rfl⟩ := ih h
        exact ⟨name :: u, name', v, rfl, hdot', hdots', by rw [walk, if_neg hdot, if_neg hdots]⟩

/-- **How far names lead**: through directories to the end, or to the first location that has no
directory. -/
theorem follow_cases (t : FileTree) (l : Location) (names : List String) :
    (t.follow l names = .ok (walk l names) ∧ ∀ x ∈ passed l names, t.get? x = some .dir) ∨
      ∃ u x v, passed l names = u ++ x :: v ∧ (∀ y ∈ u, t.get? y = some .dir) ∧
        (t.get? x = none ∧ t.follow l names = .error .notFound ∨
          (∃ data, t.get? x = some (.file data)) ∧ t.follow l names = .error .notADirectory) := by
  induction names generalizing l with
  | nil => exact .inl ⟨rfl, List.forall_mem_nil _⟩
  | cons name names ih =>
      rw [follow, enter, walk, passed]
      by_cases hdot : name = "."
      · simp only [if_pos hdot]
        exact ih l
      by_cases hdots : name = ".."
      · simp only [if_neg hdot, if_pos hdots]
        exact ih l.dropLast
      simp only [if_neg hdot, if_neg hdots]
      cases hget : t.get? (l ++ [name]) with
      | none => exact .inr ⟨[], _, _, rfl, List.forall_mem_nil _, .inl ⟨hget, rfl⟩⟩
      | some e =>
          cases e with
          | file data =>
              exact .inr ⟨[], _, _, rfl, List.forall_mem_nil _, .inr ⟨⟨data, hget⟩, rfl⟩⟩
          | dir =>
              rcases ih (l ++ [name]) with ⟨hfollow, hdirs⟩ | ⟨u, x, v, hpassed, hdirs, hstop⟩
              · exact .inl ⟨hfollow, List.forall_mem_cons.mpr ⟨hget, hdirs⟩⟩
              · refine .inr ⟨(l ++ [name]) :: u, x, v, ?_, List.forall_mem_cons.mpr ⟨hget, hdirs⟩,
                  hstop⟩
                rw [hpassed, List.cons_append]

/-- Names lead to the end if they pass directories only. -/
theorem follow_eq_ok_iff :
    (∃ loc, t.follow l names = .ok loc) ↔ ∀ x ∈ passed l names, t.get? x = some .dir := by
  rcases follow_cases t l names with ⟨hfollow, hdirs⟩ | ⟨u, x, v, hpassed, -, hstop⟩
  · exact iff_of_true ⟨_, hfollow⟩ hdirs
  · refine iff_of_false ?_ fun hdirs => ?_
    · rintro ⟨loc, hloc⟩
      obtain ⟨-, hfollow⟩ | ⟨-, hfollow⟩ := hstop <;>
        exact absurd (hfollow.symm.trans hloc) (by simp)
    · have hx := hdirs x (hpassed ▸ List.mem_append_right u List.mem_cons_self)
      rcases hstop with ⟨hnone, -⟩ | ⟨⟨data, hfile⟩, -⟩
      · exact absurd (hnone.symm.trans hx) (by simp)
      · exact absurd (hfile.symm.trans hx) (by simp)

/-- Names do not lead further than to the first file that they pass. -/
theorem follow_of_file {u v : List Location} {x : Location} {data : FileData}
    (hpassed : passed l names = u ++ x :: v) (hdirs : ∀ y ∈ u, t.get? y = some .dir)
    (hfile : t.get? x = some (.file data)) : t.follow l names = .error .notADirectory := by
  rcases follow_cases t l names with ⟨-, hall⟩ | ⟨u', x', v', hpassed', hdirs', hstop⟩
  · have hdir := hall x (hpassed ▸ List.mem_append_right u List.mem_cons_self)
    exact absurd (hdir.symm.trans hfile) (by simp)
  have hx' : t.get? x' ≠ some .dir := by
    rcases hstop with ⟨hnone, -⟩ | ⟨⟨data', hfile'⟩, -⟩
    · simp [hnone]
    · simp [hfile']
  -- There is only one place where the directories end.
  obtain rfl : x' = x := by
    rcases List.append_eq_append_iff.mp (hpassed'.symm.trans hpassed) with ⟨w, hu, hw⟩ | ⟨w, hu, hw⟩
    · cases w with
      | nil => exact (List.cons.inj hw).1
      | cons y w =>
          refine absurd (hdirs x' ?_) hx'
          rw [hu, (List.cons.inj hw).1]
          simp
    · cases w with
      | nil => exact (List.cons.inj hw).1.symm
      | cons y w =>
          refine absurd (hdirs' x ?_) (by simp [hfile])
          rw [hu, (List.cons.inj hw).1]
          simp
  rcases hstop with ⟨hnone, -⟩ | ⟨-, hfollow⟩
  · exact absurd (hnone.symm.trans hfile) (by simp)
  · exact hfollow

/-- No file stands in the way of names. -/
def IsClear (t : FileTree) (l : Location) (names : List String) : Prop :=
  ∀ x ∈ passed l names, ∀ data, t.get? x ≠ some (.file data)

/-- Where no file stands in the way, names lead to their location, or something on the way is
missing. -/
theorem IsClear.follow (h : t.IsClear l names) :
    t.follow l names = .ok (walk l names) ∨ t.follow l names = .error .notFound := by
  rcases follow_cases t l names with
      ⟨hfollow, -⟩ | ⟨u, x, v, hpassed, -, ⟨-, hfollow⟩ | ⟨⟨data, hfile⟩, -⟩⟩
  · exact .inl hfollow
  · exact .inr hfollow
  · exact absurd hfile (h x (hpassed ▸ List.mem_append_right u List.mem_cons_self) data)

/-- What is clear to the end is clear up to each point before it. -/
theorem IsClear.initial {u v : List String} (huv : u <+: v) (h : t.IsClear l v) :
    t.IsClear l u := by
  obtain ⟨w, rfl⟩ := huv
  intro x hx
  rw [IsClear, passed_append] at h
  exact h x (List.mem_append_left _ hx)

/-- Making directories puts no file in the way. -/
theorem Builds.isClear (h : Builds ∅ t t') (hclear : t.IsClear l names) : t'.IsClear l names := by
  intro x hx data hfile
  rw [h.get?_file_iff (Set.notMem_empty x)] at hfile
  exact hclear x hx data hfile

/-! ### What is made -/

/-- Directories may have been made in `D` where nothing stood. Everything else is as it was. -/
structure Paves (D : Set Location) (t t' : FileTree) : Prop where
  builds : Builds ∅ t t'
  made : ∀ x, t.get? x = none → t'.get? x = some .dir → x ∈ D

variable {D D' : Set Location}

theorem Paves.refl (D : Set Location) (t : FileTree) : Paves D t t := by
  refine ⟨.refl _ _, fun x hnone hdir => ?_⟩
  rw [hnone] at hdir
  cases hdir

theorem Paves.trans (h : Paves D t t') (h' : Paves D t' t'') : Paves D t t'' := by
  refine ⟨h.builds.trans h'.builds, fun x hnone hdir => ?_⟩
  rcases h.builds.rest x (Set.notMem_empty x) with hsame | ⟨-, hdir'⟩
  · exact h'.made x (hsame.trans hnone) hdir
  · exact h.made x hnone hdir'

theorem Paves.mono (hD : D ⊆ D') (h : Paves D t t') : Paves D' t t' :=
  ⟨h.builds, fun x hnone hdir => hD (h.made x hnone hdir)⟩

/-- A directory is made at the end of its path. -/
theorem makeDir_paves (h : t.makeDir p = .ok t') :
    Paves {x | x ∈ passed (t.base p) p.steps} t t' := by
  refine ⟨makeDir_builds h, fun x hnone hdir => ?_⟩
  rw [makeDir] at h
  split at h
  · cases h
  · cases h
  next l name htarget =>
  split at h
  · cases h
  obtain rfl := Except.ok.inj h
  obtain ⟨-, hlast, hdot, hdots, hfollow⟩ := target_eq_child_iff.mp htarget
  obtain ⟨u, hu⟩ := List.getLast?_eq_some_iff.mp hlast
  -- Nothing has changed but for the last location that the path passes.
  by_cases hx : x = l ++ [name]
  · rw [hu, List.dropLast_concat] at hfollow
    change x ∈ passed (t.base p) p.steps
    rw [hu, passed_append, ← follow_eq_ok hfollow, passed, if_neg hdot, if_neg hdots, hx]
    exact List.mem_append_right _ List.mem_cons_self
  · rw [get?_insert_of_ne hx, hnone] at hdir
    cases hdir

/-- So is one that is made only if it is missing. -/
theorem ensureDir_paves (h : t.ensureDir p = .ok t') :
    Paves {x | x ∈ passed (t.base p) p.steps} t t' := by
  rw [ensureDir] at h
  split at h
  · next hmake =>
    obtain rfl := Except.ok.inj h
    exact makeDir_paves hmake
  · split at h
    · obtain rfl := Except.ok.inj h
      exact .refl _ _
    · cases h

/-- Nested directories are made on their paths, also if one of them cannot be made. -/
theorem makeNested_paves {ps : List Path}
    (hps : ∀ p ∈ ps, ∀ x ∈ passed (t.base p) p.steps, x ∈ D) : Paves D t (t.makeNested ps).2 := by
  induction ps with
  | nil => exact .refl _ _
  | cons p outer ih =>
      rw [List.forall_mem_cons] at hps
      have houter := ih hps.2
      rw [makeNested]
      split
      · next hmake => exact (makeDir_paves hmake).mono hps.1
      · split
        · next heq =>
          rw [heq] at houter
          exact houter
        · next t₁ heq =>
          rw [heq] at houter
          have hbase : t₁.base p = t.base p := by
            rw [base, houter.builds.workingDir]
            rfl
          split
          · next hensure =>
            refine houter.trans ((ensureDir_paves hensure).mono ?_)
            rw [hbase]
            exact hps.1
          · exact houter
      · split <;> exact .refl _ _

/-! ### What can be made -/

/-- A directory whose parent is there is made or there already, unless it is a file. -/
theorem makeDir_of_follow {u : List String} {name : String} (htext : p.text ≠ "")
    (hsteps : p.steps = u ++ [name]) (hclear : t.IsClear (t.base p) p.steps)
    (hu : t.follow (t.base p) u = .ok l) :
    (∃ t', t.makeDir p = .ok t' ∧ ∃ loc, t'.follow (t.base p) p.steps = .ok loc) ∨
      t.makeDir p = .error .alreadyThere ∧ t.isDir p = true ∧
        ∃ loc, t.follow (t.base p) p.steps = .ok loc := by
  have hlast : p.steps.getLast? = some name := by rw [hsteps, List.getLast?_concat]
  have hdropLast : t.follow (t.base p) p.steps.dropLast = .ok l := by
    rw [hsteps, List.dropLast_concat, hu]
  have hend : t.follow (t.base p) p.steps = t.follow l [name] := by
    rw [hsteps, follow_append, hu]
  have hthere (hfollow : ∃ loc, t.follow (t.base p) p.steps = .ok loc)
      (hmake : t.makeDir p = .error .alreadyThere) : t.makeDir p = .error .alreadyThere ∧
        t.isDir p = true ∧ ∃ loc, t.follow (t.base p) p.steps = .ok loc := by
    obtain ⟨loc, hloc⟩ := hfollow
    exact ⟨hmake, isDir_of_follow htext hloc, loc, hloc⟩
  by_cases hdot : name = "."
  · subst hdot
    refine .inr (hthere ⟨l, hend⟩ ?_)
    simp [makeDir, target, htext, hlast, hdropLast]
  by_cases hdots : name = ".."
  · subst hdots
    refine .inr (hthere ⟨l.dropLast, hend⟩ ?_)
    simp [makeDir, target, htext, hlast, hdropLast]
  have htarget := target_eq_child_iff.mpr ⟨htext, hlast, hdot, hdots, hdropLast⟩
  have hwalk := follow_eq_ok hu
  cases hget : t.get? (l ++ [name]) with
  | none =>
      have hmake : t.makeDir p = .ok (t.insert (l ++ [name]) .dir) := by
        rw [makeDir, htarget]
        simp [hget]
      refine .inl ⟨_, hmake, l ++ [name], ?_⟩
      rw [hsteps, follow_concat_eq_ok_iff hdot hdots, ← hwalk]
      refine ⟨follow_mono (makeDir_builds hmake).dirs hu, get?_insert_self ?_ _, rfl⟩
      exact List.append_ne_nil_of_right_ne_nil l (List.cons_ne_nil name [])
  | some e =>
      cases e with
      | file data =>
          refine absurd hget (hclear _ ?_ data)
          rw [hsteps, passed_append, ← hwalk, passed, if_neg hdot, if_neg hdots]
          exact List.mem_append_right _ List.mem_cons_self
      | dir =>
          refine .inr (hthere ⟨l ++ [name], ?_⟩ ?_)
          · simp [hend, follow, enter, hdot, hdots, hget]
          · rw [makeDir, htarget]
            simp [hget]

/-- So it is there after it has been made, for itself or as the first of nested ones. -/
theorem exists_ensureDir_of_follow {u : List String} {name : String} (htext : p.text ≠ "")
    (hsteps : p.steps = u ++ [name]) (hclear : t.IsClear (t.base p) p.steps)
    (hu : t.follow (t.base p) u = .ok l) :
    ∃ t', t.ensureDir p = .ok t' ∧ (∀ outer, t.makeNested (p :: outer) = (.ok (), t')) ∧
      ∃ loc, t'.follow (t.base p) p.steps = .ok loc := by
  rcases makeDir_of_follow htext hsteps hclear hu with ⟨t', hmake, hloc⟩ | ⟨hmake, hdir, hloc⟩
  · exact ⟨t', by rw [ensureDir, hmake], fun outer => by rw [makeNested, hmake], hloc⟩
  · refine ⟨t, ?_, fun outer => ?_, hloc⟩
    · rw [ensureDir, hmake]
      exact if_pos hdir
    · rw [makeNested, hmake]
      exact if_pos hdir

/-- Where a path with a given first segment starts. -/
def start (t : FileTree) (first : List Char) : Location := if first = [] then [] else t.workingDir

/-- It is the first segment that decides where a path starts. -/
theorem base_eq_start {first : List Char} (h : p.isAbsolute = decide (first = [])) :
    t.base p = t.start first := by
  simp only [base, start, h, decide_eq_true_eq]

/-- Nothing is made in a directory that is missing. -/
theorem makeDir_of_missing {u : List String} {name : String} (htext : p.text ≠ "")
    (hsteps : p.steps = u ++ [name]) (h : t.follow (t.base p) u = .error .notFound) :
    t.makeDir p = .error .notFound := by
  have hlast : p.steps.getLast? = some name := by rw [hsteps, List.getLast?_concat]
  rw [makeDir, target, if_neg htext, hlast, hsteps, List.dropLast_concat]
  simp only [h]

/-- The outermost directory is made where a path starts. -/
theorem makeNested_upward_nil {first : List Char} (hslash : '/' ∉ first)
    (hclear : t.IsClear (t.start first) (Path.stepsOf [first])) :
    ∃ t', t.makeNested (Path.upward first []) = (.ok (), t') ∧
      ∃ loc, t'.follow (t.start first) (Path.stepsOf [first]) = .ok loc := by
  by_cases hfirst : first = []
  · subst hfirst
    exact ⟨t, rfl, [], rfl⟩
  · have hsegments : (Path.mk (String.ofList first)).segments = [first] := by
      rw [Path.segments, String.toList_ofList, splitSlash_of_not_mem hslash]
    have habsolute := (@Path.first_within first [] hslash).1
    rw [if_neg hfirst] at habsolute
    have hsteps : (Path.mk (String.ofList first)).steps = [] ++ [String.ofList first] := by
      rw [Path.steps_eq_stepsOf, hsegments]
      simp [Path.stepsOf, hfirst]
    have hstepsOf : Path.stepsOf [first] = (Path.mk (String.ofList first)).steps := by
      rw [Path.steps_eq_stepsOf, hsegments]
    rw [hstepsOf, ← base_eq_start habsolute] at hclear ⊢
    rw [Path.upward, if_neg hfirst]
    have htext : String.ofList first ≠ "" := fun htext =>
      hfirst (String.ofList_injective htext)
    obtain ⟨t', -, hnested, hend⟩ := exists_ensureDir_of_follow htext hsteps hclear rfl
    exact ⟨t', hnested [], hend⟩

/-- **Directories are made** one inside the other, unless a file stands in the way. -/
theorem makeNested_upward {first : List Char} {outer : List (List Char)}
    (hslash : ∀ s ∈ first :: outer, '/' ∉ s)
    (hclear : t.IsClear (t.start first) (Path.stepsOf (first :: outer.reverse))) :
    ∃ t', t.makeNested (Path.upward first outer) = (.ok (), t') ∧
      ∃ loc, t'.follow (t.start first) (Path.stepsOf (first :: outer.reverse)) = .ok loc := by
  induction outer with
  | nil => exact makeNested_upward_nil (hslash first List.mem_cons_self) hclear
  | cons s outer ih =>
      have hslash' : ∀ s' ∈ first :: outer, '/' ∉ s' := fun s' hs' =>
        hslash s' (List.cons_subset_cons first (List.subset_cons_self s outer) hs')
      have hsegments : first :: (s :: outer).reverse = (first :: outer.reverse) ++ [s] := by
        rw [List.reverse_cons, List.cons_append]
      have hinitial : Path.stepsOf (first :: outer.reverse) <+:
          Path.stepsOf (first :: (s :: outer).reverse) := by
        rw [hsegments]
        exact Path.stepsOf_initial (List.prefix_append _ _)
      obtain ⟨t₁, hmake, loc, hloc⟩ := ih hslash' (hclear.initial hinitial)
      rw [Path.upward]
      split
      · next hidle =>
        -- An idle segment leads nowhere.
        refine ⟨t₁, hmake, loc, ?_⟩
        simp only [isIdle, Bool.or_eq_true, decide_eq_true_eq] at hidle
        rw [hsegments, Path.stepsOf_append, follow_append, hloc]
        obtain rfl | rfl := hidle <;> rfl
      · next hidle =>
        have hidle := Bool.eq_false_iff.mpr hidle
        have hpath := Path.joined_concat hslash hidle
        generalize Path.mk (String.ofList (joinSlash (first :: (s :: outer).reverse))) = p
          at hpath ⊢
        obtain ⟨htext, habsolute, hsteps⟩ := hpath
        have hlast := hsteps.trans (Path.stepsOf_concat hidle)
        rw [← hsteps, ← base_eq_start habsolute] at hclear ⊢
        rw [← base_eq_start habsolute] at hloc
        rcases (hclear.initial (hlast ▸ List.prefix_append _ _)).follow with hthere | hmissing
        · obtain ⟨t', -, hnested, hend⟩ := exists_ensureDir_of_follow htext hlast hclear hthere
          exact ⟨t', hnested _, hend⟩
        · -- The parent is missing, so it is made first.
          have hbuilds := makeNested_builds (Path.upward first outer) t
          rw [hmake] at hbuilds
          have hbase : t₁.base p = t.base p := by
            rw [base, hbuilds.workingDir]
            rfl
          have hnotFound := makeDir_of_missing htext hlast hmissing
          rw [← hbase] at hclear hloc ⊢
          obtain ⟨t₂, hensure, -, hend⟩ :=
            exists_ensureDir_of_follow htext hlast (hbuilds.isClear hclear) hloc
          exact ⟨t₂, by simp only [makeNested, hnotFound, hmake, hensure], hend⟩

variable {name : String}

/-- **Only directories that the path passes are made.** -/
theorem makeDirs_join_paves (h : Path.IsPlain name) (p : Path) (t : FileTree) :
    Paves {x | x ∈ passed (t.base (p.join name)) (p.join name).steps} t
      (t.makeDirs (p.join name)).2 := by
  obtain ⟨first, rest, hsegments, hslash, habsolute, hupward⟩ := Path.upward_join h p
  rw [makeDirs, if_neg (Path.text_join_ne h.isRelative p), ← hupward]
  refine makeNested_paves fun q hq x hx => ?_
  obtain ⟨habsolute', hinitial⟩ := Path.mem_upward hslash hq
  rw [List.reverse_reverse, ← hsegments] at hinitial
  obtain ⟨v, hv⟩ := hinitial
  change x ∈ passed (t.base (p.join name)) (p.join name).steps
  rw [base_eq_start habsolute, Path.steps_eq_stepsOf, ← hv, passed_append]
  rw [base_eq_start habsolute'] at hx
  exact List.mem_append_left _ hx

/-- **Directories are made unless a file stands in the way.** -/
theorem makeDirs_join_of_isClear (h : Path.IsPlain name)
    (hclear : t.IsClear (t.base (p.join name)) (p.join name).steps) :
    ∃ t', t.makeDirs (p.join name) = (.ok (), t') ∧
      ∃ loc, t'.follow (t.base (p.join name)) (p.join name).steps = .ok loc := by
  obtain ⟨first, rest, hsegments, hslash, habsolute, hupward⟩ := Path.upward_join h p
  rw [makeDirs, if_neg (Path.text_join_ne h.isRelative p), ← hupward]
  have hsteps : (p.join name).steps = Path.stepsOf (first :: rest.reverse.reverse) := by
    rw [List.reverse_reverse, ← hsegments, Path.steps_eq_stepsOf]
  rw [base_eq_start habsolute, hsteps] at hclear ⊢
  exact makeNested_upward hslash hclear

/-- A file in a directory that is missing is not found. -/
theorem read?_eq_notFound {u : List String} (htext : p.text ≠ "") (hsteps : p.steps = u ++ [name])
    (h : t.follow (t.base p) u = .error .notFound) : t.read? p = .error .notFound := by
  have htarget : t.target p = .error .notFound := by
    have hlast : p.steps.getLast? = some name := by rw [hsteps, List.getLast?_concat]
    rw [target, if_neg htext, hlast, hsteps, List.dropLast_concat]
    simp only [h]
  rw [read?, find?, htarget]

/-- So is a file that is missing. -/
theorem Resolves.read?_eq_notFound (h : t.Resolves p loc) (hnone : t.get? loc = none) :
    t.read? p = .error .notFound := by
  obtain ⟨l, name, htarget, rfl⟩ := h
  simp only [read?, find?, htarget, hnone]

/-- A file can be written where no directory stands. -/
theorem Resolves.write (h : t.Resolves p loc) (hslash : p.endsWithSlash = false)
    (hdir : t.get? loc ≠ some .dir) (content : String) : ∃ t', t.write p content = .ok t' := by
  obtain ⟨l, name, htarget, rfl⟩ := h
  simp only [FileTree.write, htarget, hslash, hdir]
  exact ⟨_, rfl⟩

end FileTree

/-! ### When a file can be written -/

open Work FileTree

variable {t t' : FileTree} {p : Path} {loc : Location} {content : String}

/-- What is done if the file does not hold the text already. -/
theorem writeIfChanged_of_ne {found : Option String} {t₁ : FileTree}
    (hread : readIfThere p t = .ok found t) (hne : found ≠ some content)
    (hparent : makeParent p t = .ok () t₁) (hwrite : t₁.write p content = .ok t') :
    writeIfChanged p content t = .ok true t' := by
  refine bind_eq_ok_iff.mpr ⟨_, _, hread, ?_⟩
  rw [if_neg hne]
  refine bind_eq_ok_iff.mpr ⟨_, _, hparent, ?_⟩
  exact bind_eq_ok_iff.mpr ⟨(), _, change_eq_ok_iff.mpr hwrite, rfl⟩

/-- A file that is missing has no text, and this is no failure. -/
theorem readIfThere_of_notFound (h : t.read? p = .error .notFound) :
    readIfThere p t = .ok none t :=
  look_eq_ok_iff.mpr ⟨by rw [h], rfl⟩

/-- Nothing has to be made for a path that leads somewhere. -/
theorem makeParent_of_resolves (h : t.Resolves p loc) : makeParent p t = .ok () t := by
  cases hq : p.parent? with
  | none =>
      simp only [makeParent, hq]
      rfl
  | some q =>
      simp only [makeParent, hq]
      exact changes_eq_ok_iff.mpr (h.makeDirs_parent hq)

/-- **A file whose directory is there can be written** unless something else stands in its place. -/
theorem writeIfChanged_of_resolves (h : t.Resolves p loc) (hslash : p.endsWithSlash = false)
    (hget : t.get? loc = none ∨ ∃ text, t.get? loc = some (.file (.text text)))
    (content : String) :
    ∃ changed t', writeIfChanged p content t = .ok changed t' := by
  have hdir : t.get? loc ≠ some .dir := by
    rcases hget with hnone | ⟨text, htext⟩
    · simp [hnone]
    · simp [htext]
  obtain ⟨t', hwrite⟩ := h.write hslash hdir content
  have hparent := makeParent_of_resolves h
  rcases hget with hnone | ⟨text, htext⟩
  · have hread := readIfThere_of_notFound (h.read?_eq_notFound hnone)
    exact ⟨_, _, writeIfChanged_of_ne hread (by simp) hparent hwrite⟩
  · have hread : t.read? p = .ok text := read?_eq_ok_iff.mpr ⟨loc, h, htext, hslash⟩
    have hfound : readIfThere p t = .ok (some text) t := look_eq_ok_iff.mpr ⟨by rw [hread], rfl⟩
    by_cases hsame : some text = some content
    · refine ⟨false, t, bind_eq_ok_iff.mpr ⟨_, _, hfound, ?_⟩⟩
      rw [if_pos hsame]
      rfl
    · exact ⟨_, _, writeIfChanged_of_ne hfound hsame hparent hwrite⟩

namespace Layout

variable {l : Layout} {wd : Location} {k : ArtifactKind} {m : String}

/-- The locations that the path of the directory of a kind passes. -/
def way (l : Layout) (wd : Location) (k : ArtifactKind) : List Location :=
  passed (if (l.dir k.group).isAbsolute then [] else wd) ((l.dir k.group).steps ++ [k.module])

/-- The path of the directory of a kind passes the way to it. -/
theorem passed_kindDir (l : Layout) (t : FileTree) (k : ArtifactKind) :
    passed (t.base (l.kindDir k)) (l.kindDir k).steps = l.way t.workingDir k := by
  rw [kindDir, base_join k.isPlain_module.isRelative, Path.steps_join, k.isPlain_module.steps]
  rfl

/-- The directory of a kind is reached through directories. -/
theorem reaches_iff_way :
    t.Reaches (l.dir k.group) [k.module] ↔ ∀ x ∈ l.way t.workingDir k, t.get? x = some .dir := by
  rw [reaches_iff (by simpa using k.isPlain_module), follow_eq_ok_iff]
  rfl

/-- The file of a module stands in the directory of its kind. -/
theorem file_eq_join (l : Layout) (k : ArtifactKind) (m : String) :
    l.file k m = (l.kindDir k).join (m ++ ".rs") := by
  rw [kindDir, Path.join_join k.isPlain_module.isRelative, file, Artifact.relativePath]
  simp only [String.append_assoc]

/-- So the directory of a kind is what has to be made for a file of it. -/
theorem parent?_file (hm : '/' ∉ m.toList) : (l.file k m).parent? = some (l.kindDir k) := by
  rw [file_eq_join]
  exact Path.parent?_join_join k.isPlain_module (isPlain_moduleFile hm) _

/-- Writing the file of a kind makes no other directories than those on the way to it. -/
theorem writeIfChanged_file_made {changed : Bool} (hm : '/' ∉ m.toList)
    (h : writeIfChanged (l.file k m) content t = .ok changed t') {x : Location}
    (hnone : t.get? x = none) (hdir : t'.get? x = some .dir) : x ∈ l.way t.workingDir k := by
  simp only [writeIfChanged, readIfThere, bind_eq_ok_iff, look_eq_ok_iff] at h
  obtain ⟨found, t₁, ⟨-, rfl⟩, h⟩ := h
  split at h
  · obtain ⟨-, rfl⟩ := pure_eq_ok_iff.mp h
    rw [hnone] at hdir
    cases hdir
  simp only [bind_eq_ok_iff, pure_eq_ok_iff, change_eq_ok_iff] at h
  obtain ⟨_, t₁, hparent, _, t₂, hwrite, -, rfl⟩ := h
  have hpaves := makeDirs_join_paves k.isPlain_module (l.dir k.group) t
  rw [← kindDir, passed_kindDir] at hpaves
  rw [makeParent, parent?_file hm] at hparent
  rw [show t.makeDirs (l.kindDir k) = (.ok (), t₁) from changes_eq_ok_iff.mp hparent] at hpaves
  -- The text is written where no directory stands, so the directory was made before.
  obtain ⟨loc, hloc, hfree, -, rfl⟩ := write_eq_ok hwrite
  exact hpaves.made x hnone (((edits_insert_file hloc.ne_nil hfree _).dirs x).mp hdir)

/-- **The file of a kind can be written** unless a file stands in the way or something else in its
place. -/
theorem writeIfChanged_file_of_clear (hm : '/' ∉ m.toList)
    (hclear : ∀ x ∈ l.way t.workingDir k, ∀ data, t.get? x ≠ some (.file data))
    (hfree : l.fileAt t.workingDir k m ∉ l.way t.workingDir k)
    (hget : t.get? (l.fileAt t.workingDir k m) = none ∨
      ∃ text, t.get? (l.fileAt t.workingDir k m) = some (.file (.text text)))
    (content : String) :
    ∃ changed t', writeIfChanged (l.file k m) content t = .ok changed t' := by
  have hplain := isPlain_moduleFile hm
  rw [← passed_kindDir] at hclear hfree
  rcases (show t.IsClear _ _ from hclear).follow with hfollow | hmissing
  · refine writeIfChanged_of_resolves ((resolves_file_iff hm).mpr ⟨?_, rfl⟩)
      (endsWithSlash_file hm) hget content
    rw [reaches_iff_way, ← passed_kindDir, ← follow_eq_ok_iff]
    exact ⟨_, hfollow⟩
  · obtain ⟨t₁, hmake, hthere⟩ := makeDirs_join_of_isClear k.isPlain_module hclear
    have hbuilds := makeDirs_builds t (l.kindDir k)
    rw [kindDir, hmake] at hbuilds
    have hwd : t₁.workingDir = t.workingDir := hbuilds.workingDir
    have hresolves : t₁.Resolves (l.file k m) (l.fileAt t.workingDir k m) := by
      rw [resolves_file_iff hm, hwd, reaches_iff_way, hwd, ← passed_kindDir, ← follow_eq_ok_iff]
      exact ⟨hthere, rfl⟩
    have hdir : t₁.get? (l.fileAt t.workingDir k m) ≠ some .dir := by
      intro hdir
      have hpaves := makeDirs_join_paves k.isPlain_module (l.dir k.group) t
      rw [hmake] at hpaves
      rcases hget with hnone | ⟨text, htext⟩
      · exact hfree (hpaves.made _ hnone hdir)
      · have hfile := (hbuilds.get?_file_iff (Set.notMem_empty _)).mpr htext
        rw [hdir] at hfile
        cases hfile
    obtain ⟨t₂, hwrite⟩ := hresolves.write (endsWithSlash_file hm) hdir content
    have hread : t.read? (l.file k m) = .error .notFound := by
      rw [file_eq_join]
      have hsteps : ((l.kindDir k).join (m ++ ".rs")).steps =
          (l.kindDir k).steps ++ [m ++ ".rs"] := by
        rw [Path.steps_join, hplain.steps]
      refine read?_eq_notFound (Path.text_join_ne hplain.isRelative _) hsteps ?_
      rw [base_join hplain.isRelative, hmissing]
    have hparent : makeParent (l.file k m) t = .ok () t₁ := by
      rw [makeParent, parent?_file hm]
      exact changes_eq_ok_iff.mpr hmake
    exact ⟨_, _, writeIfChanged_of_ne (readIfThere_of_notFound hread) (by simp) hparent hwrite⟩

end Layout

end Defsheet

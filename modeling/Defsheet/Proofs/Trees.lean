import Defsheet.FileTree
import Defsheet.Proofs.Paths

/-!
# Where paths lead

A path leads to the same location in every tree in which it leads anywhere, because names are
followed one by one and `..` goes back to where it came from. Operations on files are therefore
described by the location that a path resolves to, and by what stands at that location.

## Main results

* `FileTree.follow_eq_ok`: following names leads to a location that does not depend on the tree.
* `FileTree.Resolves.mono`: a path goes on leading where it leads.
* `FileTree.read?_eq_ok_iff`, `FileTree.write_eq_ok`, `FileTree.remove_eq_ok` and their neighbours
  describe the operations on files.
-/

namespace Defsheet

namespace FileTree

variable {t t' : FileTree} {p : Path} {l loc : Location}

/-! ### Entries -/

theorem get?_nil (t : FileTree) : t.get? [] = some .dir := rfl

theorem get?_of_ne_nil (t : FileTree) (h : l ≠ []) : t.get? l = t.entries.lookup l :=
  if_neg h

/-- To take away one location leaves what is found at the others. -/
theorem lookup_filter_ne (entries : List (Location × Entry)) (h : l ≠ loc) :
    (entries.filter fun x => x.1 ≠ loc).lookup l = entries.lookup l := by
  induction entries with
  | nil => rfl
  | cons x xs ih =>
      obtain ⟨k, e⟩ := x
      by_cases hk : k = loc
      · subst hk
        rw [List.filter_cons_of_neg (by simp), ih, List.lookup_cons, beq_eq_false_iff_ne.mpr h]
      · rw [List.filter_cons_of_pos (by simpa using hk), List.lookup_cons, List.lookup_cons, ih]

/-- Nothing is found at a location that was taken away. -/
theorem lookup_filter_self (entries : List (Location × Entry)) :
    (entries.filter fun x => x.1 ≠ loc).lookup loc = none := by
  rw [List.lookup_eq_none_iff]
  intro x hx
  have hne := of_decide_eq_true (List.mem_filter.mp hx).2
  simpa using fun h : loc = x.1 => hne h.symm

@[simp] theorem get?_insert_self (hloc : loc ≠ []) (e : Entry) :
    (t.insert loc e).get? loc = some e := by
  rw [get?_of_ne_nil _ hloc]
  exact List.lookup_cons_self

@[simp] theorem get?_insert_of_ne (h : l ≠ loc) (e : Entry) :
    (t.insert loc e).get? l = t.get? l := by
  by_cases hl : l = []
  · rw [hl, get?_nil, get?_nil]
  · rw [get?_of_ne_nil _ hl, get?_of_ne_nil _ hl, insert, List.lookup_cons,
      beq_eq_false_iff_ne.mpr h]
    exact lookup_filter_ne _ h

@[simp] theorem get?_erase_self (hloc : loc ≠ []) : (t.erase loc).get? loc = none := by
  rw [get?_of_ne_nil _ hloc]
  exact lookup_filter_self _

@[simp] theorem get?_erase_of_ne (h : l ≠ loc) : (t.erase loc).get? l = t.get? l := by
  by_cases hl : l = []
  · rw [hl, get?_nil, get?_nil]
  · rw [get?_of_ne_nil _ hl, get?_of_ne_nil _ hl]
    exact lookup_filter_ne _ h

/-- The names in a directory are those of the entries right below it. -/
theorem mem_names {dir : Location} {name : String} :
    name ∈ t.names dir ↔ (t.get? (dir ++ [name])).isSome = true := by
  rw [names, List.mem_eraseDups, List.mem_filterMap,
    get?_of_ne_nil _ (List.append_ne_nil_of_right_ne_nil _ (List.cons_ne_nil _ _)),
    List.lookup_isSome_iff]
  constructor
  · rintro ⟨x, hx, hname⟩
    refine ⟨x, hx, ?_⟩
    unfold nameIn? at hname
    split at hname
    · next hdir =>
      obtain ⟨u, hu⟩ := List.getLast?_eq_some_iff.mp hname
      rw [hu, List.dropLast_concat] at hdir
      rw [hu, hdir, beq_self_eq_true]
    · cases hname
  · rintro ⟨x, hx, hloc⟩
    rw [beq_iff_eq] at hloc
    refine ⟨x, hx, ?_⟩
    rw [nameIn?, ← hloc, List.dropLast_concat, if_pos rfl, List.getLast?_concat]

/-- Names that are listed once have no duplicates. The induction is on the number of names. -/
theorem nodup_eraseDups (names : List String) : names.eraseDups.Nodup := by
  induction hn : names.length using Nat.strongRecOn generalizing names with
  | _ n ih =>
      cases names with
      | nil => exact .nil
      | cons name names =>
          have hlength : (names.filter fun b => !b == name).length < n := by
            rw [← hn, List.length_cons]
            exact Nat.lt_succ_of_le (List.length_filter_le _ _)
          rw [List.eraseDups_cons, List.nodup_cons, List.mem_eraseDups, List.mem_filter]
          refine ⟨?_, ih _ hlength _ rfl⟩
          simp

/-- No name is listed twice. -/
theorem nodup_names (t : FileTree) (dir : Location) : (t.names dir).Nodup :=
  nodup_eraseDups _

/-! ### Following paths -/

/-- Where names lead, if all of them lead to directories. -/
def walk (l : Location) : List String → Location
  | [] => l
  | name :: names =>
    if name = "." then walk l names
    else if name = ".." then walk l.dropLast names
    else walk (l ++ [name]) names

/-- To walk along names is to walk along the first of them, and then along the rest. -/
theorem walk_append (l : Location) (u v : List String) : walk l (u ++ v) = walk (walk l u) v := by
  induction u generalizing l with
  | nil => rfl
  | cons name u ih =>
      rw [List.cons_append, walk, walk, ih, ih, ih]
      split
      · rfl
      · split <;> rfl

/-- **Names lead to one place**, whatever tree they are followed in. -/
theorem follow_eq_ok {names : List String} (h : t.follow l names = .ok loc) :
    loc = walk l names := by
  induction names generalizing l with
  | nil => exact (Except.ok.inj h).symm
  | cons name names ih =>
      rw [follow] at h
      split at h
      · next l' henter =>
        rw [ih h, walk]
        unfold enter at henter
        split at henter
        · next hname => rw [if_pos hname, ← Except.ok.inj henter]
        split at henter
        · next hdot hname => rw [if_neg hdot, if_pos hname, ← Except.ok.inj henter]
        · next hdot hdots =>
          rw [if_neg hdot, if_neg hdots]
          split at henter
          · rw [← Except.ok.inj henter]
          · cases henter
          · cases henter
      · cases h

/-- Names that lead somewhere do so as long as directories stay. -/
theorem follow_mono (hdirs : ∀ l, t.get? l = some .dir → t'.get? l = some .dir)
    {names : List String} (h : t.follow l names = .ok loc) : t'.follow l names = .ok loc := by
  induction names generalizing l with
  | nil => exact h
  | cons name names ih =>
      rw [follow] at h ⊢
      split at h
      · next l' henter =>
        have henter' : t'.enter l name = .ok l' := by
          unfold enter at henter ⊢
          split at henter
          · next hname => rw [if_pos hname, henter]
          split at henter
          · next hdot hname => rw [if_neg hdot, if_pos hname, henter]
          · next hdot hdots =>
            rw [if_neg hdot, if_neg hdots]
            split at henter
            · next hdir => rw [hdirs _ hdir, henter]
            · cases henter
            · cases henter
        rw [henter']
        exact ih h
      · cases h

/-- To follow names is to follow the first of them, and then the rest from there. -/
theorem follow_append (t : FileTree) (l : Location) (u v : List String) :
    t.follow l (u ++ v) =
      match t.follow l u with
      | .ok l' => t.follow l' v
      | .error e => .error e := by
  induction u generalizing l with
  | nil => rfl
  | cons name u ih =>
      rw [List.cons_append, follow, follow]
      cases t.enter l name with
      | ok l' => exact ih l'
      | error e => rfl

/-- The first ones of names that lead somewhere do so too. -/
theorem follow_initial {u v : List String} (huv : u <+: v) (h : t.follow l v = .ok loc) :
    t.follow l u = .ok (walk l u) := by
  induction v generalizing l u with
  | nil =>
      obtain rfl := List.prefix_nil.mp huv
      rfl
  | cons name v ih =>
      obtain _ | ⟨name', u⟩ := u
      · rfl
      obtain ⟨rfl, hrest⟩ := List.cons_prefix_cons.mp huv
      rw [follow] at h
      split at h
      · next l' henter =>
        have hu := ih hrest h
        have hfollow : t.follow l (name' :: u) = .ok (walk l' u) := by
          rw [follow, henter]
          exact hu
        rw [hfollow, follow_eq_ok hfollow]
      · cases h

/-- One more name leads to a directory if there is one of that name. -/
theorem follow_concat_eq_ok_iff {u : List String} {name : String} (hdot : name ≠ ".")
    (hdots : name ≠ "..") :
    t.follow l (u ++ [name]) = .ok loc ↔ t.follow l u = .ok (walk l u) ∧
      t.get? (walk l u ++ [name]) = some .dir ∧ loc = walk l u ++ [name] := by
  rw [follow_append]
  cases hu : t.follow l u with
  | error e => simp
  | ok l' =>
      rw [follow_eq_ok hu]
      simp only [follow, enter, if_neg hdot, if_neg hdots]
      cases t.get? (walk l u ++ [name]) with
      | none => simp
      | some e =>
          cases e with
          | dir => simp [eq_comm]
          | file data => simp

/-- Names lead to the same place in two trees that agree on what they pass. -/
theorem follow_congr {names : List String}
    (h : ∀ u name v, names = u ++ name :: v → name ≠ "." → name ≠ ".." →
      t'.get? (walk l u ++ [name]) = t.get? (walk l u ++ [name])) :
    t'.follow l names = t.follow l names := by
  induction names generalizing l with
  | nil => rfl
  | cons name names ih =>
      have henter : t'.enter l name = t.enter l name := by
        unfold enter
        split
        · rfl
        split
        · rfl
        · next hdot hdots =>
          have hget := h [] name names rfl hdot hdots
          rw [walk] at hget
          rw [hget]
      rw [follow, follow, henter]
      cases hl' : t.enter l name with
      | error e => rfl
      | ok l' =>
          have hwalk : l' = walk l [name] := by
            refine follow_eq_ok (t := t) ?_
            rw [follow, hl']
            rfl
          refine ih fun u name' v hnames => ?_
          rw [hwalk, ← walk_append]
          exact h (name :: u) name' v (congrArg (name :: ·) hnames)

/-- The path leads to the location: the directories on the way are there. Nothing need stand at the
location itself. -/
def Resolves (t : FileTree) (p : Path) (loc : Location) : Prop :=
  ∃ l name, t.target p = .ok (.child l name) ∧ loc = l ++ [name]

/-- A path leads to one location. -/
theorem Resolves.unique (h : t.Resolves p loc) (h' : t.Resolves p l) : loc = l := by
  obtain ⟨l₁, name₁, htarget₁, rfl⟩ := h
  obtain ⟨l₂, name₂, htarget₂, rfl⟩ := h'
  rw [htarget₁] at htarget₂
  cases htarget₂
  rfl

/-- No path leads to the root as to something with a name. -/
theorem Resolves.ne_nil (h : t.Resolves p loc) : loc ≠ [] := by
  obtain ⟨l, name, -, rfl⟩ := h
  exact List.append_ne_nil_of_right_ne_nil l (List.cons_ne_nil name [])

/-- When a path leads to a name inside a directory. -/
theorem target_eq_child_iff {name : String} :
    t.target p = .ok (.child l name) ↔ p.text ≠ "" ∧ p.steps.getLast? = some name ∧
      name ≠ "." ∧ name ≠ ".." ∧ t.follow (t.base p) p.steps.dropLast = .ok l := by
  unfold target
  split
  · next h => simp [h]
  · next h =>
    cases p.steps.getLast? with
    | none => simp
    | some last =>
        cases t.follow (t.base p) p.steps.dropLast with
        | error e => simp
        | ok l' =>
            simp only
            split
            · next hdot =>
              refine ⟨(nomatch ·), ?_⟩
              rintro ⟨-, hlast, hne, -⟩
              exact absurd (Option.some.inj hlast ▸ hdot) hne
            · split
              · next hdots =>
                refine ⟨(nomatch ·), ?_⟩
                rintro ⟨-, hlast, -, hne, -⟩
                exact absurd (Option.some.inj hlast ▸ hdots) hne
              · next hdot hdots =>
                simp only [Except.ok.injEq, Target.child.injEq, ne_eq, h, not_false_eq_true,
                  Option.some.injEq, true_and]
                constructor
                · rintro ⟨rfl, rfl⟩
                  exact ⟨rfl, hdot, hdots, rfl⟩
                · rintro ⟨rfl, -, -, rfl⟩
                  exact ⟨rfl, rfl⟩

/-- A path goes on leading where it leads as long as directories stay. -/
theorem Resolves.mono (hwd : t'.workingDir = t.workingDir)
    (hdirs : ∀ l, t.get? l = some .dir → t'.get? l = some .dir) (h : t.Resolves p loc) :
    t'.Resolves p loc := by
  obtain ⟨l, name, htarget, rfl⟩ := h
  obtain ⟨htext, hlast, hdot, hdots, hfollow⟩ := target_eq_child_iff.mp htarget
  have hbase : t'.base p = t.base p := by
    unfold base
    rw [hwd]
  refine ⟨l, name, target_eq_child_iff.mpr ⟨htext, hlast, hdot, hdots, ?_⟩, rfl⟩
  rw [hbase]
  exact follow_mono hdirs hfollow

/-! ### Files -/

/-- When a path stands for a file. -/
theorem find?_eq_file_iff {data : FileData} :
    t.find? p = .ok (loc, .file data) ↔
      t.Resolves p loc ∧ t.get? loc = some (.file data) ∧ p.endsWithSlash = false := by
  unfold find? Resolves
  cases t.target p with
  | error e => simp
  | ok target =>
      cases target with
      | place l => simp
      | child l name =>
          simp only [Except.ok.injEq, Target.child.injEq]
          constructor
          · intro h
            split at h
            · cases h
            · cases h
            · next data' hget =>
              split at h
              · cases h
              · next hslash =>
                obtain ⟨rfl, hdata⟩ := Prod.mk.inj (Except.ok.inj h)
                rw [← Entry.file.inj hdata]
                exact ⟨⟨l, name, ⟨rfl, rfl⟩, rfl⟩, hget, by simpa using hslash⟩
          · rintro ⟨⟨l', name', ⟨rfl, rfl⟩, rfl⟩, hget, hslash⟩
            simp [hget, hslash]

/-- When a file can be read. -/
theorem read?_eq_ok_iff {content : String} :
    t.read? p = .ok content ↔
      ∃ loc, t.Resolves p loc ∧ t.get? loc = some (.file (.text content)) ∧
        p.endsWithSlash = false := by
  simp only [← find?_eq_file_iff, read?]
  cases t.find? p with
  | error e => simp
  | ok found =>
      obtain ⟨l, _ | _ | _⟩ := found <;> simp

/-- A path is the one of a file if it leads to a file and does not end with a slash. -/
theorem isFile_iff :
    t.isFile p = true ↔
      ∃ loc data, t.Resolves p loc ∧ t.get? loc = some (.file data) ∧ p.endsWithSlash = false := by
  simp only [← find?_eq_file_iff, isFile]
  cases t.find? p with
  | error e => simp
  | ok found =>
      obtain ⟨l, _ | _⟩ := found <;> simp

/-- Names can be listed where the steps of a path lead. -/
theorem names?_eq (htext : p.text ≠ "") :
    t.names? p = (t.follow (t.base p) p.steps).map t.names := by
  unfold names? find? target
  rw [if_neg htext]
  cases hlast : p.steps.getLast? with
  | none =>
      rw [List.getLast?_eq_none_iff.mp hlast]
      rfl
  | some last =>
      obtain ⟨u, hu⟩ := List.getLast?_eq_some_iff.mp hlast
      rw [hu, List.dropLast_concat, follow_append]
      cases t.follow (t.base p) u with
      | error e => rfl
      | ok l =>
          by_cases hdot : last = "."
          · simp only [follow, enter, if_pos hdot]
            rfl
          by_cases hdots : last = ".."
          · simp only [follow, enter, if_neg hdot, if_pos hdots]
            rfl
          simp only [follow, enter, if_neg hdot, if_neg hdots]
          cases t.get? (l ++ [last]) with
          | none => rfl
          | some e =>
              cases e with
              | dir => rfl
              | file data => cases p.endsWithSlash <;> rfl

/-- What writing a file does. -/
theorem write_eq_ok {content : String} (h : t.write p content = .ok t') :
    ∃ loc, t.Resolves p loc ∧ t.get? loc ≠ some .dir ∧ p.endsWithSlash = false ∧
      t' = t.insert loc (.file (.text content)) := by
  unfold write at h
  split at h
  · cases h
  · cases h
  · next l name htarget =>
    split at h
    · cases h
    · next hfree =>
      rw [Bool.or_eq_true, not_or, decide_eq_true_eq] at hfree
      exact ⟨l ++ [name], ⟨l, name, htarget, rfl⟩, hfree.2, by simpa using hfree.1,
        (Except.ok.inj h).symm⟩

/-- What removing a file does. -/
theorem remove_eq_ok (h : t.remove p = .ok t') :
    ∃ loc data, t.Resolves p loc ∧ t.get? loc = some (.file data) ∧ t' = t.erase loc := by
  unfold remove at h
  split at h
  · cases h
  · cases h
  · next loc data hfind =>
    obtain ⟨hresolves, hget, -⟩ := find?_eq_file_iff.mp hfind
    exact ⟨loc, data, hresolves, hget, (Except.ok.inj h).symm⟩

end FileTree

end Defsheet

import Defsheet.Path

/-!
# The steps of a path

To follow a path is to follow its steps, which are its segments less the empty ones. This module
says what happens to the steps when a path is extended and when its parent is taken. Joining appends
steps. The parent drops the last step, and segments `.` before it are dropped along with it, since
they lead nowhere.

## Main results

* `Path.steps_join`: the steps of a joined path.
* `Path.parent?_cases`: the parent of a path is empty, or its steps are among the first ones of the
  path and it starts from the same place.
-/

namespace Defsheet

/-! ### Splitting at slashes -/

/-- There is always a segment, if only an empty one. -/
theorem splitSlash_ne_nil (cs : List Char) : splitSlash cs ≠ [] := by
  cases cs with
  | nil => exact List.cons_ne_nil _ _
  | cons c cs =>
      rw [splitSlash]
      split
      · exact List.cons_ne_nil _ _
      · split <;> exact List.cons_ne_nil _ _

/-- Splitting goes on from each slash by itself. -/
theorem splitSlash_append_slash (u v : List Char) :
    splitSlash (u ++ '/' :: v) = splitSlash u ++ splitSlash v := by
  induction u with
  | nil => rfl
  | cons c u ih =>
      rw [List.cons_append, splitSlash, splitSlash, ih]
      split
      · rfl
      · cases hu : splitSlash u with
        | nil => exact absurd hu (splitSlash_ne_nil u)
        | cons s ss => rfl

/-- Without a slash there is one segment. -/
theorem splitSlash_of_not_mem {s : List Char} (h : '/' ∉ s) : splitSlash s = [s] := by
  induction s with
  | nil => rfl
  | cons c s ih =>
      rw [List.mem_cons, not_or] at h
      rw [splitSlash, if_neg fun hc => h.1 hc.symm, ih h.2]

/-- There is no slash in a segment. -/
theorem slash_not_mem_of_mem_splitSlash {cs s : List Char} (h : s ∈ splitSlash cs) : '/' ∉ s := by
  induction cs generalizing s with
  | nil =>
      obtain rfl := List.mem_singleton.mp h
      exact List.not_mem_nil
  | cons c cs ih =>
      rw [splitSlash] at h
      split at h
      · obtain rfl | h := List.mem_cons.mp h
        · exact List.not_mem_nil
        · exact ih h
      · next hc =>
        cases hcs : splitSlash cs with
        | nil => exact absurd hcs (splitSlash_ne_nil cs)
        | cons t ts =>
            rw [hcs] at h ih
            obtain rfl | h := List.mem_cons.mp h
            · rw [List.mem_cons, not_or]
              exact ⟨fun hslash => hc hslash.symm, ih List.mem_cons_self⟩
            · exact ih (List.mem_cons_of_mem _ h)

/-- Splitting undoes joining. -/
theorem splitSlash_joinSlash {segments : List (List Char)} (hne : segments ≠ [])
    (h : ∀ s ∈ segments, '/' ∉ s) : splitSlash (joinSlash segments) = segments := by
  induction segments with
  | nil => exact absurd rfl hne
  | cons s rest ih =>
      rw [List.forall_mem_cons] at h
      obtain _ | ⟨t, rest⟩ := rest
      · rw [joinSlash, List.intercalate_singleton, splitSlash_of_not_mem h.1]
      · rw [joinSlash, List.intercalate_cons_cons, List.append_assoc, List.singleton_append,
          splitSlash_append_slash, splitSlash_of_not_mem h.1, List.singleton_append]
        exact congrArg (s :: ·) (ih (List.cons_ne_nil t rest) h.2)

/-- Joining undoes splitting. -/
theorem joinSlash_splitSlash (cs : List Char) : joinSlash (splitSlash cs) = cs := by
  induction cs with
  | nil => rfl
  | cons c cs ih =>
      rw [splitSlash]
      obtain ⟨s, ss, hcs⟩ := List.exists_cons_of_ne_nil (splitSlash_ne_nil cs)
      rw [hcs] at ih ⊢
      split
      · next hc =>
        rw [joinSlash, List.intercalate_cons_cons, hc, ← ih]
        rfl
      · rw [← ih]
        cases ss with
        | nil => simp [joinSlash]
        | cons t ss => simp [joinSlash, List.intercalate_cons_cons]

namespace Path

/-! ### Joining -/

/-- The steps that segments give rise to. -/
def stepsOf (segments : List (List Char)) : List String :=
  (segments.filter fun s => s ≠ []).map String.ofList

/-- Segments behind others are further steps. -/
theorem stepsOf_append (u v : List (List Char)) : stepsOf (u ++ v) = stepsOf u ++ stepsOf v := by
  rw [stepsOf, List.filter_append, List.map_append]
  rfl

theorem steps_eq_stepsOf (p : Path) : p.steps = stepsOf p.segments := rfl

/-- A path that is not empty and does not end with a slash is joined by one. -/
theorem text_join (p : Path) (rest : String) :
    (p.join rest).text = p.text ++ rest ∧ (p.text = "" ∨ p.endsWithSlash = true) ∨
      (p.join rest).text = p.text ++ "/" ++ rest ∧ p.text ≠ "" := by
  unfold join
  split
  · next h => exact .inl ⟨rfl, by simpa using h⟩
  · next h =>
    rw [Bool.or_eq_true, not_or] at h
    exact .inr ⟨rfl, by simpa using h.1⟩

/-- Joining appends the steps. -/
theorem steps_join (p : Path) (rest : String) :
    (p.join rest).steps = p.steps ++ (Path.mk rest).steps := by
  simp only [steps_eq_stepsOf, segments]
  obtain ⟨htext, hp | hp⟩ | ⟨htext, -⟩ := text_join p rest
  · rw [htext, hp]
    rfl
  · obtain ⟨u, hu⟩ := List.getLast?_eq_some_iff.mp (of_decide_eq_true hp)
    rw [htext, String.toList_append, hu, List.append_assoc, List.singleton_append,
      splitSlash_append_slash, splitSlash_append_slash, stepsOf_append, stepsOf_append]
    exact congrArg (· ++ _) (List.append_nil _).symm
  · rw [htext, String.toList_append, String.toList_append, List.append_assoc]
    exact (congrArg stepsOf (splitSlash_append_slash _ _)).trans (stepsOf_append _ _)

/-- Something that can be put after a path: it is not empty, and does not begin or end with a
slash. -/
structure IsRelative (rest : String) : Prop where
  head : ∃ c cs, rest.toList = c :: cs ∧ c ≠ '/'
  last : rest.toList.getLast? ≠ some '/'

/-- Where a path starts is not changed by joining. -/
theorem isAbsolute_join {rest : String} (h : IsRelative rest) (p : Path) :
    (p.join rest).isAbsolute = p.isAbsolute := by
  obtain ⟨c, cs, hrest, hc⟩ := h.head
  have hhead (q : Path) (u : List Char) (hq : q.text.toList = p.text.toList ++ u)
      (hu : p.text = "" → u.head? ≠ some '/') : q.isAbsolute = p.isAbsolute := by
    unfold isAbsolute
    rw [hq]
    cases hp : p.text.toList with
    | nil => simpa using hu (String.toList_inj.mp hp)
    | cons d ds => rfl
  obtain ⟨htext, -⟩ | ⟨htext, hne⟩ := text_join p rest
  · refine hhead _ rest.toList (by rw [htext, String.toList_append]) fun _ => ?_
    rw [hrest, List.head?_cons]
    exact fun hslash => hc (Option.some.inj hslash)
  · refine hhead _ ("/" ++ rest).toList ?_ fun hp => absurd hp hne
    rw [htext, String.append_assoc, String.toList_append]

/-- How a joined path ends is decided by what was joined. -/
theorem endsWithSlash_join {rest : String} (h : IsRelative rest) (p : Path) :
    (p.join rest).endsWithSlash = false := by
  obtain ⟨c, cs, hrest, -⟩ := h.head
  have hne : rest.toList ≠ [] := hrest ▸ List.cons_ne_nil c cs
  have hlast (u : List Char) : (u ++ rest.toList).getLast? ≠ some '/' := by
    rw [List.getLast?_append, List.getLast?_eq_some_getLast hne, Option.some_or,
      ← List.getLast?_eq_some_getLast]
    exact h.last
  refine decide_eq_false ?_
  obtain ⟨htext, -⟩ | ⟨htext, -⟩ := text_join p rest <;>
    rw [htext, String.toList_append] <;>
    exact hlast _

/-- A path with something put after it is not empty. -/
theorem text_join_ne {rest : String} (h : IsRelative rest) (p : Path) :
    (p.join rest).text ≠ "" := by
  obtain ⟨c, cs, hrest, -⟩ := h.head
  intro hempty
  have hlist := congrArg String.toList hempty
  obtain ⟨htext, -⟩ | ⟨htext, -⟩ := text_join p rest <;>
    rw [htext, String.toList_append, hrest] at hlist <;>
    exact absurd (List.append_eq_nil_iff.mp hlist).2 (List.cons_ne_nil c cs)

/-- Joining twice is joining once. -/
theorem join_join {rest : String} (h : IsRelative rest) (p : Path) (more : String) :
    (p.join rest).join more = p.join (rest ++ "/" ++ more) := by
  have houter : (p.join rest).join more = ⟨(p.join rest).text ++ "/" ++ more⟩ := by
    rw [join, endsWithSlash_join h, if_neg]
    simpa using text_join_ne h p
  rw [houter, join, join]
  split <;> simp only [String.append_assoc]

/-- A name that can be a step by itself and leads to an entry of that name. -/
structure IsPlain (name : String) : Prop where
  ne_empty : name ≠ ""
  slash_not_mem : '/' ∉ name.toList
  ne_dot : name ≠ "."
  ne_dots : name ≠ ".."

/-- Something that can be put after a path, made of plain names: some on the way and one at the
end. -/
structure IsRoute (rest : String) (inner : List String) (name : String) : Prop where
  relative : IsRelative rest
  steps : (Path.mk rest).steps = inner ++ [name]
  plain : ∀ s ∈ inner ++ [name], IsPlain s

/-- A plain name is a single step. -/
theorem IsPlain.steps {name : String} (h : IsPlain name) : (Path.mk name).steps = [name] := by
  have hne : name.toList ≠ [] := fun hnil => h.ne_empty (String.toList_inj.mp hnil)
  rw [steps_eq_stepsOf, segments, splitSlash_of_not_mem h.slash_not_mem, stepsOf,
    List.filter_cons_of_pos (by simpa using hne)]
  exact congrArg (· :: []) String.ofList_toList

/-- A plain name can be put after a path. -/
theorem IsPlain.isRelative {name : String} (h : IsPlain name) : IsRelative name := by
  have hne : name.toList ≠ [] := fun hnil => h.ne_empty (String.toList_inj.mp hnil)
  obtain ⟨c, cs, hname⟩ := List.exists_cons_of_ne_nil hne
  refine ⟨⟨c, cs, hname, ?_⟩, fun hlast => h.slash_not_mem (List.mem_of_getLast? hlast)⟩
  rintro rfl
  exact h.slash_not_mem (hname ▸ List.mem_cons_self)

/-- A plain name leads to itself. -/
theorem IsPlain.isRoute {name : String} (h : IsPlain name) : IsRoute name [] name :=
  ⟨h.isRelative, h.steps, by simpa using h⟩

/-- A plain name after a route makes it longer. -/
theorem IsRoute.concat {rest name name' : String} {inner : List String}
    (h : IsRoute rest inner name) (h' : IsPlain name') :
    IsRoute (rest ++ "/" ++ name') (inner ++ [name]) name' := by
  have htext : (Path.mk rest).join name' = ⟨rest ++ "/" ++ name'⟩ := by
    obtain ⟨c, cs, hrest, -⟩ := h.relative.head
    rw [join, if_neg]
    rw [Bool.or_eq_true, not_or]
    constructor
    · rw [decide_eq_true_eq]
      rintro rfl
      cases hrest
    · exact fun hslash => h.relative.last (of_decide_eq_true hslash)
  refine ⟨?_, ?_, ?_⟩
  · obtain ⟨c, cs, hrest, hc⟩ := h.relative.head
    obtain ⟨c', cs', hname, -⟩ := h'.isRelative.head
    refine ⟨⟨c, cs ++ '/' :: name'.toList, by simp [hrest], hc⟩, ?_⟩
    have hlast := h'.isRelative.last
    rw [String.toList_append, List.getLast?_append, hname, List.getLast?_cons]
    rw [hname, List.getLast?_cons] at hlast
    exact hlast
  · rw [← htext, steps_join, h.steps, h'.steps]
  · intro s hs
    obtain hs | hs := List.mem_append.mp hs
    · exact h.plain s hs
    · exact List.mem_singleton.mp hs ▸ h'

/-! ### Parents -/

/-- The nearest path upward drops idle segments from the end. -/
theorem upward_cases (first : List Char) (outer : List (List Char)) :
    ∃ q others, upward first outer = q :: others ∧
      ((∃ kept, kept ≠ [] ∧ kept <:+ outer ∧
          q = ⟨String.ofList (joinSlash (first :: kept.reverse))⟩) ∨
        q = ⟨if first = [] then "/" else String.ofList first⟩) := by
  induction outer with
  | nil => exact ⟨_, [], rfl, .inr rfl⟩
  | cons s outer ih =>
      rw [upward]
      split
      · obtain ⟨q, others, heq, ⟨kept, hne, hsuffix, hq⟩ | hq⟩ := ih
        · exact ⟨q, others, heq, .inl ⟨kept, hne, hsuffix.trans (List.suffix_cons s outer), hq⟩⟩
        · exact ⟨q, others, heq, .inr hq⟩
      · exact ⟨_, _, rfl, .inl ⟨s :: outer, List.cons_ne_nil s outer, List.suffix_rfl, rfl⟩⟩

/-- A path is absolute if its first segment is empty and not the only one. -/
theorem isAbsolute_of_segments {p : Path} {first : List Char} {rest : List (List Char)}
    (h : p.segments = first :: rest) (hrest : rest ≠ []) : p.isAbsolute = decide (first = []) := by
  unfold isAbsolute
  rw [← joinSlash_splitSlash p.text.toList]
  change decide ((joinSlash p.segments).head? = some '/') = _
  obtain ⟨t, rest, rfl⟩ := List.exists_cons_of_ne_nil hrest
  have hslash : '/' ∉ first :=
    slash_not_mem_of_mem_splitSlash (h ▸ List.mem_cons_self : first ∈ p.segments)
  rw [h, joinSlash, List.intercalate_cons_cons]
  cases first with
  | nil => rfl
  | cons c cs =>
      rw [List.mem_cons, not_or] at hslash
      simpa using fun hc : c = '/' => hslash.1 hc.symm

/-- Only segments `.` among idle ones are steps. -/
theorem stepsOf_idle {segments : List (List Char)} (h : ∀ s ∈ segments, isIdle s = true) :
    ∀ step ∈ stepsOf segments, step = "." := by
  intro step hstep
  obtain ⟨s, hs, rfl⟩ := List.mem_map.mp hstep
  obtain ⟨hs, hne⟩ := List.mem_filter.mp hs
  have hidle := h s hs
  simp only [isIdle, Bool.or_eq_true, decide_eq_true_eq] at hidle
  obtain hidle | rfl := hidle
  · exact absurd hidle (of_decide_eq_true hne)
  · rfl

/-- Fewer segments are fewer steps. -/
theorem stepsOf_initial {u v : List (List Char)} (h : u <+: v) : stepsOf u <+: stepsOf v := by
  obtain ⟨w, rfl⟩ := h
  exact ⟨stepsOf w, (stepsOf_append u w).symm⟩

/-- The steps of a path before the last one, if the path ends with idle segments that are no
steps. -/
theorem dropLast_steps {p : Path} {before idle : List (List Char)} {s : List Char}
    (hsegments : p.segments = before ++ s :: idle) (hs : s ≠ [])
    (hidle : ∀ s ∈ idle, isIdle s = true) (hlast : p.steps.getLast? ≠ some ".") :
    p.steps.dropLast = stepsOf before := by
  have hsteps : p.steps = stepsOf before ++ String.ofList s :: stepsOf idle := by
    rw [steps_eq_stepsOf, hsegments, stepsOf_append]
    congr 1
    rw [stepsOf, List.filter_cons_of_pos (by simpa using hs)]
    rfl
  cases hdots : stepsOf idle with
  | nil => rw [hsteps, hdots, List.dropLast_concat]
  | cons step steps =>
      have hne : stepsOf idle ≠ [] := hdots ▸ List.cons_ne_nil step steps
      have hdot : (stepsOf idle).getLast? = some "." := by
        rw [List.getLast?_eq_some_getLast hne, stepsOf_idle hidle _ (List.getLast_mem hne)]
      rw [hsteps, List.getLast?_append, List.getLast?_cons, hdot] at hlast
      exact absurd rfl hlast

/-- A path that is put together from the first segments of another one starts where that one does
and takes some of its steps. -/
theorem joined_within {first : List Char} {kept outer : List (List Char)}
    (hslash : ∀ s ∈ first :: outer, '/' ∉ s) (hne : kept ≠ []) (h : kept <+: outer) :
    (Path.mk (String.ofList (joinSlash (first :: kept)))).isAbsolute = decide (first = []) ∧
      (Path.mk (String.ofList (joinSlash (first :: kept)))).steps <+: stepsOf (first :: outer) := by
  have hwithin : first :: kept <+: first :: outer := List.cons_prefix_cons.mpr ⟨rfl, h⟩
  have hkept : (Path.mk (String.ofList (joinSlash (first :: kept)))).segments = first :: kept := by
    rw [segments, String.toList_ofList]
    exact splitSlash_joinSlash (List.cons_ne_nil _ _) fun s hs => hslash s (hwithin.subset hs)
  refine ⟨isAbsolute_of_segments hkept hne, ?_⟩
  rw [steps_eq_stepsOf, hkept]
  exact stepsOf_initial hwithin

/-- So does the path that has the first segment only. -/
theorem first_within {first : List Char} {outer : List (List Char)} (hslash : '/' ∉ first) :
    (Path.mk (if first = [] then "/" else String.ofList first)).isAbsolute =
        decide (first = []) ∧
      (Path.mk (if first = [] then "/" else String.ofList first)).steps <+:
        stepsOf (first :: outer) := by
  split
  · next hfirst =>
    rw [hfirst]
    exact ⟨rfl, List.nil_prefix⟩
  · next hfirst =>
    have hsegments : (Path.mk (String.ofList first)).segments = [first] := by
      rw [segments, String.toList_ofList]
      exact splitSlash_of_not_mem hslash
    constructor
    · rw [decide_eq_false hfirst]
      refine decide_eq_false fun hhead => hslash ?_
      rw [String.toList_ofList] at hhead
      exact List.mem_of_head? hhead
    · rw [steps_eq_stepsOf, hsegments]
      exact stepsOf_initial (List.cons_prefix_cons.mpr ⟨rfl, List.nil_prefix⟩)

/-- Segments end with idle ones. Before these stands one that is not idle, unless all are. -/
theorem eq_append_idle {segments outer : List (List Char)} {s : List Char}
    (h : segments.reverse.dropWhile isIdle = s :: outer) :
    ∃ idle, segments = outer.reverse ++ s :: idle ∧ isIdle s = false ∧
      ∀ s ∈ idle, isIdle s = true := by
  refine ⟨(segments.reverse.takeWhile isIdle).reverse, ?_, ?_, fun s hs => ?_⟩
  · have heq := List.takeWhile_append_dropWhile (p := isIdle) (l := segments.reverse)
    rw [h] at heq
    simpa using (congrArg List.reverse heq).symm
  · have hhead := List.head?_dropWhile_not isIdle segments.reverse
    rw [h] at hhead
    simpa using hhead
  · exact List.all_eq_true.mp List.all_takeWhile s (List.mem_reverse.mp hs)

/-- **The parent of a path** whose last step leads somewhere. It is empty, or it starts where the
path does and takes some of its steps, but not the last one. -/
theorem parent?_cases {p q : Path} (hlast : p.steps.getLast? ≠ some ".") (h : p.parent? = some q) :
    q.text = "" ∨ q.isAbsolute = p.isAbsolute ∧ q.steps <+: p.steps.dropLast := by
  obtain ⟨first, rest, hsegments⟩ := List.exists_cons_of_ne_nil (splitSlash_ne_nil p.text.toList)
  have hp : p.segments = first :: rest := hsegments
  unfold parent? ancestors at h
  rw [hp] at h
  cases hdrop : rest.reverse.dropWhile isIdle with
  | nil =>
      simp only [hdrop] at h
      split at h
      · cases h
      · obtain rfl := Option.some.inj h
        exact .inl rfl
  | cons s outer =>
      simp only [hdrop] at h
      obtain ⟨q', others, hupward, hq⟩ := upward_cases first outer
      rw [hupward] at h
      obtain rfl := Option.some.inj h
      obtain ⟨idle, rfl, hs, hidle⟩ := eq_append_idle hdrop
      have hslash : ∀ t ∈ first :: outer.reverse, '/' ∉ t := by
        intro t ht
        refine slash_not_mem_of_mem_splitSlash (?_ : t ∈ p.segments)
        rw [hp, ← List.cons_append]
        exact List.mem_append_left _ ht
      have hne : s ≠ [] := by
        rintro rfl
        cases hs
      have hdropLast : p.steps.dropLast = stepsOf (first :: outer.reverse) :=
        dropLast_steps hp hne hidle hlast
      right
      rw [hdropLast, isAbsolute_of_segments hp (by simp)]
      obtain ⟨kept, hkept, hsuffix, rfl⟩ | rfl := hq
      · exact joined_within hslash (by simpa using hkept) (List.reverse_prefix.mpr hsuffix)
      · exact first_within (hslash first List.mem_cons_self)

end Path

end Defsheet

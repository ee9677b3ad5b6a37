import Defsheet.Identifier
import Defsheet.Proofs.Scanning
import Mathlib.Data.List.Induction

/-!
# Word breaks in constants

The constant for a name is the name in upper case, with an underscore in front of each letter that
begins a word. Where words begin can be told from the positions of the name alone (`BreaksAt`),
while the constant is built from left to right with one character of memory. This module shows that
the two views agree at every position.

An underscore that is put in has a letter or digit of the name on either side, so it never joins one
that the name has itself. Without case and underscores nothing of a name is lost: names that share a
constant differ in nothing else.

## Main results

* `constChars_eq_flatten`: the constant, position by position.
* `BreaksAt.isLoneUnderscore`: where the underscores are, and what is next to them.
* `caseless_constName`: what a constant keeps of its name.
* `constName_breaks_words`: all of this for every name.
-/

namespace Defsheet

/-! ### Where words begin -/

/-- A word begins at a position of a name, other than the first one: there is a capital, and before
it stands a lower-case letter or a digit, or another capital if a lower-case letter follows. -/
def BreaksAt (cs : List Char) (i : Nat) : Prop :=
  0 < i ∧ cs[i]?.any Char.isUpper ∧
    (cs[i - 1]?.any Char.isLower ∨ cs[i - 1]?.any Char.isDigit ∨
      (cs[i - 1]?.any Char.isUpper ∧ cs[i + 1]?.any Char.isLower))

instance (cs : List Char) : DecidablePred (BreaksAt cs) :=
  fun _ => inferInstanceAs (Decidable (_ ∧ _))

/-- How many words begin at the positions before a given one. -/
def breaksBefore (cs : List Char) (i : Nat) : Nat :=
  (List.range i).countP fun j => BreaksAt cs j

/-- What the character at a position contributes to the constant: itself in upper case, behind an
underscore if a word begins there. -/
def constPart (cs : List Char) (i : Nat) (c : Char) : List Char :=
  if BreaksAt cs i then ['_', c.toUpper] else [c.toUpper]

/-- A word more begins before the next position if one begins at this one. -/
theorem breaksBefore_succ (cs : List Char) (i : Nat) :
    breaksBefore cs (i + 1) = breaksBefore cs i + if BreaksAt cs i then 1 else 0 := by
  rw [breaksBefore, List.range_succ, List.countP_append, List.countP_singleton, breaksBefore]
  simp only [decide_eq_true_eq]

/-- A character contributes itself, and an underscore where a word begins. -/
theorem length_constPart (cs : List Char) (i : Nat) (c : Char) :
    (constPart cs i c).length = (if BreaksAt cs i then 1 else 0) + 1 := by
  rw [constPart]
  split <;> rfl

/-- Positions and neighbours tell the same about the beginning of a word. -/
theorem breaksAt_append_iff {before after : List Char} {previous c : Char} :
    BreaksAt (before ++ previous :: c :: after) (before.length + 1) ↔
      beginsWord previous c after.head? = true := by
  have hnext : (before ++ previous :: c :: after)[before.length + 1 + 1]? = after.head? := by
    rw [List.getElem?_append_right (by omega), List.head?_eq_getElem?]
    simp [show before.length + 1 + 1 - before.length = 2 by omega]
  rw [BreaksAt, hnext, Nat.add_sub_cancel]
  simp [beginsWord, or_assoc]

/-- Around the beginning of a word stand the two characters that decide about it. -/
theorem BreaksAt.exists_split {cs : List Char} {i : Nat} (h : BreaksAt cs i) :
    ∃ before previous c after, cs = before ++ previous :: c :: after ∧ before.length + 1 = i := by
  obtain ⟨hpos, hupper, -⟩ := h
  have hlt : i < cs.length := by
    refine Nat.lt_of_not_le fun hle => ?_
    rw [List.getElem?_eq_none hle] at hupper
    cases hupper
  obtain ⟨j, rfl⟩ := Nat.exists_eq_succ_of_ne_zero (Nat.ne_of_gt hpos)
  refine ⟨cs.take j, cs[j], cs[j + 1], cs.drop (j + 1 + 1), ?_, ?_⟩
  · rw [← List.drop_eq_getElem_cons, ← List.drop_eq_getElem_cons, List.take_append_drop]
  · rw [List.length_take, Nat.min_eq_left (by omega)]

/-! ### The constant, position by position -/

/-- The induction is on the characters that are left; those already read fix the positions. -/
theorem constCharsAfter_eq_flatten (before after : List Char) (previous : Char) :
    constCharsAfter previous after =
      (after.mapIdx fun i => constPart (before ++ previous :: after)
        (i + (before.length + 1))).flatten := by
  induction after generalizing before previous with
  | nil => rfl
  | cons c after ih =>
      have hrest := ih (before ++ [previous]) c
      rw [List.append_assoc, List.singleton_append, List.length_append, List.length_singleton]
        at hrest
      have hpart : constPart (before ++ previous :: c :: after) (before.length + 1) c =
          if beginsWord previous c after.head? then ['_', c.toUpper] else [c.toUpper] := by
        rw [constPart]
        exact if_congr breaksAt_append_iff rfl rfl
      rw [constCharsAfter, hrest, List.mapIdx_cons, List.flatten_cons, Nat.zero_add, hpart]
      simp only [Nat.add_assoc, Nat.add_comm 1]
      split <;> rfl

/-- **The constant, position by position.** -/
theorem constChars_eq_flatten (cs : List Char) :
    constChars cs = (cs.mapIdx (constPart cs)).flatten := by
  cases cs with
  | nil => rfl
  | cons c cs =>
      have hfirst : ¬BreaksAt (c :: cs) 0 := fun h => absurd h.1 (Nat.lt_irrefl 0)
      rw [constChars, constCharsAfter_eq_flatten [] cs c, List.mapIdx_cons, List.flatten_cons,
        constPart, if_neg hfirst]
      rfl

/-- A constant is made of underscores and of characters of its name in upper case. -/
theorem mem_constChars {cs : List Char} {x : Char} (h : x ∈ constChars cs) :
    x = '_' ∨ ∃ c ∈ cs, x = c.toUpper := by
  rw [constChars_eq_flatten] at h
  obtain ⟨part, hpart, hx⟩ := List.mem_flatten.mp h
  obtain ⟨i, hi, rfl⟩ := List.mem_mapIdx.mp hpart
  have hupper : x = '_' ∨ x = cs[i].toUpper := by
    rw [constPart] at hx
    split at hx
    · simpa using hx
    · exact .inr (List.mem_singleton.mp hx)
  exact hupper.imp_right fun heq => ⟨cs[i], List.getElem_mem hi, heq⟩

/-- Characters take up one place each, and one more for each word that begins among them. -/
theorem length_flatten_constPart (cs before : List Char) :
    (before.mapIdx (constPart cs)).flatten.length =
      before.length + breaksBefore cs before.length := by
  induction before using List.reverseRecOn with
  | nil => rfl
  | append_singleton before c ih =>
      rw [List.mapIdx_concat, List.flatten_append, List.length_append, ih, List.flatten_singleton,
        length_constPart, List.length_append, List.length_singleton, breaksBefore_succ]
      omega

/-! ### Underscores -/

/-- Only the underscore is one in upper case. -/
theorem toUpper_eq_underscore_iff {c : Char} : c.toUpper = '_' ↔ c = '_' :=
  forall_char (P := fun c => c.toUpper = '_' ↔ c = '_') (by decide)
    (fun c hupper _ _ => by rw [hupper]) c

/-- There is an underscore at a place, with another character on either side. -/
def IsLoneUnderscore (cs : List Char) (place : Nat) : Prop :=
  ∃ u a b v, cs = u ++ a :: '_' :: b :: v ∧ u.length + 1 = place ∧ a ≠ '_' ∧ b ≠ '_'

/-- The neighbours of an underscore that is put in are no underscores themselves. -/
theorem ne_underscore_of_beginsWord {previous c : Char} {next : Option Char}
    (h : beginsWord previous c next = true) : previous.toUpper ≠ '_' ∧ c.toUpper ≠ '_' := by
  rw [ne_eq, ne_eq, toUpper_eq_underscore_iff, toUpper_eq_underscore_iff]
  constructor
  · rintro rfl
    simp [beginsWord] at h
  · rintro rfl
    simp [beginsWord] at h

/-- The constant around two neighbours: what comes before them, and the part of each. -/
theorem exists_constChars_eq {cs before after : List Char} {previous c : Char}
    (h : cs = before ++ previous :: c :: after) :
    ∃ rest, constChars cs = (before.mapIdx (constPart cs)).flatten ++
      (constPart cs before.length previous ++ (constPart cs (before.length + 1) c ++ rest)) := by
  have hsplit (f : Nat → Char → List Char) :
      (cs.mapIdx f).flatten = (before.mapIdx f).flatten ++ (f before.length previous ++
        (f (before.length + 1) c ++
          (after.mapIdx fun i => f (i + 1 + 1 + before.length)).flatten)) := by
    simp [h, List.mapIdx_append, List.mapIdx_cons, Nat.add_comm]
  rw [constChars_eq_flatten, hsplit]
  exact ⟨_, rfl⟩

/-- **Where a word begins, an underscore stands alone**, moved on by those before it. -/
theorem BreaksAt.isLoneUnderscore {cs : List Char} {i : Nat} (h : BreaksAt cs i) :
    IsLoneUnderscore (constChars cs) (i + breaksBefore cs i) := by
  obtain ⟨before, previous, c, after, hcs, rfl⟩ := h.exists_split
  obtain ⟨hprevious, hc⟩ := ne_underscore_of_beginsWord (breaksAt_append_iff.mp (hcs ▸ h))
  obtain ⟨rest, hrest⟩ := exists_constChars_eq hcs
  obtain ⟨lead, hlead⟩ :
      ∃ lead, constPart cs before.length previous = lead ++ [previous.toUpper] := by
    rw [constPart]
    split
    · exact ⟨['_'], rfl⟩
    · exact ⟨[], rfl⟩
  have hlength := length_constPart cs before.length previous
  rw [hlead, List.length_append, List.length_singleton] at hlength
  refine ⟨(before.mapIdx (constPart cs)).flatten ++ lead, previous.toUpper, c.toUpper, rest, ?_, ?_,
    hprevious, hc⟩
  · rw [hrest, hlead, constPart, if_pos h, List.append_assoc, List.append_assoc]
    rfl
  · rw [List.length_append, length_flatten_constPart, breaksBefore_succ]
    omega

/-! ### What a constant keeps of its name -/

/-- What is left of a text if case and underscores do not count. -/
def caseless (s : String) : List Char := (s.toList.filter (· != '_')).map Char.toLower

/-- The underscores that are put in are the only characters which a constant adds. -/
theorem filter_constChars (cs : List Char) :
    (constChars cs).filter (· != '_') = (cs.filter (· != '_')).map Char.toUpper := by
  have hcons (c : Char) (cs : List Char) : (c.toUpper :: cs).filter (· != '_') =
      (if c != '_' then [c.toUpper] else []) ++ cs.filter (· != '_') := by
    rw [List.filter_cons]
    simp only [bne_iff_ne, ne_eq, toUpper_eq_underscore_iff]
    split <;> rfl
  have hafter (previous : Char) (cs : List Char) :
      (constCharsAfter previous cs).filter (· != '_') =
        (cs.filter (· != '_')).map Char.toUpper := by
    induction cs generalizing previous with
    | nil => rfl
    | cons c cs ih =>
        have hrest : (constCharsAfter previous (c :: cs)).filter (· != '_') =
            (c.toUpper :: constCharsAfter c cs).filter (· != '_') := by
          rw [constCharsAfter]
          split <;> rfl
        rw [hrest, hcons, ih, List.filter_cons]
        split <;> rfl
  cases cs with
  | nil => rfl
  | cons c cs =>
      rw [constChars, hcons, hafter, List.filter_cons]
      split <;> rfl

/-- **A constant keeps its name**, case and underscores apart. -/
theorem caseless_constName (s : String) : caseless (constName s) = caseless s := by
  rw [caseless, constName, String.toList_ofList, filter_constChars, List.map_map, caseless]
  refine List.map_congr_left fun c _ => ?_
  exact forall_char (P := fun c => c.toUpper.toLower = c.toLower) (by decide)
    (fun c hupper _ _ => by rw [hupper]) c

/-- Only a lone underscore gives the constant that is one. -/
theorem constName_eq_underscore_iff {s : String} : constName s = "_" ↔ s = "_" := by
  constructor
  · intro h
    have hchars : constChars s.toList = ['_'] := by
      rw [← String.toList_ofList (l := constChars s.toList), ← constName, h]
      rfl
    cases hs : s.toList with
    | nil =>
        rw [hs] at hchars
        cases hchars
    | cons c cs =>
        rw [hs, constChars, List.cons.injEq] at hchars
        obtain ⟨hc, hafter⟩ := hchars
        have hlast : cs = [] := by
          cases cs with
          | nil => rfl
          | cons d ds =>
              rw [constCharsAfter] at hafter
              split at hafter <;> cases hafter
        rw [toUpper_eq_underscore_iff.mp hc, hlast] at hs
        exact String.toList_inj.mp hs
  · rintro rfl
    decide

/-- **Constants break words, and do nothing else.** The constant for a name is made of its
characters in upper case, with an underscore before those at which a word begins. None of these
underscores is at an end of the constant or next to another underscore. Names with the same constant
are the same but for case and underscores, and only the underscore has the underscore as its
constant. -/
theorem constName_breaks_words (x : String) :
    (constName x).toList = (x.toList.mapIdx (constPart x.toList)).flatten ∧
      (∀ i, BreaksAt x.toList i →
        IsLoneUnderscore (constName x).toList (i + breaksBefore x.toList i)) ∧
      (∀ y, constName x = constName y → caseless x = caseless y) ∧
      (constName x = "_" ↔ x = "_") := by
  have hchars : (constName x).toList = constChars x.toList := String.toList_ofList
  refine ⟨?_, fun i hi => ?_, fun y hy => ?_, constName_eq_underscore_iff⟩
  · rw [hchars, constChars_eq_flatten]
  · rw [hchars]
    exact hi.isLoneUnderscore
  · rw [← caseless_constName x, hy, caseless_constName]

/-- The last capital of an acronym begins a word, so both ways to write one lead to the same
constant. -/
theorem constName_breaks_words_of_acronym :
    let x := "MyHTTPServer"
    BreaksAt x.toList 6 ∧ breaksBefore x.toList 6 = 1 ∧
      IsLoneUnderscore "MY_HTTP_SERVER".toList 7 ∧
      constName x = constName "MyHttpServer" ∧ caseless x = caseless "MyHttpServer" := by
  intro x
  have hconst : constName x = "MY_HTTP_SERVER" := by decide
  have hsame : constName x = constName "MyHttpServer" := by decide
  have hbreak : BreaksAt x.toList 6 := by decide
  have hbefore : breaksBefore x.toList 6 = 1 := by decide
  obtain ⟨-, hlone, hcaseless, -⟩ := constName_breaks_words x
  have hplace := hlone 6 hbreak
  rw [hconst, hbefore] at hplace
  exact ⟨hbreak, hbefore, hplace, hsame, hcaseless _ hsame⟩

end Defsheet

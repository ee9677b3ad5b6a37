import Defsheet.Proofs.ModuleNames
import Mathlib.Data.List.DropRight

/-!
# Names in a single pass

Constants and modules can be written in one pass over the characters of a name, with a look at what
has been written so far. Both passes are given here, and both write what `constName` and
`moduleName` say.

The pass for constants puts no underscore behind another one. It never has to hold one back, because
no word begins behind an underscore. The pass for modules writes an underscore as soon as a word is
over, before it knows whether another word follows, and takes the last one away in the end. So its
invariant is that the joined words have been written, and behind them at most the underscore that
waits for the next word (`waiting`).

## Main results

* `constPass_eq`: the pass for constants writes the constant.
* `ModulePass.foldl_step`: what the pass for modules has written after each character.
* `modulePass_eq`: the pass for modules writes the module.
-/

namespace Defsheet

/-! ### Constants -/

/-- Writes one character of a constant, and an underscore before it if a word begins, unless an
underscore has just been written. -/
def constStep (cs out : List Char) (x : Char × Nat) : List Char :=
  (if BreaksAt cs x.2 ∧ out.getLast? ≠ some '_' then out ++ ['_'] else out) ++ [x.1.toUpper]

/-- The constant for a name, written in a single pass. -/
def constPass (name : String) : String :=
  String.ofList (name.toList.zipIdx.foldl (constStep name.toList) [])

/-- No underscore has just been written where a word begins. -/
theorem BreaksAt.getLast?_ne {cs before after : List Char} (h : BreaksAt cs before.length)
    (hcs : cs = before ++ after) :
    ((before.mapIdx (constPart cs)).flatten).getLast? ≠ some '_' := by
  obtain ⟨before', previous, c, after', hsplit, hlength⟩ := h.exists_split
  obtain rfl : before = before' ++ [previous] := by
    rw [hcs, List.append_cons] at hsplit
    exact (List.append_inj hsplit (by simp [hlength])).1
  have hprevious : previous.toUpper ≠ '_' := by
    rw [← hlength, hsplit] at h
    exact (ne_underscore_of_beginsWord (breaksAt_append_iff.mp h)).1
  have hpart : (constPart cs before'.length previous).getLast? = some previous.toUpper := by
    rw [constPart]
    split <;> rfl
  rw [List.mapIdx_concat, List.flatten_append, List.flatten_singleton, List.getLast?_append, hpart,
    Option.some_or]
  exact fun heq => hprevious (Option.some.inj heq)

/-- What has been written after each character. -/
theorem foldl_constStep {cs before after : List Char} (h : cs = before ++ after) :
    before.zipIdx.foldl (constStep cs) [] = (before.mapIdx (constPart cs)).flatten := by
  induction before using List.reverseRecOn generalizing after with
  | nil => rfl
  | append_singleton before c ih =>
      rw [List.append_assoc] at h
      have hstep (out : List Char) (hout : BreaksAt cs before.length → out.getLast? ≠ some '_') :
          constStep cs out (c, before.length) = out ++ constPart cs before.length c := by
        rw [constStep, constPart]
        by_cases hbreak : BreaksAt cs before.length
        · rw [if_pos ⟨hbreak, hout hbreak⟩, if_pos hbreak, List.append_assoc]
          rfl
        · rw [if_neg fun hboth => hbreak hboth.1, if_neg hbreak]
      rw [List.zipIdx_append, List.foldl_append, ih h, Nat.zero_add, List.zipIdx_singleton,
        List.foldl_cons, List.foldl_nil, hstep _ fun hbreak => hbreak.getLast?_ne h,
        List.mapIdx_concat, List.flatten_append, List.flatten_singleton]

/-- **The pass for constants writes the constant.** -/
theorem constPass_eq (name : String) : constPass name = constName name := by
  rw [constPass, foldl_constStep (List.append_nil _).symm, constName, constChars_eq_flatten]

/-! ### Joined words, character by character -/

/-- One more word is joined by an underscore, unless it is the first. -/
theorem intercalate_concat (ws : List (List Char)) (w : List Char) :
    ['_'].intercalate (ws ++ [w]) =
      (if ws = [] then [] else ['_'].intercalate ws ++ ['_']) ++ w := by
  induction ws with
  | nil => rw [if_pos rfl, List.nil_append, List.nil_append, List.intercalate_singleton]
  | cons v ws ih =>
      rw [if_neg (List.cons_ne_nil v ws)]
      cases ws with
      | nil => simp [List.intercalate_cons_cons, List.intercalate_singleton]
      | cons v' ws =>
          rw [if_neg (List.cons_ne_nil v' ws), List.cons_append] at ih
          rw [List.cons_append, List.cons_append, List.intercalate_cons_cons, ih,
            List.intercalate_cons_cons]
          simp only [List.append_assoc]

/-- The last run of neighbours that belong to one word. -/
theorem exists_last_run (cs : List Char) (x : Char) :
    ∃ v w, cs ++ [x] = v ++ (w ++ [x]) ∧ ((w ++ [x]).IsChain fun a b => sameWord a b = true) ∧
      ∀ a ∈ v.getLast?, ∀ b ∈ (w ++ [x]).head?, sameWord a b = false := by
  induction cs using List.reverseRecOn generalizing x with
  | nil => exact ⟨[], [], rfl, .singleton x, by simp⟩
  | append_singleton cs y ih =>
      cases hsame : sameWord y x with
      | false => exact ⟨cs ++ [y], [], rfl, .singleton x, by simp [hsame]⟩
      | true =>
          obtain ⟨v, w, heq, hchain, hends⟩ := ih y
          refine ⟨v, w ++ [y], ?_, ?_, ?_⟩
          · rw [heq, List.append_assoc]
          · refine List.isChain_append.mpr ⟨hchain, .singleton x, ?_⟩
            simp [hsame]
          · rwa [List.head?_append_of_ne_nil _ (by simp)]

/-- A character that belongs to the last word is written right behind it. -/
theorem joinWords_concat_of_sameWord {cs : List Char} {x c : Char} (h : sameWord x c = true) :
    joinWords (cs ++ [x] ++ [c]) = joinWords (cs ++ [x]) ++ [c.toLower] := by
  obtain ⟨v, w, heq, hchain, hends⟩ := exists_last_run cs x
  have hletters : x.isAlphanum = true ∧ c.isAlphanum = true := by
    simp only [sameWord, Bool.and_eq_true] at h
    exact h.1
  have hword {r : List Char} {y : Char} (hr : r.IsChain fun a b => sameWord a b = true)
      (hy : y ∈ r) (hletter : y.isAlphanum = true) : moduleWords r = [r.map Char.toLower] :=
    moduleWords_of_isChain (List.ne_nil_of_mem hy) hr (isAlphanum_of_isChain hr hy hletter)
  have hlonger : (w ++ [x] ++ [c]).IsChain fun a b => sameWord a b = true := by
    refine List.isChain_append.mpr ⟨hchain, .singleton c, ?_⟩
    simp [h]
  have hwords : moduleWords (cs ++ [x]) = moduleWords v ++ [(w ++ [x]).map Char.toLower] := by
    rw [heq, moduleWords_append hends, hword hchain (by simp) hletters.1]
  have hmore : moduleWords (cs ++ [x] ++ [c]) =
      moduleWords v ++ [(w ++ [x] ++ [c]).map Char.toLower] := by
    rw [heq, List.append_assoc, moduleWords_append, hword hlonger (by simp) hletters.2]
    rwa [List.head?_append_of_ne_nil _ (by simp)]
  rw [joinWords, hmore, joinWords, hwords, intercalate_concat, intercalate_concat, List.map_append,
    ← List.append_assoc]
  rfl

/-- A character that begins a word is written behind an underscore, unless it is the first. -/
theorem joinWords_concat_of_begins {cs : List Char} {c : Char} (hletter : c.isAlphanum = true)
    (h : ∀ x ∈ cs.getLast?, sameWord x c = false) :
    joinWords (cs ++ [c]) =
      (if moduleWords cs = [] then [] else joinWords cs ++ ['_']) ++ [c.toLower] := by
  have hword : moduleWords [c] = [[c.toLower]] :=
    moduleWords_of_isChain (List.cons_ne_nil c []) (.singleton c) (by simpa using hletter)
  rw [joinWords, moduleWords_append (by simpa using h), hword, intercalate_concat, joinWords]

/-- A character that belongs to no word changes nothing. -/
theorem moduleWords_concat_of_not_isAlphanum {cs : List Char} {c : Char}
    (h : c.isAlphanum = false) : moduleWords (cs ++ [c]) = moduleWords cs := by
  have hword : moduleWords [c] = [] :=
    moduleWords_eq_nil_iff.mpr (List.forall_mem_singleton.mpr h)
  rw [moduleWords_append, hword, List.append_nil]
  simp [sameWord, h]

/-! ### Modules -/

/-- How far a pass over the name of a document has come: what has been written, and the character
before. -/
structure ModulePass where
  out : List Char
  previous : Option Char

namespace ModulePass

/-- What has been written, with an underscore behind it if the character is a capital after a
lower-case letter. -/
def separated (s : ModulePass) (c : Char) : List Char :=
  if c.isUpper && s.previous.any Char.isLower then s.out ++ ['_'] else s.out

/-- Takes in one more character. Letters and digits are written in lower case. Any other character
ends the word before it, unless this has been done. -/
def step (s : ModulePass) (c : Char) : ModulePass :=
  if c.isAlphanum then ⟨s.separated c ++ [c.toLower], some c⟩
  else if s.out ≠ [] ∧ s.out.getLast? ≠ some '_' then ⟨s.out ++ ['_'], some c⟩
  else ⟨s.out, some c⟩

/-- The underscore that waits for the next word. -/
def waiting (cs : List Char) : List Char :=
  if moduleWords cs ≠ [] ∧ cs.getLast?.any (fun c => !c.isAlphanum) then ['_'] else []

/-- What a pass has come to at the end of the characters. -/
def after (cs : List Char) : ModulePass := ⟨joinWords cs ++ waiting cs, cs.getLast?⟩

/-- No underscore waits behind a letter or digit. -/
theorem waiting_concat_of_isAlphanum {cs : List Char} {c : Char} (h : c.isAlphanum = true) :
    waiting (cs ++ [c]) = [] := by
  rw [waiting, if_neg]
  simp [h]

/-- Behind any other character, an underscore waits if there has been a word. -/
theorem waiting_concat_of_not_isAlphanum {cs : List Char} {c : Char} (h : c.isAlphanum = false) :
    waiting (cs ++ [c]) = if moduleWords cs ≠ [] then ['_'] else [] := by
  rw [waiting, moduleWords_concat_of_not_isAlphanum h, List.getLast?_concat]
  simp [h]

/-- Without a word, nothing has been written. -/
theorem out_after_of_moduleWords_eq_nil {cs : List Char} (h : moduleWords cs = []) :
    (after cs).out = [] := by
  simp [after, joinWords, waiting, h]

/-- Nothing comes between two characters of one word. -/
theorem separated_of_sameWord {cs : List Char} {x c : Char} (h : sameWord x c = true) :
    (after (cs ++ [x])).separated c = joinWords (cs ++ [x]) := by
  rw [sameWord, Bool.and_eq_true, Bool.and_eq_true, Bool.not_eq_true'] at h
  have hcapital : (c.isUpper && (cs ++ [x]).getLast?.any Char.isLower) = false := by
    rw [List.getLast?_concat, Option.any_some, Bool.and_comm, h.2]
  rw [separated, after, hcapital, if_neg Bool.false_ne_true, waiting_concat_of_isAlphanum h.1.1,
    List.append_nil]

/-- Where a word begins, an underscore is written for it, or waits already. -/
theorem separated_of_begins {cs : List Char} {c : Char} (hletter : c.isAlphanum = true)
    (h : ∀ x ∈ cs.getLast?, sameWord x c = false) :
    (after cs).separated c = if moduleWords cs = [] then [] else joinWords cs ++ ['_'] := by
  cases cs using List.reverseRecOn with
  | nil => simp [separated, after, joinWords, waiting, moduleWords]
  | append_singleton cs x =>
      have hprevious : (after (cs ++ [x])).previous = some x := List.getLast?_concat
      rw [separated, hprevious, Option.any_some]
      cases hx : x.isAlphanum with
      | false =>
          have hlower : x.isLower = false := Bool.eq_false_iff.mpr fun hlower =>
            Bool.eq_false_iff.mp hx (isAlphanum_of_plain (.inl hlower))
          rw [hlower, Bool.and_false, if_neg Bool.false_ne_true]
          by_cases hwords : moduleWords (cs ++ [x]) = []
          · rw [if_pos hwords, out_after_of_moduleWords_eq_nil hwords]
          · rw [if_neg hwords, after, waiting_concat_of_not_isAlphanum hx,
              ← moduleWords_concat_of_not_isAlphanum hx, if_pos hwords]
      | true =>
          have hwords : moduleWords (cs ++ [x]) ≠ [] := fun hwords =>
            Bool.eq_false_iff.mp (moduleWords_eq_nil_iff.mp hwords x (by simp)) hx
          have hcapital : (c.isUpper && x.isLower) = true := by
            simpa [sameWord, hx, hletter, and_comm] using h x (by simp)
          rw [if_pos hcapital, if_neg hwords, after, waiting_concat_of_isAlphanum hx,
            List.append_nil]

/-- A letter or digit is written in its word. -/
theorem step_after_of_isAlphanum (cs : List Char) {c : Char} (h : c.isAlphanum = true) :
    (after cs).step c = after (cs ++ [c]) := by
  have hout : (after cs).separated c ++ [c.toLower] = joinWords (cs ++ [c]) := by
    by_cases hbegins : ∀ x ∈ cs.getLast?, sameWord x c = false
    · rw [separated_of_begins h hbegins, joinWords_concat_of_begins h hbegins]
    · obtain ⟨x, hlast, hsame⟩ : ∃ x ∈ cs.getLast?, sameWord x c = true := by
        simpa using hbegins
      obtain ⟨cs, rfl⟩ := List.getLast?_eq_some_iff.mp hlast
      rw [separated_of_sameWord hsame, joinWords_concat_of_sameWord hsame]
  rw [step, if_pos h, hout, after, waiting_concat_of_isAlphanum h, List.append_nil,
    List.getLast?_concat]

/-- Behind any other character, an underscore waits if there has been a word. It is written unless
it waits already. -/
theorem step_after_of_not_isAlphanum (cs : List Char) {c : Char} (h : c.isAlphanum = false) :
    (after cs).step c = after (cs ++ [c]) := by
  have hjoined : joinWords (cs ++ [c]) = joinWords cs := by
    rw [joinWords, moduleWords_concat_of_not_isAlphanum h, joinWords]
  rw [step, if_neg (Bool.eq_false_iff.mp h)]
  by_cases hwords : moduleWords cs = []
  · have hwords' : moduleWords (cs ++ [c]) = [] :=
      (moduleWords_concat_of_not_isAlphanum h).trans hwords
    rw [if_neg fun hout => hout.1 (out_after_of_moduleWords_eq_nil hwords),
      out_after_of_moduleWords_eq_nil hwords]
    exact congrArg₂ mk (out_after_of_moduleWords_eq_nil hwords').symm List.getLast?_concat.symm
  · rw [after, after, hjoined, waiting_concat_of_not_isAlphanum h, if_pos hwords,
      List.getLast?_concat]
    by_cases hwaits : cs.getLast?.any (fun c => !c.isAlphanum) = true
    · have hwaiting : waiting cs = ['_'] := if_pos ⟨hwords, hwaits⟩
      rw [hwaiting, if_neg fun hout => hout.2 List.getLast?_concat]
    · have hwaiting : waiting cs = [] := if_neg fun hboth => hwaits hboth.2
      rw [hwaiting, List.append_nil, if_pos ⟨joinWords_ne_nil hwords,
        fun hlast => (isSpaced_joinWords cs).ends '_' (Option.mem_def.mpr hlast) rfl⟩]

/-- One step of the pass takes in one character. -/
theorem step_after (cs : List Char) (c : Char) : (after cs).step c = after (cs ++ [c]) := by
  cases h : c.isAlphanum with
  | true => exact step_after_of_isAlphanum cs h
  | false => exact step_after_of_not_isAlphanum cs h

/-- **What the pass has written after each character.** -/
theorem foldl_step (cs : List Char) : cs.foldl step ⟨[], none⟩ = after cs := by
  induction cs using List.reverseRecOn with
  | nil => rfl
  | append_singleton cs c ih =>
      rw [List.foldl_append, ih, List.foldl_cons, List.foldl_nil, step_after]

end ModulePass

/-- The module name for a document, written in a single pass: the underscores at the end are taken
away, and the name is kept from beginning with a digit and from being reserved. -/
def modulePass (document : String) : String :=
  let out := (document.toList.foldl ModulePass.step ⟨[], none⟩).out
  let cs := out.rdropWhile (· == '_')
  let guarded := if (cs.head?.any Char.isDigit) then '_' :: cs else cs
  let name := String.ofList guarded
  if isReserved name then name ++ "_" else name

/-- Taking away the underscores at the end leaves the joined words. -/
theorem ModulePass.rdropWhile_out_after (cs : List Char) :
    (after cs).out.rdropWhile (· == '_') = joinWords cs := by
  have hjoined : (joinWords cs).rdropWhile (· == '_') = joinWords cs := by
    rw [List.rdropWhile_eq_self_iff]
    intro hne
    simpa using (isSpaced_joinWords cs).ends _ (List.getLast?_eq_some_getLast hne)
  rw [after, waiting]
  split
  · rw [List.rdropWhile_concat_pos _ _ _ rfl, hjoined]
  · rw [List.append_nil, hjoined]

/-- **The pass for modules writes the module.** -/
theorem modulePass_eq (document : String) : modulePass document = moduleName document := by
  simp only [modulePass, moduleName, ModulePass.foldl_step, ModulePass.rdropWhile_out_after]

end Defsheet

import Defsheet.Proofs.StringLiterals
import Defsheet.Proofs.TextLines

/-!
# Code and its text

A line of code is indented by its depth, so it can be told from its text if it does not begin with a
blank itself and has no line end in it: it is firm. Code is tidy if its lines are firm or empty.

## Main results

* `Code.lines_render` and `Code.unindentedLines_render`: the lines of the text of tidy code are the
  lines of the code.
* `Code.render_inj`: the text of tidy code determines the code.
-/

namespace Defsheet

/-! ### Lines -/

/-- A text that stays one line and keeps its place when it is indented: it does not begin with a
blank, and it has no line end in it. -/
structure IsFirm (s : String) : Prop where
  begins : ∃ c ∈ s.toList.head?, c ≠ ' '
  lineFeed_not_mem : '\n' ∉ s.toList
  ends : s.toList.getLast? ≠ some '\r'

/-- A firm text has a first character, which is not a blank. -/
theorem IsFirm.exists_cons {s : String} (h : IsFirm s) :
    ∃ c cs, s.toList = c :: cs ∧ c ≠ ' ' := by
  obtain ⟨c, hc, hblank⟩ := h.begins
  obtain ⟨cs, hcs⟩ := List.head?_eq_some_iff.mp hc
  exact ⟨c, cs, hcs, hblank⟩

/-- What firm means, as one condition. -/
theorem isFirm_iff {s : String} :
    IsFirm s ↔ (∃ c ∈ s.toList.head?, c ≠ ' ') ∧ '\n' ∉ s.toList ∧
      s.toList.getLast? ≠ some '\r' := by
  constructor
  · rintro ⟨hbegins, hfeed, hends⟩
    exact ⟨hbegins, hfeed, hends⟩
  · rintro ⟨hbegins, hfeed, hends⟩
    exact ⟨hbegins, hfeed, hends⟩

namespace CodeLine

variable {l l' : CodeLine}

/-- The characters of a line in the text, its line feed apart. -/
def chars (l : CodeLine) : List Char :=
  if l.text = "" then [] else List.replicate (4 * l.depth) ' ' ++ l.text.toList

/-- A line is written with a line feed behind it. -/
theorem toList_render (l : CodeLine) : l.render.toList = l.chars ++ ['\n'] := by
  rw [render, chars]
  split <;> simp

/-- A firm line is indented. -/
theorem chars_eq (h : IsFirm l.text) :
    l.chars = List.replicate (4 * l.depth) ' ' ++ l.text.toList := by
  obtain ⟨c, cs, hchars, -⟩ := h.exists_cons
  rw [chars, if_neg]
  intro hempty
  rw [hempty] at hchars
  cases hchars

/-- The depth of a firm line shows in the blanks before it, and its text behind them. -/
theorem blanks_chars (h : IsFirm l.text) :
    (l.chars.takeWhile (· == ' ')).length = 4 * l.depth ∧
      String.ofList (l.chars.dropWhile (· == ' ')) = l.text := by
  obtain ⟨c, cs, hchars, hc⟩ := h.exists_cons
  have hblanks : ∀ x ∈ List.replicate (4 * l.depth) ' ', (x == ' ') = true :=
    fun x hx => beq_iff_eq.mpr (List.eq_of_mem_replicate hx)
  rw [chars_eq h, List.takeWhile_append_of_pos hblanks, List.dropWhile_append_of_pos hblanks,
    hchars, List.takeWhile_cons_of_neg (by simpa using hc),
    List.dropWhile_cons_of_neg (by simpa using hc), ← hchars, String.ofList_toList]
  simp

/-- A firm line is not empty. -/
theorem chars_ne_nil (h : IsFirm l.text) : l.chars ≠ [] := by
  obtain ⟨c, cs, hchars, -⟩ := h.exists_cons
  simp [chars_eq h, hchars]

/-- **A firm line is determined by its characters**: the blanks before the first other character
give the depth. -/
theorem eq_of_chars_eq (h : IsFirm l.text) (h' : IsFirm l'.text) (heq : l.chars = l'.chars) :
    l = l' := by
  obtain ⟨c, cs, hchars, hc⟩ := h.exists_cons
  obtain ⟨c', cs', hchars', hc'⟩ := h'.exists_cons
  rw [chars_eq h, chars_eq h', hchars, hchars'] at heq
  obtain ⟨hblanks, rfl, rfl⟩ := append_stop_inj (p := (· = ' '))
    (fun _ hx => List.eq_of_mem_replicate hx) (fun _ hx => List.eq_of_mem_replicate hx) hc hc' heq
  have hdepth : l.depth = l'.depth := by
    have hlength : 4 * l.depth = 4 * l'.depth := by
      simpa using congrArg List.length hblanks
    omega
  have htext : l.text = l'.text := String.toList_inj.mp (hchars.trans hchars'.symm)
  cases l
  cases l'
  rw [CodeLine.mk.injEq]
  exact ⟨hdepth, htext⟩

/-- A line that is firm or empty. -/
def IsTidy (l : CodeLine) : Prop := l = Code.gap ∨ IsFirm l.text

namespace IsTidy

/-- A tidy line is one line. -/
theorem lineFeed_not_mem_chars (h : l.IsTidy) : '\n' ∉ l.chars := by
  obtain rfl | h := h
  · exact List.not_mem_nil
  · rw [chars_eq h, List.mem_append, List.mem_replicate]
    rintro (⟨-, hblank⟩ | htext)
    · cases hblank
    · exact h.lineFeed_not_mem htext

/-- A tidy line does not end in a carriage return, which would be taken for a part of the line end.
-/
theorem chars_ends (h : l.IsTidy) : l.chars.getLast? ≠ some '\r' := by
  obtain rfl | h := h
  · exact Option.some_ne_none _ ∘ Eq.symm
  · obtain ⟨c, cs, hchars, -⟩ := h.exists_cons
    have hends := h.ends
    rw [hchars] at hends
    rwa [chars_eq h, hchars, List.getLast?_append, List.getLast?_cons, Option.some_or,
      ← List.getLast?_cons]

/-- Tidy lines can be told from their characters: the blanks in front are the depth, and the rest is
the text. -/
theorem eq_of_chars_eq (h : l.IsTidy) (h' : l'.IsTidy) (heq : l.chars = l'.chars) : l = l' := by
  rcases h with rfl | h <;> rcases h' with rfl | h'
  · rfl
  · exact absurd heq.symm (chars_ne_nil h')
  · exact absurd heq (chars_ne_nil h)
  · exact CodeLine.eq_of_chars_eq h h' heq

end IsTidy

end CodeLine

/-! ### Code -/

/-- The lines of a text, without the blanks before them. -/
def unindentedLines (text : String) : List String :=
  (lines text.toList).map fun l => String.ofList (l.dropWhile (· == ' '))

namespace Code

variable {code code' : Code}

/-- Code is indented piece by piece. -/
theorem indent_append (code code' : Code) :
    indent (code ++ code') = indent code ++ indent code' :=
  List.map_append

/-- No code is lost by an indentation. -/
theorem indent_injective (h : indent code = indent code') : code = code' := by
  refine (List.map_inj_right fun l l' heq => ?_).mp h
  obtain ⟨hdepth, htext⟩ := CodeLine.mk.inj heq
  cases l
  cases l'
  rw [CodeLine.mk.injEq]
  exact ⟨Nat.succ.inj hdepth, htext⟩

/-- Brackets are indented with what is inside them. -/
theorem indent_bracketed (opening closing : String) (body : Code) :
    indent (bracketed opening body closing) =
      ⟨1, opening⟩ :: (indent (indent body) ++ [⟨1, closing⟩]) := by
  rw [bracketed, ← List.cons_append, indent_append]
  rfl

/-- Code whose lines are firm or empty. -/
def IsTidy (code : Code) : Prop := ∀ l ∈ code, l.IsTidy

@[simp]
theorem isTidy_nil : IsTidy [] := List.forall_mem_nil _

@[simp]
theorem isTidy_append_iff : IsTidy (code ++ code') ↔ IsTidy code ∧ IsTidy code' :=
  List.forall_mem_append

@[simp]
theorem isTidy_cons_iff {l : CodeLine} : IsTidy (l :: code) ↔ l.IsTidy ∧ IsTidy code :=
  List.forall_mem_cons

/-- Code each of whose lines has some property, whatever its depth. -/
def AllTexts (P : String → Prop) (code : Code) : Prop := ∀ l ∈ code, P l.text

variable {P : String → Prop}

@[simp]
theorem allTexts_nil : AllTexts P [] := List.forall_mem_nil _

@[simp]
theorem allTexts_append_iff : AllTexts P (code ++ code') ↔ AllTexts P code ∧ AllTexts P code' :=
  List.forall_mem_append

@[simp]
theorem allTexts_cons_iff {l : CodeLine} : AllTexts P (l :: code) ↔ P l.text ∧ AllTexts P code :=
  List.forall_mem_cons

/-- What holds of all texts does not depend on the depth. -/
@[simp]
theorem allTexts_indent_iff : AllTexts P (indent code) ↔ AllTexts P code := by
  simp [AllTexts, indent]

/-- What holds of a block holds of its brackets and of what is inside them. -/
theorem allTexts_bracketed_iff {opening closing : String} :
    AllTexts P (bracketed opening code closing) ↔ P opening ∧ AllTexts P code ∧ P closing := by
  simp [bracketed, line]

/-- What holds of each line holds of all of them. -/
theorem AllTexts.map {α : Type} {xs : List α} {f : α → CodeLine} (h : ∀ x, P (f x).text) :
    AllTexts P (xs.map f) := by
  intro l hl
  obtain ⟨x, -, rfl⟩ := List.mem_map.mp hl
  exact h x

/-- What holds of each piece of code holds of all of them. -/
theorem AllTexts.flatMap {α : Type} {xs : List α} {f : α → Code} (h : ∀ x, AllTexts P (f x)) :
    AllTexts P (xs.flatMap f) := by
  intro l hl
  obtain ⟨x, -, hl⟩ := List.mem_flatMap.mp hl
  exact h x l hl

/-- Code with firm lines is tidy. -/
theorem AllTexts.isTidy (h : AllTexts IsFirm code) : IsTidy code := fun l hl => .inr (h l hl)

/-- The lines that begin a file are tidy; the second one is about the document too. -/
theorem isTidy_fileHeader {document about : String} (hdocument : '\n' ∉ document.toList)
    (habout : '\n' ∉ about.toList) :
    IsTidy (fileHeader document (about ++ document ++ "`.")) := by
  simp only [fileHeader, isTidy_cons_iff]
  refine ⟨.inr ?_, .inr ?_, .inl rfl, isTidy_nil⟩
  · simp [line, isFirm_iff, List.getLast?_cons, hdocument]
  · simp [line, isFirm_iff, List.getLast?_cons, hdocument, habout]

/-- The text of code is the lines of it, each with a line feed. -/
theorem toList_render (code : Code) :
    code.render.toList = code.flatMap fun l => l.chars ++ ['\n'] := by
  induction code with
  | nil => rfl
  | cons l code ih =>
      rw [render, List.map_cons, String.join_cons, String.toList_append, l.toList_render,
        List.flatMap_cons, ← ih, render]

/-- Code that is put together becomes a text that is put together. -/
theorem render_append (code code' : Code) :
    (code ++ code').render = code.render ++ code'.render := by
  refine String.toList_inj.mp ?_
  rw [String.toList_append, toList_render, toList_render, toList_render, List.flatMap_append]

/-- Code becomes whole lines. -/
theorem getLast?_render (code : Code) : ∀ x ∈ code.render.toList.getLast?, x = '\n' := by
  obtain rfl | ⟨code, l, rfl⟩ := code.eq_nil_or_concat
  · exact fun x hx => by cases hx
  · rw [toList_render, List.concat_eq_append, List.flatMap_append, List.flatMap_singleton,
      ← List.append_assoc]
    exact getLast?_lineFeed _

/-- **The lines of the text are the lines of the code.** -/
theorem lines_render (h : IsTidy code) : lines code.render.toList = code.map CodeLine.chars := by
  induction code with
  | nil => rfl
  | cons l code ih =>
      obtain ⟨hl, hcode⟩ := isTidy_cons_iff.mp h
      rw [toList_render, List.flatMap_cons, ← toList_render, lines_append (getLast?_lineFeed _),
        ih hcode, lines_concat hl.lineFeed_not_mem_chars hl.chars_ends, List.map_cons,
        List.singleton_append]

/-- **The text of code is read back** line by line. -/
theorem unindentedLines_render (h : IsTidy code) :
    unindentedLines code.render = code.map CodeLine.text := by
  rw [unindentedLines, lines_render h, List.map_map]
  refine List.map_congr_left fun l hl => ?_
  obtain rfl | hfirm := h l hl
  · rfl
  · exact (CodeLine.blanks_chars hfirm).2

/-- The lines of tidy code are determined by their characters. -/
theorem eq_of_map_chars_eq (h : IsTidy code) (h' : IsTidy code')
    (heq : code.map CodeLine.chars = code'.map CodeLine.chars) : code = code' := by
  induction code generalizing code' with
  | nil => exact (List.map_eq_nil_iff.mp heq.symm).symm
  | cons l code ih =>
      cases code' with
      | nil => cases heq
      | cons l' code' =>
          rw [isTidy_cons_iff] at h h'
          rw [List.map_cons, List.map_cons, List.cons.injEq] at heq
          rw [h.1.eq_of_chars_eq h'.1 heq.1, ih h.2 h'.2 heq.2]

/-- **The text determines the code**, also behind a text that both have in common. -/
theorem render_inj {before : Code} (h : IsTidy code) (h' : IsTidy code')
    (heq : render (before ++ code) = render (before ++ code')) : code = code' := by
  have hlist := congrArg String.toList heq
  rw [toList_render, toList_render, List.flatMap_append, List.flatMap_append] at hlist
  have hrest := List.append_cancel_left hlist
  rw [← toList_render, ← toList_render] at hrest
  refine eq_of_map_chars_eq h h' ?_
  rw [← lines_render h, ← lines_render h', hrest]

end Code

end Defsheet

import Defsheet.Text.Quoted
import Mathlib.Data.List.Induction
import Mathlib.Data.Nat.Digits.Defs

/-!
# Reading string literals

A generated string literal is read by rules that know nothing of how it was written: the escapes of
one character, code points of one to six hexadecimal digits, and characters that stand for
themselves. `decode?` refuses whatever is no literal by these rules, so a literal that it reads is
one, and the text that it gives is the one that the literal stands for.

What is written for one character is read back whatever follows it, so a literal can be read off the
front of any text, and it determines what it stands for (`quote_append_inj`).

A quote inside a literal does not end it if it is escaped. Whether it is can be told from the number
of backslashes in front of it (`EscapesNext`).

## Main results

* `decode?_quote_append`: a literal is decoded in front of any text.
* `quote_append_inj`: a literal in front of a text determines what it stands for and the rest.
* `lineFeed_not_mem_quote`: a literal stays on its line.
* `escapesNext_of_flatMap_escapeChar`: quotes between the quotes are escaped.
* `quote_stands_for_text`: what a literal looks like, and what it stands for.
-/

namespace Defsheet

/-! ### Ends of runs -/

/-- Two lists that begin with runs of items, each ended by an item of another sort, have the same
run, the same end and the same rest. -/
theorem append_stop_inj {α : Type} {p : α → Prop} {xs ys r r' : List α} {s s' : α}
    (hxs : ∀ x ∈ xs, p x) (hys : ∀ y ∈ ys, p y) (hs : ¬p s) (hs' : ¬p s')
    (h : xs ++ s :: r = ys ++ s' :: r') : xs = ys ∧ s = s' ∧ r = r' := by
  induction xs generalizing ys with
  | nil =>
      cases ys with
      | nil =>
          obtain ⟨rfl, rfl⟩ := List.cons.inj h
          exact ⟨rfl, rfl, rfl⟩
      | cons y ys =>
          obtain ⟨rfl, -⟩ := List.cons.inj h
          exact absurd (hys s List.mem_cons_self) hs
  | cons x xs ih =>
      rw [List.forall_mem_cons] at hxs
      cases ys with
      | nil =>
          obtain ⟨rfl, -⟩ := List.cons.inj h
          exact absurd hxs.1 hs'
      | cons y ys =>
          rw [List.forall_mem_cons] at hys
          obtain ⟨rfl, htail⟩ := List.cons.inj h
          obtain ⟨rfl, rfl, rfl⟩ := ih hxs.2 hys.2 htail
          exact ⟨rfl, rfl, rfl⟩

/-! ### Code points -/

/-- The value of a hexadecimal digit. -/
def hexDigitValue (c : Char) : Nat := if c.isDigit then c.toNat - 48 else c.toNat - 87

/-- The number that hexadecimal digits stand for. -/
def hexValue (cs : List Char) : Nat := cs.foldl (fun n c => 16 * n + hexDigitValue c) 0

/-- Hexadecimal digits are read as they are written. -/
theorem hexDigitValue_digitChar {d : Nat} (h : d < 16) : hexDigitValue d.digitChar = d := by
  revert d
  decide

/-- The digits of a number stand for it. -/
theorem hexValue_hexDigits (n : Nat) : hexValue (hexDigits n) = n := by
  induction n using Nat.strongRecOn with
  | ind n ih =>
      rw [hexDigits]
      by_cases h : n < 16
      · rw [Nat.toDigits_of_lt_base h, hexValue, List.foldl_cons, List.foldl_nil,
          hexDigitValue_digitChar h]
        omega
      · have hvalue : hexValue (Nat.toDigits 16 (n / 16)) = n / 16 := ih (n / 16) (by omega)
        have hdigit : n % 16 < 16 := Nat.mod_lt n (by decide)
        rw [hexValue] at hvalue
        rw [Nat.toDigits_of_base_le (by decide) (Nat.le_of_not_lt h), hexValue, List.foldl_append,
          hvalue, List.foldl_cons, List.foldl_nil, hexDigitValue_digitChar hdigit]
        omega

/-- What is written for a number are digits. -/
theorem exists_digit_of_mem_hexDigits {n : Nat} {c : Char} (h : c ∈ hexDigits n) :
    ∃ d < 16, c = d.digitChar := by
  induction n using Nat.strongRecOn with
  | ind n ih =>
      rw [hexDigits] at h
      by_cases hn : n < 16
      · rw [Nat.toDigits_of_lt_base hn, List.mem_singleton] at h
        exact ⟨n, hn, h⟩
      · rw [Nat.toDigits_of_base_le (by decide) (Nat.le_of_not_lt hn), List.mem_append,
          List.mem_singleton] at h
        obtain h | h := h
        · exact ih (n / 16) (by omega) h
        · exact ⟨n % 16, Nat.mod_lt n (by decide), h⟩

/-- A character that is no digit is not among the digits of a number. -/
theorem not_mem_hexDigits {n : Nat} {c : Char} (hc : ∀ d < 16, d.digitChar ≠ c) :
    c ∉ hexDigits n := by
  intro h
  obtain ⟨d, hd, rfl⟩ := exists_digit_of_mem_hexDigits h
  exact hc d hd rfl

/-! ### The rules of the language -/

/-- The character that an escape of one character stands for. -/
def shortEscape? : Char → Option Char
  | '0' => some '\x00'
  | 't' => some '\t'
  | 'r' => some '\r'
  | 'n' => some '\n'
  | '"' => some '"'
  | '\\' => some '\\'
  | _ => none

/-- Whether the character is a hexadecimal digit, in either case. -/
def isHexDigit (c : Char) : Bool :=
  c.isDigit || ('a' ≤ c && c ≤ 'f') || ('A' ≤ c && c ≤ 'F')

/-- The character with the given code point: one to six digits that stand for a scalar value. -/
def codePoint? (ds : List Char) : Option Char :=
  let n := hexValue (ds.map Char.toLower)
  if ds ≠ [] ∧ ds.length ≤ 6 ∧ ds.all isHexDigit ∧ n.isValidChar then some (Char.ofNat n) else none

/-- Reads one character of a literal: an escape, or a character that stands for itself. Neither a
quote nor a carriage return does. -/
def decodeChar? : List Char → Option (Char × List Char)
  | '\\' :: 'u' :: '\x7b' :: rest =>
    match rest.dropWhile (· != '\x7d') with
    | _ :: left => (codePoint? (rest.takeWhile (· != '\x7d'))).map (·, left)
    | [] => none
  | '\\' :: e :: rest => (shortEscape? e).map (·, rest)
  | c :: rest => if c = '\\' ∨ c = '"' ∨ c = '\r' then none else some (c, rest)
  | [] => none

/-- Reading a character leaves less of the text. -/
theorem length_decodeChar?_lt {cs rest : List Char} {c : Char}
    (h : decodeChar? cs = some (c, rest)) : rest.length < cs.length := by
  revert h
  fun_cases decodeChar? cs with
  | case1 rest' x left hdrop =>
      intro h
      obtain ⟨d, -, hd⟩ := Option.map_eq_some_iff.mp h
      obtain ⟨-, rfl⟩ := Prod.mk.inj hd
      have hlength := (List.dropWhile_suffix (l := rest') (· != '\x7d')).length_le
      rw [hdrop, List.length_cons] at hlength
      simp only [List.length_cons]
      omega
  | case2 => rintro ⟨⟩
  | case3 e rest' =>
      intro h
      obtain ⟨d, -, hd⟩ := Option.map_eq_some_iff.mp h
      obtain ⟨-, rfl⟩ := Prod.mk.inj hd
      simp only [List.length_cons]
      omega
  | case4 => rintro ⟨⟩
  | case5 c rest =>
      rintro ⟨⟩
      exact Nat.lt_succ_self _
  | case6 => rintro ⟨⟩

/-- Reads characters up to the quote that ends a literal. -/
def decodeChars? (cs : List Char) : Option (List Char × List Char) :=
  match _h : decodeChar? cs with
  | some (c, rest) => (decodeChars? rest).map fun x => (c :: x.1, x.2)
  | none => if cs.head? = some '"' then some ([], cs.tail) else none
termination_by cs.length
decreasing_by exact length_decodeChar?_lt ‹_›

/-- Reads a literal off the front of a text: what it stands for, and the text behind it. -/
def decode? (text : List Char) : Option (String × List Char) :=
  if text.head? = some '"' then
    (decodeChars? text.tail).map fun x => (String.ofList x.1, x.2)
  else none

/-! ### Decoding what was written -/

/-- The digits of a code point give back the character. -/
theorem codePoint?_hexDigits (c : Char) : codePoint? (hexDigits c.toNat) = some c := by
  have hdigits : ∀ d < 16, isHexDigit d.digitChar = true ∧ d.digitChar.toLower = d.digitChar := by
    decide
  have hdigit : ∀ x ∈ hexDigits c.toNat, isHexDigit x = true ∧ x.toLower = x := by
    intro x hx
    obtain ⟨d, hd, rfl⟩ := exists_digit_of_mem_hexDigits hx
    exact hdigits d hd
  have hlower : (hexDigits c.toNat).map Char.toLower = hexDigits c.toNat :=
    (List.map_congr_left fun x hx => (hdigit x hx).2).trans (List.map_id _)
  have hlt : c.toNat < 16 ^ 6 := by
    obtain h | ⟨-, h⟩ := c.valid
    · exact h.trans (by decide)
    · exact h.trans (by decide)
  have hlength : (hexDigits c.toNat).length ≤ 6 := Nat.toDigits_length 16 _ 6 (by decide) hlt
  rw [codePoint?, hlower, hexValue_hexDigits, if_pos, Char.ofNat_toNat]
  exact ⟨Nat.toDigits_ne_nil, hlength, List.all_eq_true.mpr fun x hx => (hdigit x hx).1, c.valid⟩

/-- What is written for a character is decoded, whatever follows it. -/
theorem decodeChar?_escapeChar (c : Char) (rest : List Char) :
    decodeChar? (escapeChar c ++ rest) = some (c, rest) := by
  fun_cases escapeChar c with
  | case7 c _ _ hcr _ hquote hbackslash =>
      rw [List.singleton_append, decodeChar?, if_neg]
      · rintro (rfl | rfl | rfl)
        · exact hbackslash rfl
        · exact hquote rfl
        · exact hcr rfl
      all_goals intros; contradiction
  | case8 c =>
      have hbrace : '\x7d' ∉ hexDigits c.toNat := not_mem_hexDigits (by decide)
      have hrun : ∀ x ∈ hexDigits c.toNat, (x != '\x7d') = true := by
        intro x hx
        exact bne_iff_ne.mpr fun heq => hbrace (heq ▸ hx)
      simp only [List.cons_append, List.nil_append, List.append_assoc, decodeChar?]
      rw [List.takeWhile_append_of_pos hrun, List.dropWhile_append_of_pos hrun]
      simp [codePoint?_hexDigits]
  | _ => rfl

/-- The quote that ends a literal stands for no character. -/
theorem decodeChar?_quote (rest : List Char) : decodeChar? ('"' :: rest) = none := by
  rw [decodeChar?, if_pos (.inr (.inl rfl))]
  all_goals intros; contradiction

/-- **What is written for characters is decoded**, up to the quote that ends it. -/
theorem decodeChars?_flatMap_escapeChar (cs rest : List Char) :
    decodeChars? (cs.flatMap escapeChar ++ '"' :: rest) = some (cs, rest) := by
  induction cs with
  | nil =>
      rw [List.flatMap_nil, List.nil_append, decodeChars?]
      split
      · next h =>
        rw [decodeChar?_quote] at h
        cases h
      · rfl
  | cons c cs ih =>
      rw [List.flatMap_cons, List.append_assoc, decodeChars?]
      split
      · next h =>
        rw [decodeChar?_escapeChar] at h
        obtain ⟨rfl, rfl⟩ := Prod.mk.inj (Option.some.inj h)
        rw [ih]
        rfl
      · next h =>
        rw [decodeChar?_escapeChar] at h
        cases h

/-- **A literal is decoded in front of any text.** -/
theorem decode?_quote_append (s : String) (rest : List Char) :
    decode? ((quote s).toList ++ rest) = some (s, rest) := by
  have htext : (quote s).toList ++ rest = '"' :: (s.toList.flatMap escapeChar ++ '"' :: rest) := by
    simp [quote, quoteChars]
  rw [htext, decode?, List.head?_cons, if_pos rfl, List.tail_cons, decodeChars?_flatMap_escapeChar,
    Option.map_some, String.ofList_toList]

/-- **A literal in front of a text** determines what it stands for, and the rest of the text. -/
theorem quote_append_inj {s t u v : String} (h : quote s ++ u = quote t ++ v) : s = t ∧ u = v := by
  have hdecode := congrArg (fun x => decode? x.toList) h
  simp only [String.toList_append, decode?_quote_append] at hdecode
  obtain ⟨rfl, hrest⟩ := Prod.mk.inj (Option.some.inj hdecode)
  exact ⟨rfl, String.toList_inj.mp hrest⟩

/-- Different texts have different literals. -/
theorem quote_injective {s t : String} (h : quote s = quote t) : s = t :=
  (quote_append_inj (congrArg (· ++ "") h)).1

/-- What has a short escape, quotes and backslashes apart, is not written as it is. -/
theorem not_mem_escapeChar {x : Char} (hx : x = '\x00' ∨ x = '\t' ∨ x = '\r' ∨ x = '\n')
    (c : Char) : x ∉ escapeChar c := by
  fun_cases escapeChar c with
  | case7 c hnul htab hcr hlf =>
      rw [List.mem_singleton]
      rintro rfl
      obtain h | h | h | h := hx
      · exact hnul h
      · exact htab h
      · exact hcr h
      · exact hlf h
  | case8 c =>
      have hdigits : x ∉ hexDigits c.toNat := by
        obtain rfl | rfl | rfl | rfl := hx <;> exact not_mem_hexDigits (by decide)
      obtain rfl | rfl | rfl | rfl := hx <;> simpa using hdigits
  | _ => obtain rfl | rfl | rfl | rfl := hx <;> decide

/-- **A literal stays on its line.** -/
@[simp]
theorem lineFeed_not_mem_quote (s : String) : '\n' ∉ (quote s).toList := by
  simp [quote, quoteChars, not_mem_escapeChar]

/-! ### Quotes inside -/

/-- Whether the character behind the text is escaped: an odd number of backslashes stands right
before it. -/
def EscapesNext (cs : List Char) : Prop := (cs.reverse.takeWhile (· == '\\')).length % 2 = 1

/-- A backslash escapes what follows unless it is escaped itself. -/
theorem escapesNext_concat_backslash {cs : List Char} :
    EscapesNext (cs ++ ['\\']) ↔ ¬EscapesNext cs := by
  rw [EscapesNext, List.reverse_concat, List.takeWhile_cons_of_pos (by rfl), List.length_cons,
    EscapesNext]
  omega

/-- No other character escapes anything. -/
theorem not_escapesNext_concat {cs : List Char} {c : Char} (hc : c ≠ '\\') :
    ¬EscapesNext (cs ++ [c]) := by
  rw [EscapesNext, List.reverse_concat, List.takeWhile_cons_of_neg (by simpa using hc)]
  decide

/-- What is written for a character takes care of its own backslashes. -/
theorem not_escapesNext_append_escapeChar {cs : List Char} (h : ¬EscapesNext cs) (c : Char) :
    ¬EscapesNext (cs ++ escapeChar c) := by
  fun_cases escapeChar c with
  | case6 =>
      rw [List.append_cons, escapesNext_concat_backslash, escapesNext_concat_backslash]
      exact not_not_intro h
  | case7 c _ _ _ _ _ hbackslash => exact not_escapesNext_concat hbackslash
  | case8 c =>
      rw [← List.append_assoc]
      exact not_escapesNext_concat (by decide)
  | _ =>
      rw [List.append_cons]
      exact not_escapesNext_concat (by decide)

/-- What is written between the quotes does not escape the closing one. -/
theorem not_escapesNext_flatMap_escapeChar (cs : List Char) :
    ¬EscapesNext (cs.flatMap escapeChar) := by
  induction cs using List.reverseRecOn with
  | nil =>
      rw [List.flatMap_nil, EscapesNext]
      decide
  | append_singleton cs c ih =>
      rw [List.flatMap_append, List.flatMap_singleton]
      exact not_escapesNext_append_escapeChar ih c

/-- A quote is written behind a backslash, and for no other character. -/
theorem eq_of_escapeChar_eq_append {c : Char} {before after : List Char}
    (h : escapeChar c = before ++ '"' :: after) : before = ['\\'] := by
  have hquote : '"' ∈ escapeChar c := by
    rw [h]
    exact List.mem_append_right _ List.mem_cons_self
  revert h hquote
  fun_cases escapeChar c with
  | case5 =>
      intro h _
      obtain _ | ⟨x, before⟩ := before
      · exact absurd (List.cons.inj h).1 (by decide)
      · obtain ⟨rfl, htail⟩ := List.cons.inj h
        obtain _ | ⟨y, before⟩ := before
        · rfl
        · have hlength := congrArg List.length htail
          simp at hlength
  | case7 c _ _ _ _ hc =>
      intro _ hquote
      exact absurd (List.mem_singleton.mp hquote).symm hc
  | case8 c =>
      intro _ hquote
      have hdigits : '"' ∉ hexDigits c.toNat := not_mem_hexDigits (by decide)
      simp [hdigits] at hquote
  | _ => exact fun _ hquote => absurd hquote (by decide)

/-- **A quote between the quotes is escaped.** -/
theorem escapesNext_of_flatMap_escapeChar {cs before after : List Char}
    (h : cs.flatMap escapeChar = before ++ '"' :: after) : EscapesNext before := by
  -- The induction goes from the end: the quote was written earlier, or for the last character.
  induction cs using List.reverseRecOn generalizing after with
  | nil => simp at h
  | append_singleton cs c ih =>
      rw [List.flatMap_append, List.flatMap_singleton, List.append_eq_append_iff] at h
      obtain ⟨more, rfl, hescape⟩ | ⟨more, hcs, hafter⟩ := h
      · rw [eq_of_escapeChar_eq_append hescape, escapesNext_concat_backslash]
        exact not_escapesNext_flatMap_escapeChar cs
      · obtain _ | ⟨x, more⟩ := more
        · have hnil : [] = ['\\'] := eq_of_escapeChar_eq_append hafter.symm
          cases hnil
        · obtain ⟨rfl, -⟩ := List.cons.inj hafter
          exact ih hcs

/-! ### Literals -/

/-- **A string literal stands for its text.** It begins and ends with a quote; every quote between
the two is escaped, and the last one is not. No line feed, carriage return, tab or null character
stands in it as it is. By the rules of the language it can be read off the front of any text, and
what it stands for is what it was written for; in particular different texts have different
literals. -/
theorem quote_stands_for_text (s : String) :
    (∃ body, (quote s).toList = '"' :: (body ++ ['"']) ∧ ¬EscapesNext body ∧
      ∀ before after, body = before ++ '"' :: after → EscapesNext before) ∧
    (∀ c ∈ (quote s).toList, c ≠ '\n' ∧ c ≠ '\r' ∧ c ≠ '\t' ∧ c ≠ '\x00') ∧
    (∀ rest, decode? ((quote s).toList ++ rest) = some (s, rest)) ∧
    ∀ s', quote s' = quote s → s' = s := by
  have htext : (quote s).toList = '"' :: (s.toList.flatMap escapeChar ++ ['"']) :=
    String.toList_ofList
  refine ⟨⟨_, htext, not_escapesNext_flatMap_escapeChar _,
    fun _ _ => escapesNext_of_flatMap_escapeChar⟩, ?_, decode?_quote_append s,
    fun s' h => quote_injective h⟩
  have hraw {x : Char} (hx : x = '\x00' ∨ x = '\t' ∨ x = '\r' ∨ x = '\n') :
      x ∉ (quote s).toList := by
    have hquote : x ≠ '"' := by
      obtain rfl | rfl | rfl | rfl := hx <;> decide
    simp [htext, not_mem_escapeChar hx, hquote]
  intro c hc
  refine ⟨?_, ?_, ?_, ?_⟩ <;> rintro rfl <;> exact absurd hc (hraw (by decide))

end Defsheet

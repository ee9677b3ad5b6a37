import Defsheet.Token.Scan

/-!
# What a text is made of

The pieces of a text are the whole text (`flatMap_text_pieces`), and each of them is what it claims
to be (`Piece.IsSound`): an identifier is a name, a string has no quote in it, a comment stays on
its line. So a text without lexical findings consists of its tokens, with nothing but blanks and
comments between them (`Laid`).

In the other direction, a lexeme is read back wherever it ends before what follows it
(`Lexeme.EndsBefore`). Nothing goes on across a blank, so lexemes that are written out with blanks
between them are read back as they are.

## Main results

* `Scan.isReadable_of_mem_bodyOf`: what the tokens of a text can be.
* `Scan.laid_of_findings_eq_nil`: a text without lexical findings is laid out by its tokens.
* `Scan.ofText_spaced`: spaced lexemes are read back.
-/

namespace Defsheet

/-! ### Names -/

/-- The string consists of letters, digits and underscores. -/
def IsWordy (s : String) : Prop := ∀ c ∈ s.toList, isWordChar c = true

/-- The string can be a name in a document. -/
structure IsName (s : String) : Prop where
  begins : ∃ c cs, s.toList = c :: cs ∧ isWordStart c = true
  wordy : IsWordy s
  free : Keyword.ofWord? s = none

/-- A word can go on with whatever it can begin with. -/
theorem isWordChar_of_isWordStart {c : Char} (h : isWordStart c = true) : isWordChar c = true := by
  simp only [isWordStart, isWordChar, Char.isAlphanum, Bool.or_eq_true] at h ⊢
  obtain h | h := h
  · exact .inl (.inl h)
  · exact .inr h

/-- Word characters are few, so that facts about them can be checked one by one. -/
theorem toNat_lt_of_isWordChar {c : Char} (h : isWordChar c = true) : c.toNat < 128 := by
  rw [isWordChar, Bool.or_eq_true, Char.isAlphanum, Bool.or_eq_true, beq_iff_eq] at h
  obtain (hletter | hdigit) | rfl := h
  · obtain hupper | hlower := Bool.or_eq_true_iff.mp hletter
    · have hle : c.toNat ≤ 90 := (of_decide_eq_true hupper).2
      omega
    · have hle : c.toNat ≤ 122 := of_decide_eq_true (Bool.and_eq_true_iff.mp hlower).2
      omega
  · have hle := (Char.isDigit_iff_toNat.mp hdigit).2
    change c.toNat ≤ 57 at hle
    omega
  · decide

/-- What holds of the word characters below 128 holds of all word characters. -/
theorem forall_isWordChar {P : Char → Prop}
    (h : ∀ n < 128, isWordChar (Char.ofNat n) = true → P (Char.ofNat n)) {c : Char}
    (hc : isWordChar c = true) : P c := by
  have hP := h c.toNat (toNat_lt_of_isWordChar hc)
  rw [Char.ofNat_toNat] at hP
  exact hP hc

/-- What holds of the word characters and of all characters that have no case holds of all. -/
theorem forall_char {P : Char → Prop}
    (hword : ∀ n < 128, isWordChar (Char.ofNat n) = true → P (Char.ofNat n))
    (hother : ∀ c : Char, c.toUpper = c → c.toLower = c → c.isLower = false → P c) (c : Char) :
    P c := by
  cases hc : isWordChar c with
  | true => exact forall_isWordChar hword hc
  | false =>
      have hletters : c.isUpper = false ∧ c.isLower = false := by
        simp only [isWordChar, Char.isAlphanum, Bool.or_eq_false_iff] at hc
        exact Bool.or_eq_false_iff.mp hc.1.1
      have hupper : c.toUpper = c := dif_neg fun h => by
        have hlower : c.isLower = true :=
          Bool.and_eq_true_iff.mpr ⟨decide_eq_true h.1, decide_eq_true h.2⟩
        rw [hletters.2] at hlower
        cases hlower
      have hlower : c.toLower = c := dif_neg fun h => by
        have hupper : c.isUpper = true := decide_eq_true h
        rw [hletters.1] at hupper
        cases hupper
      exact hother c hupper hlower hletters.2

/-- No character of a word is a blank. -/
theorem not_isBlank_of_isWordChar {c : Char} (h : isWordChar c = true) : isBlank c = false :=
  forall_isWordChar (P := fun c => isBlank c = false) (by decide) h

/-- A digit can stand in a word. -/
theorem isWordChar_of_isDigit {c : Char} (h : c.isDigit = true) : isWordChar c = true := by
  rw [isWordChar, Char.isAlphanum, h, Bool.or_true, Bool.true_or]

/-- A digit cannot begin a word. -/
theorem not_isWordStart_of_isDigit {c : Char} (h : c.isDigit = true) : isWordStart c = false :=
  forall_isWordChar (P := fun c => c.isDigit = true → isWordStart c = false) (by decide)
    (isWordChar_of_isDigit h) h

/-! ### Digits -/

/-- The character of a digit is a digit. -/
theorem Digit.isDigit_char (d : Digit) : d.char.isDigit = true := by
  revert d
  decide

/-- A digit can be told from its character. -/
@[simp] theorem Digit.ofChar_char (d : Digit) : Digit.ofChar d.char = d := by
  revert d
  decide

/-- The digit of a character is written as the character. -/
theorem Digit.char_ofChar {c : Char} (h : c.isDigit = true) : (Digit.ofChar c).char = c :=
  forall_isWordChar (P := fun c => c.isDigit = true → (Digit.ofChar c).char = c) (by decide)
    (isWordChar_of_isDigit h) h

/-- Digits are spelled as they were read. -/
theorem Digits.spelling_ofChars {c : Char} {cs : List Char} (hc : c.isDigit = true)
    (hcs : ∀ d ∈ cs, d.isDigit = true) : (Digits.ofChars c cs).spelling = c :: cs := by
  rw [spelling, toList, ofChars, List.map_cons, List.map_map, Digit.char_ofChar hc]
  congr 1
  exact (List.map_congr_left fun d hd => Digit.char_ofChar (hcs d hd)).trans (List.map_id cs)

/-! ### Sound pieces -/

/-- The lexeme can stand in a text: an identifier is a name, a string has no quote in it, and the
end of the file is not part of the text. -/
def Lexeme.IsReadable : Lexeme → Prop
  | .ident name => IsName name
  | .string text => '"' ∉ text.toList
  | .endOfFile => False
  | _ => True

/-- The piece is what it claims to be. Nothing is claimed of what is skipped. -/
def Piece.IsSound : Piece → Prop
  | .blank c => isBlank c = true
  | .comment body => '\n' ∉ body
  | .lexeme l => l.IsReadable
  | .stray _ _ => True
  | .unclosed _ => True

/-- A text is cut into a sound piece and the rest. A comment goes on to the end of its line. -/
structure Cuts (x : Piece × List Char) (cs : List Char) : Prop where
  text : x.1.text ++ x.2 = cs
  sound : x.1.IsSound
  line : ∀ body, x.1 = .comment body → ∀ c ∈ x.2.head?, c = '\n'

/-- A piece that is no comment. -/
theorem Cuts.of_text {x : Piece} {rest cs : List Char} (htext : x.text ++ rest = cs)
    (hsound : x.IsSound) (hcomment : ∀ body, x ≠ .comment body) : Cuts (x, rest) cs :=
  ⟨htext, hsound, fun body hbody => absurd hbody (hcomment body)⟩

/-- What is taken up to a character does not have it. -/
theorem not_mem_takeWhile_ne (c : Char) (cs : List Char) : c ∉ cs.takeWhile (· != c) := by
  intro hc
  simpa using List.all_eq_true.mp List.all_takeWhile c hc

/-- A string is cut from the text behind its opening quote. -/
theorem readString_cuts (cs : List Char) : Cuts (readString cs) ('"' :: cs) := by
  have hsplit : cs.takeWhile (· != '"') ++ cs.dropWhile (· != '"') = cs :=
    List.takeWhile_append_dropWhile
  unfold readString
  split
  · next c rest hrest =>
    -- What stops the string is a quote.
    have hquote := List.head?_dropWhile_not (· != '"') cs
    rw [hrest] at hsplit hquote
    obtain rfl : c = '"' := by simpa using hquote
    refine .of_text ?_ ?_ (fun _ h => by cases h)
    · simp only [Piece.text, Lexeme.spelling, String.toList_ofList, List.cons_append,
        List.append_assoc, List.nil_append]
      rw [hsplit]
    · simpa only [Piece.IsSound, Lexeme.IsReadable, String.toList_ofList]
        using not_mem_takeWhile_ne '"' cs
  · refine .of_text ?_ trivial (fun _ h => by cases h)
    rw [Piece.text, List.cons_append, List.takeWhile_append_dropWhile]

/-- The fraction of a numeral is spelled as it was read. -/
theorem readFraction_text (cs : List Char) :
    Numeral.fractionText (readFraction cs).1 ++ (readFraction cs).2 = cs := by
  unfold readFraction
  split
  · next d rest =>
    split
    · next hd =>
      rw [Numeral.fractionText, Digits.spelling_ofChars hd fun c hc =>
        List.all_eq_true.mp List.all_takeWhile c hc]
      simp [List.takeWhile_append_dropWhile]
    · rfl
  · rfl

/-- A numeral is cut from the text, with its sign. -/
theorem readNumeral_cuts (negative : Bool) {d : Char} (cs : List Char) (hd : d.isDigit = true) :
    Cuts (readNumeral negative d cs) (Numeral.signText negative ++ d :: cs) := by
  have hfraction := readFraction_text (cs.dropWhile Char.isDigit)
  simp only [readNumeral]
  refine .of_text ?_ trivial (fun _ h => by cases h)
  rw [Piece.text, Lexeme.spelling, Numeral.spelling,
    Digits.spelling_ofChars hd fun c hc => List.all_eq_true.mp List.all_takeWhile c hc,
    List.append_assoc, List.append_assoc, hfraction, List.cons_append,
    List.takeWhile_append_dropWhile]

/-- So is a stray run, with the character that begins it. -/
theorem readStray_cuts (c : Char) (cs : List Char) : Cuts (readStray c cs) (c :: cs) := by
  refine .of_text ?_ trivial (fun _ h => by cases h)
  rw [Piece.text, List.cons_append, List.takeWhile_append_dropWhile]

/-- So is what a slash begins. -/
theorem readSlash_cuts (cs : List Char) : Cuts (readSlash cs) ('/' :: cs) := by
  unfold readSlash
  split
  · next rest =>
    refine ⟨?_, not_mem_takeWhile_ne '\n' rest, fun body _ c hc => ?_⟩
    · rw [Piece.text, List.cons_append, List.cons_append, List.takeWhile_append_dropWhile]
    · have hend := List.head?_dropWhile_not (· != '\n') rest
      rw [Option.mem_def.mp hc] at hend
      simpa using hend
  · exact readStray_cuts '/' cs

/-- So is what a minus begins. -/
theorem readMinus_cuts (cs : List Char) : Cuts (readMinus cs) ('-' :: cs) := by
  unfold readMinus
  split
  · next d rest =>
    split
    · next hd => exact readNumeral_cuts true rest hd
    · exact readStray_cuts '-' (d :: rest)
  · exact readStray_cuts '-' []

/-- A word is a keyword or a name. -/
theorem isReadable_wordLexeme {c : Char} {cs : List Char} (hc : isWordStart c = true)
    (hcs : ∀ d ∈ cs, isWordChar d = true) :
    (wordLexeme (c :: cs)).IsReadable ∧ (wordLexeme (c :: cs)).spelling = c :: cs := by
  simp only [wordLexeme]
  split
  · next k hk =>
    have hword : k.word = String.ofList (c :: cs) := by simpa using List.find?_some hk
    exact ⟨trivial, by rw [Lexeme.spelling, hword, String.toList_ofList]⟩
  · next hfree =>
    refine ⟨⟨⟨c, cs, String.toList_ofList, hc⟩, ?_, hfree⟩, String.toList_ofList⟩
    intro d hd
    rw [String.toList_ofList, List.mem_cons] at hd
    obtain rfl | hd := hd
    · exact isWordChar_of_isWordStart hc
    · exact hcs d hd

/-- Punctuation is a lexeme of one character. -/
theorem punctuation?_eq_some {c : Char} {l : Lexeme} (h : punctuation? c = some l) :
    l.IsReadable ∧ l.spelling = [c] := by
  unfold punctuation? at h
  split at h <;> cases h <;> exact ⟨trivial, rfl⟩

/-- **The piece that begins a text** is sound, and with the rest it makes up the text. -/
theorem readPiece_cuts (c : Char) (cs : List Char) : Cuts (readPiece c cs) (c :: cs) := by
  unfold readPiece
  split
  · next hc => exact .of_text rfl hc (fun _ h => by cases h)
  split
  · next hc =>
    have hcs : ∀ d ∈ cs.takeWhile isWordChar, isWordChar d = true :=
      fun d hd => List.all_eq_true.mp List.all_takeWhile d hd
    obtain ⟨hreadable, hspelling⟩ := isReadable_wordLexeme hc hcs
    refine .of_text ?_ hreadable (fun _ h => by cases h)
    rw [Piece.text, hspelling, List.cons_append, List.takeWhile_append_dropWhile]
  split
  · next hc => exact readNumeral_cuts false cs hc
  split
  · next hc =>
    rw [hc]
    exact readString_cuts cs
  split
  · next hc =>
    rw [hc]
    exact readSlash_cuts cs
  split
  · next hc =>
    rw [hc]
    exact readMinus_cuts cs
  split
  · next l hl =>
    obtain ⟨hreadable, hspelling⟩ := punctuation?_eq_some hl
    refine .of_text ?_ hreadable (fun _ h => by cases h)
    rw [Piece.text, hspelling]
    rfl
  · exact readStray_cuts c cs

/-- **The pieces of a text are the whole text.** -/
theorem flatMap_text_pieces (cs : List Char) : (pieces cs).flatMap Piece.text = cs := by
  fun_induction pieces cs with
  | case1 => rfl
  | case2 c cs ih => rw [List.flatMap_cons, ih, (readPiece_cuts c cs).text]

/-- The pieces of a text are sound. -/
theorem isSound_of_mem_pieces {cs : List Char} {x : Piece} (hx : x ∈ pieces cs) : x.IsSound := by
  fun_induction pieces cs with
  | case1 => cases hx
  | case2 c cs ih =>
      obtain rfl | hx := List.mem_cons.mp hx
      · exact (readPiece_cuts c cs).sound
      · exact ih hx

/-! ### Tokens and findings -/

/-- Locating pieces keeps them as they are. -/
theorem map_value_located (p : Position) (ps : List Piece) :
    (located p ps).map Located.value = ps := by
  induction ps generalizing p with
  | nil => rfl
  | cons x xs ih => rw [located, List.map_cons, ih]

namespace Scan

/-- The lexemes among located pieces. -/
theorem map_value_tokensOf (p : Position) (ps : List Piece) :
    (tokensOf (located p ps)).map Located.value = ps.filterMap Piece.lexeme? := by
  rw [tokensOf, List.map_filterMap]
  conv => rhs; rw [← map_value_located p ps, List.filterMap_map]
  congr 1
  funext x
  rw [Option.map_map]
  exact Option.map_id'

/-- Pieces give rise to findings exactly if something is wrong with one of them. -/
theorem findingsOf_eq_nil_iff {p : Position} {ps : List Piece} :
    findingsOf (located p ps) = [] ↔ ∀ x ∈ ps, x.issue? = none := by
  rw [findingsOf, List.filterMap_eq_nil_iff]
  conv => rhs; rw [← map_value_located p ps]
  simp only [Option.map_eq_none_iff, List.forall_mem_map]

/-- The tokens of a text before the end of the file. -/
def bodyOf (text : String) : List Token := tokensOf (located .start (pieces text.toList))

/-- The end of the file comes last. -/
theorem tokens_ofText (text : String) :
    (Scan.ofText text).tokens =
      bodyOf text ++ [⟨.endOfFile, Position.start.advance text.toList⟩] := rfl

/-- **What the tokens of a text can be.** -/
theorem isReadable_of_mem_bodyOf {text : String} {t : Token} (ht : t ∈ bodyOf text) :
    t.value.IsReadable := by
  have hvalue := List.mem_map_of_mem (f := Located.value) ht
  rw [bodyOf, map_value_tokensOf, List.mem_filterMap] at hvalue
  obtain ⟨x, hx, hl⟩ := hvalue
  have hsound := isSound_of_mem_pieces hx
  cases x with
  | lexeme l =>
      obtain rfl := Option.some.inj hl
      exact hsound
  | _ => cases hl

/-- The end of the file is a token behind the body only. -/
theorem ne_endOfFile_of_mem_bodyOf {text : String} {t : Token} (ht : t ∈ bodyOf text) :
    t.value ≠ .endOfFile := by
  intro hend
  have hreadable := isReadable_of_mem_bodyOf ht
  rw [hend] at hreadable
  exact hreadable

end Scan

/-! ### Texts without lexical findings -/

/-- A text that begins at a place and consists of tokens, with blanks and comments between them. -/
inductive Laid : Position → List Char → List Token → Prop
  | nil {p : Position} : Laid p [] []
  | blank {p : Position} {c : Char} {cs : List Char} {ts : List Token} :
      isBlank c = true → Laid (p.next c) cs ts → Laid p (c :: cs) ts
  | comment {p : Position} {body rest : List Char} {ts : List Token} :
      '\n' ∉ body → (∀ c ∈ rest.head?, c = '\n') → Laid (p.advance ('/' :: '/' :: body)) rest ts →
      Laid p ('/' :: '/' :: (body ++ rest)) ts
  | token {p : Position} {l : Lexeme} {rest : List Char} {ts : List Token} :
      l ≠ .endOfFile → Laid (p.advance l.spelling) rest ts →
      Laid p (l.spelling ++ rest) (⟨l, p⟩ :: ts)

/-- Pieces without issues lay out the text that they are cut from. -/
theorem laid_pieces {cs : List Char} (p : Position) (h : ∀ x ∈ pieces cs, x.issue? = none) :
    Laid p cs (Scan.tokensOf (located p (pieces cs))) := by
  fun_induction pieces cs generalizing p with
  | case1 => exact .nil
  | case2 c cs ih =>
      rw [List.forall_mem_cons] at h
      obtain ⟨htext, hsound, hline⟩ := readPiece_cuts c cs
      have hrest := ih (p.advance (readPiece c cs).1.text) h.2
      rw [located, ← htext]
      revert htext hsound hline hrest
      generalize pieces (readPiece c cs).2 = ps
      generalize (readPiece c cs).2 = rest
      have hissue := h.1
      revert hissue
      generalize (readPiece c cs).1 = x
      intro hissue htext hsound hline hrest
      cases x with
      | blank d => exact .blank hsound hrest
      | comment body => exact .comment hsound (hline body rfl) hrest
      | lexeme l =>
          refine .token ?_ hrest
          rintro rfl
          exact hsound
      | stray d ds => cases hissue
      | unclosed ds => cases hissue

/-- **A text without lexical findings** is laid out by its tokens. -/
theorem Scan.laid_of_findings_eq_nil {text : String} (h : (Scan.ofText text).findings = []) :
    Laid .start text.toList (Scan.bodyOf text) :=
  laid_pieces .start (findingsOf_eq_nil_iff.mp h)

/-! ### Reading back what is written -/

/-- The lexeme ends before the text: a word is followed by no word character, and a numeral by
nothing that it would go on with. All other lexemes end by themselves. -/
def Lexeme.EndsBefore : Lexeme → List Char → Prop
  | .keyword _, rest => ∀ c ∈ rest.head?, isWordChar c = false
  | .ident _, rest => ∀ c ∈ rest.head?, isWordChar c = false
  | .number n, rest =>
    (∀ c ∈ rest.head?, c.isDigit = false) ∧
      (n.fraction = none → ∀ d ds, rest = '.' :: d :: ds → d.isDigit = false)
  | _, _ => True

/-- The text stops a lexeme: nothing is left, or a blank comes first. -/
def Stops (rest : List Char) : Prop := ∀ c ∈ rest.head?, isBlank c = true

/-- Characters are taken as long as they belong to the lexeme. -/
theorem takeWhile_append_stop {p : Char → Bool} {cs rest : List Char}
    (hcs : ∀ c ∈ cs, p c = true) (hrest : ∀ c ∈ rest.head?, p c = false) :
    (cs ++ rest).takeWhile p = cs ∧ (cs ++ rest).dropWhile p = rest := by
  rw [List.takeWhile_append_of_pos hcs, List.dropWhile_append_of_pos hcs]
  cases rest with
  | nil => exact ⟨List.append_nil cs, rfl⟩
  | cons c rest =>
      have hc : p c = false := hrest c rfl
      simp [hc]

/-- A blank cannot stand in a word. -/
theorem not_isWordChar_of_isBlank {c : Char} (h : isBlank c = true) : isWordChar c = false := by
  rw [Bool.eq_false_iff]
  intro hc
  rw [not_isBlank_of_isWordChar hc] at h
  cases h

/-- Every lexeme ends before a character that can go on neither a word nor a numeral. -/
theorem Lexeme.endsBefore_of_head? (l : Lexeme) {rest : List Char}
    (h : ∀ c ∈ rest.head?, isWordChar c = false ∧ c ≠ '.') : l.EndsBefore rest := by
  have hword : ∀ c ∈ rest.head?, isWordChar c = false := fun c hc => (h c hc).1
  cases l with
  | keyword k => exact hword
  | ident name => exact hword
  | number n =>
      refine ⟨fun c hc => Bool.eq_false_iff.mpr fun hdigit => ?_, ?_⟩
      · have hnot := hword c hc
        rw [isWordChar_of_isDigit hdigit] at hnot
        cases hnot
      · rintro - d ds rfl
        exact absurd rfl (h '.' rfl).2
  | _ => trivial

/-- Every lexeme ends before a blank. -/
theorem Stops.endsBefore {rest : List Char} (hrest : Stops rest) (l : Lexeme) :
    l.EndsBefore rest := by
  refine l.endsBefore_of_head? fun c hc => ⟨not_isWordChar_of_isBlank (hrest c hc), ?_⟩
  rintro rfl
  exact absurd (hrest '.' hc) (by decide)

/-- A word is read back. -/
theorem readPiece_word {c : Char} {cs rest : List Char} (hc : isWordStart c = true)
    (hcs : ∀ d ∈ cs, isWordChar d = true) (hrest : ∀ d ∈ rest.head?, isWordChar d = false) :
    readPiece c (cs ++ rest) = (.lexeme (wordLexeme (c :: cs)), rest) := by
  obtain ⟨htake, hdrop⟩ := takeWhile_append_stop hcs hrest
  rw [readPiece, not_isBlank_of_isWordChar (isWordChar_of_isWordStart hc), if_neg nofun, if_pos hc,
    htake, hdrop]

/-- A keyword is read from its word. -/
theorem Keyword.ofWord?_word (k : Keyword) : Keyword.ofWord? k.word = some k := by
  cases k <;> decide

/-- The word of a keyword is a word. -/
theorem Keyword.isWord (k : Keyword) :
    ∃ c cs, k.word.toList = c :: cs ∧ isWordStart c = true ∧ ∀ d ∈ cs, isWordChar d = true := by
  cases k <;> exact ⟨_, _, rfl, by decide, List.all_eq_true.mp (by decide)⟩

/-- Digits behind a first one, and what follows them if the text goes on with no digit. -/
theorem Digits.takeWhile_spelling (ds : List Digit) {rest : List Char}
    (hrest : ∀ c ∈ rest.head?, c.isDigit = false) :
    (ds.map Digit.char ++ rest).takeWhile Char.isDigit = ds.map Digit.char ∧
      (ds.map Digit.char ++ rest).dropWhile Char.isDigit = rest :=
  takeWhile_append_stop (List.forall_mem_map.mpr fun d _ => d.isDigit_char) hrest

/-- Digits can be told from their characters. -/
theorem Digits.ofChars_spelling (ds : Digits) :
    Digits.ofChars ds.first.char (ds.rest.map Digit.char) = ds := by
  rw [ofChars, Digit.ofChar_char, List.map_map]
  congr 1
  exact (List.map_congr_left fun d _ => d.ofChar_char).trans (List.map_id _)

/-- The fraction of a numeral is read back. -/
theorem readFraction_spelling (fraction : Option Digits) {rest : List Char}
    (hdigit : ∀ c ∈ rest.head?, c.isDigit = false)
    (hpoint : fraction = none → ∀ d ds, rest = '.' :: d :: ds → d.isDigit = false) :
    readFraction (Numeral.fractionText fraction ++ rest) = (fraction, rest) := by
  cases fraction with
  | none =>
      rw [Numeral.fractionText, List.nil_append]
      unfold readFraction
      split
      · next d more => rw [hpoint rfl d more rfl, if_neg Bool.false_ne_true]
      · rfl
  | some ds =>
      obtain ⟨htake, hdrop⟩ := Digits.takeWhile_spelling ds.rest hdigit
      have htext : Numeral.fractionText (some ds) ++ rest =
          '.' :: ds.first.char :: (ds.rest.map Digit.char ++ rest) := rfl
      rw [htext, readFraction, if_pos ds.first.isDigit_char, htake, hdrop, ds.ofChars_spelling]

/-- A numeral whose first digit is known is read back. -/
theorem readNumeral_spelling (n : Numeral) {rest : List Char}
    (hrest : (Lexeme.number n).EndsBefore rest) :
    readNumeral n.negative n.whole.first.char
        (n.whole.rest.map Digit.char ++ (Numeral.fractionText n.fraction ++ rest)) =
      (.lexeme (.number n), rest) := by
  have hdigit : ∀ c ∈ (Numeral.fractionText n.fraction ++ rest).head?, c.isDigit = false := by
    cases n.fraction with
    | none => exact hrest.1
    | some ds =>
        intro c hc
        obtain rfl : '.' = c := Option.some.inj hc
        decide
  obtain ⟨htake, hdrop⟩ := Digits.takeWhile_spelling n.whole.rest hdigit
  rw [readNumeral, htake, hdrop, readFraction_spelling _ hrest.1 hrest.2, n.whole.ofChars_spelling]

/-- **A lexeme is read back** if it ends before what follows. -/
theorem readPiece_spelling {l : Lexeme} (hl : l.IsReadable) {rest : List Char}
    (hrest : l.EndsBefore rest) :
    ∃ c cs, l.spelling = c :: cs ∧ readPiece c (cs ++ rest) = (.lexeme l, rest) := by
  cases l with
  | keyword k =>
      obtain ⟨c, cs, hword, hc, hcs⟩ := k.isWord
      have hlexeme : wordLexeme (c :: cs) = .keyword k := by
        rw [wordLexeme, ← hword, String.ofList_toList, k.ofWord?_word]
      exact ⟨c, cs, hword, by rw [readPiece_word hc hcs hrest, hlexeme]⟩
  | ident name =>
      obtain ⟨⟨c, cs, hname, hc⟩, hwordy, hfree⟩ := hl
      rw [IsWordy, hname, List.forall_mem_cons] at hwordy
      have hlexeme : wordLexeme (c :: cs) = .ident name := by
        rw [wordLexeme, ← hname, String.ofList_toList, hfree]
      exact ⟨c, cs, hname, by rw [readPiece_word hc hwordy.2 hrest, hlexeme]⟩
  | string text =>
      refine ⟨'"', _, rfl, ?_⟩
      have hchars : ∀ c ∈ text.toList, (c != '"') = true := by
        intro c hc
        rw [bne_iff_ne]
        rintro rfl
        exact hl hc
      have hread : readPiece '"' (text.toList ++ ['"'] ++ rest) =
          readString (text.toList ++ '"' :: rest) := by
        rw [List.append_assoc]
        rfl
      rw [hread, readString, List.dropWhile_append_of_pos hchars,
        List.takeWhile_append_of_pos hchars]
      simp
  | number n =>
      have hread := readNumeral_spelling n hrest
      have hdigit := n.whole.first.isDigit_char
      obtain ⟨negative, whole, fraction⟩ := n
      cases negative with
      | true =>
          refine ⟨'-', _, rfl, ?_⟩
          have hminus : readPiece '-' (whole.spelling ++ Numeral.fractionText fraction ++ rest) =
              readMinus (whole.spelling ++ Numeral.fractionText fraction ++ rest) := rfl
          change readPiece '-' (whole.spelling ++ Numeral.fractionText fraction ++ rest) = _
          rw [hminus, List.append_assoc, Digits.spelling, Digits.toList, List.map_cons,
            List.cons_append, readMinus, if_pos hdigit, hread]
      | false =>
          refine ⟨whole.first.char, _, rfl, ?_⟩
          rw [readPiece, not_isBlank_of_isWordChar (isWordChar_of_isDigit hdigit), if_neg nofun,
            not_isWordStart_of_isDigit hdigit, if_neg nofun, if_pos hdigit]
          refine Eq.trans (congrArg _ ?_) hread
          exact List.append_assoc _ _ _
  | endOfFile => exact hl.elim
  | _ => exact ⟨_, [], rfl, rfl⟩

/-- The text of lexemes with blanks between them. -/
def spacedText (ls : List Lexeme) : List Char := [' '].intercalate (ls.map Lexeme.spelling)

/-- Spaced lexemes are cut at the blanks. -/
theorem pieces_spacedText {ls : List Lexeme} (h : ∀ l ∈ ls, l.IsReadable) :
    pieces (spacedText ls) = (ls.map Piece.lexeme).intersperse (.blank ' ') := by
  induction ls with
  | nil => rw [spacedText, List.map_nil, List.intercalate_nil, pieces]; rfl
  | cons l ls ih =>
      rw [List.forall_mem_cons] at h
      obtain _ | ⟨l', ls⟩ := ls
      · have hstops : Stops [] := fun c hc => by cases hc
        obtain ⟨c, cs, hspelling, hread⟩ := readPiece_spelling h.1 (hstops.endsBefore l)
        rw [List.append_nil] at hread
        rw [spacedText, List.map_cons, List.map_nil, List.intercalate_singleton, hspelling, pieces,
          hread, pieces]
        rfl
      · have hstops : Stops (' ' :: spacedText (l' :: ls)) := by
          intro c hc
          obtain rfl : ' ' = c := Option.some.inj hc
          decide
        obtain ⟨c, cs, hspelling, hread⟩ := readPiece_spelling h.1 (hstops.endsBefore l)
        have htext : spacedText (l :: l' :: ls) = c :: (cs ++ ' ' :: spacedText (l' :: ls)) := by
          rw [spacedText, List.map_cons, List.map_cons, List.intercalate_cons_cons, hspelling]
          simp [spacedText]
        have hblank : readPiece ' ' (spacedText (l' :: ls)) =
            (.blank ' ', spacedText (l' :: ls)) := rfl
        rw [htext, pieces, hread, pieces, hblank, ih h.2]
        rfl

/-- **Spaced lexemes are read back**, and nothing is wrong with them. -/
theorem Scan.ofText_spaced {ls : List Lexeme} (h : ∀ l ∈ ls, l.IsReadable) :
    (Scan.bodyOf (String.ofList (spacedText ls))).map Located.value = ls ∧
      (Scan.ofText (String.ofList (spacedText ls))).findings = [] := by
  have hlexemes : ∀ ls : List Lexeme,
      ((ls.map Piece.lexeme).intersperse (.blank ' ')).filterMap Piece.lexeme? = ls := by
    intro ls
    induction ls with
    | nil => rfl
    | cons l ls ih =>
        cases ls with
        | nil => rfl
        | cons l' ls => exact congrArg (l :: ·) ih
  have hissues : ∀ ls : List Lexeme,
      ∀ x ∈ (ls.map Piece.lexeme).intersperse (.blank ' '), x.issue? = none := by
    intro ls
    induction ls with
    | nil => exact List.forall_mem_nil _
    | cons l ls ih =>
        cases ls with
        | nil => exact List.forall_mem_cons.mpr ⟨rfl, List.forall_mem_nil _⟩
        | cons l' ls =>
            exact List.forall_mem_cons.mpr ⟨rfl, List.forall_mem_cons.mpr ⟨rfl, ih⟩⟩
  constructor
  · rw [bodyOf, String.toList_ofList, map_value_tokensOf, pieces_spacedText h, hlexemes]
  · refine findingsOf_eq_nil_iff.mpr ?_
    rw [String.toList_ofList, pieces_spacedText h]
    exact hissues ls

end Defsheet

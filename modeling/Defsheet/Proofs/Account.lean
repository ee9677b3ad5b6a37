import Defsheet.Proofs.Scanning

/-!
# Every character is accounted for

A text is a sequence of blanks, comments, lexemes and skipped runs, and each character belongs to
exactly one of them. This module says so without the scanner: `TokenText` gives the texts of a
lexeme, `Position.after` the place behind a text by counting, and `Accounts` lays a text out piece
by piece, with the tokens and findings that the pieces give rise to.

What may follow a piece is part of the account: a word or a numeral goes on as far as it can, and a
run is skipped only where nothing else begins (`BeginsNothing`). Therefore a text has one account
and no other.

## Main results

* `readPiece_eq_iff`: the piece that begins a text, said without the scanner.
* `Scan.ofText_accounts`: the tokens and findings of a text are those of its only account.
-/

namespace Defsheet

/-! ### Places -/

/-- The place behind a text. Its line counts the line feeds of the text, and its column the
characters behind the last of them. -/
def Position.after (cs : List Char) : Position :=
  ⟨1 + cs.count '\n', 1 + (cs.reverse.takeWhile (· != '\n')).length⟩

/-- One more character begins a new line or stands in the next column. -/
theorem Position.after_concat (cs : List Char) (c : Char) :
    Position.after (cs ++ [c]) = (Position.after cs).next c := by
  rw [after, List.count_append, List.reverse_concat]
  by_cases hc : c = '\n'
  · rw [hc, List.takeWhile_cons_of_neg (by decide), next, if_pos rfl]
    rfl
  · have hcount : [c].count '\n' = 0 := List.count_eq_zero.mpr (by simpa using Ne.symm hc)
    rw [List.takeWhile_cons_of_pos (by simpa using hc), hcount, next, if_neg hc]
    rfl

/-- Going through a text leads to the place behind it. -/
theorem Position.advance_after (cs ds : List Char) :
    (Position.after cs).advance ds = Position.after (cs ++ ds) := by
  induction ds generalizing cs with
  | nil => rw [advance_nil, List.append_nil]
  | cons d ds ih => rw [advance_cons, ← after_concat, ih, ← List.append_cons]

/-! ### Texts of lexemes -/

/-- One digit or more. -/
def IsDigitRun (cs : List Char) : Prop := cs ≠ [] ∧ ∀ c ∈ cs, c.isDigit = true

/-- The text is a number: perhaps a minus, digits, and perhaps a point with digits behind it. -/
def IsNumberText (cs : List Char) : Prop :=
  ∃ sign whole fraction, cs = sign ++ whole ++ fraction ∧ (sign = [] ∨ sign = ['-']) ∧
    IsDigitRun whole ∧ (fraction = [] ∨ ∃ ds, fraction = '.' :: ds ∧ IsDigitRun ds)

/-- The texts of a lexeme: a reserved word, any other word, a text between quotes, a number, or a
single character. -/
inductive TokenText : Lexeme → List Char → Prop
  | keyword (k : Keyword) : TokenText (.keyword k) k.word.toList
  | ident {c : Char} {cs : List Char} :
      isWordStart c = true → (∀ d ∈ cs, isWordChar d = true) →
      (∀ k : Keyword, k.word.toList ≠ c :: cs) →
      TokenText (.ident (String.ofList (c :: cs))) (c :: cs)
  | string {cs : List Char} :
      '"' ∉ cs → TokenText (.string (String.ofList cs)) ('"' :: (cs ++ ['"']))
  | number {n : Numeral} : IsNumberText n.spelling → TokenText (.number n) n.spelling
  | openBrace : TokenText .openBrace ['\x7b']
  | closeBrace : TokenText .closeBrace ['\x7d']
  | openParen : TokenText .openParen ['(']
  | closeParen : TokenText .closeParen [')']
  | dot : TokenText .dot ['.']
  | equals : TokenText .equals ['=']

/-- The spelling of digits is a run of digits. -/
theorem Digits.isDigitRun_spelling (ds : Digits) : IsDigitRun ds.spelling :=
  ⟨List.cons_ne_nil _ _, List.forall_mem_map.mpr fun d _ => d.isDigit_char⟩

/-- A numeral is spelled as a number. -/
theorem Numeral.isNumberText_spelling (n : Numeral) : IsNumberText n.spelling := by
  obtain ⟨negative, whole, fraction⟩ := n
  refine ⟨signText negative, whole.spelling, fractionText fraction, rfl, ?_,
    whole.isDigitRun_spelling, ?_⟩
  · cases negative
    · exact .inl rfl
    · exact .inr rfl
  · cases fraction with
    | none => exact .inl rfl
    | some ds => exact .inr ⟨ds.spelling, rfl, ds.isDigitRun_spelling⟩

/-- A word that is none of the reserved ones is not reserved. -/
theorem Keyword.ofWord?_eq_none_iff {w : String} :
    Keyword.ofWord? w = none ↔ ∀ k : Keyword, k.word ≠ w := by
  rw [ofWord?, List.find?_eq_none]
  constructor
  · intro h k
    have hk : k ∈ all := by cases k <;> decide
    simpa using h k hk
  · intro h k _
    simpa using h k

/-- **The text of a lexeme** is its spelling, if the lexeme can stand in a text at all. -/
theorem tokenText_iff {l : Lexeme} {cs : List Char} :
    TokenText l cs ↔ l.IsReadable ∧ l.spelling = cs := by
  constructor
  · intro h
    cases h with
    | keyword k => exact ⟨trivial, rfl⟩
    | @ident c cs hc hcs hfree =>
        refine ⟨⟨⟨c, cs, String.toList_ofList, hc⟩, ?_, ?_⟩, String.toList_ofList⟩
        · rw [IsWordy, String.toList_ofList]
          exact List.forall_mem_cons.mpr ⟨isWordChar_of_isWordStart hc, hcs⟩
        · refine Keyword.ofWord?_eq_none_iff.mpr fun k hk => hfree k ?_
          rw [hk, String.toList_ofList]
    | string hquote =>
        rw [Lexeme.IsReadable, Lexeme.spelling, String.toList_ofList]
        exact ⟨hquote, rfl⟩
    | number _ => exact ⟨trivial, rfl⟩
    | _ => exact ⟨trivial, rfl⟩
  · rintro ⟨hl, rfl⟩
    cases l with
    | keyword k => exact .keyword k
    | ident name =>
        obtain ⟨⟨c, cs, hname, hc⟩, hwordy, hfree⟩ := hl
        rw [IsWordy, hname, List.forall_mem_cons] at hwordy
        have hword := TokenText.ident hc hwordy.2 fun k hk =>
          Keyword.ofWord?_eq_none_iff.mp hfree k (String.toList_inj.mp (hk.trans hname.symm))
        rwa [← hname, String.ofList_toList] at hword
    | string text =>
        have hstring := TokenText.string hl
        rwa [String.ofList_toList] at hstring
    | number n => exact .number n.isNumberText_spelling
    | openBrace => exact .openBrace
    | closeBrace => exact .closeBrace
    | openParen => exact .openParen
    | closeParen => exact .closeParen
    | dot => exact .dot
    | equals => exact .equals
    | endOfFile => exact hl.elim

/-! ### Pieces in their place -/

/-- Nothing begins at the character: no blank, word, numeral, string, comment or punctuation. -/
structure BeginsNothing (c : Char) (rest : List Char) : Prop where
  not_blank : isBlank c = false
  not_word : isWordStart c = false
  not_digit : c.isDigit = false
  not_quote : c ≠ '"'
  not_punctuation : punctuation? c = none
  not_comment : c = '/' → rest.head? ≠ some '/'
  not_negative : c = '-' → ∀ d ∈ rest.head?, d.isDigit = false

/-- The piece is what it claims to be, with the given text behind it. -/
def Piece.Stands : Piece → List Char → Prop
  | .blank c, _ => isBlank c = true
  | .comment body, rest => '\n' ∉ body ∧ ∀ c ∈ rest.head?, c = '\n'
  | .lexeme l, rest => l.IsReadable ∧ l.EndsBefore rest
  | .stray c run, rest =>
    BeginsNothing c (run ++ rest) ∧ (∀ d ∈ run, endsStray d = false) ∧
      ∀ d ∈ rest.head?, endsStray d = true
  | .unclosed run, rest => '"' ∉ run ++ rest ∧ '\n' ∉ run ∧ ∀ c ∈ rest.head?, c = '\n'

/-- What is dropped is stopped by a character that is not. -/
theorem head?_dropWhile_eq_false {p : Char → Bool} {cs : List Char} :
    ∀ c ∈ (cs.dropWhile p).head?, p c = false := by
  intro c hc
  have hstop := List.head?_dropWhile_not p cs
  rw [Option.mem_def.mp hc] at hstop
  simpa using hstop

/-- What stops a search for a character is the character. -/
theorem head?_dropWhile_ne {c : Char} {cs : List Char} :
    ∀ d ∈ (cs.dropWhile (· != c)).head?, d = c := by
  intro d hd
  simpa using head?_dropWhile_eq_false d hd

/-- A stray run begins where nothing else does, and stops at the first character that ends it. -/
theorem readStray_stands {c : Char} {cs : List Char} (h : BeginsNothing c cs) :
    (readStray c cs).1.Stands (readStray c cs).2 := by
  refine ⟨?_, fun d hd => ?_, fun d hd => ?_⟩
  · change BeginsNothing c (cs.takeWhile (!endsStray ·) ++ cs.dropWhile (!endsStray ·))
    rwa [List.takeWhile_append_dropWhile]
  · simpa using List.all_eq_true.mp List.all_takeWhile d hd
  · simpa using head?_dropWhile_eq_false d hd

/-- A string stands up to its closing quote. Without one, the rest of the line is skipped. -/
theorem readString_stands (cs : List Char) : (readString cs).1.Stands (readString cs).2 := by
  have hsound := (readString_cuts cs).sound
  revert hsound
  fun_cases readString cs with
  | case1 c rest hrest => exact fun hsound => ⟨hsound, trivial⟩
  | case2 hnone =>
      intro _
      refine ⟨?_, not_mem_takeWhile_ne '\n' cs, head?_dropWhile_ne⟩
      have hcs : cs.takeWhile (· != '"') ++ cs.dropWhile (· != '"') = cs :=
        List.takeWhile_append_dropWhile
      rw [hnone, List.append_nil] at hcs
      rw [List.takeWhile_append_dropWhile, ← hcs]
      exact not_mem_takeWhile_ne '"' cs

/-- A fraction is left out only if the text does not go on with a point and a digit. -/
theorem readFraction_stands {cs : List Char} (h : ∀ c ∈ cs.head?, c.isDigit = false) :
    (∀ c ∈ (readFraction cs).2.head?, c.isDigit = false) ∧
      ((readFraction cs).1 = none →
        ∀ d ds, (readFraction cs).2 = '.' :: d :: ds → d.isDigit = false) := by
  fun_cases readFraction cs with
  | case1 d rest hd =>
      refine ⟨head?_dropWhile_eq_false, fun hnone => ?_⟩
      cases hnone
  | case2 d rest hd =>
      refine ⟨h, ?_⟩
      rintro - e more ⟨⟩
      exact Bool.eq_false_iff.mpr hd
  | case3 _ hpoint =>
      refine ⟨h, fun _ d rest hcs => ?_⟩
      exact absurd hcs (hpoint d rest)

/-- A numeral goes on as far as it can. -/
theorem readNumeral_stands (negative : Bool) (d : Char) (cs : List Char) :
    (readNumeral negative d cs).1.Stands (readNumeral negative d cs).2 :=
  ⟨trivial, readFraction_stands head?_dropWhile_eq_false⟩

/-- A slash begins a comment or a stray run. -/
theorem readSlash_stands (cs : List Char) : (readSlash cs).1.Stands (readSlash cs).2 := by
  fun_cases readSlash cs with
  | case1 rest => exact ⟨not_mem_takeWhile_ne '\n' rest, head?_dropWhile_ne⟩
  | case2 cs hslash =>
      refine readStray_stands ⟨by decide, by decide, by decide, by decide, by decide, ?_, nofun⟩
      rintro - hhead
      obtain ⟨rest, rfl⟩ := List.head?_eq_some_iff.mp hhead
      exact hslash rest rfl

/-- A minus begins a numeral or a stray run. -/
theorem readMinus_stands (cs : List Char) : (readMinus cs).1.Stands (readMinus cs).2 := by
  have hstray (hdigit : ∀ d ∈ cs.head?, d.isDigit = false) :
      (readStray '-' cs).1.Stands (readStray '-' cs).2 :=
    readStray_stands ⟨by decide, by decide, by decide, by decide, by decide, nofun, fun _ => hdigit⟩
  fun_cases readMinus cs with
  | case1 d rest hd => exact readNumeral_stands true d rest
  | case2 d rest hd =>
      refine hstray fun c hc => ?_
      obtain rfl := Option.some.inj hc
      exact Bool.eq_false_iff.mpr hd
  | case3 => exact hstray fun c hc => by cases hc

/-- A word goes on as far as it can. -/
theorem endsBefore_wordLexeme {cs rest : List Char} (h : ∀ c ∈ rest.head?, isWordChar c = false) :
    (wordLexeme cs).EndsBefore rest := by
  fun_cases wordLexeme cs <;> exact h

/-- Punctuation ends by itself. -/
theorem endsBefore_of_punctuation? {c : Char} {l : Lexeme} (h : punctuation? c = some l)
    (rest : List Char) : l.EndsBefore rest := by
  revert h
  fun_cases punctuation? c <;> rintro ⟨⟩ <;> trivial

/-- The piece that begins a text stands before the rest of it. -/
theorem readPiece_stands (c : Char) (cs : List Char) :
    (readPiece c cs).1.Stands (readPiece c cs).2 := by
  have hsound := (readPiece_cuts c cs).sound
  revert hsound
  fun_cases readPiece c cs with
  | case1 hc => exact id
  | case2 hblank hc =>
      exact fun hsound => ⟨hsound, endsBefore_wordLexeme head?_dropWhile_eq_false⟩
  | case3 hblank hword hc => exact fun _ => readNumeral_stands false c cs
  | case4 hblank hword hdigit => exact fun _ => readString_stands cs
  | case5 hblank hword hdigit hquote => exact fun _ => readSlash_stands cs
  | case6 hblank hword hdigit hquote hslash => exact fun _ => readMinus_stands cs
  | case7 hblank hword hdigit hquote hslash hminus l hl =>
      exact fun hsound => ⟨hsound, endsBefore_of_punctuation? hl cs⟩
  | case8 hblank hword hdigit hquote hslash hminus hnone =>
      exact fun _ => readStray_stands ⟨Bool.eq_false_iff.mpr hblank, Bool.eq_false_iff.mpr hword,
        Bool.eq_false_iff.mpr hdigit, hquote, hnone, fun h => absurd h hslash,
        fun h => absurd h hminus⟩

/-! ### The piece that begins a text -/

/-- A run is skipped as far as nothing ends it. -/
theorem readStray_of_stands {c : Char} {run rest : List Char}
    (hrun : ∀ d ∈ run, endsStray d = false) (hrest : ∀ d ∈ rest.head?, endsStray d = true) :
    readStray c (run ++ rest) = (.stray c run, rest) := by
  have hskip : ∀ d ∈ run, (!endsStray d) = true := fun d hd => by rw [hrun d hd]; rfl
  have hstop : ∀ d ∈ rest.head?, (!endsStray d) = false := fun d hd => by rw [hrest d hd]; rfl
  obtain ⟨htake, hdrop⟩ := takeWhile_append_stop hskip hstop
  rw [readStray, htake, hdrop]

/-- Where nothing begins, a run is skipped. -/
theorem readPiece_of_beginsNothing {c : Char} {cs : List Char} (h : BeginsNothing c cs) :
    readPiece c cs = readStray c cs := by
  rw [readPiece, h.not_blank, h.not_word, h.not_digit, if_neg Bool.false_ne_true,
    if_neg Bool.false_ne_true, if_neg Bool.false_ne_true, if_neg h.not_quote]
  split
  · next hslash =>
    fun_cases readSlash cs with
    | case1 rest => exact absurd rfl (h.not_comment hslash)
    | case2 => rw [hslash]
  split
  · next hminus =>
    fun_cases readMinus cs with
    | case1 d rest hd =>
        rw [h.not_negative hminus d rfl] at hd
        cases hd
    | case2 d rest hd => rw [hminus]
    | case3 => rw [hminus]
  · rw [h.not_punctuation]

/-- A comment goes on to the end of its line. -/
theorem readPiece_comment {body rest : List Char} (hbody : '\n' ∉ body)
    (hrest : ∀ c ∈ rest.head?, c = '\n') :
    readPiece '/' ('/' :: (body ++ rest)) = (.comment body, rest) := by
  have hskip : ∀ c ∈ body, (c != '\n') = true := by
    intro c hc
    rw [bne_iff_ne]
    rintro rfl
    exact hbody hc
  obtain ⟨htake, hdrop⟩ :=
    takeWhile_append_stop (p := (· != '\n')) hskip fun c hc => by rw [hrest c hc]; rfl
  change readSlash ('/' :: (body ++ rest)) = _
  rw [readSlash, htake, hdrop]

/-- A quote without a partner takes the rest of its line away. -/
theorem readPiece_unclosed {run rest : List Char} (hquote : '"' ∉ run ++ rest) (hrun : '\n' ∉ run)
    (hrest : ∀ c ∈ rest.head?, c = '\n') :
    readPiece '"' (run ++ rest) = (.unclosed run, rest) := by
  have hskip : ∀ c ∈ run, (c != '\n') = true := by
    intro c hc
    rw [bne_iff_ne]
    rintro rfl
    exact hrun hc
  obtain ⟨htake, hdrop⟩ :=
    takeWhile_append_stop (p := (· != '\n')) hskip fun c hc => by rw [hrest c hc]; rfl
  have hnone : (run ++ rest).dropWhile (· != '"') = [] := by
    have hall : ∀ c ∈ run ++ rest, (c != '"') = true := by
      intro c hc
      rw [bne_iff_ne]
      rintro rfl
      exact hquote hc
    have hdropped : (run ++ rest ++ []).dropWhile (· != '"') = [] :=
      List.dropWhile_append_of_pos hall
    rwa [List.append_nil] at hdropped
  change readString (run ++ rest) = _
  rw [readString, hnone]
  simp only [htake, hdrop]

/-- **The piece that begins a text**, said without the scanner: with what is behind it the piece
makes up the text, and it stands there. -/
theorem readPiece_eq_iff {c : Char} {cs rest : List Char} {x : Piece} :
    readPiece c cs = (x, rest) ↔ x.text ++ rest = c :: cs ∧ x.Stands rest := by
  constructor
  · intro h
    have htext := (readPiece_cuts c cs).text
    have hstands := readPiece_stands c cs
    rw [h] at htext hstands
    exact ⟨htext, hstands⟩
  · rintro ⟨htext, hstands⟩
    cases x with
    | blank d =>
        obtain ⟨rfl, rfl⟩ := List.cons.inj htext
        have hblank : isBlank d = true := hstands
        rw [readPiece, if_pos hblank]
        rfl
    | comment body =>
        obtain ⟨rfl, rfl⟩ := List.cons.inj htext
        exact readPiece_comment hstands.1 hstands.2
    | lexeme l =>
        obtain ⟨d, ds, hspelling, hread⟩ := readPiece_spelling hstands.1 hstands.2
        rw [Piece.text, hspelling] at htext
        obtain ⟨rfl, rfl⟩ := List.cons.inj htext
        exact hread
    | stray d run =>
        obtain ⟨rfl, rfl⟩ := List.cons.inj htext
        obtain ⟨hnothing, hrun, hrest⟩ := hstands
        exact (readPiece_of_beginsNothing hnothing).trans (readStray_of_stands hrun hrest)
    | unclosed run =>
        obtain ⟨rfl, rfl⟩ := List.cons.inj htext
        exact readPiece_unclosed hstands.1 hstands.2.1 hstands.2.2

/-! ### Accounts -/

/-- An account of a text that stands behind `before`: what the text is made of, with the tokens and
findings that this gives rise to. A skipped run is reported where it begins. -/
inductive Accounts : List Char → List Char → List Token → List Finding → Prop
  | done {before : List Char} : Accounts before [] [] []
  | blank {before rest : List Char} {c : Char} {ts : List Token} {fs : List Finding} :
      isBlank c = true → Accounts (before ++ [c]) rest ts fs → Accounts before (c :: rest) ts fs
  | comment {before body rest : List Char} {ts : List Token} {fs : List Finding} :
      '\n' ∉ body → (∀ c ∈ rest.head?, c = '\n') →
      Accounts (before ++ '/' :: '/' :: body) rest ts fs →
      Accounts before ('/' :: '/' :: body ++ rest) ts fs
  | token {before cs rest : List Char} {l : Lexeme} {ts : List Token} {fs : List Finding} :
      TokenText l cs → l.EndsBefore rest → Accounts (before ++ cs) rest ts fs →
      Accounts before (cs ++ rest) (⟨l, .after before⟩ :: ts) fs
  | stray {before run rest : List Char} {c : Char} {ts : List Token} {fs : List Finding} :
      BeginsNothing c (run ++ rest) → (∀ d ∈ run, endsStray d = false) →
      (∀ d ∈ rest.head?, endsStray d = true) → Accounts (before ++ c :: run) rest ts fs →
      Accounts before (c :: run ++ rest) ts (⟨.strayCharacter c, .after before⟩ :: fs)
  | unclosed {before run rest : List Char} {ts : List Token} {fs : List Finding} :
      '"' ∉ run ++ rest → '\n' ∉ run → (∀ c ∈ rest.head?, c = '\n') →
      Accounts (before ++ '"' :: run) rest ts fs →
      Accounts before ('"' :: run ++ rest) ts (⟨.unclosedString, .after before⟩ :: fs)

namespace Scan

/-- The tokens and findings of pieces, the first of which stands behind `before`. -/
def ofPieces (before : List Char) (ps : List Piece) : List Token × List Finding :=
  (tokensOf (located (.after before) ps), findingsOf (located (.after before) ps))

/-- One more piece in front adds its token or its finding. -/
theorem ofPieces_cons (before : List Char) (x : Piece) (ps : List Piece) :
    ofPieces before (x :: ps) =
      (x.lexeme?.toList.map (⟨·, .after before⟩) ++ (ofPieces (before ++ x.text) ps).1,
        x.issue?.toList.map (⟨·, .after before⟩) ++ (ofPieces (before ++ x.text) ps).2) := by
  have hadvance := Position.advance_after before x.text
  simp only [ofPieces, tokensOf, findingsOf, located, List.filterMap_cons, hadvance]
  cases x <;> rfl

/-- The pieces of a text account for it. -/
theorem accounts_pieces (before cs : List Char) :
    Accounts before cs (ofPieces before (pieces cs)).1 (ofPieces before (pieces cs)).2 := by
  fun_induction pieces cs generalizing before with
  | case1 => exact .done
  | case2 c cs ih =>
      rw [ofPieces_cons]
      have hstands := readPiece_stands c cs
      have hrest := ih (before ++ (readPiece c cs).1.text)
      rw [← (readPiece_cuts c cs).text]
      revert hstands hrest
      generalize ofPieces _ (pieces (readPiece c cs).2) = out
      generalize (readPiece c cs).1 = x
      generalize (readPiece c cs).2 = rest
      intro hstands hrest
      cases x with
      | blank d => exact .blank hstands hrest
      | comment body => exact .comment hstands.1 hstands.2 hrest
      | lexeme l => exact .token (tokenText_iff.mpr ⟨hstands.1, rfl⟩) hstands.2 hrest
      | stray d run => exact .stray hstands.1 hstands.2.1 hstands.2.2 hrest
      | unclosed run => exact .unclosed hstands.1 hstands.2.1 hstands.2.2 hrest

end Scan

/-- A text that begins with a piece which stands there is cut behind the piece. -/
theorem Scan.ofPieces_of_stands (before : List Char) {cs rest : List Char} {c : Char} {x : Piece}
    (htext : x.text ++ rest = c :: cs) (hstands : x.Stands rest) :
    ofPieces before (pieces (c :: cs)) =
      (x.lexeme?.toList.map (⟨·, .after before⟩) ++ (ofPieces (before ++ x.text) (pieces rest)).1,
        x.issue?.toList.map (⟨·, .after before⟩) ++
          (ofPieces (before ++ x.text) (pieces rest)).2) := by
  rw [pieces, readPiece_eq_iff.mpr ⟨htext, hstands⟩, ofPieces_cons]

/-- **There is no other account**: whatever accounts for a text is what its pieces give rise to. -/
theorem Accounts.eq_ofPieces {before cs : List Char} {ts : List Token} {fs : List Finding}
    (h : Accounts before cs ts fs) : Scan.ofPieces before (pieces cs) = (ts, fs) := by
  induction h with
  | done => rw [pieces]; rfl
  | @blank before rest c ts fs hc _ ih =>
      exact (Scan.ofPieces_of_stands before (x := .blank c) rfl hc).trans ih
  | @comment before body rest ts fs hbody hrest _ ih =>
      exact (Scan.ofPieces_of_stands before (x := .comment body) rfl ⟨hbody, hrest⟩).trans ih
  | @token before cs rest l ts fs htext hrest _ ih =>
      obtain ⟨hl, rfl⟩ := tokenText_iff.mp htext
      obtain ⟨c, cs, hcs, -⟩ := readPiece_spelling hl hrest
      have htext : (Piece.lexeme l).text ++ rest = c :: (cs ++ rest) := by
        rw [Piece.text, hcs, List.cons_append]
      have hcut := Scan.ofPieces_of_stands before htext ⟨hl, hrest⟩
      rw [← htext, Piece.text, ih] at hcut
      exact hcut
  | @stray before run rest c ts fs hnothing hrun hrest _ ih =>
      have hcut := Scan.ofPieces_of_stands before (x := .stray c run) rfl
        ⟨hnothing, hrun, hrest⟩
      rw [Piece.text, ih] at hcut
      exact hcut
  | @unclosed before run rest ts fs hquote hrun hrest _ ih =>
      have hcut := Scan.ofPieces_of_stands before (x := .unclosed run) rfl
        ⟨hquote, hrun, hrest⟩
      rw [Piece.text, ih] at hcut
      exact hcut

/-- What is found in an account is lexical. -/
theorem Accounts.kind_eq_lexical {before cs : List Char} {ts : List Token} {fs : List Finding}
    (h : Accounts before cs ts fs) : ∀ f ∈ fs, f.value.kind = .lexical := by
  induction h with
  | done => exact List.forall_mem_nil _
  | blank _ _ ih => exact ih
  | comment _ _ _ ih => exact ih
  | token _ _ _ ih => exact ih
  | stray _ _ _ _ ih => exact List.forall_mem_cons.mpr ⟨rfl, ih⟩
  | unclosed _ _ _ _ ih => exact List.forall_mem_cons.mpr ⟨rfl, ih⟩

/-- **Every character of a text is accounted for.** The text is put together from blanks, comments,
the texts of its tokens and the runs that are skipped, one for each finding, in this order; tokens
and findings stand where their text begins, and the end of the file stands behind the text. Each
finding is reported by a lexical diagnostic at its place. No other tokens and findings account for
the text. -/
theorem Scan.ofText_accounts (text : String) :
    ∃ body, (Scan.ofText text).tokens = body ++ [⟨.endOfFile, .after text.toList⟩] ∧
      Accounts [] text.toList body (Scan.ofText text).findings ∧
      (∀ document, ((Scan.ofText text).diagnostics document).map (fun d => (d.kind, d.position)) =
        (Scan.ofText text).findings.map fun f => (.lexical, f.position)) ∧
      ∀ ts fs, Accounts [] text.toList ts fs → ts = body ∧ fs = (Scan.ofText text).findings := by
  have hend : Position.start.advance text.toList = .after text.toList :=
    Position.advance_after [] text.toList
  have haccounts : Accounts [] text.toList (bodyOf text) (Scan.ofText text).findings :=
    accounts_pieces [] text.toList
  refine ⟨bodyOf text, ?_, haccounts, fun document => ?_, fun ts fs h => ?_⟩
  · rw [tokens_ofText, hend]
  · rw [diagnostics, List.map_map]
    refine List.map_congr_left fun f hf => ?_
    exact congrArg (·, f.position) (haccounts.kind_eq_lexical f hf)
  · exact Prod.mk.inj h.eq_ofPieces.symm

end Defsheet

import Defsheet.Proofs.Account

/-!
# Tokens that are written out

Tokens can be written out in many ways: any blanks and comments may stand around them, as long as
something stands between each two. All of these texts are read back as the same tokens. A string may
hold what looks like a comment, and a comment may hold quotes; neither matters, because a text has
only one account (`Accounts.eq_ofPieces`), and the way in which it was written is one.

## Main results

* `IsTrivia.accounts`: trivia are passed over.
* `WritesOut.exists_accounts`: the way in which tokens are written out accounts for the text.
* `Scan.ofText_writesOut`: tokens that are written out are read back.
-/

namespace Defsheet

/-! ### Trivia -/

/-- Blanks and comments. A comment ends with its line. -/
inductive IsTrivia : List Char → Prop
  | nil : IsTrivia []
  | blank {c : Char} {cs : List Char} : isBlank c = true → IsTrivia cs → IsTrivia (c :: cs)
  | comment {body cs : List Char} :
      '\n' ∉ body → IsTrivia cs → IsTrivia ('/' :: '/' :: (body ++ '\n' :: cs))

/-- **Trivia are passed over**: they give rise to nothing. -/
theorem IsTrivia.accounts {before gap rest : List Char} {ts : List Token} {fs : List Finding}
    (h : IsTrivia gap) (hrest : Accounts (before ++ gap) rest ts fs) :
    Accounts before (gap ++ rest) ts fs := by
  induction h generalizing before with
  | nil => rwa [List.append_nil] at hrest
  | @blank c cs hc _ ih =>
      rw [List.append_cons] at hrest
      exact .blank hc (ih hrest)
  | @comment body cs hbody _ ih =>
      have hbefore : before ++ '/' :: '/' :: (body ++ '\n' :: cs) =
          before ++ '/' :: '/' :: body ++ ['\n'] ++ cs := by simp
      have htext : '/' :: '/' :: (body ++ '\n' :: cs) ++ rest =
          '/' :: '/' :: body ++ '\n' :: (cs ++ rest) := by simp
      rw [hbefore] at hrest
      rw [htext]
      exact .comment hbody (fun c hc => (Option.some.inj hc).symm) (.blank (by decide) (ih hrest))

/-- A token ends before trivia, and at the end of the text. -/
theorem IsTrivia.endsBefore {gap rest : List Char} (h : IsTrivia gap) (hgap : gap = [] → rest = [])
    (l : Lexeme) : l.EndsBefore (gap ++ rest) := by
  refine l.endsBefore_of_head? fun c hc => ?_
  cases h with
  | nil =>
      rw [hgap rfl] at hc
      cases hc
  | blank hblank =>
      obtain rfl := Option.some.inj hc
      refine ⟨not_isWordChar_of_isBlank hblank, ?_⟩
      rintro rfl
      exact absurd hblank (by decide)
  | comment =>
      obtain rfl := Option.some.inj hc
      decide

/-! ### Texts of tokens -/

/-- Tokens one after the other, with trivia behind each of them. Between two tokens there is at
least one blank. -/
inductive WritesOut : List Lexeme → List Char → Prop
  | nil : WritesOut [] []
  | cons {l : Lexeme} {ls : List Lexeme} {cs gap rest : List Char} :
      TokenText l cs → IsTrivia gap → (ls ≠ [] → ∃ c ∈ gap, isBlank c = true) → WritesOut ls rest →
      WritesOut (l :: ls) (cs ++ gap ++ rest)

/-- **The way in which tokens are written out accounts for the text.** -/
theorem WritesOut.exists_accounts {ls : List Lexeme} {text : List Char} (h : WritesOut ls text)
    (before : List Char) : ∃ ts, ts.map Located.value = ls ∧ Accounts before text ts [] := by
  induction h generalizing before with
  | nil => exact ⟨[], rfl, .done⟩
  | @cons l ls cs gap rest hl hgap hblank hrest ih =>
      have hend : gap = [] → rest = [] := by
        rintro rfl
        cases hrest with
        | nil => rfl
        | cons _ _ _ _ =>
            obtain ⟨c, hc, -⟩ := hblank (List.cons_ne_nil _ _)
            cases hc
      obtain ⟨ts, rfl, haccounts⟩ := ih (before ++ cs ++ gap)
      refine ⟨⟨l, .after before⟩ :: ts, rfl, ?_⟩
      rw [List.append_assoc]
      exact .token hl (hgap.endsBefore hend l) (hgap.accounts haccounts)

/-- **Tokens that are written out are read back**, whatever trivia stand around them: the text has
these tokens and the end of the file, and nothing is wrong with it. -/
theorem Scan.ofText_writesOut (ls : List Lexeme) (before text : List Char)
    (hbefore : IsTrivia before) (htext : WritesOut ls text) :
    (Scan.ofText (String.ofList (before ++ text))).tokens.map Located.value =
        ls ++ [.endOfFile] ∧
      ∀ document, (Scan.ofText (String.ofList (before ++ text))).diagnostics document = [] := by
  obtain ⟨ts, rfl, haccounts⟩ := htext.exists_accounts before
  have hall : Accounts [] (before ++ text) ts [] := hbefore.accounts haccounts
  have hscan : (bodyOf (String.ofList (before ++ text)),
      (Scan.ofText (String.ofList (before ++ text))).findings) = (ts, []) := by
    rw [← hall.eq_ofPieces, ofText, bodyOf, String.toList_ofList]
    rfl
  obtain ⟨hbody, hfindings⟩ := Prod.mk.inj hscan
  constructor
  · rw [tokens_ofText, hbody, List.map_append]
    rfl
  · intro document
    rw [diagnostics, hfindings, List.map_nil]

/-! ### Comments that touch a token -/

/-- A comment with a quote in it, and the end of its line. -/
def quotedComment : List Char := ['/', '/', '"', '\n']

/-- A number. -/
def minusHalf : Numeral := ⟨true, Digits.ofChars '0' [], some (Digits.ofChars '5' ['0'])⟩

/-- A comment follows the number right away, and the string holds what looks like a comment. -/
theorem Scan.ofText_writesOut_of_comment :
    let text := minusHalf.spelling ++ quotedComment ++ (['"', '/', '/', '"'] ++ [] ++ [])
    IsTrivia quotedComment ∧ WritesOut [.number minusHalf, .string "//"] text ∧
      (Scan.ofText (String.ofList (quotedComment ++ text))).tokens.map Located.value =
        [.number minusHalf, .string "//", .endOfFile] := by
  intro text
  have htrivia : IsTrivia quotedComment := @IsTrivia.comment ['"'] [] (by decide) .nil
  have hquote : '"' ∉ "//".toList := by decide
  have htext : WritesOut [.number minusHalf, .string "//"] text :=
    .cons (.number minusHalf.isNumberText_spelling) htrivia
      (fun _ => ⟨'\n', by decide, by decide⟩)
      (.cons (tokenText_iff.mpr ⟨hquote, by decide⟩) .nil (absurd rfl) .nil)
  exact ⟨htrivia, htext, (ofText_writesOut _ _ _ htrivia htext).1⟩

end Defsheet

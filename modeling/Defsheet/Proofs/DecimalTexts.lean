import Defsheet.Code
import Defsheet.Number.Value
import Defsheet.Proofs.Account
import Mathlib.Algebra.Order.Field.Rat
import Mathlib.Data.Int.Cast.Lemmas

/-!
# The values of decimal texts

Numbers are carried from documents to generated code as texts. This module says what such a text
stands for, by reading it: `decimal?` gives the fraction that digits, a point and a sign denote, and
nothing for a text of another form. It does not know of numerals, so it can be asked of what is
written in a document and of what is written in generated code.

## Main results

* `Numeral.decimal?_text`: every numeral denotes a number.
* `Numeral.isFloatText_floatLiteral` and `Numeral.decimal?_floatLiteral`: as a floating-point
  literal it has a point and denotes the same number.
* `Numeral.fitsInt_iff`: which numerals are integers of 32 bits, whatever their number of digits.
-/

namespace Defsheet

/-! ### Reading -/

instance (cs : List Char) : Decidable (IsDigitRun cs) := inferInstanceAs (Decidable (_ ∧ _))

/-- The number that digits stand for. -/
def digitsValue (cs : List Char) : Nat := cs.foldl (fun n c => 10 * n + (c.toNat - 48)) 0

/-- The number that digits stand for, perhaps with a point between them. -/
def magnitude? (cs : List Char) : Option ℚ :=
  match cs.splitOn '.' with
  | [whole] => if IsDigitRun whole then some (digitsValue whole) else none
  | [whole, fraction] =>
    if IsDigitRun whole ∧ IsDigitRun fraction then
      some (digitsValue whole + digitsValue fraction / 10 ^ fraction.length)
    else none
  | _ => none

/-- The number that a text denotes: perhaps a minus, digits, and perhaps a point with digits behind
it. -/
def decimal? : List Char → Option ℚ
  | '-' :: cs => (magnitude? cs).map Neg.neg
  | cs => magnitude? cs

/-- The text has the form of a floating-point literal: perhaps a minus, digits, a point and
digits. -/
def IsFloatText (cs : List Char) : Prop :=
  ∃ sign whole fraction, cs = sign ++ whole ++ '.' :: fraction ∧ (sign = [] ∨ sign = ['-']) ∧
    IsDigitRun whole ∧ IsDigitRun fraction

/-- A run of digits has no other characters in it. -/
theorem IsDigitRun.not_mem {cs : List Char} {c : Char} (h : IsDigitRun cs)
    (hc : c.isDigit = false) : c ∉ cs := by
  intro hmem
  rw [h.2 c hmem] at hc
  cases hc

/-- Digits without a point denote a whole number. -/
theorem magnitude?_of_isDigitRun {cs : List Char} (h : IsDigitRun cs) :
    magnitude? cs = some (digitsValue cs : ℚ) := by
  rw [magnitude?, List.splitOn_eq_singleton (h.not_mem (by decide))]
  exact if_pos h

/-- Digits with a point in between denote a decimal fraction. -/
theorem magnitude?_of_point {whole fraction : List Char} (hwhole : IsDigitRun whole)
    (hfraction : IsDigitRun fraction) :
    magnitude? (whole ++ '.' :: fraction) =
      some (digitsValue whole + digitsValue fraction / 10 ^ fraction.length : ℚ) := by
  have hpoint {cs : List Char} (h : IsDigitRun cs) : '.' ∉ cs := h.not_mem (by decide)
  rw [magnitude?, List.splitOn_append_cons_self, List.splitOn_eq_singleton (hpoint hwhole),
    List.splitOn_eq_singleton (hpoint hfraction)]
  exact if_pos ⟨hwhole, hfraction⟩

/-- A text that begins with a digit has no sign. -/
theorem decimal?_append_of_isDigitRun {whole rest : List Char} (h : IsDigitRun whole) :
    decimal? (whole ++ rest) = magnitude? (whole ++ rest) := by
  obtain ⟨hne, hdigits⟩ := h
  obtain ⟨c, cs, rfl⟩ := List.exists_cons_of_ne_nil hne
  have hc := hdigits c List.mem_cons_self
  rw [List.cons_append, decimal?]
  intro _ hminus
  obtain ⟨rfl, -⟩ := List.cons.inj hminus
  cases hc

/-! ### Numerals -/

namespace Digits

/-- The digits of a run stand for its value. -/
theorem digitsValue_spelling (ds : Digits) : digitsValue ds.spelling = valueFrom 0 ds.toList := by
  have hchar (d : Digit) : d.char.toNat - 48 = d.val := by
    revert d
    decide
  rw [digitsValue, spelling, List.foldl_map, valueFrom]
  simp only [hchar]

end Digits

namespace Numeral

variable {n : Numeral}

/-- The value of the digits behind a point. -/
def fractionValue : Option Digits → ℚ
  | none => 0
  | some ds => digitsValue ds.spelling / 10 ^ ds.spelling.length

/-- The exact value of a numeral. -/
def exact (n : Numeral) : ℚ :=
  (if n.negative then -1 else 1) * (digitsValue n.whole.spelling + fractionValue n.fraction)

/-- The digits of a numeral denote its magnitude. -/
theorem magnitude?_spelling (whole : Digits) (fraction : Option Digits) :
    magnitude? (whole.spelling ++ fractionText fraction) =
      some (digitsValue whole.spelling + fractionValue fraction) := by
  cases fraction with
  | none =>
      rw [fractionText, List.append_nil, magnitude?_of_isDigitRun whole.isDigitRun_spelling,
        fractionValue, add_zero]
  | some ds => exact magnitude?_of_point whole.isDigitRun_spelling ds.isDigitRun_spelling

/-- **Every numeral denotes a number.** -/
theorem decimal?_text (n : Numeral) : decimal? n.text.toList = some n.exact := by
  obtain ⟨negative, whole, fraction⟩ := n
  have hmagnitude := magnitude?_spelling whole fraction
  rw [text, String.toList_ofList, spelling, exact]
  cases negative with
  | true =>
      change (magnitude? (whole.spelling ++ fractionText fraction)).map Neg.neg = _
      rw [hmagnitude, if_pos rfl, neg_one_mul]
      rfl
  | false =>
      change decimal? (whole.spelling ++ fractionText fraction) = _
      rw [decimal?_append_of_isDigitRun whole.isDigitRun_spelling, hmagnitude,
        if_neg Bool.false_ne_true, one_mul]

/-- The numeral with a point: with `.0` behind it if it has none. -/
def pointed (n : Numeral) : Numeral :=
  { n with fraction := some (n.fraction.getD (Digits.ofChars '0' [])) }

/-- The literal of a float is the text of the numeral with a point. -/
theorem text_pointed (n : Numeral) : n.pointed.text = n.floatLiteral := by
  obtain ⟨negative, whole, _ | ds⟩ := n
  · have hpoint : fractionText (some (Digits.ofChars '0' [])) = ".0".toList := by decide
    refine String.toList_inj.mp ?_
    rw [floatLiteral, isIntegral, Option.isNone_none, if_pos rfl, String.toList_append, text, text,
      String.toList_ofList, String.toList_ofList, spelling, spelling, pointed, Option.getD_none,
      hpoint, fractionText, List.append_nil]
  · rfl

/-- A point changes nothing about what a numeral denotes. -/
theorem exact_pointed (n : Numeral) : n.pointed.exact = n.exact := by
  obtain ⟨negative, whole, _ | ds⟩ := n
  · have hzero : fractionValue (some (Digits.ofChars '0' [])) = fractionValue none := by
      have hdigits : digitsValue (Digits.ofChars '0' []).spelling = 0 := by decide
      rw [fractionValue, fractionValue, hdigits, Nat.cast_zero, zero_div]
    rw [exact, exact, pointed, Option.getD_none, hzero]
  · rfl

/-- **As a floating-point literal** a numeral denotes the same number. -/
theorem decimal?_floatLiteral (n : Numeral) : decimal? n.floatLiteral.toList = some n.exact := by
  rw [← text_pointed, decimal?_text, exact_pointed]

/-- The literal of a float has a point with digits on both sides. -/
theorem isFloatText_floatLiteral (n : Numeral) : IsFloatText n.floatLiteral.toList := by
  obtain ⟨ds, hds⟩ : ∃ ds, n.pointed.fraction = some ds := ⟨_, rfl⟩
  rw [← text_pointed, text, String.toList_ofList, spelling, hds]
  refine ⟨signText n.pointed.negative, n.pointed.whole.spelling, ds.spelling, rfl, ?_,
    Digits.isDigitRun_spelling _, ds.isDigitRun_spelling⟩
  rw [signText]
  split
  · exact .inr rfl
  · exact .inl rfl

/-! ### Integers of 32 bits -/

/-- A numeral without a point denotes its value as an integer. -/
theorem exact_eq_of_toInt? {i : ℤ} (h : n.toInt? = some i) : n.exact = i := by
  obtain ⟨negative, whole, _ | ds⟩ := n
  · obtain rfl := Option.some.inj h
    have hscaled : scaled ⟨negative, whole, none⟩ = digitsValue whole.spelling := by
      rw [scaled, fractionDigits, List.append_nil, whole.digitsValue_spelling]
    rw [exact, hscaled, fractionValue, add_zero]
    cases negative <;> simp
  · cases h

/-- The point shows in the text. -/
theorem point_mem_text_iff : '.' ∈ n.text.toList ↔ n.isIntegral = false := by
  obtain ⟨negative, whole, fraction⟩ := n
  have hsign : '.' ∉ signText negative := by cases negative <;> decide
  have hwhole : '.' ∉ whole.spelling := whole.isDigitRun_spelling.not_mem (by decide)
  rw [text, String.toList_ofList, spelling, List.mem_append, List.mem_append, isIntegral]
  cases fraction with
  | none => simp [hsign, hwhole, fractionText]
  | some ds => simp [fractionText]

/-- It is the numerals without a point that are read as integers. -/
theorem isIntegral_eq_isSome (n : Numeral) : n.isIntegral = n.toInt?.isSome := by
  rw [toInt?]
  split
  · next h => simp [h]
  · next h => simpa using h

/-- **Integers of 32 bits** are the numerals without a point that denote one, whatever their number
of digits. -/
theorem fitsInt_iff : n.fitsInt = true ↔ '.' ∉ n.text.toList ∧
    ∃ i : ℤ, decimal? n.text.toList = some (i : ℚ) ∧ -2 ^ 31 ≤ i ∧ i ≤ 2 ^ 31 - 1 := by
  rw [point_mem_text_iff, Bool.not_eq_false, isIntegral_eq_isSome, decimal?_text, fitsInt]
  cases hint : n.toInt? with
  | none => simp
  | some i =>
      simp only [Option.isSome_some, true_and, Bool.and_eq_true, decide_eq_true_eq,
        Option.some.injEq, exact_eq_of_toInt? hint, Int.cast_inj, exists_eq_left']
      omega

/-- Any other numeral has a point or denotes an integer that is too small or too large. -/
theorem fitsInt_eq_false_iff : n.fitsInt = false ↔ '.' ∈ n.text.toList ∨
    ∃ i : ℤ, decimal? n.text.toList = some (i : ℚ) ∧ (i < -2 ^ 31 ∨ 2 ^ 31 - 1 < i) := by
  rw [point_mem_text_iff, isIntegral_eq_isSome, decimal?_text, fitsInt]
  cases hint : n.toInt? with
  | none => simp
  | some i =>
      simp only [Option.isSome_some, Bool.true_eq_false, false_or, Bool.and_eq_false_iff,
        decide_eq_false_iff_not, Option.some.injEq, exact_eq_of_toInt? hint, Int.cast_inj,
        exists_eq_left']
      omega

end Numeral

end Defsheet

import Defsheet.Output
import Defsheet.Proofs.WrittenIdents
import Mathlib.Data.List.SplitBy

/-!
# Module names

A document may have any name, and its module has to be an identifier of generated code. The words of
the name are put in lower case and joined by underscores; then an underscore is put in front of a
digit, and one behind a reserved word. None of this undoes another part of it: the words can be read
off the result again, so a name that is a module already stays as it is.

Everything about words follows from one equation: an underscore belongs to no word and parts those
on its two sides (`moduleWords_append_underscore`).

## Main results

* `moduleWords_intercalate`: the words of joined words are those words.
* `flatten_moduleWords`: the words of a name are made of its letters and digits.
* `moduleWords_moduleName`: a module has the words of the name that it is made for.
* `isModuleIdent_moduleName`: a module that is not empty is an identifier.
* `moduleName_normalizes`: all of this for every name.
-/

namespace Defsheet

/-! ### Words -/

/-- A word of a module: lower-case letters and digits, at least one of them. -/
structure IsModuleWord (w : List Char) : Prop where
  ne_nil : w ≠ []
  plain : ∀ c ∈ w, c.isLower = true ∨ c.isDigit = true

/-- Lower-case letters are letters. -/
theorem isAlpha_of_isLower {c : Char} (h : c.isLower = true) : c.isAlpha = true :=
  Bool.or_eq_true_iff.mpr (.inr h)

/-- Lower-case letters and digits belong to words. -/
theorem isAlphanum_of_plain {c : Char} (h : c.isLower = true ∨ c.isDigit = true) :
    c.isAlphanum = true :=
  Bool.or_eq_true_iff.mpr (h.imp_left isAlpha_of_isLower)

/-- They are no underscores. -/
theorem ne_underscore_of_plain {c : Char} (h : c.isLower = true ∨ c.isDigit = true) : c ≠ '_' := by
  rintro rfl
  revert h
  decide

/-- They begin no word behind a letter. -/
theorem not_isUpper_of_plain {c : Char} (h : c.isLower = true ∨ c.isDigit = true) :
    c.isUpper = false :=
  forall_isWordChar (P := fun c => c.isLower = true ∨ c.isDigit = true → c.isUpper = false)
    (by decide) (by rw [isWordChar, isAlphanum_of_plain h, Bool.true_or]) h

/-- Neither lower-case letters nor digits change in lower case. -/
theorem toLower_of_plain {c : Char} (h : c.isLower = true ∨ c.isDigit = true) : c.toLower = c :=
  forall_isWordChar (P := fun c => c.isLower = true ∨ c.isDigit = true → c.toLower = c)
    (by decide) (by rw [isWordChar, isAlphanum_of_plain h, Bool.true_or]) h

/-- A letter or digit in lower case is a lower-case letter or a digit. -/
theorem plain_toLower {c : Char} (h : c.isAlphanum = true) :
    c.toLower.isLower = true ∨ c.toLower.isDigit = true :=
  forall_isWordChar
    (P := fun c => c.isAlphanum = true → c.toLower.isLower = true ∨ c.toLower.isDigit = true)
    (by decide) (by rw [isWordChar, h, Bool.true_or]) h

/-- The words of a name are words of a module. -/
theorem isModuleWord_of_mem_moduleWords {cs w : List Char} (h : w ∈ moduleWords cs) :
    IsModuleWord w := by
  obtain ⟨v, hv, rfl⟩ := List.mem_map.mp h
  obtain ⟨hrun, hall⟩ := List.mem_filter.mp hv
  refine ⟨fun hnil => List.ne_nil_of_mem_splitBy hrun (List.map_eq_nil_iff.mp hnil), fun c hc => ?_⟩
  obtain ⟨d, hd, rfl⟩ := List.mem_map.mp hc
  exact plain_toLower (List.all_eq_true.mp hall d hd)

/-- Names are cut between characters that do not belong to one word. -/
theorem moduleWords_append {u v : List Char}
    (h : ∀ x ∈ u.getLast?, ∀ y ∈ v.head?, sameWord x y = false) :
    moduleWords (u ++ v) = moduleWords u ++ moduleWords v := by
  rw [moduleWords, List.splitBy_append h, List.filter_append, List.map_append, moduleWords,
    moduleWords]

/-- **Underscores part words** and belong to none. -/
theorem moduleWords_append_underscore (u v : List Char) :
    moduleWords (u ++ '_' :: v) = moduleWords u ++ moduleWords v := by
  have hbefore (x : Char) : sameWord x '_' = false := by simp [sameWord]
  have hafter (y : Char) : sameWord '_' y = false := by simp [sameWord]
  rw [← List.singleton_append, moduleWords_append, moduleWords_append]
  · rfl
  · simp [hafter]
  · simp [hbefore]

/-- A run of letters and digits that belong together is one word. -/
theorem moduleWords_of_isChain {w : List Char} (hne : w ≠ [])
    (hchain : w.IsChain fun x y => sameWord x y = true) (hall : ∀ c ∈ w, c.isAlphanum = true) :
    moduleWords w = [w.map Char.toLower] := by
  rw [moduleWords, List.splitBy_of_isChain hne hchain, List.filter_singleton,
    List.all_eq_true.mpr hall]
  rfl

/-- A word is its own only word. -/
theorem IsModuleWord.moduleWords_eq {w : List Char} (h : IsModuleWord w) : moduleWords w = [w] := by
  have hchain : w.IsChain fun x y => sameWord x y = true := by
    refine List.Pairwise.isChain (List.pairwise_of_forall_mem_list fun x hx y hy => ?_)
    simp [sameWord, isAlphanum_of_plain (h.plain x hx), isAlphanum_of_plain (h.plain y hy),
      not_isUpper_of_plain (h.plain y hy)]
  have hlower : w.map Char.toLower = w :=
    (List.map_congr_left fun c hc => toLower_of_plain (h.plain c hc)).trans (List.map_id' w)
  rw [moduleWords_of_isChain h.ne_nil hchain fun c hc => isAlphanum_of_plain (h.plain c hc), hlower]

/-- What holds of one word, and goes on to hold when a word and an underscore are put in front,
holds of joined words. -/
theorem intercalate_induction {P : List (List Char) → List Char → Prop} (nil : P [] [])
    (single : ∀ {w}, IsModuleWord w → P [w] w)
    (cons : ∀ {w ws cs}, IsModuleWord w → ws ≠ [] → P ws cs → P (w :: ws) (w ++ '_' :: cs))
    {ws : List (List Char)} (h : ∀ w ∈ ws, IsModuleWord w) : P ws (['_'].intercalate ws) := by
  induction ws with
  | nil => exact nil
  | cons w ws ih =>
      rw [List.forall_mem_cons] at h
      cases ws with
      | nil =>
          rw [List.intercalate_singleton]
          exact single h.1
      | cons w' ws =>
          rw [List.intercalate_cons_cons, List.append_assoc, List.singleton_append]
          exact cons h.1 (List.cons_ne_nil _ _) (ih h.2)

/-- **The words of joined words** are those words. -/
theorem moduleWords_intercalate {ws : List (List Char)} (h : ∀ w ∈ ws, IsModuleWord w) :
    moduleWords (['_'].intercalate ws) = ws := by
  refine intercalate_induction (P := fun ws cs => moduleWords cs = ws) rfl
    IsModuleWord.moduleWords_eq (fun hw _ ih => ?_) h
  rw [moduleWords_append_underscore, hw.moduleWords_eq, ih, List.singleton_append]

/-- Joined words fall into the same words again. -/
theorem moduleWords_joinWords (cs : List Char) : moduleWords (joinWords cs) = moduleWords cs :=
  moduleWords_intercalate fun _ hw => isModuleWord_of_mem_moduleWords hw

/-- In a run of neighbours that belong together, one letter or digit makes the run a word. -/
theorem isAlphanum_of_isChain {w : List Char} (h : w.IsChain fun x y => sameWord x y = true)
    {c : Char} (hc : c ∈ w) (hletter : c.isAlphanum = true) : ∀ d ∈ w, d.isAlphanum = true := by
  induction w generalizing c with
  | nil => cases hc
  | cons a w ih =>
      cases w with
      | nil =>
          obtain rfl := List.mem_singleton.mp hc
          exact List.forall_mem_singleton.mpr hletter
      | cons b w =>
          rw [List.isChain_cons_cons] at h
          obtain ⟨hab, hchain⟩ := h
          simp only [sameWord, Bool.and_eq_true] at hab
          exact List.forall_mem_cons.mpr ⟨hab.1.1, ih hchain List.mem_cons_self hab.1.2⟩

/-- A run of neighbours that belong together is a word, or has no letter or digit. -/
theorem filter_isAlphanum_of_mem_splitBy {cs w : List Char} (h : w ∈ cs.splitBy sameWord) :
    w.filter Char.isAlphanum = if w.all Char.isAlphanum then w else [] := by
  split
  · next hall => exact List.filter_eq_self.mpr (List.all_eq_true.mp hall)
  · next hall =>
    refine List.filter_eq_nil_iff.mpr fun c hc hletter => hall (List.all_eq_true.mpr ?_)
    exact isAlphanum_of_isChain (List.isChain_of_mem_splitBy h) hc hletter

/-- **The words of a name** are made of its letters and digits, in order. -/
theorem flatten_moduleWords (cs : List Char) :
    (moduleWords cs).flatten = (cs.filter Char.isAlphanum).map Char.toLower := by
  have hruns {runs : List (List Char)} (h : ∀ w ∈ runs,
      w.filter Char.isAlphanum = if w.all Char.isAlphanum then w else []) :
      (runs.filter fun w => w.all Char.isAlphanum).flatten =
        runs.flatten.filter Char.isAlphanum := by
    induction runs with
    | nil => rfl
    | cons w runs ih =>
        rw [List.forall_mem_cons] at h
        rw [List.filter_cons, List.flatten_cons, List.filter_append, h.1, ← ih h.2]
        split <;> rfl
  rw [moduleWords, ← List.map_flatten, hruns fun w hw => filter_isAlphanum_of_mem_splitBy hw,
    List.flatten_splitBy]

/-- **When a name has no words**: if it has neither letter nor digit. -/
theorem moduleWords_eq_nil_iff {cs : List Char} :
    moduleWords cs = [] ↔ ∀ c ∈ cs, c.isAlphanum = false := by
  have hflatten : moduleWords cs = [] ↔ (moduleWords cs).flatten = [] := by
    rw [List.flatten_eq_nil_iff]
    constructor
    · intro h
      rw [h]
      exact List.forall_mem_nil _
    · intro h
      refine List.eq_nil_iff_forall_not_mem.mpr fun w hw => ?_
      exact (isModuleWord_of_mem_moduleWords hw).ne_nil (h w hw)
  rw [hflatten, flatten_moduleWords, List.map_eq_nil_iff, List.filter_eq_nil_iff]
  simp only [Bool.not_eq_true]

/-! ### Joined words -/

/-- Lower-case letters, digits and single underscores, with no underscore at either end. -/
structure IsSpaced (cs : List Char) : Prop where
  chars : ∀ c ∈ cs, c.isLower = true ∨ c.isDigit = true ∨ c = '_'
  single : cs.IsChain fun x y => x ≠ '_' ∨ y ≠ '_'
  begins : ∀ c ∈ cs.head?, c ≠ '_'
  ends : ∀ c ∈ cs.getLast?, c ≠ '_'

/-- A word has no underscores at all. -/
theorem IsModuleWord.isSpaced {w : List Char} (h : IsModuleWord w) : IsSpaced w where
  chars c hc := (h.plain c hc).imp_right .inl
  single := (List.pairwise_of_forall_mem_list fun x hx _ _ =>
    .inl (ne_underscore_of_plain (h.plain x hx))).isChain
  begins c hc := ne_underscore_of_plain (h.plain c (List.mem_of_mem_head? hc))
  ends c hc := ne_underscore_of_plain (h.plain c (List.mem_of_mem_getLast? hc))

/-- An underscore may stand between two texts that have none at their ends. -/
theorem IsSpaced.append_underscore {u v : List Char} (hu : IsSpaced u) (hv : IsSpaced v)
    (hune : u ≠ []) (hvne : v ≠ []) : IsSpaced (u ++ '_' :: v) where
  chars := List.forall_mem_append.mpr
    ⟨hu.chars, List.forall_mem_cons.mpr ⟨.inr (.inr rfl), hv.chars⟩⟩
  single := List.isChain_append.mpr ⟨hu.single,
    List.isChain_cons.mpr ⟨fun y hy => .inr (hv.begins y hy), hv.single⟩,
    fun x hx _ _ => .inl (hu.ends x hx)⟩
  begins c hc := by
    rw [List.head?_append_of_ne_nil _ hune] at hc
    exact hu.begins c hc
  ends c hc := by
    rw [List.getLast?_append_of_ne_nil _ (List.cons_ne_nil _ _), List.getLast?_cons_of_ne_nil hvne]
      at hc
    exact hv.ends c hc

/-- Words are spaced by what joins them. The induction is along the words. -/
theorem isSpaced_intercalate {ws : List (List Char)} (h : ∀ w ∈ ws, IsModuleWord w) :
    IsSpaced (['_'].intercalate ws) ∧ (ws ≠ [] → ['_'].intercalate ws ≠ []) := by
  refine intercalate_induction (P := fun ws cs => IsSpaced cs ∧ (ws ≠ [] → cs ≠ [])) ?_
    (fun hw => ⟨hw.isSpaced, fun _ => hw.ne_nil⟩) (fun hw hne ih => ?_) h
  · exact ⟨⟨by simp, .nil, by simp, by simp⟩, fun hne => absurd rfl hne⟩
  · exact ⟨hw.isSpaced.append_underscore ih.1 hw.ne_nil (ih.2 hne),
      fun _ => List.append_ne_nil_of_left_ne_nil hw.ne_nil _⟩

/-- The joined words of a name are spaced. -/
theorem isSpaced_joinWords (cs : List Char) : IsSpaced (joinWords cs) :=
  (isSpaced_intercalate fun _ hw => isModuleWord_of_mem_moduleWords hw).1

/-- Something is left of a name that has words. -/
theorem joinWords_ne_nil {cs : List Char} (h : moduleWords cs ≠ []) : joinWords cs ≠ [] :=
  (isSpaced_intercalate fun _ hw => isModuleWord_of_mem_moduleWords hw).2 h

/-- Spaced words stay spaced with an underscore in front, or behind, or both. -/
theorem IsSpaced.isChain_enclosed {cs lead trail : List Char} (h : IsSpaced cs) (hne : cs ≠ [])
    (hlead : lead = [] ∨ lead = ['_']) (htrail : trail = [] ∨ trail = ['_']) :
    (lead ++ cs ++ trail).IsChain fun x y => x ≠ '_' ∨ y ≠ '_' := by
  have hbehind : (cs ++ trail).IsChain fun x y => x ≠ '_' ∨ y ≠ '_' := by
    refine List.isChain_append.mpr ⟨h.single, ?_, fun x hx _ _ => .inl (h.ends x hx)⟩
    obtain rfl | rfl := htrail
    · exact .nil
    · exact .singleton _
  rw [List.append_assoc]
  obtain rfl | rfl := hlead
  · exact hbehind
  · rw [List.singleton_append]
    refine List.isChain_cons.mpr ⟨fun y hy => .inr ?_, hbehind⟩
    rw [List.head?_append_of_ne_nil _ hne] at hy
    exact h.begins y hy

/-- Without the underscores, joined words are the words. -/
theorem filter_intercalate {ws : List (List Char)} (h : ∀ w ∈ ws, IsModuleWord w) :
    (['_'].intercalate ws).filter (· != '_') = ws.flatten := by
  have hword {w : List Char} (hw : IsModuleWord w) : w.filter (· != '_') = w :=
    List.filter_eq_self.mpr fun c hc => bne_iff_ne.mpr (ne_underscore_of_plain (hw.plain c hc))
  refine intercalate_induction (P := fun ws cs => cs.filter (· != '_') = ws.flatten) rfl
    (fun hw => ?_) (fun hw _ ih => ?_) h
  · rw [hword hw, List.flatten_singleton]
  · rw [List.filter_append, hword hw, List.filter_cons_of_neg (by decide), ih, List.flatten_cons]

/-! ### Modules -/

/-- What stands around the joined words in a module: at most an underscore in front, so that it does
not begin with a digit, and one behind. -/
theorem exists_toList_moduleName_eq (document : String) :
    ∃ lead trail, (moduleName document).toList = lead ++ joinWords document.toList ++ trail ∧
      (lead = [] ∨ lead = ['_']) ∧ (trail = [] ∨ trail = ['_']) ∧
      ∀ c ∈ (lead ++ joinWords document.toList).head?, c.isDigit = false := by
  have htrail (name : List Char) : ∃ trail,
      (if isReserved (String.ofList name) then String.ofList name ++ "_"
        else String.ofList name).toList = name ++ trail ∧ (trail = [] ∨ trail = ['_']) := by
    split
    · exact ⟨['_'], by simp, .inr rfl⟩
    · exact ⟨[], by simp, .inl rfl⟩
  rw [moduleName]
  by_cases hdigit : (joinWords document.toList).head?.any Char.isDigit = true
  · rw [if_pos hdigit]
    obtain ⟨trail, heq, hcases⟩ := htrail ('_' :: joinWords document.toList)
    refine ⟨['_'], trail, heq, .inr rfl, hcases, ?_⟩
    rintro c ⟨⟩
    rfl
  · rw [if_neg hdigit]
    obtain ⟨trail, heq, hcases⟩ := htrail (joinWords document.toList)
    refine ⟨[], trail, heq, .inl rfl, hcases, fun c hc => ?_⟩
    rw [List.nil_append, Option.mem_def] at hc
    rwa [hc, Option.any_some, Bool.not_eq_true] at hdigit

/-- **A module has the words of the name that it is made for.** -/
theorem moduleWords_moduleName (document : String) :
    moduleWords (moduleName document).toList = moduleWords document.toList := by
  obtain ⟨lead, trail, heq, hlead, htrail, -⟩ := exists_toList_moduleName_eq document
  have hfront (cs : List Char) : moduleWords (lead ++ cs) = moduleWords cs := by
    obtain rfl | rfl := hlead
    · rfl
    · exact moduleWords_append_underscore [] cs
  have hbehind (cs : List Char) : moduleWords (cs ++ trail) = moduleWords cs := by
    obtain rfl | rfl := htrail
    · rw [List.append_nil]
    · exact (moduleWords_append_underscore cs []).trans (List.append_nil _)
  rw [heq, hbehind, hfront, moduleWords_joinWords]

/-- **A module keeps the letters and digits of the name**, case apart. -/
theorem caseless_moduleName (document : String) :
    caseless (moduleName document) = (document.toList.filter Char.isAlphanum).map Char.toLower := by
  obtain ⟨lead, trail, heq, hlead, htrail, -⟩ := exists_toList_moduleName_eq document
  have hunderscore {cs : List Char} (hcs : cs = [] ∨ cs = ['_']) : cs.filter (· != '_') = [] := by
    obtain rfl | rfl := hcs <;> rfl
  have hjoined : (joinWords document.toList).filter (· != '_') =
      (document.toList.filter Char.isAlphanum).map Char.toLower :=
    (filter_intercalate fun _ hw => isModuleWord_of_mem_moduleWords hw).trans
      (flatten_moduleWords _)
  rw [caseless, heq, List.filter_append, List.filter_append, hunderscore hlead,
    hunderscore htrail, hjoined, List.nil_append, List.append_nil, List.map_map]
  exact List.map_congr_left fun c hc =>
    toLower_of_plain (plain_toLower (List.mem_filter.mp hc).2)

/-- A module only depends on the words. -/
theorem moduleName_congr {name name' : String}
    (h : moduleWords name.toList = moduleWords name'.toList) :
    moduleName name = moduleName name' := by
  have hjoined : joinWords name.toList = joinWords name'.toList := by rw [joinWords, h, joinWords]
  rw [moduleName, moduleName, hjoined]

/-- A document has no module exactly if its name has no words. -/
theorem moduleName_eq_empty_iff {document : String} :
    moduleName document = "" ↔ moduleWords document.toList = [] := by
  constructor
  · intro h
    rw [← moduleWords_moduleName, h]
    rfl
  · intro h
    have hempty : moduleWords "".toList = [] := rfl
    exact (moduleName_congr (h.trans hempty.symm)).trans rfl

/-- A module as generated code wants it: an identifier that is neither reserved nor a lone
underscore, made of lower-case letters, digits and single underscores. -/
structure IsModuleIdent (s : String) : Prop where
  chars : ∀ c ∈ s.toList, c.isLower = true ∨ c.isDigit = true ∨ c = '_'
  single : ¬['_', '_'] <:+: s.toList
  isWord : IsWord s
  ne_underscore : s ≠ "_"
  notReserved : isReserved s = false

/-- **A module that is not empty is an identifier.** -/
theorem isModuleIdent_moduleName {document : String} (h : moduleName document ≠ "") :
    IsModuleIdent (moduleName document) := by
  have hwords : moduleWords document.toList ≠ [] := mt moduleName_eq_empty_iff.mpr h
  have hspaced := isSpaced_joinWords document.toList
  have hne := joinWords_ne_nil hwords
  obtain ⟨lead, trail, heq, hlead, htrail, hdigit⟩ := exists_toList_moduleName_eq document
  have hchars : ∀ c ∈ (moduleName document).toList,
      c.isLower = true ∨ c.isDigit = true ∨ c = '_' := by
    have hunderscore {cs : List Char} (hcs : cs = [] ∨ cs = ['_']) {c : Char} (hc : c ∈ cs) :
        c.isLower = true ∨ c.isDigit = true ∨ c = '_' := by
      obtain rfl | rfl := hcs
      · cases hc
      · exact .inr (.inr (List.mem_singleton.mp hc))
    rw [heq]
    exact List.forall_mem_append.mpr ⟨List.forall_mem_append.mpr
      ⟨fun _ => hunderscore hlead, hspaced.chars⟩, fun _ => hunderscore htrail⟩
  refine ⟨hchars, fun hdouble => ?_, ?_, fun hlone => ?_, not_isReserved_moduleName document⟩
  · rw [heq] at hdouble
    have hchain := List.IsChain.infix (hspaced.isChain_enclosed hne hlead htrail) hdouble
    simp at hchain
  · obtain ⟨c, cs, hcs⟩ := List.exists_cons_of_ne_nil (List.append_ne_nil_of_right_ne_nil lead hne)
    rw [hcs] at heq hdigit
    have hstart : isWordStart c = true := by
      have hc := hchars c (heq ▸ List.mem_cons_self)
      rw [hdigit c rfl] at hc
      obtain hlower | hfalse | rfl := hc
      · rw [isWordStart, isAlpha_of_isLower hlower, Bool.true_or]
      · cases hfalse
      · rfl
    exact (isWordy_moduleName document).isWord heq hstart
  · refine hwords ?_
    rw [← moduleWords_moduleName, hlone]
    rfl

/-- **Modules are normal forms.** Whatever the name of a document is, its module is empty exactly if
the name has no letter or digit (of ASCII). Otherwise the module is an identifier of generated code,
made of lower-case letters, digits and single underscores. Its files are no indexes. It spells the
letters and digits of the name, and the module of a module is the module itself. -/
theorem moduleName_normalizes (document : String) :
    (moduleName document = "" ↔ ∀ c ∈ document.toList, c.isAlphanum = false) ∧
      (moduleName document ≠ "" → IsModuleIdent (moduleName document)) ∧
      (∀ k, Artifact.relativePath k (moduleName document) ≠ k.module ++ "/" ++ indexFile) ∧
      caseless (moduleName document) =
        (document.toList.filter Char.isAlphanum).map Char.toLower ∧
      moduleName (moduleName document) = moduleName document := by
  refine ⟨moduleName_eq_empty_iff.trans moduleWords_eq_nil_iff, isModuleIdent_moduleName,
    fun k hindex => ?_, caseless_moduleName document,
    moduleName_congr (moduleWords_moduleName document)⟩
  have hsplit : indexFile = "mod" ++ ".rs" := by decide
  rw [Artifact.relativePath, hsplit, ← String.append_assoc, String.append_left_inj,
    String.append_right_inj] at hindex
  exact moduleName_ne_mod document hindex

/-- Every repair at once: characters that are not ASCII, a digit at the beginning, a capital within
a word and underscores at both ends. A reserved word is repaired as well. -/
theorem moduleName_normalizes_of_repaired :
    let document := "__7ÜberHTTP - Mod__"
    moduleName document = "_7_ber_http_mod" ∧ IsModuleIdent "_7_ber_http_mod" ∧
      moduleName "_7_ber_http_mod" = "_7_ber_http_mod" ∧
      moduleName "Mod" = "mod_" ∧ IsModuleIdent "mod_" ∧ moduleName "mod_" = "mod_" := by
  intro document
  have hmodule : moduleName document = "_7_ber_http_mod" := by decide +kernel
  have hreserved : moduleName "Mod" = "mod_" := by decide +kernel
  obtain ⟨-, hident, -, -, hsame⟩ := moduleName_normalizes document
  obtain ⟨-, hident', -, -, hsame'⟩ := moduleName_normalizes "Mod"
  rw [hmodule] at hident hsame
  rw [hreserved] at hident' hsame'
  exact ⟨hmodule, hident (by decide), hsame, hreserved, hident' (by decide), hsame'⟩

end Defsheet

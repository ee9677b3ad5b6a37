import Defsheet.Declaration.Statement

/-!
# The grammar of documents

The grammar is data here: `Rule.body` lists its productions, one for each rule, and
`Ebnf.Derives` says which sequences of lexemes an expression derives. Nothing in either of them
mentions the readers of `Defsheet.Declaration`.

Beside it stands the concrete syntax. `ActionMember.lexemes` and its companions spell a piece of
syntax as lexemes, and `SpellsFile` says that tokens spell statements one after the other, every
statement and every member standing where its first token stands. The grammar derives exactly what
can be spelled, so a derivation and the statements that it is a derivation of go together.

## Main results

* `derives_actionMember_iff`, `derives_markerProp_iff`: the members of a body are derivable exactly
  as they are spelled.
* `derives_file_iff`: the lexemes of some tokens are derivable as a file exactly if the tokens
  spell statements.
-/

namespace Defsheet

/-! ### Productions -/

/-- What stands for a single lexeme in a production: the lexeme itself, or a class of them. -/
inductive Terminal where
  | exactly (l : Lexeme)
  | ident
  | string
  | number

/-- Whether the lexeme is one that the terminal stands for. -/
def Terminal.Admits : Terminal → Lexeme → Prop
  | exactly l, l' => l' = l
  | ident, l' => ∃ name, l' = .ident name
  | string, l' => ∃ text, l' = .string text
  | number, l' => ∃ n, l' = .number n

/-- The rules of the grammar. -/
inductive Rule where
  | file
  | statement
  | actionDecl
  | typeId
  | actionMember
  | metaField
  | portDecl
  | portOpts
  | typeName
  | markerDecl
  | markerProp
  | gizmoShape
  | literal

/-- The right-hand side of a production. Juxtaposition is written `++`, choice `|||`. -/
inductive Ebnf where
  | terminal (t : Terminal)
  | rule (r : Rule)
  | seq (a b : Ebnf)
  | alt (a b : Ebnf)
  | optional (a : Ebnf)
  | many (a : Ebnf)

namespace Ebnf

instance : Append Ebnf := ⟨seq⟩

instance : OrOp Ebnf := ⟨alt⟩

/-- A reserved word. -/
def word (k : Keyword) : Ebnf := terminal (.exactly (.keyword k))

/-- A punctuation mark. -/
def sign (l : Lexeme) : Ebnf := terminal (.exactly l)

/-- Any name. -/
def anIdent : Ebnf := terminal .ident

/-- Any quoted text. -/
def aString : Ebnf := terminal .string

/-- Any numeral. -/
def aNumber : Ebnf := terminal .number

end Ebnf

open Ebnf in

/-- **The productions.** -/
def Rule.body : Rule → Ebnf
  | file => many (rule statement)
  | statement => rule actionDecl ||| rule markerDecl
  | actionDecl =>
    word .action ++ rule typeId ++ sign .openBrace ++ many (rule actionMember) ++ sign .closeBrace
  | typeId => anIdent ++ many (sign .dot ++ anIdent)
  | actionMember => rule metaField ||| rule portDecl
  | metaField =>
    word .displayName ++ aString ||| word .category ++ aString ||| word .description ++ aString
      ||| word .themeColor ++ aNumber ++ aNumber ++ aNumber
      ||| word .duration ++ (word .instant ||| word .duration ||| word .passive)
  | portDecl =>
    word .port ++ rule typeName ++ anIdent ++ optional (sign .equals ++ rule literal)
        ++ optional (rule portOpts)
      ||| word .flow ++ anIdent ++ optional (rule portOpts)
  | portOpts =>
    optional (word .label ++ aString) ++ optional (word .min ++ aNumber)
      ++ optional (word .max ++ aNumber)
  | typeName => word .float ||| word .int ||| word .bool ||| word .string ||| anIdent
  | markerDecl =>
    word .marker ++ anIdent ++ sign .openBrace ++ many (rule markerProp) ++ sign .closeBrace
  | markerProp => word .label ++ aString ||| word .gizmo ++ rule gizmoShape
  | gizmoShape =>
    (word .sphere ||| word .wireSphere ||| word .box ||| word .wireBox)
      ++ optional (sign .openParen ++ aNumber ++ sign .closeParen)
  | literal => aNumber ||| aString ||| word .trueWord ||| word .falseWord

/-! ### Derivations -/

/-- The sequences of lexemes that an expression derives. -/
inductive Ebnf.Derives : Ebnf → List Lexeme → Prop
  | terminal {t : Terminal} {l : Lexeme} : t.Admits l → Derives (.terminal t) [l]
  | rule {r : Rule} {ls : List Lexeme} : Derives r.body ls → Derives (.rule r) ls
  | seq {a b : Ebnf} {ls ms : List Lexeme} :
      Derives a ls → Derives b ms → Derives (a ++ b) (ls ++ ms)
  | altLeft {a b : Ebnf} {ls : List Lexeme} : Derives a ls → Derives (a ||| b) ls
  | altRight {a b : Ebnf} {ls : List Lexeme} : Derives b ls → Derives (a ||| b) ls
  | optionalNone {a : Ebnf} : Derives (.optional a) []
  | optionalSome {a : Ebnf} {ls : List Lexeme} : Derives a ls → Derives (.optional a) ls
  | manyNil {a : Ebnf} : Derives (.many a) []
  | manyCons {a : Ebnf} {ls ms : List Lexeme} :
      Derives a ls → Derives (.many a) ms → Derives (.many a) (ls ++ ms)

namespace Ebnf

variable {a b : Ebnf} {ls : List Lexeme}

/-- A terminal derives one lexeme. -/
theorem derives_terminal_iff {t : Terminal} :
    Derives (.terminal t) ls ↔ ∃ l, t.Admits l ∧ ls = [l] := by
  constructor
  · intro h
    cases h with
    | terminal ht => exact ⟨_, ht, rfl⟩
  · rintro ⟨l, ht, rfl⟩
    exact .terminal ht

/-- A word derives its keyword. -/
@[simp] theorem derives_word_iff {k : Keyword} : Derives (word k) ls ↔ ls = [.keyword k] := by
  rw [word, derives_terminal_iff]
  constructor
  · rintro ⟨l, rfl, rfl⟩
    rfl
  · rintro rfl
    exact ⟨_, rfl, rfl⟩

/-- A sign derives itself. -/
@[simp] theorem derives_sign_iff {l : Lexeme} : Derives (sign l) ls ↔ ls = [l] := by
  rw [sign, derives_terminal_iff]
  constructor
  · rintro ⟨l, rfl, rfl⟩
    rfl
  · rintro rfl
    exact ⟨_, rfl, rfl⟩

/-- Every identifier is derived. -/
@[simp] theorem derives_anIdent_iff : Derives anIdent ls ↔ ∃ name, ls = [.ident name] := by
  rw [anIdent, derives_terminal_iff]
  constructor
  · rintro ⟨l, ⟨name, rfl⟩, rfl⟩
    exact ⟨name, rfl⟩
  · rintro ⟨name, rfl⟩
    exact ⟨_, ⟨name, rfl⟩, rfl⟩

/-- Every string is derived. -/
@[simp] theorem derives_aString_iff : Derives aString ls ↔ ∃ text, ls = [.string text] := by
  rw [aString, derives_terminal_iff]
  constructor
  · rintro ⟨l, ⟨text, rfl⟩, rfl⟩
    exact ⟨text, rfl⟩
  · rintro ⟨text, rfl⟩
    exact ⟨_, ⟨text, rfl⟩, rfl⟩

/-- Every number is derived. -/
@[simp] theorem derives_aNumber_iff : Derives aNumber ls ↔ ∃ n, ls = [.number n] := by
  rw [aNumber, derives_terminal_iff]
  constructor
  · rintro ⟨l, ⟨n, rfl⟩, rfl⟩
    exact ⟨n, rfl⟩
  · rintro ⟨n, rfl⟩
    exact ⟨_, ⟨n, rfl⟩, rfl⟩

/-- A rule derives what its body does. -/
theorem derives_rule_iff {r : Rule} : Derives (.rule r) ls ↔ Derives r.body ls := by
  constructor
  · intro h
    cases h with
    | rule h => exact h
  · exact .rule

/-- A sequence derives one part behind the other. -/
@[simp] theorem derives_seq_iff :
    Derives (a ++ b) ls ↔ ∃ us vs, Derives a us ∧ Derives b vs ∧ ls = us ++ vs := by
  constructor
  · intro h
    cases h with
    | seq ha hb => exact ⟨_, _, ha, hb, rfl⟩
  · rintro ⟨us, vs, ha, hb, rfl⟩
    exact .seq ha hb

/-- An alternative derives what one of its sides does. -/
@[simp] theorem derives_alt_iff : Derives (a ||| b) ls ↔ Derives a ls ∨ Derives b ls := by
  constructor
  · intro h
    cases h with
    | altLeft ha => exact .inl ha
    | altRight hb => exact .inr hb
  · rintro (ha | hb)
    · exact .altLeft ha
    · exact .altRight hb

/-- An option also derives nothing. -/
@[simp] theorem derives_optional_iff : Derives (.optional a) ls ↔ ls = [] ∨ Derives a ls := by
  constructor
  · intro h
    cases h with
    | optionalNone => exact .inl rfl
    | optionalSome ha => exact .inr ha
  · rintro (rfl | ha)
    · exact .optionalNone
    · exact .optionalSome ha

/-- What a repetition derives is spelled item by item, if each item is. -/
theorem derives_many_iff {α : Type} {lexemes : α → List Lexeme}
    (ha : ∀ ls, Derives a ls ↔ ∃ x, ls = lexemes x) :
    Derives (.many a) ls ↔ ∃ xs : List α, ls = xs.flatMap lexemes := by
  constructor
  · intro h
    generalize he : Ebnf.many a = e at h
    induction h with
    | manyNil => exact ⟨[], rfl⟩
    | manyCons hx _ _ ih =>
        cases he
        obtain ⟨x, rfl⟩ := (ha _).mp hx
        obtain ⟨xs, rfl⟩ := ih rfl
        exact ⟨x :: xs, rfl⟩
    | _ => cases he
  · rintro ⟨xs, rfl⟩
    induction xs with
    | nil => exact .manyNil
    | cons x xs ih =>
        rw [List.flatMap_cons]
        exact .manyCons ((ha _).mpr ⟨x, rfl⟩) ih

end Ebnf

/-! ### Concrete syntax -/

/-- The lexeme of a port type. -/
def PortType.lexeme : PortType → Lexeme
  | .float => .keyword .float
  | .int => .keyword .int
  | .bool => .keyword .bool
  | .string => .keyword .string
  | .custom name => .ident name

/-- The lexeme of a written value. -/
def Literal.lexeme : Literal → Lexeme
  | .number n => .number n
  | .string text => .string text
  | .bool true => .keyword .trueWord
  | .bool false => .keyword .falseWord

/-- The lexeme of a duration. -/
def DurationKind.lexeme : DurationKind → Lexeme
  | .instant => .keyword .instant
  | .duration => .keyword .duration
  | .passive => .keyword .passive

/-- The lexeme of a shape. -/
def GizmoShape.lexeme : GizmoShape → Lexeme
  | .sphere => .keyword .sphere
  | .wireSphere => .keyword .wireSphere
  | .box => .keyword .box
  | .wireBox => .keyword .wireBox

/-- A part that may be left out: a keyword and a value. -/
def optionLexemes {α : Type} (k : Keyword) (lexeme : α → Lexeme) : Option α → List Lexeme
  | none => []
  | some a => [.keyword k, lexeme a]

/-- The lexemes of port options. -/
def PortOptions.lexemes (o : PortOptions) : List Lexeme :=
  optionLexemes .label .string o.label ++ optionLexemes .min .number o.min
    ++ optionLexemes .max .number o.max

/-- The lexemes of a default. -/
def defaultLexemes : Option Literal → List Lexeme
  | none => []
  | some value => [.equals, value.lexeme]

/-- The lexemes of a member of an action. -/
def ActionMember.lexemes : ActionMember → List Lexeme
  | .displayName text => [.keyword .displayName, .string text]
  | .category text => [.keyword .category, .string text]
  | .description text => [.keyword .description, .string text]
  | .themeColor c => [.keyword .themeColor, .number c.red, .number c.green, .number c.blue]
  | .duration kind => [.keyword .duration, kind.lexeme]
  | .dataPort type name default options =>
    .keyword .port :: type.lexeme :: .ident name :: (defaultLexemes default ++ options.lexemes)
  | .flowPort name options => .keyword .flow :: .ident name :: options.lexemes

/-- The lexemes of a gizmo's parameter. -/
def parameterLexemes : Option Numeral → List Lexeme
  | none => []
  | some n => [.openParen, .number n, .closeParen]

/-- The lexemes of a gizmo. -/
def Gizmo.lexemes (g : Gizmo) : List Lexeme := g.shape.lexeme :: parameterLexemes g.parameter

/-- The lexemes of a member of a marker. -/
def MarkerMember.lexemes : MarkerMember → List Lexeme
  | .label text => [.keyword .label, .string text]
  | .gizmo g => .keyword .gizmo :: g.lexemes

/-- The lexemes of the segments after the first one. -/
def segmentLexemes (names : List String) : List Lexeme :=
  names.flatMap fun name => [.dot, .ident name]

/-- The lexemes of a type id whose first segment is given. -/
def typeIdLexemes (first : String) (others : List String) : List Lexeme :=
  .ident first :: segmentLexemes others

/-! ### What the rules derive -/

open Ebnf

/-- The names of types are the lexemes of port types. -/
theorem derives_typeName_iff {ls : List Lexeme} :
    Derives (.rule .typeName) ls ↔ ∃ type : PortType, ls = [type.lexeme] := by
  rw [derives_rule_iff]
  simp only [Rule.body, derives_alt_iff, derives_word_iff, derives_anIdent_iff]
  constructor
  · rintro ((((rfl | rfl) | rfl) | rfl) | ⟨name, rfl⟩)
    · exact ⟨.float, rfl⟩
    · exact ⟨.int, rfl⟩
    · exact ⟨.bool, rfl⟩
    · exact ⟨.string, rfl⟩
    · exact ⟨.custom name, rfl⟩
  · rintro ⟨type, rfl⟩
    cases type <;> simp [PortType.lexeme]

/-- The literals of the grammar are the lexemes of literals. -/
theorem derives_literal_iff {ls : List Lexeme} :
    Derives (.rule .literal) ls ↔ ∃ value : Literal, ls = [value.lexeme] := by
  rw [derives_rule_iff]
  simp only [Rule.body, derives_alt_iff, derives_word_iff, derives_aString_iff,
    derives_aNumber_iff]
  constructor
  · rintro (((⟨n, rfl⟩ | ⟨text, rfl⟩) | rfl) | rfl)
    · exact ⟨.number n, rfl⟩
    · exact ⟨.string text, rfl⟩
    · exact ⟨.bool true, rfl⟩
    · exact ⟨.bool false, rfl⟩
  · rintro ⟨value, rfl⟩
    rcases value with n | text | _ | _ <;> simp [Literal.lexeme]

/-- An optional part is derived exactly as it is spelled, if its value is. -/
theorem derives_option_iff {α : Type} {k : Keyword} {lexeme : α → Lexeme} {e : Ebnf}
    {ls : List Lexeme} (he : ∀ ls, Derives e ls ↔ ∃ a, ls = [lexeme a]) :
    Derives (.optional (word k ++ e)) ls ↔ ∃ o, ls = optionLexemes k lexeme o := by
  simp only [derives_optional_iff, derives_seq_iff, derives_word_iff, he]
  constructor
  · rintro (rfl | ⟨us, vs, rfl, ⟨a, rfl⟩, rfl⟩)
    · exact ⟨none, rfl⟩
    · exact ⟨some a, rfl⟩
  · rintro ⟨_ | a, rfl⟩
    · exact .inl rfl
    · exact .inr ⟨_, _, rfl, ⟨a, rfl⟩, rfl⟩

/-- The options of the grammar are those of a port, in their order. -/
theorem derives_portOpts_iff {ls : List Lexeme} :
    Derives (.rule .portOpts) ls ↔ ∃ o : PortOptions, ls = o.lexemes := by
  rw [derives_rule_iff]
  simp only [Rule.body, derives_seq_iff, derives_option_iff fun _ => derives_aString_iff,
    derives_option_iff fun _ => derives_aNumber_iff]
  constructor
  · rintro ⟨_, _, ⟨_, _, ⟨label, rfl⟩, ⟨min, rfl⟩, rfl⟩, ⟨max, rfl⟩, rfl⟩
    exact ⟨⟨label, min, max⟩, rfl⟩
  · rintro ⟨o, rfl⟩
    exact ⟨_, _, ⟨_, _, ⟨o.label, rfl⟩, ⟨o.min, rfl⟩, rfl⟩, ⟨o.max, rfl⟩, rfl⟩

/-- Leaving the options of a port out is the same as leaving out each of them. -/
theorem derives_optional_portOpts_iff {ls : List Lexeme} :
    Derives (.optional (.rule .portOpts)) ls ↔ ∃ o : PortOptions, ls = o.lexemes := by
  rw [derives_optional_iff, derives_portOpts_iff]
  constructor
  · rintro (rfl | h)
    · exact ⟨⟨none, none, none⟩, rfl⟩
    · exact h
  · exact .inr

/-- A default of the grammar is a literal behind an equals sign, or none. -/
theorem derives_default_iff {ls : List Lexeme} :
    Derives (.optional (sign .equals ++ .rule .literal)) ls ↔
      ∃ value, ls = defaultLexemes value := by
  simp only [derives_optional_iff, derives_seq_iff, derives_sign_iff, derives_literal_iff]
  constructor
  · rintro (rfl | ⟨us, vs, rfl, ⟨value, rfl⟩, rfl⟩)
    · exact ⟨none, rfl⟩
    · exact ⟨some value, rfl⟩
  · rintro ⟨_ | value, rfl⟩
    · exact .inl rfl
    · exact .inr ⟨_, _, rfl, ⟨value, rfl⟩, rfl⟩

/-- **Members of an action** are derivable exactly as they are spelled. -/
theorem derives_actionMember_iff (ls : List Lexeme) :
    Derives (.rule .actionMember) ls ↔ ∃ m : ActionMember, ls = m.lexemes := by
  rw [derives_rule_iff]
  simp only [Rule.body, derives_alt_iff]
  rw [derives_rule_iff, derives_rule_iff]
  simp only [Rule.body, derives_alt_iff, derives_seq_iff, derives_word_iff, derives_aString_iff,
    derives_aNumber_iff, derives_anIdent_iff, derives_typeName_iff, derives_default_iff,
    derives_optional_portOpts_iff]
  constructor
  · rintro (((((⟨_, _, rfl, ⟨text, rfl⟩, rfl⟩ | ⟨_, _, rfl, ⟨text, rfl⟩, rfl⟩)
      | ⟨_, _, rfl, ⟨text, rfl⟩, rfl⟩)
      | ⟨_, _, ⟨_, _, ⟨_, _, rfl, ⟨r, rfl⟩, rfl⟩, ⟨g, rfl⟩, rfl⟩, ⟨b, rfl⟩, rfl⟩)
      | ⟨_, _, rfl, (rfl | rfl) | rfl, rfl⟩)
      | ⟨_, _, ⟨_, _, ⟨_, _, ⟨_, _, rfl, ⟨type, rfl⟩, rfl⟩, ⟨name, rfl⟩, rfl⟩, ⟨default, rfl⟩, rfl⟩,
          ⟨options, rfl⟩, rfl⟩
      | ⟨_, _, ⟨_, _, rfl, ⟨name, rfl⟩, rfl⟩, ⟨options, rfl⟩, rfl⟩)
    · exact ⟨.displayName text, rfl⟩
    · exact ⟨.category text, rfl⟩
    · exact ⟨.description text, rfl⟩
    · exact ⟨.themeColor ⟨r, g, b⟩, rfl⟩
    · exact ⟨.duration .instant, rfl⟩
    · exact ⟨.duration .duration, rfl⟩
    · exact ⟨.duration .passive, rfl⟩
    · exact ⟨.dataPort type name default options, by simp [ActionMember.lexemes]⟩
    · exact ⟨.flowPort name options, by simp [ActionMember.lexemes]⟩
  · rintro ⟨m, rfl⟩
    cases m with
    | displayName text => exact .inl (.inl (.inl (.inl (.inl ⟨_, _, rfl, ⟨text, rfl⟩, rfl⟩))))
    | category text => exact .inl (.inl (.inl (.inl (.inr ⟨_, _, rfl, ⟨text, rfl⟩, rfl⟩))))
    | description text => exact .inl (.inl (.inl (.inr ⟨_, _, rfl, ⟨text, rfl⟩, rfl⟩)))
    | themeColor c =>
        exact .inl (.inl (.inr ⟨_, _, ⟨_, _, ⟨_, _, rfl, ⟨c.red, rfl⟩, rfl⟩, ⟨c.green, rfl⟩, rfl⟩,
          ⟨c.blue, rfl⟩, rfl⟩))
    | duration kind =>
        refine .inl (.inr ⟨_, [kind.lexeme], rfl, ?_, rfl⟩)
        cases kind <;> simp [DurationKind.lexeme]
    | dataPort type name default options =>
        refine .inr (.inl ⟨_, _, ⟨_, _, ⟨_, _, ⟨_, _, rfl, ⟨type, rfl⟩, rfl⟩, ⟨name, rfl⟩, rfl⟩,
          ⟨default, rfl⟩, rfl⟩, ⟨options, rfl⟩, ?_⟩)
        simp [ActionMember.lexemes]
    | flowPort name options =>
        refine .inr (.inr ⟨_, _, ⟨_, _, rfl, ⟨name, rfl⟩, rfl⟩, ⟨options, rfl⟩, ?_⟩)
        simp [ActionMember.lexemes]

/-- The shapes of the grammar are gizmos, with a parameter or without. -/
theorem derives_gizmoShape_iff {ls : List Lexeme} :
    Derives (.rule .gizmoShape) ls ↔ ∃ g : Gizmo, ls = g.lexemes := by
  rw [derives_rule_iff]
  simp only [Rule.body, derives_seq_iff, derives_alt_iff, derives_word_iff, derives_optional_iff,
    derives_sign_iff, derives_aNumber_iff]
  constructor
  · rintro ⟨us, vs, hshape, hparameter, rfl⟩
    obtain ⟨shape, rfl⟩ : ∃ shape : GizmoShape, us = [shape.lexeme] := by
      rcases hshape with ((rfl | rfl) | rfl) | rfl
      · exact ⟨.sphere, rfl⟩
      · exact ⟨.wireSphere, rfl⟩
      · exact ⟨.box, rfl⟩
      · exact ⟨.wireBox, rfl⟩
    rcases hparameter with rfl | ⟨_, _, ⟨_, _, rfl, ⟨n, rfl⟩, rfl⟩, rfl, rfl⟩
    · exact ⟨⟨shape, none⟩, rfl⟩
    · exact ⟨⟨shape, some n⟩, rfl⟩
  · rintro ⟨⟨shape, parameter⟩, rfl⟩
    refine ⟨[shape.lexeme], parameterLexemes parameter, ?_, ?_, rfl⟩
    · cases shape <;> simp [GizmoShape.lexeme]
    · rcases parameter with _ | n
      · exact .inl rfl
      · exact .inr ⟨_, _, ⟨_, _, rfl, ⟨n, rfl⟩, rfl⟩, rfl, rfl⟩

/-- **Members of a marker** are derivable exactly as they are spelled. -/
theorem derives_markerProp_iff (ls : List Lexeme) :
    Derives (.rule .markerProp) ls ↔ ∃ m : MarkerMember, ls = m.lexemes := by
  rw [derives_rule_iff]
  simp only [Rule.body, derives_alt_iff, derives_seq_iff, derives_word_iff, derives_aString_iff,
    derives_gizmoShape_iff]
  constructor
  · rintro (⟨_, _, rfl, ⟨text, rfl⟩, rfl⟩ | ⟨_, _, rfl, ⟨g, rfl⟩, rfl⟩)
    · exact ⟨.label text, rfl⟩
    · exact ⟨.gizmo g, rfl⟩
  · rintro ⟨text | g, rfl⟩
    · exact .inl ⟨_, _, rfl, ⟨text, rfl⟩, rfl⟩
    · exact .inr ⟨_, _, rfl, ⟨g, rfl⟩, rfl⟩

/-- The type ids of the grammar are names with dots between them. -/
theorem derives_typeId_iff {ls : List Lexeme} :
    Derives (.rule .typeId) ls ↔ ∃ first others, ls = typeIdLexemes first others := by
  have hsegment : ∀ ls, Derives (sign .dot ++ anIdent) ls ↔
      ∃ name : String, ls = [.dot, .ident name] := by
    intro ls
    simp only [derives_seq_iff, derives_sign_iff, derives_anIdent_iff]
    constructor
    · rintro ⟨_, _, rfl, ⟨name, rfl⟩, rfl⟩
      exact ⟨name, rfl⟩
    · rintro ⟨name, rfl⟩
      exact ⟨_, _, rfl, ⟨name, rfl⟩, rfl⟩
  rw [derives_rule_iff]
  simp only [Rule.body, derives_seq_iff, derives_anIdent_iff, derives_many_iff hsegment]
  constructor
  · rintro ⟨_, _, ⟨first, rfl⟩, ⟨others, rfl⟩, rfl⟩
    exact ⟨first, others, rfl⟩
  · rintro ⟨first, others, rfl⟩
    exact ⟨_, _, ⟨first, rfl⟩, ⟨others, rfl⟩, rfl⟩

/-! ### Tokens that spell statements -/

/-- Tokens that spell items one after the other, each item standing where its first token does. -/
inductive Spells {α : Type} (lexemes : α → List Lexeme) : List Token → List (Located α) → Prop
  | nil : Spells lexemes [] []
  | cons {t : Token} {ts rest : List Token} {a : α} {as : List (Located α)} :
      (t :: ts).map Located.value = lexemes a → Spells lexemes rest as →
      Spells lexemes (t :: ts ++ rest) (⟨a, t.position⟩ :: as)

/-- Tokens that spell a statement. It stands where its keyword does. -/
inductive SpellsStatement : List Token → Located Statement → Prop
  | action {p q r : Position} {head body : List Token} {first : String} {others : List String}
      {members : List (Located ActionMember)} :
      head.map Located.value = typeIdLexemes first others →
      Spells ActionMember.lexemes body members →
      SpellsStatement
        (⟨.keyword .action, p⟩ :: (head ++ ⟨.openBrace, q⟩ :: (body ++ [⟨.closeBrace, r⟩])))
        ⟨.action ⟨first :: others⟩ members, p⟩
  | marker {p q r s : Position} {body : List Token} {name : String}
      {members : List (Located MarkerMember)} :
      Spells MarkerMember.lexemes body members →
      SpellsStatement
        (⟨.keyword .marker, p⟩ :: ⟨.ident name, q⟩ :: ⟨.openBrace, r⟩
          :: (body ++ [⟨.closeBrace, s⟩]))
        ⟨.marker name members, p⟩

/-- Tokens that spell statements one after the other. -/
inductive SpellsFile : List Token → List (Located Statement) → Prop
  | nil : SpellsFile [] []
  | cons {ts rest : List Token} {st : Located Statement} {sts : List (Located Statement)} :
      SpellsStatement ts st → SpellsFile rest sts → SpellsFile (ts ++ rest) (st :: sts)

/-- The lexemes of spelled items are those of the items. -/
theorem Spells.map_value {α : Type} {lexemes : α → List Lexeme} {ts : List Token}
    {as : List (Located α)} (h : Spells lexemes ts as) :
    ts.map Located.value = as.flatMap fun a => lexemes a.value := by
  induction h with
  | nil => rfl
  | cons ha _ ih => rw [List.map_append, ha, ih, List.flatMap_cons]

/-- Tokens whose lexemes are those of some items spell these items, once places are read off. -/
theorem Spells.of_map_value {α : Type} {lexemes : α → List Lexeme}
    (hne : ∀ a, lexemes a ≠ []) {as : List α} {ts : List Token}
    (h : ts.map Located.value = as.flatMap lexemes) :
    ∃ ms, Spells lexemes ts ms ∧ ms.map Located.value = as := by
  induction as generalizing ts with
  | nil =>
      obtain rfl : ts = [] := by simpa using h
      exact ⟨[], .nil, rfl⟩
  | cons a as ih =>
      rw [List.flatMap_cons, List.map_eq_append_iff] at h
      obtain ⟨us, vs, rfl, hus, hvs⟩ := h
      obtain ⟨ms, hms, rfl⟩ := ih hvs
      obtain _ | ⟨t, us⟩ := us
      · exact absurd hus.symm (hne a)
      · exact ⟨_, .cons hus hms, rfl⟩

/-- Tokens whose first lexeme is known begin with that lexeme. -/
theorem exists_cons_of_map_value {ts : List Token} {l : Lexeme} {ls : List Lexeme}
    (h : ts.map Located.value = l :: ls) :
    ∃ p rest, ts = ⟨l, p⟩ :: rest ∧ rest.map Located.value = ls := by
  obtain ⟨⟨v, p⟩, rest, rfl, rfl, hrest⟩ := List.map_eq_cons_iff.mp h
  exact ⟨p, rest, rfl, hrest⟩

/-- No member of an action is empty. -/
theorem ActionMember.lexemes_ne_nil (m : ActionMember) : m.lexemes ≠ [] := by
  cases m <;> simp [ActionMember.lexemes]

/-- No member of a marker is empty. -/
theorem MarkerMember.lexemes_ne_nil (m : MarkerMember) : m.lexemes ≠ [] := by
  cases m <;> simp [MarkerMember.lexemes]

/-- A body that is derivable is spelled by members and closed by a brace. -/
theorem exists_spells_of_map_value {α : Type} {lexemes : α → List Lexeme}
    (hne : ∀ a, lexemes a ≠ []) {as : List α} {ts : List Token}
    (h : ts.map Located.value = as.flatMap lexemes ++ [.closeBrace]) :
    ∃ body members p, ts = body ++ [⟨.closeBrace, p⟩] ∧ Spells lexemes body members ∧
      members.map Located.value = as := by
  obtain ⟨body, close, rfl, hbody, hclose⟩ := List.map_eq_append_iff.mp h
  obtain ⟨p, rest, rfl, hrest⟩ := exists_cons_of_map_value hclose
  obtain rfl : rest = [] := by simpa using hrest
  obtain ⟨members, hmembers, hvalues⟩ := Spells.of_map_value hne hbody
  exact ⟨body, members, p, rfl, hmembers, hvalues⟩

/-- The actions of the grammar have a type id and members in braces. -/
theorem derives_actionDecl_iff {ls : List Lexeme} :
    Derives (.rule .actionDecl) ls ↔ ∃ first others, ∃ members : List ActionMember,
      ls = .keyword .action :: (typeIdLexemes first others
        ++ .openBrace :: (members.flatMap ActionMember.lexemes ++ [.closeBrace])) := by
  rw [derives_rule_iff]
  simp only [Rule.body, derives_seq_iff, derives_word_iff, derives_sign_iff, derives_typeId_iff,
    derives_many_iff derives_actionMember_iff]
  constructor
  · rintro ⟨_, _, ⟨_, _, ⟨_, _, ⟨_, _, rfl, ⟨first, others, rfl⟩, rfl⟩, rfl, rfl⟩, ⟨members, rfl⟩,
      rfl⟩, rfl, rfl⟩
    exact ⟨first, others, members, by simp⟩
  · rintro ⟨first, others, members, rfl⟩
    exact ⟨_, _, ⟨_, _, ⟨_, _, ⟨_, _, rfl, ⟨first, others, rfl⟩, rfl⟩, rfl, rfl⟩, ⟨members, rfl⟩,
      rfl⟩, rfl, by simp⟩

/-- The markers of the grammar have a name and members in braces. -/
theorem derives_markerDecl_iff {ls : List Lexeme} :
    Derives (.rule .markerDecl) ls ↔ ∃ name, ∃ members : List MarkerMember,
      ls = .keyword .marker :: .ident name :: .openBrace
        :: (members.flatMap MarkerMember.lexemes ++ [.closeBrace]) := by
  rw [derives_rule_iff]
  simp only [Rule.body, derives_seq_iff, derives_word_iff, derives_sign_iff, derives_anIdent_iff,
    derives_many_iff derives_markerProp_iff]
  constructor
  · rintro ⟨_, _, ⟨_, _, ⟨_, _, ⟨_, _, rfl, ⟨name, rfl⟩, rfl⟩, rfl, rfl⟩, ⟨members, rfl⟩, rfl⟩, rfl,
      rfl⟩
    exact ⟨name, members, by simp⟩
  · rintro ⟨name, members, rfl⟩
    exact ⟨_, _, ⟨_, _, ⟨_, _, ⟨_, _, rfl, ⟨name, rfl⟩, rfl⟩, rfl, rfl⟩, ⟨members, rfl⟩, rfl⟩, rfl,
      by simp⟩

/-- Tokens whose lexemes are those of an action spell it. -/
theorem SpellsStatement.exists_action {ts : List Token} {first : String} {others : List String}
    {members : List ActionMember}
    (h : ts.map Located.value = .keyword .action :: (typeIdLexemes first others
      ++ .openBrace :: (members.flatMap ActionMember.lexemes ++ [.closeBrace]))) :
    ∃ ms p, SpellsStatement ts ⟨.action ⟨first :: others⟩ ms, p⟩ ∧
      ms.map Located.value = members := by
  obtain ⟨p, ts₁, rfl, h₁⟩ := exists_cons_of_map_value h
  obtain ⟨head, ts₂, rfl, hhead, h₂⟩ := List.map_eq_append_iff.mp h₁
  obtain ⟨q, ts₃, rfl, h₃⟩ := exists_cons_of_map_value h₂
  obtain ⟨body, ms, r, rfl, hbody, hvalues⟩ :=
    exists_spells_of_map_value ActionMember.lexemes_ne_nil h₃
  exact ⟨ms, p, .action hhead hbody, hvalues⟩

/-- Tokens whose lexemes are those of a marker spell it. -/
theorem SpellsStatement.exists_marker {ts : List Token} {name : String}
    {members : List MarkerMember}
    (h : ts.map Located.value = .keyword .marker :: .ident name :: .openBrace
      :: (members.flatMap MarkerMember.lexemes ++ [.closeBrace])) :
    ∃ ms p, SpellsStatement ts ⟨.marker name ms, p⟩ ∧ ms.map Located.value = members := by
  obtain ⟨p, ts₁, rfl, h₁⟩ := exists_cons_of_map_value h
  obtain ⟨q, ts₂, rfl, h₂⟩ := exists_cons_of_map_value h₁
  obtain ⟨r, ts₃, rfl, h₃⟩ := exists_cons_of_map_value h₂
  obtain ⟨body, ms, s, rfl, hbody, hvalues⟩ :=
    exists_spells_of_map_value MarkerMember.lexemes_ne_nil h₃
  exact ⟨ms, p, .marker hbody, hvalues⟩

/-- The statements of the grammar are the spelled ones. -/
theorem derives_statement_iff {ts : List Token} :
    Derives (.rule .statement) (ts.map Located.value) ↔ ∃ st, SpellsStatement ts st := by
  rw [derives_rule_iff]
  simp only [Rule.body, derives_alt_iff, derives_actionDecl_iff, derives_markerDecl_iff]
  constructor
  · rintro (⟨first, others, members, h⟩ | ⟨name, members, h⟩)
    · obtain ⟨ms, p, hspelled, -⟩ := SpellsStatement.exists_action h
      exact ⟨_, hspelled⟩
    · obtain ⟨ms, p, hspelled, -⟩ := SpellsStatement.exists_marker h
      exact ⟨_, hspelled⟩
  · rintro ⟨st, h⟩
    cases h with
    | @action p q r head body first others members hhead hbody =>
        refine .inl ⟨first, others, members.map Located.value, ?_⟩
        rw [List.map_cons, List.map_append, hhead, List.map_cons, List.map_append, hbody.map_value,
          List.flatMap_map]
        rfl
    | @marker p q r s body name members hbody =>
        refine .inr ⟨name, members.map Located.value, ?_⟩
        rw [List.map_cons, List.map_cons, List.map_cons, List.map_append, hbody.map_value,
          List.flatMap_map]
        rfl

/-- **The grammar derives what can be spelled.** The lexemes of some tokens are derivable as a file
exactly if the tokens spell statements one after the other. -/
theorem derives_file_iff {ts : List Token} :
    Derives (.rule .file) (ts.map Located.value) ↔ ∃ sts, SpellsFile ts sts := by
  rw [derives_rule_iff, Rule.body]
  constructor
  · intro h
    generalize he : Ebnf.many (.rule .statement) = e at h
    generalize hls : ts.map Located.value = ls at h
    induction h generalizing ts with
    | manyNil =>
        obtain rfl : ts = [] := by simpa using hls
        exact ⟨[], .nil⟩
    | manyCons hst _ _ ih =>
        cases he
        obtain ⟨us, vs, rfl, rfl, rfl⟩ := List.map_eq_append_iff.mp hls
        obtain ⟨st, hst⟩ := derives_statement_iff.mp hst
        obtain ⟨sts, hsts⟩ := ih rfl rfl
        exact ⟨_, .cons hst hsts⟩
    | _ => cases he
  · rintro ⟨sts, h⟩
    induction h with
    | nil => exact .manyNil
    | cons hst _ ih =>
        rw [List.map_append]
        exact .manyCons (derives_statement_iff.mpr ⟨_, hst⟩) ih

end Defsheet

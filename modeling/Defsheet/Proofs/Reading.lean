import Defsheet.Proofs.Grammar

/-!
# Readers read what is spelled

Every reader of `Defsheet.Declaration` is tied to the concrete syntax in both directions. It is
sound if the tokens that it takes spell what it reads (`Sound`); it is complete if it reads back
whatever tokens spell, wherever these are followed by something that cannot go on with it. What must
not follow is always a single lexeme, because every optional part of the grammar announces itself by
its first lexeme (`NotAt`).

Members are read one after the other, so soundness and completeness of a body are inductions: on the
recursion of `Body.read` for the one, on the spelling of the members for the other.

## Main results

* `Body.read_sound`, `Body.read_complete`: bodies, for any kind of member that is spelled.
* `Section.attempt_sound`, `Section.attempt_complete`: a section is read as a whole statement
  exactly if its tokens begin with the spelling of that statement.
-/

namespace Defsheet

/-! ### Single lexemes -/

/-- The reader takes one token, the one that spells what it reads. -/
def ReadsOne {α : Type} (read : List Token → Reading α) (lexeme : α → Lexeme) : Prop :=
  ∀ (ts : List Token) (a : α) (rest : List Token),
    read ts = .ok a rest ↔ ∃ p, ts = ⟨lexeme a, p⟩ :: rest

/-- The token that spells something is read, whatever follows it. -/
theorem ReadsOne.read_cons {α : Type} {read : List Token → Reading α} {lexeme : α → Lexeme}
    (h : ReadsOne read lexeme) (a : α) (p : Position) (rest : List Token) :
    read (⟨lexeme a, p⟩ :: rest) = .ok a rest :=
  (h _ a rest).mpr ⟨p, rfl⟩

/-- **A single token is read** exactly if it spells what is asked for. The value of a lexeme has to
undo the spelling. -/
theorem readOne_readsOne {α : Type} {value? : Lexeme → Option α} {lexeme : α → Lexeme}
    (what : Expectation) (hspelled : ∀ a, value? (lexeme a) = some a)
    (hvalue : ∀ l a, value? l = some a → l = lexeme a) : ReadsOne (readOne what value?) lexeme := by
  intro ts a rest
  constructor
  · intro h
    cases ts with
    | nil => cases h
    | cons t ts =>
        rw [readOne] at h
        split at h
        · next b hb =>
          cases h
          exact ⟨t.position, by rw [← hvalue _ _ hb]⟩
        · cases h
  · rintro ⟨p, rfl⟩
    rw [readOne, hspelled]

/-- An identifier is one token. -/
theorem readIdent_readsOne (what : Expectation) : ReadsOne (readIdent what) .ident := by
  refine readOne_readsOne what (fun _ => rfl) fun l name => ?_
  fun_cases Lexeme.ident? l with
  | case1 => rintro ⟨⟩; rfl
  | case2 => rintro ⟨⟩

/-- A string is one token. -/
theorem readText_readsOne (what : Expectation) : ReadsOne (readText what) .string := by
  refine readOne_readsOne what (fun _ => rfl) fun l text => ?_
  fun_cases Lexeme.string? l with
  | case1 => rintro ⟨⟩; rfl
  | case2 => rintro ⟨⟩

/-- A number is one token. -/
theorem readNumber_readsOne (what : Expectation) : ReadsOne (readNumber what) .number := by
  refine readOne_readsOne what (fun _ => rfl) fun l n => ?_
  fun_cases Lexeme.number? l with
  | case1 => rintro ⟨⟩; rfl
  | case2 => rintro ⟨⟩

/-- The type of a port is one token: a keyword, or an identifier for a custom type. -/
theorem PortType.read_readsOne : ReadsOne PortType.read PortType.lexeme := by
  refine readOne_readsOne _ (fun type => by cases type <;> rfl) fun l type => ?_
  fun_cases PortType.ofLexeme? l <;> rintro ⟨⟩ <;> rfl

/-- A literal is one token. -/
theorem Literal.read_readsOne : ReadsOne Literal.read Literal.lexeme := by
  refine readOne_readsOne _ (fun v => by rcases v with _ | _ | _ | _ <;> rfl) fun l v => ?_
  fun_cases Literal.ofLexeme? l <;> rintro ⟨⟩ <;> rfl

/-- A kind of duration is one keyword. -/
theorem DurationKind.read_readsOne : ReadsOne DurationKind.read DurationKind.lexeme := by
  refine readOne_readsOne _ (fun kind => by cases kind <;> rfl) fun l kind => ?_
  fun_cases DurationKind.ofLexeme? l <;> rintro ⟨⟩ <;> rfl

/-- The shape of a gizmo is one keyword. -/
theorem GizmoShape.read_readsOne : ReadsOne GizmoShape.read GizmoShape.lexeme := by
  refine readOne_readsOne _ (fun shape => by cases shape <;> rfl) fun l shape => ?_
  fun_cases GizmoShape.ofLexeme? l <;> rintro ⟨⟩ <;> rfl

/-- A lexeme that stands for nothing but itself. -/
theorem readOnly_readsOne (what : Expectation) (l : Lexeme) :
    ReadsOne (readOne what l.only?) fun _ => l := by
  refine readOne_readsOne what (fun _ => if_pos rfl) fun l' _ h => ?_
  rw [Lexeme.only?] at h
  split at h
  · next heq => exact heq
  · cases h

/-- A closing parenthesis is one token, and nothing is read from it. -/
theorem readCloseParen_readsOne : ReadsOne readCloseParen fun _ => .closeParen :=
  readOnly_readsOne _ _

/-- So is an opening brace. -/
theorem readOpenBrace_readsOne (owner : Owner) :
    ReadsOne (readOpenBrace owner) fun _ => .openBrace :=
  readOnly_readsOne _ _

/-! ### Soundness and completeness -/

/-- The tokens that the reader takes spell what it reads. -/
def Sound {α : Type} (read : List Token → Reading α) (lexemes : α → List Lexeme) : Prop :=
  ∀ {ts : List Token} {a : α} {rest : List Token}, read ts = .ok a rest →
    ∃ used, ts = used ++ rest ∧ used.map Located.value = lexemes a

/-- The tokens do not begin with the lexeme. -/
def NotAt (l : Lexeme) (ts : List Token) : Prop := ∀ t ∈ ts.head?, t.value ≠ l

/-- Tokens do not begin with a lexeme if the first one is another. -/
theorem notAt_cons {l : Lexeme} {t : Token} {ts : List Token} :
    NotAt l (t :: ts) ↔ t.value ≠ l := by
  simp [NotAt]

/-- Tokens do not begin with a lexeme that is neither the first of what they spell nor, if they
spell nothing, of what follows. -/
theorem NotAt.append {l : Lexeme} {used rest : List Token} {ls : List Lexeme}
    (hused : used.map Located.value = ls) (hls : ls.head? ≠ some l) (hrest : NotAt l rest) :
    NotAt l (used ++ rest) := by
  cases used with
  | nil => exact hrest
  | cons t used =>
      rw [List.cons_append, notAt_cons]
      rintro rfl
      exact hls (by rw [← hused]; rfl)

section Optional

variable {α : Type} {k : Keyword} {read : List Token → Reading α} {lexeme : α → Lexeme}

/-- What is read as a part that may be missing is the part behind its keyword, or nothing. -/
theorem readOptional_sound (hread : ReadsOne read lexeme) :
    Sound (readOptional k read) (optionLexemes k lexeme) := by
  intro ts o rest h
  unfold readOptional at h
  split at h
  · split at h
    · next hk =>
      subst hk
      obtain ⟨a, ha, rfl⟩ := Reading.of_map_eq_ok h
      obtain ⟨p, rfl⟩ := (hread _ _ _).mp ha
      exact ⟨[_, _], rfl, rfl⟩
    · cases h
      exact ⟨[], rfl, rfl⟩
  · cases h
    exact ⟨[], rfl, rfl⟩

/-- A part that may be missing is read where it is spelled, and is missing where its keyword is. -/
theorem readOptional_complete (hread : ReadsOne read lexeme) {used rest : List Token} {o : Option α}
    (hused : used.map Located.value = optionLexemes k lexeme o) (hrest : NotAt (.keyword k) rest) :
    readOptional k read (used ++ rest) = .ok o rest := by
  cases o with
  | none =>
      obtain rfl : used = [] := by simpa [optionLexemes] using hused
      rw [List.nil_append]
      unfold readOptional
      split
      · next k' p ts =>
        have hk : k' ≠ k := by simpa [notAt_cons] using hrest
        rw [if_neg hk]
      · rfl
  | some a =>
      obtain ⟨p, ts₁, rfl, h₁⟩ := exists_cons_of_map_value hused
      obtain ⟨q, ts₂, rfl, h₂⟩ := exists_cons_of_map_value h₁
      obtain rfl : ts₂ = [] := by simpa using h₂
      simp [readOptional, hread.read_cons, Reading.map, Reading.andThen]

/-- An optional part begins with no other keyword than its own. -/
theorem head?_optionLexemes_ne {k' : Keyword} (hk : k ≠ k') (o : Option α) :
    (optionLexemes k lexeme o).head? ≠ some (.keyword k') := by
  cases o <;> simp [optionLexemes, hk]

end Optional

/-! ### Members -/

/-- The options of a port are read as they are spelled, in a fixed order. -/
theorem PortOptions.read_sound : Sound PortOptions.read PortOptions.lexemes := by
  intro ts o rest h
  obtain ⟨label, ts₁, h₁, h⟩ := Reading.of_andThen_eq_ok h
  obtain ⟨min, ts₂, h₂, h⟩ := Reading.of_andThen_eq_ok h
  obtain ⟨max, h₃, rfl⟩ := Reading.of_map_eq_ok h
  obtain ⟨u₁, rfl, e₁⟩ := readOptional_sound (readText_readsOne _) h₁
  obtain ⟨u₂, rfl, e₂⟩ := readOptional_sound (readNumber_readsOne _) h₂
  obtain ⟨u₃, rfl, e₃⟩ := readOptional_sound (readNumber_readsOne _) h₃
  exact ⟨u₁ ++ u₂ ++ u₃, by simp, by simp [PortOptions.lexemes, e₁, e₂, e₃]⟩

/-- Options that are spelled in this order are read, up to something that is no option. -/
theorem PortOptions.read_complete {used rest : List Token} {o : PortOptions}
    (hused : used.map Located.value = o.lexemes) (hlabel : NotAt (.keyword .label) rest)
    (hmin : NotAt (.keyword .min) rest) (hmax : NotAt (.keyword .max) rest) :
    PortOptions.read (used ++ rest) = .ok o rest := by
  obtain ⟨u₁₂, u₃, rfl, h₁₂, e₃⟩ := List.map_eq_append_iff.mp hused
  obtain ⟨u₁, u₂, rfl, e₁, e₂⟩ := List.map_eq_append_iff.mp h₁₂
  have n₁ : NotAt (.keyword .label) (u₂ ++ (u₃ ++ rest)) :=
    .append e₂ (head?_optionLexemes_ne (by decide) _)
      (.append e₃ (head?_optionLexemes_ne (by decide) _) hlabel)
  have n₂ : NotAt (.keyword .min) (u₃ ++ rest) :=
    .append e₃ (head?_optionLexemes_ne (by decide) _) hmin
  rw [List.append_assoc, List.append_assoc]
  simp only [PortOptions.read, Reading.map, Reading.andThen,
    readOptional_complete (readText_readsOne _) e₁ n₁,
    readOptional_complete (readNumber_readsOne _) e₂ n₂,
    readOptional_complete (readNumber_readsOne _) e₃ hmax]

/-- What is read as a default is a literal behind an equals sign, or nothing. -/
theorem readDefault_sound : Sound readDefault defaultLexemes := by
  intro ts value rest h
  unfold readDefault at h
  split at h
  · obtain ⟨v, hv, rfl⟩ := Reading.of_map_eq_ok h
    obtain ⟨p, rfl⟩ := (Literal.read_readsOne _ _ _).mp hv
    exact ⟨[_, _], rfl, rfl⟩
  · cases h
    exact ⟨[], rfl, rfl⟩

/-- A default is read where it is spelled, and is missing where there is no equals sign. -/
theorem readDefault_complete {used rest : List Token} {value : Option Literal}
    (hused : used.map Located.value = defaultLexemes value) (hrest : NotAt .equals rest) :
    readDefault (used ++ rest) = .ok value rest := by
  cases value with
  | none =>
      obtain rfl : used = [] := by simpa [defaultLexemes] using hused
      rw [List.nil_append]
      unfold readDefault
      split
      · exact absurd rfl (notAt_cons.mp hrest)
      · rfl
  | some v =>
      obtain ⟨p, ts₁, rfl, h₁⟩ := exists_cons_of_map_value hused
      obtain ⟨q, ts₂, rfl, h₂⟩ := exists_cons_of_map_value h₁
      obtain rfl : ts₂ = [] := by simpa using h₂
      simp [readDefault, Literal.read_readsOne.read_cons, Reading.map, Reading.andThen]

/-- What is read as a parameter is a number in parentheses, or nothing. -/
theorem readParameter_sound : Sound readParameter parameterLexemes := by
  intro ts parameter rest h
  unfold readParameter at h
  split at h
  · obtain ⟨n, ts₁, h₁, h⟩ := Reading.of_andThen_eq_ok h
    obtain ⟨_, h₂, rfl⟩ := Reading.of_map_eq_ok h
    obtain ⟨p, rfl⟩ := (readNumber_readsOne _ _ _ _).mp h₁
    obtain ⟨q, rfl⟩ := (readCloseParen_readsOne _ _ _).mp h₂
    exact ⟨[_, _, _], rfl, rfl⟩
  · cases h
    exact ⟨[], rfl, rfl⟩

/-- A parameter is read where it is spelled, and is missing where there is no parenthesis. -/
theorem readParameter_complete {used rest : List Token} {parameter : Option Numeral}
    (hused : used.map Located.value = parameterLexemes parameter)
    (hrest : parameter = none → NotAt .openParen rest) :
    readParameter (used ++ rest) = .ok parameter rest := by
  cases parameter with
  | none =>
      obtain rfl : used = [] := by simpa [parameterLexemes] using hused
      rw [List.nil_append]
      unfold readParameter
      split
      · exact absurd rfl (notAt_cons.mp (hrest rfl))
      · rfl
  | some n =>
      obtain ⟨p, ts₁, rfl, h₁⟩ := exists_cons_of_map_value hused
      obtain ⟨q, ts₂, rfl, h₂⟩ := exists_cons_of_map_value h₁
      obtain ⟨r, ts₃, rfl, h₃⟩ := exists_cons_of_map_value h₂
      obtain rfl : ts₃ = [] := by simpa using h₃
      rfl

/-- How the members of one kind of statement are spelled: by a keyword and what its reader reads.
What would go on with a member is never the beginning of the next one. -/
structure MemberGrammar.Spelling {α : Type} (g : MemberGrammar α) (lexemes : α → List Lexeme)
    (continues : List Lexeme) : Prop where
  sound : ∀ {k : Keyword} {read : List Token → Reading α}, g.after? k = some read →
    ∀ {ts : List Token} {m : α} {rest : List Token}, read ts = .ok m rest →
      ∃ used, ts = used ++ rest ∧ .keyword k :: used.map Located.value = lexemes m
  complete : ∀ {t : Token} {used : List Token} {m : α}, (t :: used).map Located.value = lexemes m →
    ∃ k read, t.value = .keyword k ∧ .keyword k ∉ continues ∧ g.after? k = some read ∧
      ∀ rest, (∀ l ∈ continues, NotAt l rest) → read (used ++ rest) = .ok m rest

/-- What can go on with a member of an action. -/
def ActionMember.continuations : List Lexeme :=
  [.equals, .keyword .label, .keyword .min, .keyword .max]

/-- What can go on with a member of a marker. -/
def MarkerMember.continuations : List Lexeme := [.openParen]

/-- What is read as a color is three numbers. -/
theorem Color.read_sound :
    Sound Color.read fun c => [.number c.red, .number c.green, .number c.blue] := by
  intro ts c rest h
  obtain ⟨red, ts₁, h₁, h⟩ := Reading.of_andThen_eq_ok h
  obtain ⟨green, ts₂, h₂, h⟩ := Reading.of_andThen_eq_ok h
  obtain ⟨blue, h₃, rfl⟩ := Reading.of_map_eq_ok h
  obtain ⟨p, rfl⟩ := (readNumber_readsOne _ _ _ _).mp h₁
  obtain ⟨q, rfl⟩ := (readNumber_readsOne _ _ _ _).mp h₂
  obtain ⟨r, rfl⟩ := (readNumber_readsOne _ _ _ _).mp h₃
  exact ⟨[_, _, _], rfl, rfl⟩

/-- What a data port reads, the keyword in front apart. -/
theorem readDataPort_sound {ts : List Token} {m : ActionMember} {rest : List Token}
    (h : readDataPort ts = .ok m rest) :
    ∃ used, ts = used ++ rest ∧ .keyword .port :: used.map Located.value = m.lexemes := by
  obtain ⟨type, ts₁, h₁, h⟩ := Reading.of_andThen_eq_ok h
  obtain ⟨name, ts₂, h₂, h⟩ := Reading.of_andThen_eq_ok h
  obtain ⟨value, ts₃, h₃, h⟩ := Reading.of_andThen_eq_ok h
  obtain ⟨options, h₄, rfl⟩ := Reading.of_map_eq_ok h
  obtain ⟨p, rfl⟩ := (PortType.read_readsOne _ _ _).mp h₁
  obtain ⟨q, rfl⟩ := (readIdent_readsOne _ _ _ _).mp h₂
  obtain ⟨u₃, rfl, e₃⟩ := readDefault_sound h₃
  obtain ⟨u₄, rfl, e₄⟩ := PortOptions.read_sound h₄
  exact ⟨⟨type.lexeme, p⟩ :: ⟨.ident name, q⟩ :: (u₃ ++ u₄), by simp,
    by simp [ActionMember.lexemes, e₃, e₄]⟩

/-- What a flow port reads, the keyword in front apart. -/
theorem readFlowPort_sound {ts : List Token} {m : ActionMember} {rest : List Token}
    (h : readFlowPort ts = .ok m rest) :
    ∃ used, ts = used ++ rest ∧ .keyword .flow :: used.map Located.value = m.lexemes := by
  obtain ⟨name, ts₁, h₁, h⟩ := Reading.of_andThen_eq_ok h
  obtain ⟨options, h₂, rfl⟩ := Reading.of_map_eq_ok h
  obtain ⟨p, rfl⟩ := (readIdent_readsOne _ _ _ _).mp h₁
  obtain ⟨u₂, rfl, e₂⟩ := PortOptions.read_sound h₂
  exact ⟨⟨.ident name, p⟩ :: u₂, by simp, by simp [ActionMember.lexemes, e₂]⟩

/-- A data port is read as it is spelled, up to something that cannot go on with it. -/
theorem readDataPort_complete {used rest : List Token} {type : PortType} {name : String}
    {value : Option Literal} {options : PortOptions}
    (hused : used.map Located.value =
      type.lexeme :: .ident name :: (defaultLexemes value ++ options.lexemes))
    (hrest : ∀ l ∈ ActionMember.continuations, NotAt l rest) :
    readDataPort (used ++ rest) = .ok (.dataPort type name value options) rest := by
  obtain ⟨p, ts₁, rfl, h₁⟩ := exists_cons_of_map_value hused
  obtain ⟨q, ts₂, rfl, h₂⟩ := exists_cons_of_map_value h₁
  obtain ⟨u₃, u₄, rfl, e₃, e₄⟩ := List.map_eq_append_iff.mp h₂
  simp only [ActionMember.continuations, List.forall_mem_cons] at hrest
  obtain ⟨hequals, hlabel, hmin, hmax, -⟩ := hrest
  have hoptions : (options.lexemes).head? ≠ some .equals := by
    obtain ⟨_ | label, _ | min, _ | max⟩ := options <;> simp [PortOptions.lexemes, optionLexemes]
  have hdefault : readDefault (u₃ ++ (u₄ ++ rest)) = .ok value (u₄ ++ rest) :=
    readDefault_complete e₃ (.append e₄ hoptions hequals)
  simp only [List.cons_append, List.append_assoc, readDataPort, PortType.read_readsOne.read_cons,
    (readIdent_readsOne _).read_cons, Reading.map, Reading.andThen, hdefault,
    PortOptions.read_complete e₄ hlabel hmin hmax]

/-- So is a flow port. -/
theorem readFlowPort_complete {used rest : List Token} {name : String} {options : PortOptions}
    (hused : used.map Located.value = .ident name :: options.lexemes)
    (hrest : ∀ l ∈ ActionMember.continuations, NotAt l rest) :
    readFlowPort (used ++ rest) = .ok (.flowPort name options) rest := by
  obtain ⟨p, u₂, rfl, e₂⟩ := exists_cons_of_map_value hused
  simp only [ActionMember.continuations, List.forall_mem_cons] at hrest
  obtain ⟨-, hlabel, hmin, hmax, -⟩ := hrest
  simp only [List.cons_append, readFlowPort, (readIdent_readsOne _).read_cons, Reading.map,
    Reading.andThen, PortOptions.read_complete e₂ hlabel hmin hmax]

/-- **Members of an action** are read as they are spelled. -/
theorem ActionMember.grammar_spelling :
    ActionMember.grammar.Spelling ActionMember.lexemes ActionMember.continuations where
  sound := by
    intro k read hk ts m rest h
    change ActionMember.after? k = some read at hk
    unfold ActionMember.after? at hk
    split at hk
    case h_8 => cases hk
    all_goals cases hk
    case h_1 | h_2 | h_3 =>
      obtain ⟨text, h₁, rfl⟩ := Reading.of_map_eq_ok h
      obtain ⟨p, rfl⟩ := (readText_readsOne _ _ _ _).mp h₁
      exact ⟨[_], rfl, rfl⟩
    case h_4 =>
      obtain ⟨c, h₁, rfl⟩ := Reading.of_map_eq_ok h
      obtain ⟨used, rfl, e⟩ := Color.read_sound h₁
      exact ⟨used, rfl, by rw [e]; rfl⟩
    case h_5 =>
      obtain ⟨kind, h₁, rfl⟩ := Reading.of_map_eq_ok h
      obtain ⟨p, rfl⟩ := (DurationKind.read_readsOne _ _ _).mp h₁
      exact ⟨[_], rfl, rfl⟩
    case h_6 => exact readDataPort_sound h
    case h_7 => exact readFlowPort_sound h
  complete := by
    intro t used m h
    cases m with
    | displayName text | category text | description text =>
        obtain ⟨p, ts₁, ⟨rfl, rfl⟩, h₁⟩ := exists_cons_of_map_value h
        obtain ⟨q, ts₂, rfl, h₂⟩ := exists_cons_of_map_value h₁
        obtain rfl : ts₂ = [] := by simpa using h₂
        exact ⟨_, _, rfl, by decide, rfl, fun rest _ => rfl⟩
    | themeColor c =>
        obtain ⟨p, ts₁, ⟨rfl, rfl⟩, h₁⟩ := exists_cons_of_map_value h
        obtain ⟨q, ts₂, rfl, h₂⟩ := exists_cons_of_map_value h₁
        obtain ⟨r, ts₃, rfl, h₃⟩ := exists_cons_of_map_value h₂
        obtain ⟨s, ts₄, rfl, h₄⟩ := exists_cons_of_map_value h₃
        obtain rfl : ts₄ = [] := by simpa using h₄
        exact ⟨_, _, rfl, by decide, rfl, fun rest _ => rfl⟩
    | duration kind =>
        obtain ⟨p, ts₁, ⟨rfl, rfl⟩, h₁⟩ := exists_cons_of_map_value h
        obtain ⟨q, ts₂, rfl, h₂⟩ := exists_cons_of_map_value h₁
        obtain rfl : ts₂ = [] := by simpa using h₂
        refine ⟨_, _, rfl, by decide, rfl, fun rest _ => ?_⟩
        cases kind <;> rfl
    | dataPort type name value options =>
        obtain ⟨p, ts₁, ⟨rfl, rfl⟩, h₁⟩ := exists_cons_of_map_value h
        exact ⟨_, _, rfl, by decide, rfl, fun rest hrest => readDataPort_complete h₁ hrest⟩
    | flowPort name options =>
        obtain ⟨p, ts₁, ⟨rfl, rfl⟩, h₁⟩ := exists_cons_of_map_value h
        exact ⟨_, _, rfl, by decide, rfl, fun rest hrest => readFlowPort_complete h₁ hrest⟩

/-- **Members of a marker** are read as they are spelled. -/
theorem MarkerMember.grammar_spelling :
    MarkerMember.grammar.Spelling MarkerMember.lexemes MarkerMember.continuations where
  sound := by
    intro k read hk ts m rest h
    change MarkerMember.after? k = some read at hk
    unfold MarkerMember.after? at hk
    split at hk
    case h_3 => cases hk
    all_goals cases hk
    case h_1 =>
      obtain ⟨text, h₁, rfl⟩ := Reading.of_map_eq_ok h
      obtain ⟨p, rfl⟩ := (readText_readsOne _ _ _ _).mp h₁
      exact ⟨[_], rfl, rfl⟩
    case h_2 =>
      obtain ⟨g, hg, rfl⟩ := Reading.of_map_eq_ok h
      obtain ⟨shape, ts₁, h₁, hg⟩ := Reading.of_andThen_eq_ok hg
      obtain ⟨parameter, h₂, rfl⟩ := Reading.of_map_eq_ok hg
      obtain ⟨p, rfl⟩ := (GizmoShape.read_readsOne _ _ _).mp h₁
      obtain ⟨u₂, rfl, e₂⟩ := readParameter_sound h₂
      exact ⟨⟨shape.lexeme, p⟩ :: u₂, by simp, by simp [MarkerMember.lexemes, Gizmo.lexemes, e₂]⟩
  complete := by
    intro t used m h
    cases m with
    | label text =>
        obtain ⟨p, ts₁, ⟨rfl, rfl⟩, h₁⟩ := exists_cons_of_map_value h
        obtain ⟨q, ts₂, rfl, h₂⟩ := exists_cons_of_map_value h₁
        obtain rfl : ts₂ = [] := by simpa using h₂
        exact ⟨_, _, rfl, by decide, rfl, fun rest _ => rfl⟩
    | gizmo g =>
        obtain ⟨p, ts₁, ⟨rfl, rfl⟩, h₁⟩ := exists_cons_of_map_value h
        obtain ⟨q, u₂, rfl, e₂⟩ := exists_cons_of_map_value h₁
        refine ⟨_, _, rfl, by decide, rfl, fun rest hrest => ?_⟩
        have hshape : GizmoShape.read (⟨g.shape.lexeme, q⟩ :: (u₂ ++ rest)) =
            .ok g.shape (u₂ ++ rest) := (GizmoShape.read_readsOne _ _ _).mpr ⟨q, rfl⟩
        have hparameter : readParameter (u₂ ++ rest) = .ok g.parameter rest :=
          readParameter_complete e₂ fun _ => hrest _ (List.mem_singleton.mpr rfl)
        simp only [List.cons_append, Gizmo.read, hshape, Reading.map, Reading.andThen, hparameter]

/-! ### Bodies -/

section Bodies

variable {α : Type} {g : MemberGrammar α} {lexemes : α → List Lexeme} {continues : List Lexeme}
  {owner : Owner}

/-- **Soundness of a body.** A body that is read to its end is spelled by its members and closed by
a brace. -/
theorem Body.read_sound (hg : g.Spelling lexemes continues) {ts rest : List Token}
    (h : (Body.read g owner ts).outcome = .ok rest) :
    ∃ used p, ts = used ++ ⟨.closeBrace, p⟩ :: rest ∧
      Spells lexemes used (Body.read g owner ts).members := by
  fun_induction Body.read g owner ts with
  | case1 p ts =>
      cases h
      exact ⟨[], p, rfl, .nil⟩
  | case2 k p ts hk => cases h
  | case3 k p ts read hk f hread => cases h
  | case4 k p ts read hk member left hread body ih =>
      obtain ⟨used, rfl, e⟩ := hg.sound hk hread
      obtain ⟨used', q, rfl, hs⟩ := ih h
      exact ⟨⟨.keyword k, p⟩ :: used ++ used', q, by simp, .cons e hs⟩
  | case5 ts h₁ h₂ => cases h

/-- What could go on with a member follows no members that are spelled. -/
theorem Spells.notAt (hg : g.Spelling lexemes continues) {used rest : List Token}
    {members : List (Located α)} (h : Spells lexemes used members)
    (hrest : ∀ l ∈ continues, NotAt l rest) : ∀ l ∈ continues, NotAt l (used ++ rest) := by
  intro l hl
  cases h with
  | nil => exact hrest l hl
  | cons ha _ =>
      obtain ⟨k, _, hk, hfresh, -⟩ := hg.complete ha
      rw [List.cons_append, List.cons_append, notAt_cons, hk]
      rintro rfl
      exact hfresh hl

/-- A keyword that begins no member is where the body breaks off. -/
theorem Body.read_noMember {k : Keyword} (hafter : g.after? k = none) (p : Position)
    (ts : List Token) :
    Body.read g owner (⟨.keyword k, p⟩ :: ts) =
      ⟨[], .error ⟨.noMember owner, ⟨.keyword k, p⟩ :: ts⟩⟩ := by
  rw [Body.read]
  split
  · rfl
  · next read hsome => rw [hafter] at hsome; cases hsome

/-- A member that cannot be read is the fault of the body. -/
theorem Body.read_fault {k : Keyword} {read : List Token → Reading α} {p : Position}
    {ts : List Token} {f : Fault} (hafter : g.after? k = some read) (hread : read ts = .fault f) :
    Body.read g owner (⟨.keyword k, p⟩ :: ts) = ⟨[], .error f⟩ := by
  rw [Body.read]
  split
  · next hnone => rw [hafter] at hnone; cases hnone
  · next read' hsome =>
    obtain rfl := Option.some.inj (hafter.symm.trans hsome)
    rw [hread]

/-- A member that is read is the first one of the body. -/
theorem Body.read_member {k : Keyword} {read : List Token → Reading α} {p : Position}
    {ts rest : List Token} {m : α} (hafter : g.after? k = some read)
    (hread : read ts = .ok m rest) :
    Body.read g owner (⟨.keyword k, p⟩ :: ts) =
      ⟨⟨m, p⟩ :: (Body.read g owner rest).members, (Body.read g owner rest).outcome⟩ := by
  rw [Body.read]
  split
  · next hnone => rw [hafter] at hnone; cases hnone
  · next read' hsome =>
    obtain rfl := Option.some.inj (hafter.symm.trans hsome)
    rw [hread]

/-- Members that are spelled are read, and then what follows them. -/
theorem Body.read_spelled_append (hg : g.Spelling lexemes continues) {used rest : List Token}
    {members : List (Located α)} (h : Spells lexemes used members)
    (hrest : ∀ l ∈ continues, NotAt l rest) :
    Body.read g owner (used ++ rest) =
      ⟨members ++ (Body.read g owner rest).members, (Body.read g owner rest).outcome⟩ := by
  induction h with
  | nil => rfl
  | @cons t ts rest' a as ha hs ih =>
      obtain ⟨k, read, hk, -, hafter, hread⟩ := hg.complete ha
      obtain ⟨v, q⟩ := t
      obtain rfl : v = .keyword k := hk
      rw [List.append_assoc, List.cons_append,
        Body.read_member hafter (hread _ (hs.notAt hg hrest)), ih]
      rfl

/-- **Completeness of a body.** Members that are spelled and closed by a brace are read back. -/
theorem Body.read_complete (hg : g.Spelling lexemes continues) (hclose : .closeBrace ∉ continues)
    {used rest : List Token} {p : Position} {members : List (Located α)}
    (h : Spells lexemes used members) :
    Body.read g owner (used ++ ⟨.closeBrace, p⟩ :: rest) = ⟨members, .ok rest⟩ := by
  have hnext : ∀ l ∈ continues, NotAt l (⟨.closeBrace, p⟩ :: rest) := by
    intro l hl
    rw [notAt_cons]
    rintro rfl
    exact hclose hl
  rw [Body.read_spelled_append hg h hnext, Body.read, List.append_nil]

end Bodies

/-! ### Statements -/

/-- What is read as segments is names with dots before them. -/
theorem readSegments_sound : Sound readSegments segmentLexemes := by
  intro ts names rest h
  fun_induction readSegments ts generalizing names with
  | case1 p name q ts ih =>
      obtain ⟨others, ho, rfl⟩ := Reading.of_map_eq_ok h
      obtain ⟨used, rfl, e⟩ := ih ho
      exact ⟨⟨.dot, p⟩ :: ⟨.ident name, q⟩ :: used, rfl, by simp [segmentLexemes, e]⟩
  | case2 => cases h
  | case3 =>
      cases h
      exact ⟨[], rfl, rfl⟩

/-- Segments are read as they are spelled, up to something that is no dot. -/
theorem readSegments_complete {names : List String} {used rest : List Token}
    (hused : used.map Located.value = segmentLexemes names) (hrest : NotAt .dot rest) :
    readSegments (used ++ rest) = .ok names rest := by
  induction names generalizing used with
  | nil =>
      obtain rfl : used = [] := by simpa [segmentLexemes] using hused
      rw [List.nil_append]
      unfold readSegments
      split
      · exact absurd rfl (notAt_cons.mp hrest)
      · exact absurd rfl (notAt_cons.mp hrest)
      · rfl
  | cons name names ih =>
      obtain ⟨p, ts₁, rfl, h₁⟩ := exists_cons_of_map_value hused
      obtain ⟨q, ts₂, rfl, h₂⟩ := exists_cons_of_map_value h₁
      rw [List.cons_append, List.cons_append, readSegments, ih h₂]
      rfl

/-- What is read as the head of an action is a type id and a brace. -/
theorem readActionHead_sound {ts rest : List Token} {typeId : TypeId}
    (h : readActionHead ts = .ok typeId rest) :
    ∃ head p first others, ts = head ++ ⟨.openBrace, p⟩ :: rest ∧ typeId = ⟨first :: others⟩ ∧
      head.map Located.value = typeIdLexemes first others := by
  obtain ⟨typeId', ts₁, h₁, h⟩ := Reading.of_andThen_eq_ok h
  obtain ⟨_, h₂, rfl⟩ := Reading.of_map_eq_ok h
  obtain ⟨first, ts₃, h₃, h₁⟩ := Reading.of_andThen_eq_ok h₁
  obtain ⟨others, h₄, rfl⟩ := Reading.of_map_eq_ok h₁
  obtain ⟨p, rfl⟩ := (readOpenBrace_readsOne _ _ _ _).mp h₂
  obtain ⟨q, rfl⟩ := (readIdent_readsOne _ _ _ _).mp h₃
  obtain ⟨used, rfl, e⟩ := readSegments_sound h₄
  exact ⟨⟨.ident first, q⟩ :: used, p, first, others, rfl, rfl, by simp [typeIdLexemes, e]⟩

/-- The head of an action is read as it is spelled. -/
theorem readActionHead_complete {head rest : List Token} {first : String} {others : List String}
    {p : Position} (hhead : head.map Located.value = typeIdLexemes first others) :
    readActionHead (head ++ ⟨.openBrace, p⟩ :: rest) = .ok ⟨first :: others⟩ rest := by
  obtain ⟨q, segments, rfl, e⟩ := exists_cons_of_map_value hhead
  have hsegments : readSegments (segments ++ ⟨.openBrace, p⟩ :: rest) =
      .ok others (⟨.openBrace, p⟩ :: rest) :=
    readSegments_complete e (notAt_cons.mpr (by simp))
  simp only [List.cons_append, readActionHead, TypeId.read, (readIdent_readsOne _).read_cons,
    Reading.map, Reading.andThen, hsegments, (readOpenBrace_readsOne _).read_cons ()]

/-- What is read as the head of a marker is a name and a brace. -/
theorem readMarkerHead_sound {ts rest : List Token} {name : String}
    (h : readMarkerHead ts = .ok name rest) :
    ∃ p q, ts = ⟨.ident name, p⟩ :: ⟨.openBrace, q⟩ :: rest := by
  obtain ⟨name', ts₁, h₁, h⟩ := Reading.of_andThen_eq_ok h
  obtain ⟨_, h₂, rfl⟩ := Reading.of_map_eq_ok h
  obtain ⟨p, rfl⟩ := (readIdent_readsOne _ _ _ _).mp h₁
  obtain ⟨q, rfl⟩ := (readOpenBrace_readsOne _ _ _ _).mp h₂
  exact ⟨p, q, rfl⟩

/-- A statement whose body has been read is complete if the body is. -/
theorem Attempt.of_ofBody_eq_complete {st st' : Statement} {outcome : Except Fault (List Token)}
    {rest : List Token} (h : Attempt.ofBody st outcome = .complete st' rest) :
    st = st' ∧ outcome = .ok rest := by
  cases outcome with
  | ok left =>
      cases h
      exact ⟨rfl, rfl⟩
  | error f => cases h

/-- **Soundness of a section.** A section that is read as a whole statement begins with tokens that
spell the statement. -/
theorem Section.attempt_sound {s : Section} {st : Statement} {rest : List Token}
    (h : s.attempt = .complete st rest) :
    ∃ used, s.body = used ++ rest ∧ SpellsStatement (s.head :: used) ⟨st, s.position⟩ := by
  obtain ⟨kind, position, body, stop⟩ := s
  cases kind with
  | action =>
      change readAction body = _ at h
      unfold readAction at h
      split at h
      · cases h
      · next typeId ts hhead =>
        obtain ⟨rfl, hbody⟩ := Attempt.of_ofBody_eq_complete h
        obtain ⟨head, p, first, others, rfl, rfl, e⟩ := readActionHead_sound hhead
        obtain ⟨used, q, rfl, hs⟩ := Body.read_sound ActionMember.grammar_spelling hbody
        refine ⟨head ++ ⟨.openBrace, p⟩ :: (used ++ [⟨.closeBrace, q⟩]), by simp, ?_⟩
        exact .action e hs
  | marker =>
      change readMarker body = _ at h
      unfold readMarker at h
      split at h
      · cases h
      · next name ts hhead =>
        obtain ⟨rfl, hbody⟩ := Attempt.of_ofBody_eq_complete h
        obtain ⟨p, q, rfl⟩ := readMarkerHead_sound hhead
        obtain ⟨used, r, rfl, hs⟩ := Body.read_sound MarkerMember.grammar_spelling hbody
        refine ⟨⟨.ident name, p⟩ :: ⟨.openBrace, q⟩ :: (used ++ [⟨.closeBrace, r⟩]), by simp, ?_⟩
        exact .marker hs

/-- **Completeness of a section.** A section that begins with tokens that spell a statement is read
as this statement. -/
theorem Section.attempt_complete {s : Section} {st : Statement} {used rest : List Token}
    (hbody : s.body = used ++ rest) (h : SpellsStatement (s.head :: used) ⟨st, s.position⟩) :
    s.attempt = .complete st rest := by
  obtain ⟨kind, position, body, stop⟩ := s
  obtain rfl : body = used ++ rest := hbody
  cases kind with
  | action =>
      cases h with
      | @action _ q r head body first others members e hs =>
          have hread : ∀ owner, Body.read ActionMember.grammar owner
              (body ++ ⟨.closeBrace, r⟩ :: rest) = ⟨members, .ok rest⟩ :=
            fun _ => Body.read_complete ActionMember.grammar_spelling (by decide) hs
          have hhead : readActionHead
              (head ++ ⟨.openBrace, q⟩ :: (body ++ ⟨.closeBrace, r⟩ :: rest)) =
                .ok ⟨first :: others⟩ (body ++ ⟨.closeBrace, r⟩ :: rest) :=
            readActionHead_complete e
          simp only [Section.attempt, List.append_assoc, List.cons_append, List.nil_append,
            readAction, hhead, hread, Attempt.ofBody]
  | marker =>
      cases h with
      | @marker _ p q r body name members hs =>
          have hread : ∀ owner, Body.read MarkerMember.grammar owner
              (body ++ ⟨.closeBrace, r⟩ :: rest) = ⟨members, .ok rest⟩ :=
            fun _ => Body.read_complete MarkerMember.grammar_spelling (by decide) hs
          simp only [Section.attempt, List.append_assoc, List.cons_append, List.nil_append,
            readMarker, readMarkerHead, (readIdent_readsOne _).read_cons,
            (readOpenBrace_readsOne _).read_cons (), Reading.map, Reading.andThen, hread,
            Attempt.ofBody]

end Defsheet

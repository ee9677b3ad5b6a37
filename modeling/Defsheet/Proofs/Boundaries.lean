import Defsheet.Proofs.Parsing

/-!
# Where statements end

A statement reaches to the next statement keyword or to the end of the file. Its readers take
neither of them for a part of what they read: they stop there as they do where the tokens end. Nor
do they look at where tokens stand. Both facts are one: a change of tokens moves them and puts
others behind them (`TokenChange`), and reading commutes with every change that puts the end of a
statement behind the tokens (`StopsAtStatement`).

This is kept by reading one part after another, so it goes from single tokens to members, from
members to bodies by the recursion of `Body.read`, and from bodies to statements.

## Main results

* `readOne_stops`: a single token is read as long as it ends no statement.
* `Body.read_change`: reading a body commutes with a change of tokens.
* `readStatement_change`: so does reading a statement.
* `readStatement_append`: a statement is read as if the document ended before the next one.
-/

namespace Defsheet

/-! ### What is left of the tokens -/

/-- The tokens are at a statement: there are none, or a statement keyword comes first. -/
def AtStatement (ts : List Token) : Prop := ∀ t ∈ ts.head?, (Section.kind? t.value).isSome = true

theorem atStatement_nil : AtStatement [] := fun t ht => by cases ht

/-- Tokens are at a statement if the first of them is a statement keyword. -/
theorem atStatement_cons {t : Token} {ts : List Token} :
    AtStatement (t :: ts) ↔ (Section.kind? t.value).isSome = true := by
  simp [AtStatement]

/-- Whether the lexeme ends a statement that is being read: another one begins, or the document is
over. -/
def Lexeme.endsStatement : Lexeme → Bool
  | .endOfFile => true
  | l => (Section.kind? l).isSome

/-- What ends a statement is the end of the file or a statement keyword. -/
theorem Lexeme.endsStatement_iff {l : Lexeme} :
    l.endsStatement = true ↔ l = .endOfFile ∨ (Section.kind? l).isSome = true := by
  cases l <;> simp [endsStatement, Section.kind?]

/-- The tokens are at the end of a statement: there are none, or the first one ends a statement. -/
def AtBoundary (ts : List Token) : Prop := ∀ t ∈ ts.head?, t.value.endsStatement = true

/-- Tokens are at a boundary if the first of them ends a statement. -/
theorem atBoundary_cons {t : Token} {ts : List Token} :
    AtBoundary (t :: ts) ↔ t.value.endsStatement = true := by
  simp [AtBoundary]

/-- Where a statement begins, the one before it has ended. -/
theorem AtStatement.atBoundary {ts : List Token} (h : AtStatement ts) : AtBoundary ts :=
  fun t ht => Lexeme.endsStatement_iff.mpr (.inr (h t ht))

/-- The same fault with more tokens behind it. -/
def Fault.before (tail : List Token) (f : Fault) : Fault := ⟨f.cause, f.rest ++ tail⟩

/-- A fault that has run out of tokens shows at the one behind it. -/
theorem Fault.finding_before (f : Fault) (tail : List Token) (stop : Token) :
    (f.before tail).finding stop = f.finding (tail.head?.getD stop) := by
  have htoken : (f.before tail).token stop = f.token (tail.head?.getD stop) := by
    rw [Fault.token, Fault.token, Fault.before, List.head?_append]
    cases f.rest.head? <;> rfl
  rw [Fault.finding, htoken]
  rfl

/-- The same reading with more tokens behind it. -/
def Reading.before {α : Type} (tail : List Token) : Reading α → Reading α
  | ok a rest => ok a (rest ++ tail)
  | fault f => fault (f.before tail)

/-! ### Changes of tokens -/

/-- The value at another place. -/
def Located.move {α : Type} (f : Position → Position) (x : Located α) : Located α :=
  ⟨x.value, f x.position⟩

/-- Tokens are moved, and others are put behind them. -/
structure TokenChange where
  move : Position → Position
  tail : List Token

namespace TokenChange

variable {α : Type} (c : TokenChange)

/-- The tokens after the change. -/
def tokens (ts : List Token) : List Token := ts.map (Located.move c.move) ++ c.tail

/-- The fault after the change. -/
def fault (f : Fault) : Fault := ⟨f.cause, c.tokens f.rest⟩

/-- The reading after the change. -/
def reading : Reading α → Reading α
  | .ok a rest => .ok a (c.tokens rest)
  | .fault f => .fault (c.fault f)

/-- What is left behind a body, or its fault, after the change. -/
def outcome : Except Fault (List Token) → Except Fault (List Token)
  | .ok rest => .ok (c.tokens rest)
  | .error f => .error (c.fault f)

/-- The body after the change. -/
def body (b : Body α) : Body α := ⟨b.members.map (Located.move c.move), c.outcome b.outcome⟩

/-- The statement after the change. -/
def statement : Statement → Statement
  | .action typeId ms => .action typeId (ms.map (Located.move c.move))
  | .marker name ms => .marker name (ms.map (Located.move c.move))

/-- What was read of a statement, after the change. -/
def attempt : Attempt → Attempt
  | .complete st rest => .complete (c.statement st) (c.tokens rest)
  | .broken st f => .broken (st.map c.statement) (c.fault f)

theorem tokens_cons (l : Lexeme) (p : Position) (ts : List Token) :
    c.tokens (⟨l, p⟩ :: ts) = ⟨l, c.move p⟩ :: c.tokens ts := rfl

/-- A statement changes with its body. -/
theorem attempt_ofBody (st : Statement) (o : Except Fault (List Token)) :
    c.attempt (.ofBody st o) = .ofBody (c.statement st) (c.outcome o) := by
  cases o <;> rfl

/-- Nothing is moved. -/
def append (tail : List Token) : TokenChange := ⟨id, tail⟩

/-- A change that moves nothing only puts tokens behind the others. -/
theorem tokens_append (tail ts : List Token) : (append tail).tokens ts = ts ++ tail :=
  congrArg (· ++ tail) (List.map_id ts)

theorem fault_append (tail : List Token) (f : Fault) : (append tail).fault f = f.before tail := by
  rw [fault, tokens_append, Fault.before]

theorem reading_append (tail : List Token) (r : Reading α) :
    (append tail).reading r = r.before tail := by
  cases r with
  | ok a rest => rw [reading, tokens_append, Reading.before]
  | fault f => rw [reading, fault_append, Reading.before]

/-- No statement is changed by tokens behind it. -/
theorem statement_append (tail : List Token) (st : Statement) :
    (append tail).statement st = st := by
  cases st with
  | action typeId ms => exact congrArg (Statement.action typeId) (List.map_id ms)
  | marker name ms => exact congrArg (Statement.marker name) (List.map_id ms)

/-- A lexeme that ends no statement comes first after a change only if it did before. -/
theorem exists_eq_cons {c : TokenChange} (hc : AtBoundary c.tail) {l : Lexeme}
    (hl : l.endsStatement = false) {ts rest : List Token} {q : Position}
    (h : c.tokens ts = ⟨l, q⟩ :: rest) : ∃ p us, ts = ⟨l, p⟩ :: us := by
  cases ts with
  | nil =>
      change c.tail = _ at h
      rw [h, atBoundary_cons, hl] at hc
      cases hc
  | cons t ts =>
      obtain ⟨l', p⟩ := t
      cases h
      exact ⟨p, ts, rfl⟩

end TokenChange

/-! ### Readers -/

/-- The reader stops where a statement ends as it does at the end of the tokens, wherever these
stand, and what it misses there is a part of a statement. -/
structure StopsAtStatement {α : Type} (read : List Token → Reading α) : Prop where
  left_suffix : LeavesSuffix read
  read_change : ∀ c : TokenChange, AtBoundary c.tail →
    ∀ ts, read (c.tokens ts) = c.reading (read ts)
  cause_ne : ∀ {ts f}, read ts = .fault f → f.cause ≠ .expected .statement

namespace StopsAtStatement

variable {α β : Type} {read : List Token → Reading α}

/-- The reader stops at what follows a statement. -/
theorem read_append (hread : StopsAtStatement read) (ts : List Token) {tail : List Token}
    (htail : AtBoundary tail) : read (ts ++ tail) = (read ts).before tail := by
  rw [← TokenChange.tokens_append, hread.read_change (.append tail) htail,
    TokenChange.reading_append]

/-- Two parts that are read one after the other. -/
theorem andThen {next : α → List Token → Reading β} (hread : StopsAtStatement read)
    (hnext : ∀ a, StopsAtStatement (next a)) :
    StopsAtStatement fun ts => (read ts).andThen next where
  left_suffix := hread.left_suffix.andThen fun a => (hnext a).left_suffix
  read_change c hc ts := by
    rw [hread.read_change c hc ts]
    cases read ts with
    | ok a rest => exact (hnext a).read_change c hc rest
    | fault f => rfl
  cause_ne {ts f} h := by
    cases hr : read ts with
    | ok a rest =>
        rw [hr] at h
        exact (hnext a).cause_ne h
    | fault f' =>
        rw [hr] at h
        cases h
        exact hread.cause_ne hr

/-- A reader that takes nothing. -/
theorem ok (a : α) : StopsAtStatement fun ts => .ok a ts where
  left_suffix := .ok a
  read_change _ _ _ := rfl
  cause_ne h := by cases h

/-- A part that is wrapped up. -/
theorem map {f : α → β} (hread : StopsAtStatement read) :
    StopsAtStatement fun ts => (read ts).map f :=
  hread.andThen fun a => .ok (f a)

/-- A part that may be left out and announces itself by its first lexeme. -/
theorem optional {read : List Token → Reading (Option α)} {l : Lexeme}
    {next : List Token → Reading (Option α)} (hat : ∀ p ts, read (⟨l, p⟩ :: ts) = next ts)
    (hnot : ∀ ts, NotAt l ts → read ts = .ok none ts) (hlexeme : l.endsStatement = false)
    (hnext : StopsAtStatement next) : StopsAtStatement read := by
  have hcases (ts : List Token) : (∃ p rest, ts = ⟨l, p⟩ :: rest) ∨ NotAt l ts := by
    cases ts with
    | nil => exact .inr fun t ht => by cases ht
    | cons t ts =>
        by_cases ht : t.value = l
        · exact .inl ⟨t.position, ts, by rw [← ht]⟩
        · exact .inr (notAt_cons.mpr ht)
  constructor
  · intro ts
    obtain ⟨p, rest, rfl⟩ | hts := hcases ts
    · rw [hat]
      exact hnext.left_suffix.cons _ rest
    · rw [hnot ts hts]
      exact List.suffix_refl ts
  · intro c hc ts
    obtain ⟨p, rest, rfl⟩ | hts := hcases ts
    · rw [TokenChange.tokens_cons, hat, hat]
      exact hnext.read_change c hc rest
    · have hchanged : NotAt l (c.tokens ts) := by
        rintro ⟨l', q⟩ ht rfl
        obtain ⟨rest, hrest⟩ := List.head?_eq_some_iff.mp ht
        obtain ⟨p, us, rfl⟩ := TokenChange.exists_eq_cons hc hlexeme hrest
        exact notAt_cons.mp hts rfl
      rw [hnot ts hts, hnot _ hchanged]
      rfl
  · intro ts f h
    obtain ⟨p, rest, rfl⟩ | hts := hcases ts
    · rw [hat] at h
      exact hnext.cause_ne h
    · rw [hnot ts hts] at h
      cases h

end StopsAtStatement

/-- **A single token** is read as long as it ends no statement. -/
theorem readOne_stops {α : Type} {what : Expectation} {value? : Lexeme → Option α}
    (hwhat : what ≠ .statement) (hfile : value? .endOfFile = none)
    (haction : value? (.keyword .action) = none) (hmarker : value? (.keyword .marker) = none) :
    StopsAtStatement (readOne what value?) where
  left_suffix := readOne_leavesSuffix what value?
  read_change c hc ts := by
    cases ts with
    | nil =>
        -- The first token behind is not the one that is asked for.
        change readOne what value? c.tail = .missing what c.tail
        cases htail : c.tail with
        | nil => rfl
        | cons t tail =>
            have hnone : value? t.value = none := by
              rw [htail, atBoundary_cons, Lexeme.endsStatement_iff] at hc
              obtain hend | hkind := hc
              · rw [hend, hfile]
              · obtain ⟨kind, hkind⟩ := Option.isSome_iff_exists.mp hkind
                rw [Section.eq_keyword_of_kind? hkind]
                cases kind
                · exact haction
                · exact hmarker
            rw [readOne, hnone]
    | cons t ts =>
        obtain ⟨l, p⟩ := t
        rw [TokenChange.tokens_cons, readOne, readOne]
        cases value? l <;> rfl
  cause_ne {ts f} h := by
    have hcause : f.cause = .expected what := by
      cases ts with
      | nil => cases h; rfl
      | cons t ts =>
          rw [readOne] at h
          split at h
          · cases h
          · cases h; rfl
    rw [hcause]
    exact fun hexpected => hwhat (FaultCause.expected.inj hexpected)

/-! ### Readers of members -/

/-- An identifier is not read across the end of a statement. -/
theorem readIdent_stops (what : Expectation) (hwhat : what ≠ .statement) :
    StopsAtStatement (readIdent what) :=
  readOne_stops hwhat rfl rfl rfl

theorem readText_stops (what : Expectation) (hwhat : what ≠ .statement) :
    StopsAtStatement (readText what) :=
  readOne_stops hwhat rfl rfl rfl

theorem readNumber_stops (what : Expectation) (hwhat : what ≠ .statement) :
    StopsAtStatement (readNumber what) :=
  readOne_stops hwhat rfl rfl rfl

theorem PortType.read_stops : StopsAtStatement PortType.read :=
  readOne_stops (by decide) rfl rfl rfl

theorem Literal.read_stops : StopsAtStatement Literal.read :=
  readOne_stops (by decide) rfl rfl rfl

theorem DurationKind.read_stops : StopsAtStatement DurationKind.read :=
  readOne_stops (by decide) rfl rfl rfl

theorem GizmoShape.read_stops : StopsAtStatement GizmoShape.read :=
  readOne_stops (by decide) rfl rfl rfl

theorem readCloseParen_stops : StopsAtStatement readCloseParen :=
  readOne_stops (by decide) rfl rfl rfl

theorem readOpenBrace_stops (owner : Owner) : StopsAtStatement (readOpenBrace owner) :=
  readOne_stops (by simp) rfl rfl rfl

/-- A part that may be missing stops if its keyword begins no statement. -/
theorem readOptional_stops {α : Type} {k : Keyword} {read : List Token → Reading α}
    (hk : (Lexeme.keyword k).endsStatement = false) (hread : StopsAtStatement read) :
    StopsAtStatement (readOptional k read) := by
  refine .optional (l := .keyword k) (fun p ts => ?_) (fun ts hts => ?_) hk
    (hread.map (f := some))
  · rw [readOptional, if_pos rfl]
  · fun_cases readOptional k read ts with
    | case1 p ts => exact absurd rfl (notAt_cons.mp hts)
    | case2 => rfl
    | case3 => rfl

/-- A default is missing where a statement ends. -/
theorem readDefault_stops : StopsAtStatement readDefault := by
  refine .optional (l := .equals) (fun _ _ => rfl) (fun ts hts => ?_) rfl
    (Literal.read_stops.map (f := some))
  fun_cases readDefault ts with
  | case1 p ts => exact absurd rfl (notAt_cons.mp hts)
  | case2 => rfl

/-- A parameter is missing where a statement ends. -/
theorem readParameter_stops : StopsAtStatement readParameter := by
  refine .optional (l := .openParen) (fun _ _ => rfl) (fun ts hts => ?_) rfl
    ((readNumber_stops .gizmoParameter (by decide)).andThen fun n => readCloseParen_stops.map)
  fun_cases readParameter ts with
  | case1 p ts => exact absurd rfl (notAt_cons.mp hts)
  | case2 => rfl

/-- The options of a port are missing where a statement ends. -/
theorem PortOptions.read_stops : StopsAtStatement PortOptions.read :=
  (readOptional_stops rfl (readText_stops _ (by decide))).andThen fun _ =>
    (readOptional_stops rfl (readNumber_stops _ (by decide))).andThen fun _ =>
      (readOptional_stops rfl (readNumber_stops _ (by decide))).map

/-- A color stops at each of its three numbers. -/
theorem Color.read_stops : StopsAtStatement Color.read :=
  have hnumber := readNumber_stops (.numberAfter .themeColor) (by decide)
  hnumber.andThen fun _ => hnumber.andThen fun _ => hnumber.map

/-- A data port stops at each of its parts. -/
theorem readDataPort_stops : StopsAtStatement readDataPort :=
  PortType.read_stops.andThen fun _ => (readIdent_stops _ (by decide)).andThen fun _ =>
    readDefault_stops.andThen fun _ => PortOptions.read_stops.map

/-- A flow port stops at each of its parts. -/
theorem readFlowPort_stops : StopsAtStatement readFlowPort :=
  (readIdent_stops _ (by decide)).andThen fun _ => PortOptions.read_stops.map

/-- A gizmo stops at its shape and at its parameter. -/
theorem Gizmo.read_stops : StopsAtStatement Gizmo.read :=
  GizmoShape.read_stops.andThen fun _ => readParameter_stops.map

/-- No member of a statement is begun by a statement keyword, and the readers of members stop at
one. -/
structure MemberGrammar.Stops {α : Type} (g : MemberGrammar α) : Prop where
  after_stops : ∀ {k read}, g.after? k = some read → StopsAtStatement read
  no_statement : ∀ kind : StatementKind, g.after? kind.keyword = none

/-- Every member of an action stops at a statement. -/
theorem ActionMember.grammar_stops : ActionMember.grammar.Stops where
  after_stops {k read} h := by
    change ActionMember.after? k = some read at h
    cases k <;> cases h
    · exact (readText_stops _ (by decide)).map
    · exact (readText_stops _ (by decide)).map
    · exact (readText_stops _ (by decide)).map
    · exact Color.read_stops.map
    · exact DurationKind.read_stops.map
    · exact readDataPort_stops
    · exact readFlowPort_stops
  no_statement kind := by cases kind <;> rfl

/-- Every member of a marker stops at a statement. -/
theorem MarkerMember.grammar_stops : MarkerMember.grammar.Stops where
  after_stops {k read} h := by
    change MarkerMember.after? k = some read at h
    cases k <;> cases h
    · exact (readText_stops _ (by decide)).map
    · exact Gizmo.read_stops.map
  no_statement kind := by cases kind <;> rfl

/-! ### Bodies -/

/-- The tokens that are left behind a body, or at its fault. -/
def leftOf : Except Fault (List Token) → List Token
  | .ok rest => rest
  | .error f => f.rest

namespace Body

variable {α : Type} {g : MemberGrammar α} {owner : Owner}

/-- What is left behind a body is the end of the tokens. -/
theorem left_suffix (ts : List Token) : leftOf (Body.read g owner ts).outcome <:+ ts := by
  fun_induction Body.read g owner ts with
  | case1 p ts => exact List.suffix_cons _ ts
  | case2 k p ts hk => exact List.suffix_refl _
  | case3 k p ts read hk f hread =>
      have hleft := (g.leavesSuffix hk).cons ⟨.keyword k, p⟩ ts
      rwa [hread] at hleft
  | case4 k p ts read hk member rest hread body ih =>
      have hleft := (g.leavesSuffix hk).cons ⟨.keyword k, p⟩ ts
      rw [hread] at hleft
      exact ih.trans hleft
  | case5 ts => exact List.suffix_refl ts

/-- Where the statement ends a body breaks off. -/
theorem read_of_atBoundary (hg : g.Stops) {tail : List Token} (htail : AtBoundary tail) :
    Body.read g owner tail = ⟨[], .error ⟨.noMember owner, tail⟩⟩ := by
  cases tail with
  | nil =>
      rw [Body.read]
      · exact fun _ _ h => by cases h
      · exact fun _ _ _ h => by cases h
  | cons t tail =>
      obtain ⟨l, p⟩ := t
      obtain rfl | hkind := Lexeme.endsStatement_iff.mp (atBoundary_cons.mp htail)
      · rw [Body.read]
        · exact fun _ _ h => by cases h
        · exact fun _ _ _ h => by cases h
      · obtain ⟨kind, hkind⟩ := Option.isSome_iff_exists.mp hkind
        obtain rfl := Section.eq_keyword_of_kind? hkind
        exact read_noMember (hg.no_statement kind) p tail

/-- What a body misses is a part of its statement. -/
theorem cause_ne (hg : g.Stops) {ts : List Token} {f : Fault}
    (h : (Body.read g owner ts).outcome = .error f) : f.cause ≠ .expected .statement := by
  fun_induction Body.read g owner ts with
  | case1 p ts => cases h
  | case2 k p ts hk => cases h; exact fun hcause => by cases hcause
  | case3 k p ts read hk f' hread => cases h; exact (hg.after_stops hk).cause_ne hread
  | case4 k p ts read hk member rest hread body ih => exact ih h
  | case5 ts => cases h; exact fun hcause => by cases hcause

/-- **Reading a body commutes with a change of tokens** that puts the end of a statement behind
them. -/
theorem read_change (hg : g.Stops) (c : TokenChange) (hc : AtBoundary c.tail) (ts : List Token) :
    Body.read g owner (c.tokens ts) = c.body (Body.read g owner ts) := by
  fun_induction Body.read g owner ts with
  | case1 p ts => rw [TokenChange.tokens_cons, Body.read]; rfl
  | case2 k p ts hk => rw [TokenChange.tokens_cons, read_noMember hk]; rfl
  | case3 k p ts read hk f hread =>
      have hchange := (hg.after_stops hk).read_change c hc ts
      rw [hread] at hchange
      rw [TokenChange.tokens_cons, read_fault hk hchange]
      rfl
  | case4 k p ts read hk member rest hread body ih =>
      have hchange := (hg.after_stops hk).read_change c hc ts
      rw [hread] at hchange
      rw [TokenChange.tokens_cons, read_member hk hchange, ih]
      rfl
  | case5 ts hclose hkeyword =>
      cases ts with
      | nil => exact read_of_atBoundary hg hc
      | cons t ts =>
          obtain ⟨l, p⟩ := t
          rw [TokenChange.tokens_cons, Body.read]
          · rfl
          · exact fun q us h => by cases h; exact hclose _ _ rfl
          · exact fun k q us h => by cases h; exact hkeyword _ _ _ rfl

end Body

/-! ### Statements -/

/-- Segments are taken from the front of the tokens. -/
theorem readSegments_leavesSuffix : LeavesSuffix readSegments := by
  intro ts
  fun_induction readSegments ts with
  | case1 p name q ts ih =>
      have hleft : ((readSegments ts).map (name :: ·)).left = (readSegments ts).left := by
        cases readSegments ts <;> rfl
      rw [hleft]
      exact ih.trans ((List.suffix_cons _ ts).trans (List.suffix_cons _ _))
  | case2 p ts => exact List.suffix_cons _ ts
  | case3 ts => exact List.suffix_refl ts

/-- The segments of a type id are over where a statement ends, so what comes behind it is not looked
at. -/
theorem readSegments_change (c : TokenChange) (hc : AtBoundary c.tail) (ts : List Token) :
    readSegments (c.tokens ts) = c.reading (readSegments ts) := by
  fun_induction readSegments ts with
  | case1 p name q ts ih =>
      rw [TokenChange.tokens_cons, TokenChange.tokens_cons, readSegments, ih]
      cases readSegments ts <;> rfl
  | case2 p ts hident =>
      rw [TokenChange.tokens_cons, readSegments]
      · rfl
      · intro name q rest h
        obtain ⟨p', us, rfl⟩ := TokenChange.exists_eq_cons hc rfl h
        exact hident name p' us rfl
  | case3 ts hnone hdot =>
      have hchanged : ∀ p rest, c.tokens ts ≠ ⟨.dot, p⟩ :: rest := by
        intro p rest h
        obtain ⟨p', us, rfl⟩ := TokenChange.exists_eq_cons hc rfl h
        exact hdot p' us rfl
      rw [readSegments]
      · rfl
      · exact fun p name q rest h => hchanged p _ h
      · exact hchanged

/-- The segments of a type id stop at a statement. What they may miss is a name. -/
theorem readSegments_stops : StopsAtStatement readSegments where
  left_suffix := readSegments_leavesSuffix
  read_change := readSegments_change
  cause_ne {ts f} h := by
    fun_induction readSegments ts generalizing f with
    | case1 p name q ts ih =>
        cases hr : readSegments ts with
        | ok names rest => rw [hr] at h; cases h
        | fault f' => rw [hr] at h; cases h; exact ih hr
    | case2 p ts => cases h; exact fun hcause => by cases hcause
    | case3 ts => cases h

/-- The head of an action stops at each name of its type id and at its brace. -/
theorem readActionHead_stops : StopsAtStatement readActionHead :=
  ((readIdent_stops _ (by decide)).andThen fun _ => readSegments_stops.map).andThen fun _ =>
    (readOpenBrace_stops _).map

/-- The head of a marker stops at its name and at its brace. -/
theorem readMarkerHead_stops : StopsAtStatement readMarkerHead :=
  (readIdent_stops _ (by decide)).andThen fun _ => (readOpenBrace_stops _).map

/-- Reads a statement of a kind from the tokens after its keyword. -/
def readStatement : StatementKind → List Token → Attempt
  | .action => readAction
  | .marker => readMarker

/-- What a section is read as depends on the kind of its statement and on the tokens behind the
keyword. -/
theorem Section.attempt_eq (s : Section) : s.attempt = readStatement s.kind s.body := by
  rw [Section.attempt]
  cases s.kind <;> rfl

namespace Attempt

/-- The tokens that are left behind the statement, or at its fault. -/
def left : Attempt → List Token
  | complete _ rest => rest
  | broken _ fault => fault.rest

/-- The same attempt with more tokens behind it. -/
def before (tail : List Token) : Attempt → Attempt
  | complete s rest => complete s (rest ++ tail)
  | broken s fault => broken s (fault.before tail)

/-- What a statement leaves is what its body leaves. -/
theorem left_ofBody (s : Statement) (outcome : Except Fault (List Token)) :
    (ofBody s outcome).left = leftOf outcome := by
  cases outcome <;> rfl

end Attempt

/-- A change that moves nothing only puts tokens behind what was read of a statement. -/
theorem TokenChange.attempt_append (tail : List Token) (a : Attempt) :
    (append tail).attempt a = a.before tail := by
  cases a with
  | complete st rest => rw [attempt, statement_append, tokens_append, Attempt.before]
  | broken st f =>
      rw [attempt, fault_append, Attempt.before, funext (statement_append tail), Option.map_id']

/-- What is left behind a statement is the end of the tokens. -/
theorem left_readStatement (kind : StatementKind) (ts : List Token) :
    (readStatement kind ts).left <:+ ts := by
  cases kind with
  | action =>
      have hhead := readActionHead_stops.left_suffix ts
      rw [readStatement, readAction]
      cases hr : readActionHead ts with
      | fault f => rw [hr] at hhead; exact hhead
      | ok typeId rest =>
          rw [hr] at hhead
          rw [Attempt.left_ofBody]
          exact (Body.left_suffix rest).trans hhead
  | marker =>
      have hhead := readMarkerHead_stops.left_suffix ts
      rw [readStatement, readMarker]
      cases hr : readMarkerHead ts with
      | fault f => rw [hr] at hhead; exact hhead
      | ok name rest =>
          rw [hr] at hhead
          rw [Attempt.left_ofBody]
          exact (Body.left_suffix rest).trans hhead

/-- What a statement misses is a part of it. -/
theorem cause_ne_of_readStatement {kind : StatementKind} {ts : List Token}
    {st : Option Statement} {f : Fault} (h : readStatement kind ts = .broken st f) :
    f.cause ≠ .expected .statement := by
  have hbody {s : Statement} {outcome : Except Fault (List Token)}
      (hs : Attempt.ofBody s outcome = .broken st f) : outcome = .error f := by
    cases outcome <;> cases hs
    rfl
  cases kind with
  | action =>
      rw [readStatement, readAction] at h
      cases hr : readActionHead ts with
      | fault f' => rw [hr] at h; cases h; exact readActionHead_stops.cause_ne hr
      | ok typeId rest => rw [hr] at h; exact Body.cause_ne ActionMember.grammar_stops (hbody h)
  | marker =>
      rw [readStatement, readMarker] at h
      cases hr : readMarkerHead ts with
      | fault f' => rw [hr] at h; cases h; exact readMarkerHead_stops.cause_ne hr
      | ok name rest => rw [hr] at h; exact Body.cause_ne MarkerMember.grammar_stops (hbody h)

/-- **Reading a statement commutes with a change of tokens** that puts the end of a statement behind
them. -/
theorem readStatement_change (kind : StatementKind) (c : TokenChange) (hc : AtBoundary c.tail)
    (ts : List Token) : readStatement kind (c.tokens ts) = c.attempt (readStatement kind ts) := by
  cases kind with
  | action =>
      rw [readStatement, readAction, readAction, readActionHead_stops.read_change c hc ts]
      cases readActionHead ts with
      | fault f => rfl
      | ok typeId rest =>
          simp only [TokenChange.reading, Body.read_change ActionMember.grammar_stops c hc,
            TokenChange.attempt_ofBody]
          rfl
  | marker =>
      rw [readStatement, readMarker, readMarker, readMarkerHead_stops.read_change c hc ts]
      cases readMarkerHead ts with
      | fault f => rfl
      | ok name rest =>
          simp only [TokenChange.reading, Body.read_change MarkerMember.grammar_stops c hc,
            TokenChange.attempt_ofBody]
          rfl

/-- **A statement is read as if the document ended before the next one.** -/
theorem readStatement_append (kind : StatementKind) (ts : List Token) {tail : List Token}
    (htail : AtBoundary tail) :
    readStatement kind (ts ++ tail) = (readStatement kind ts).before tail := by
  rw [← TokenChange.tokens_append, readStatement_change kind (.append tail) htail,
    TokenChange.attempt_append]

end Defsheet

import Defsheet.Proofs.Recovery

/-!
# Fields that are set again

A statement may set a field more than once; the last value counts, and with `warnOnRepeat` the
others are reported. `RepeatsField` says where a field is set again without reading anything:
somewhere a statement begins, its body has been spelled up to a member that sets the field, and an
earlier member of the body has set it. What follows that member does not matter, so the statement
may be broken later on, or be dropped because its type id is taken. Only what would still belong to
the member must not follow: a gizmo without a parameter ends where no parameter begins.

A statement is read member by member, so its findings are an invariant of going through the members:
a repeat is found exactly at a member whose field is set by then
(`FindsRepeats.mem_repeats_gather`).

## Main results

* `mem_repeats_readStatement_iff`: a statement finds a repeat exactly where it sets a field again.
* `Section.mem_repeats_iff`: so does a section, whatever follows it.
* `Section.positions_repeats_sublist`: each repeat is found once, in the order of the tokens.
-/

namespace Defsheet

/-! ### Members that set fields -/

/-- The field that a member of an action sets. -/
def ActionMember.field? : ActionMember → Option Keyword
  | .displayName _ => some .displayName
  | .category _ => some .category
  | .description _ => some .description
  | .themeColor _ => some .themeColor
  | .duration _ => some .duration
  | .dataPort _ _ _ _ | .flowPort _ _ => none

/-- The field that a member of a marker sets. -/
def MarkerMember.field? : MarkerMember → Option Keyword
  | .label _ => some .label
  | .gizmo _ => some .gizmo

/-- What would still belong to the member if it came next: a gizmo may have a parameter. -/
def MarkerMember.goesOn : MarkerMember → List Lexeme
  | .gizmo ⟨_, none⟩ => [.openParen]
  | _ => []

/-- How the members of one kind of statement are spelled, and which fields they set. -/
structure FieldSyntax (α : Type) where
  lexemes : α → List Lexeme
  field? : α → Option Keyword
  /-- What would still belong to a member that sets a field if it came next. -/
  goesOn : α → List Lexeme

/-- The fields of an action. -/
def ActionMember.fields : FieldSyntax ActionMember :=
  ⟨ActionMember.lexemes, ActionMember.field?, fun _ => []⟩

/-- The fields of a marker. -/
def MarkerMember.fields : FieldSyntax MarkerMember :=
  ⟨MarkerMember.lexemes, MarkerMember.field?, MarkerMember.goesOn⟩

/-- The tokens behind an opening brace spell members, and then, at `p`, one that sets the field `k`
again. -/
def FieldSyntax.RepeatsAt {α : Type} (x : FieldSyntax α) (ts : List Token) (k : Keyword)
    (p : Position) : Prop :=
  ∃ body members value m after, ts = body ++ ⟨.keyword k, p⟩ :: (value ++ after) ∧
    Spells x.lexemes body members ∧ .keyword k :: value.map Located.value = x.lexemes m ∧
    x.field? m = some k ∧ (∃ m' ∈ members, x.field? m'.value = some k) ∧
    ∀ l ∈ x.goesOn m, NotAt l after

/-- The tokens behind the keyword of a statement spell its head and the beginning of its body, which
sets the field `k` again at a place. Nothing is asked of what follows. -/
inductive RepeatsAfter : StatementKind → List Token → Keyword → Position → Prop
  | action {head body : List Token} {p q : Position} {first : String} {others : List String}
      {k : Keyword} :
      head.map Located.value = typeIdLexemes first others → ActionMember.fields.RepeatsAt body k q →
      RepeatsAfter .action (head ++ ⟨.openBrace, p⟩ :: body) k q
  | marker {body : List Token} {p q r : Position} {name : String} {k : Keyword} :
      MarkerMember.fields.RepeatsAt body k r →
      RepeatsAfter .marker (⟨.ident name, p⟩ :: ⟨.openBrace, q⟩ :: body) k r

/-- One of the statements that begin somewhere in the tokens, whatever becomes of it, sets the field
`k` again at `p`. -/
def RepeatsField (tokens : List Token) (k : Keyword) (p : Position) : Prop :=
  ∃ before kind q after, tokens = before ++ ⟨.keyword (StatementKind.keyword kind), q⟩ :: after ∧
    RepeatsAfter kind after k p

/-! ### Members are read as they are spelled -/

/-- The members of the grammar that set a field are read whatever follows them, unless it belongs to
them. -/
structure MemberGrammar.ReadsFields {α : Type} (g : MemberGrammar α) (x : FieldSyntax α)
    (continues : List Lexeme) : Prop where
  spelling : g.Spelling x.lexemes continues
  fresh : ∀ {m k}, x.field? m = some k → .keyword k ∉ continues
  head : ∀ {m k}, x.field? m = some k → (x.lexemes m).head? = some (.keyword k)
  notAt : ∀ {k read ts m rest}, g.after? k = some read → read ts = .ok m rest →
    ∀ l ∈ x.goesOn m, NotAt l rest
  complete : ∀ {k used m}, .keyword k :: used.map Located.value = x.lexemes m →
    x.field? m = some k → ∃ read, g.after? k = some read ∧
      ∀ rest, (∀ l ∈ x.goesOn m, NotAt l rest) → read (used ++ rest) = .ok m rest

/-- The fields of an action are set by its members, each begun by the keyword of its field. -/
theorem ActionMember.readsFields :
    ActionMember.grammar.ReadsFields ActionMember.fields ActionMember.continuations where
  spelling := ActionMember.grammar_spelling
  fresh {m k} h := by cases m <;> cases h <;> decide
  head {m k} h := by cases m <;> cases h <;> rfl
  notAt _ _ := List.forall_mem_nil _
  complete {k used m} hused h := by
    have hvalue : used.map Located.value = (ActionMember.lexemes m).tail := congrArg List.tail hused
    cases m with
    | displayName text | category text | description text =>
        cases h
        obtain ⟨q, ts, rfl, hts⟩ := exists_cons_of_map_value hvalue
        obtain rfl : ts = [] := by simpa using hts
        exact ⟨_, rfl, fun rest _ => rfl⟩
    | themeColor c =>
        cases h
        obtain ⟨q, ts₁, rfl, h₁⟩ := exists_cons_of_map_value hvalue
        obtain ⟨r, ts₂, rfl, h₂⟩ := exists_cons_of_map_value h₁
        obtain ⟨s, ts₃, rfl, h₃⟩ := exists_cons_of_map_value h₂
        obtain rfl : ts₃ = [] := by simpa using h₃
        exact ⟨_, rfl, fun rest _ => rfl⟩
    | duration kind =>
        cases h
        obtain ⟨q, ts, rfl, hts⟩ := exists_cons_of_map_value hvalue
        obtain rfl : ts = [] := by simpa using hts
        refine ⟨_, rfl, fun rest _ => ?_⟩
        cases kind <;> rfl
    | dataPort type name value options => cases h
    | flowPort name options => cases h

/-- A gizmo is left without a parameter only where none begins. -/
theorem readParameter_eq_ok_none {ts rest : List Token} (h : readParameter ts = .ok none rest) :
    NotAt .openParen rest := by
  unfold readParameter at h
  split at h
  · obtain ⟨n, us, -, h⟩ := Reading.of_andThen_eq_ok h
    obtain ⟨_, -, hsome⟩ := Reading.of_map_eq_ok h
    cases hsome
  · next hts =>
    cases h
    intro t ht heq
    obtain ⟨us, rfl⟩ := List.head?_eq_some_iff.mp ht
    exact hts t.position us (by rw [← heq])

/-- So are the fields of a marker. -/
theorem MarkerMember.readsFields :
    MarkerMember.grammar.ReadsFields MarkerMember.fields MarkerMember.continuations where
  spelling := MarkerMember.grammar_spelling
  fresh {m k} h := by cases m <;> cases h <;> decide
  head {m k} h := by cases m <;> cases h <;> rfl
  notAt {k read ts m rest} hk hread := by
    obtain text | ⟨shape, _ | n⟩ := m
    · exact List.forall_mem_nil _
    · change MarkerMember.after? k = some read at hk
      cases k <;> cases hk
      · obtain ⟨text, -, hlabel⟩ := Reading.of_map_eq_ok hread
        cases hlabel
      · obtain ⟨g, hg, hgizmo⟩ := Reading.of_map_eq_ok hread
        cases hgizmo
        obtain ⟨shape', us, -, hg⟩ := Reading.of_andThen_eq_ok hg
        obtain ⟨parameter, hparameter, heq⟩ := Reading.of_map_eq_ok hg
        cases heq
        exact List.forall_mem_singleton.mpr (readParameter_eq_ok_none hparameter)
    · exact List.forall_mem_nil _
  complete {k used m} hused h := by
    have hvalue : used.map Located.value = (MarkerMember.lexemes m).tail := congrArg List.tail hused
    cases m with
    | label text =>
        cases h
        obtain ⟨q, ts, rfl, hts⟩ := exists_cons_of_map_value hvalue
        obtain rfl : ts = [] := by simpa using hts
        exact ⟨_, rfl, fun rest _ => rfl⟩
    | gizmo g =>
        cases h
        obtain ⟨q, us, rfl, hus⟩ := exists_cons_of_map_value hvalue
        refine ⟨_, rfl, fun rest hrest => ?_⟩
        have hshape : GizmoShape.read (⟨g.shape.lexeme, q⟩ :: (us ++ rest)) =
            .ok g.shape (us ++ rest) := (GizmoShape.read_readsOne _ _ _).mpr ⟨q, rfl⟩
        have hparameter : readParameter (us ++ rest) = .ok g.parameter rest := by
          refine readParameter_complete hus fun hnone => hrest _ ?_
          obtain ⟨shape, parameter⟩ := g
          cases hnone
          exact List.mem_singleton.mpr rfl
        simp only [List.cons_append, Gizmo.read, hshape, Reading.map, Reading.andThen, hparameter]

/-! ### Bodies -/

namespace Body

variable {α : Type} {g : MemberGrammar α} {x : FieldSyntax α} {continues : List Lexeme}
  {owner : Owner}

/-- Each member of a body is spelled behind the members before it. -/
theorem exists_spelled_of_members (hg : g.ReadsFields x continues) {ts : List Token}
    {before after : List (Located α)} {m : Located α}
    (h : (Body.read g owner ts).members = before ++ m :: after) :
    ∃ body k value rest, ts = body ++ ⟨.keyword k, m.position⟩ :: (value ++ rest) ∧
      Spells x.lexemes body before ∧ .keyword k :: value.map Located.value = x.lexemes m.value ∧
      ∀ l ∈ x.goesOn m.value, NotAt l rest := by
  fun_induction Body.read g owner ts generalizing before with
  | case4 k p ts read hk member rest hread body =>
      rename_i ih
      obtain ⟨used, rfl, hused⟩ := hg.spelling.sound hk hread
      cases before with
      | nil =>
          obtain ⟨rfl, -⟩ := List.cons.inj h
          exact ⟨[], k, used, rest, rfl, .nil, hused, hg.notAt hk hread⟩
      | cons b before =>
          obtain ⟨rfl, hothers⟩ := List.cons.inj h
          obtain ⟨us, k', value, rest', rfl, hspells, hm⟩ := ih hothers
          exact ⟨⟨.keyword k, p⟩ :: used ++ us, k', value, rest', by simp, .cons hused hspells, hm⟩
  | _ => exact absurd h.symm (by simp)

/-- **A field is read behind members that are spelled.** -/
theorem exists_members_of_spelled (hg : g.ReadsFields x continues) (owner : Owner)
    {body value after : List Token} {members : List (Located α)} {k : Keyword} (p : Position)
    {m : α} (hbody : Spells x.lexemes body members)
    (hm : .keyword k :: value.map Located.value = x.lexemes m) (hfield : x.field? m = some k)
    (hafter : ∀ l ∈ x.goesOn m, NotAt l after) :
    ∃ others, (Body.read g owner (body ++ ⟨.keyword k, p⟩ :: (value ++ after))).members =
      members ++ ⟨m, p⟩ :: others := by
  obtain ⟨read, hk, hread⟩ := hg.complete hm hfield
  have hnext : ∀ l ∈ continues, NotAt l (⟨.keyword k, p⟩ :: (value ++ after)) := by
    intro l hl
    rw [notAt_cons]
    rintro rfl
    exact hg.fresh hfield hl
  rw [read_spelled_append hg.spelling hbody hnext, read_member hk (hread after hafter)]
  exact ⟨_, rfl⟩

/-- Members stand in the order of the tokens. -/
theorem positions_sublist (ts : List Token) :
    ((Body.read g owner ts).members.map Located.position).Sublist (ts.map Located.position) := by
  fun_induction Body.read g owner ts with
  | case4 k p ts read hk member rest hread body ih =>
      have hrest := ((g.leavesSuffix hk).of_eq_ok hread).sublist.map Located.position
      exact (ih.trans hrest).cons_cons p
  | _ => exact List.nil_sublist _

end Body

/-! ### Findings about repeats -/

/-- Whether the issue is a field that is set again. -/
def Issue.isRepeat : Issue → Bool
  | .repeatedField _ => true
  | _ => false

namespace Finding

/-- Whether the finding is about a field that is set again. -/
def isRepeat (f : Finding) : Bool := f.value.isRepeat

/-- A repeat is a warning. -/
theorem isRepeat_of_kind_ne {f : Finding} (h : f.value.kind ≠ .lint) : f.isRepeat = false := by
  obtain ⟨i, p⟩ := f
  cases i with
  | repeatedField k => exact absurd rfl h
  | _ => rfl

end Finding

/-- Findings none of which is about a repeat. -/
theorem filter_isRepeat {fs : List Finding} (h : ∀ f ∈ fs, f.isRepeat = false) :
    fs.filter Finding.isRepeat = [] :=
  List.filter_eq_nil_iff.mpr fun f hf => by simp [h f hf]

/-- Nothing is left out where there are no repeats. -/
theorem filter_not_isRepeat {fs : List Finding} (h : ∀ f ∈ fs, f.isRepeat = false) :
    (fs.filter fun f => !f.isRepeat) = fs :=
  List.filter_eq_self.mpr fun f hf => by simp [h f hf]

section Gathering

variable {α σ : Type} {field? : α → Option Keyword} {add add' : σ → Located α → σ × List Finding}
  {isSet : σ → Keyword → Bool}

/-- What is gathered from members includes which fields are set, and a field that is set again is
found. -/
structure FindsRepeats (field? : α → Option Keyword) (add : σ → Located α → σ × List Finding)
    (isSet : σ → Keyword → Bool) : Prop where
  isSet_add : ∀ x m k, isSet (add x m).1 k = (decide (field? m.value = some k) || isSet x k)
  repeats_add : ∀ x m, (add x m).2.filter Finding.isRepeat =
    ((field? m.value).filter (isSet x)).toList.map fun k => ⟨.repeatedField k, m.position⟩

/-- A member finds a repeat exactly if it sets a field that is set. -/
theorem FindsRepeats.mem_repeats_add (hadd : FindsRepeats field? add isSet) {x : σ} {m : Located α}
    {f : Finding} :
    f ∈ (add x m).2.filter Finding.isRepeat ↔
      ∃ k, field? m.value = some k ∧ isSet x k = true ∧ f = ⟨.repeatedField k, m.position⟩ := by
  rw [hadd.repeats_add]
  simp only [List.mem_map, Option.mem_toList, Option.filter_eq_some_iff]
  constructor
  · rintro ⟨k, ⟨hk, hset⟩, rfl⟩
    exact ⟨k, hk, hset, rfl⟩
  · rintro ⟨k, hk, hset, rfl⟩
    exact ⟨k, ⟨hk, hset⟩, rfl⟩

/-- **Members find a repeat exactly where one of them sets a field that is set**, be it by an
earlier one of them. -/
theorem FindsRepeats.mem_repeats_gather (hadd : FindsRepeats field? add isSet) {x : σ}
    {ms : List (Located α)} {f : Finding} :
    f ∈ (gather add x ms).2.filter Finding.isRepeat ↔
      ∃ before m after k, ms = before ++ m :: after ∧ field? m.value = some k ∧
        (isSet x k = true ∨ ∃ m' ∈ before, field? m'.value = some k) ∧
        f = ⟨.repeatedField k, m.position⟩ := by
  induction ms generalizing x with
  | nil => simp [gather]
  | cons m ms ih =>
      rw [gather, List.filter_append, List.mem_append, hadd.mem_repeats_add, ih]
      constructor
      · rintro (⟨k, hk, hset, rfl⟩ | ⟨before, m', after, k, rfl, hk, hset, rfl⟩)
        · exact ⟨[], m, ms, k, rfl, hk, .inl hset, rfl⟩
        · refine ⟨m :: before, m', after, k, rfl, hk, ?_, rfl⟩
          rw [hadd.isSet_add, Bool.or_eq_true, decide_eq_true_iff] at hset
          obtain (hm | hset) | ⟨m'', hmem, hm''⟩ := hset
          · exact .inr ⟨m, List.mem_cons_self, hm⟩
          · exact .inl hset
          · exact .inr ⟨m'', List.mem_cons_of_mem m hmem, hm''⟩
      · rintro ⟨before, m', after, k, hms, hk, hset, rfl⟩
        cases before with
        | nil =>
            obtain ⟨rfl, rfl⟩ := List.cons.inj hms
            obtain hset | ⟨m'', hmem, -⟩ := hset
            · exact .inl ⟨k, hk, hset, rfl⟩
            · cases hmem
        | cons b before =>
            obtain ⟨rfl, rfl⟩ := List.cons.inj hms
            refine .inr ⟨before, m', after, k, rfl, hk, ?_, rfl⟩
            rw [hadd.isSet_add, Bool.or_eq_true, decide_eq_true_iff]
            obtain hset | ⟨m'', hmem, hm''⟩ := hset
            · exact .inl (.inr hset)
            · obtain rfl | hmem := List.mem_cons.mp hmem
              · exact .inl (.inl hm'')
              · exact .inr ⟨m'', hmem, hm''⟩

/-- Each member finds at most one repeat, at its own place. -/
theorem FindsRepeats.positions_sublist (hadd : FindsRepeats field? add isSet) (x : σ)
    (ms : List (Located α)) :
    (((gather add x ms).2.filter Finding.isRepeat).map Located.position).Sublist
      (ms.map Located.position) := by
  induction ms generalizing x with
  | nil => exact .slnil
  | cons m ms ih =>
      rw [gather, List.filter_append, List.map_append, hadd.repeats_add]
      cases (field? m.value).filter (isSet x) with
      | none => exact (ih _).cons _
      | some k => exact (ih _).cons_cons _

/-- Gathering with findings about repeats, and taking these away, is gathering without them. -/
theorem filter_gather
    (h : ∀ x m, (add x m).1 = (add' x m).1 ∧
      ((add x m).2.filter fun f => !f.isRepeat) = (add' x m).2) (x : σ) (ms : List (Located α)) :
    (gather add x ms).1 = (gather add' x ms).1 ∧
      ((gather add x ms).2.filter fun f => !f.isRepeat) = (gather add' x ms).2 := by
  induction ms generalizing x with
  | nil => exact ⟨rfl, rfl⟩
  | cons m ms ih =>
      obtain ⟨hfirst, hfindings⟩ := h x m
      obtain ⟨hothers, hmore⟩ := ih (add' x m).1
      simp only [gather, List.filter_append, hfirst, hfindings, hothers, hmore, and_self]

end Gathering

/-! ### Statements -/

/-- Whether the field of an action is set. -/
def ActionDecl.isSet (a : ActionDecl) : Keyword → Bool
  | .displayName => a.metadata.displayName.isSome
  | .category => a.metadata.category.isSome
  | .description => a.metadata.description.isSome
  | .themeColor => a.metadata.themeColor.isSome
  | .duration => a.metadata.duration.isSome
  | _ => false

/-- Whether the field of a marker is set. -/
def MarkerDecl.isSet (d : MarkerDecl) : Keyword → Bool
  | .label => d.label.isSome
  | .gizmo => d.gizmo.isSome
  | _ => false

/-- With the option, a field is found if it was set. -/
theorem filter_repeatFinding (wasSet : Bool) (k : Keyword) (p : Position) :
    (repeatFinding true wasSet k p).filter Finding.isRepeat =
      ((some k).filter fun _ => wasSet).toList.map fun k => ⟨.repeatedField k, p⟩ := by
  cases wasSet <;> rfl

/-- Without its repeats, a field gives rise to what it does without the option. -/
theorem filter_not_repeatFinding (warn wasSet : Bool) (k : Keyword) (p : Position) :
    ((repeatFinding warn wasSet k p).filter fun f => !f.isRepeat) =
      repeatFinding false wasSet k p := by
  cases warn <;> cases wasSet <;> rfl

namespace ActionDecl

/-- Ports find no repeats. -/
theorem isRepeat_addPort (a : ActionDecl) (port : Port) (p : Position) :
    ∀ f ∈ (a.addPort port p).2, f.isRepeat = false := by
  rw [addPort]
  split
  · exact List.forall_mem_singleton.mpr rfl
  · exact List.forall_mem_nil _

/-- Bounds of a flow port are no repeat. -/
theorem isRepeat_flowBoundsFinding (name : String) (o : PortOptions) (p : Position) :
    ∀ f ∈ flowBoundsFinding name o p, f.isRepeat = false := by
  rw [flowBoundsFinding]
  split
  · exact List.forall_mem_singleton.mpr rfl
  · exact List.forall_mem_nil _

/-- Repeats are found among the members of an action. -/
theorem findsRepeats : FindsRepeats ActionMember.field? (addMember true) isSet where
  isSet_add a m k := by
    obtain ⟨m, p⟩ := m
    have hport (port : Port) : isSet (a.addPort port p).1 k = isSet a k := by
      rw [addPort_fst]
      cases k <;> rfl
    cases m with
    | dataPort type name value o => exact hport _
    | flowPort name o => exact hport _
    | _ => cases k <;> rfl
  repeats_add a m := by
    obtain ⟨m, p⟩ := m
    cases m with
    | displayName text => exact filter_repeatFinding _ _ _
    | category text => exact filter_repeatFinding _ _ _
    | description text => exact filter_repeatFinding _ _ _
    | themeColor color => exact filter_repeatFinding _ _ _
    | duration kind => exact filter_repeatFinding _ _ _
    | dataPort type name value o => exact filter_isRepeat (isRepeat_addPort a _ p)
    | flowPort name o =>
        exact filter_isRepeat (List.forall_mem_append.mpr
          ⟨isRepeat_flowBoundsFinding name o p, isRepeat_addPort a _ p⟩)

/-- The option adds findings about repeats, and nothing else. -/
theorem filter_addMember (warn : Bool) (a : ActionDecl) (m : Located ActionMember) :
    (a.addMember warn m).1 = (a.addMember false m).1 ∧
      ((a.addMember warn m).2.filter fun f => !f.isRepeat) = (a.addMember false m).2 := by
  refine ⟨(addMember_fst a m).trans (addMember_fst a m).symm, ?_⟩
  obtain ⟨m, p⟩ := m
  cases m with
  | displayName text => exact filter_not_repeatFinding _ _ _ _
  | category text => exact filter_not_repeatFinding _ _ _ _
  | description text => exact filter_not_repeatFinding _ _ _ _
  | themeColor color => exact filter_not_repeatFinding _ _ _ _
  | duration kind => exact filter_not_repeatFinding _ _ _ _
  | dataPort type name value o => exact filter_not_isRepeat (isRepeat_addPort a _ p)
  | flowPort name o =>
      exact filter_not_isRepeat (List.forall_mem_append.mpr
        ⟨isRepeat_flowBoundsFinding name o p, isRepeat_addPort a _ p⟩)

end ActionDecl

namespace MarkerDecl

/-- Repeats are found among the members of a marker. -/
theorem findsRepeats : FindsRepeats MarkerMember.field? (addMember true) isSet where
  isSet_add d m k := by
    obtain ⟨m, p⟩ := m
    cases m <;> cases k <;> rfl
  repeats_add d m := by
    obtain ⟨m, p⟩ := m
    cases m <;> exact filter_repeatFinding _ _ _

/-- The option does not change what a member of a marker does, findings about repeats apart. -/
theorem filter_addMember (warn : Bool) (d : MarkerDecl) (m : Located MarkerMember) :
    (d.addMember warn m).1 = (d.addMember false m).1 ∧
      ((d.addMember warn m).2.filter fun f => !f.isRepeat) = (d.addMember false m).2 := by
  obtain ⟨m, p⟩ := m
  cases m <;> exact ⟨rfl, filter_not_repeatFinding _ _ _ _⟩

end MarkerDecl

/-- The statement that was read, as far as it was read. -/
def Attempt.statement? : Attempt → Option Statement
  | .complete st _ => some st
  | .broken st _ => st

/-- Tokens behind a statement are not read with it. -/
theorem Attempt.statement?_before (tail : List Token) (a : Attempt) :
    (a.before tail).statement? = a.statement? := by
  cases a <;> rfl

namespace Statement

/-- The findings of a statement about fields that are set again. -/
def repeats (st : Statement) (line : Nat) : List Finding :=
  (st.declare true line).2.filter Finding.isRepeat

/-- The option changes nothing in a statement but the findings about repeats. -/
theorem filter_declare (warn : Bool) (line : Nat) (st : Statement) :
    (st.declare warn line).1 = (st.declare false line).1 ∧
      ((st.declare warn line).2.filter fun f => !f.isRepeat) = (st.declare false line).2 := by
  cases st with
  | action typeId ms =>
      obtain ⟨hfirst, hfindings⟩ :=
        filter_gather (ActionDecl.filter_addMember warn) ⟨typeId, {}, [], line⟩ ms
      rw [declare_action, declare_action, hfirst]
      exact ⟨rfl, hfindings⟩
  | marker name ms =>
      obtain ⟨hfirst, hfindings⟩ :=
        filter_gather (MarkerDecl.filter_addMember warn) ⟨name, none, none, line⟩ ms
      rw [declare_marker, declare_marker, hfirst]
      exact ⟨rfl, hfindings⟩

end Statement

section Bodies

variable {α : Type} {g : MemberGrammar α} {x : FieldSyntax α} {continues : List Lexeme}

/-- **A body finds a repeat exactly where it sets a field again.** -/
theorem mem_repeats_body_iff {σ : Type} {add : σ → Located α → σ × List Finding}
    {isSet : σ → Keyword → Bool} (hg : g.ReadsFields x continues)
    (hadd : FindsRepeats x.field? add isSet) {start : σ} (hstart : ∀ k, isSet start k = false)
    (owner : Owner) (ts : List Token) (f : Finding) :
    f ∈ (gather add start (Body.read g owner ts).members).2.filter Finding.isRepeat ↔
      ∃ k p, x.RepeatsAt ts k p ∧ f = ⟨.repeatedField k, p⟩ := by
  rw [hadd.mem_repeats_gather]
  constructor
  · rintro ⟨before, m, after, k, hms, hk, hset, rfl⟩
    obtain hset | hearlier := hset
    · rw [hstart] at hset
      cases hset
    · obtain ⟨body, k', value, rest, hts, hbody, hm, hrest⟩ :=
        Body.exists_spelled_of_members hg hms
      -- The keyword in front of the member is that of its field.
      have hhead := hg.head hk
      rw [← hm, List.head?_cons] at hhead
      cases hhead
      exact ⟨k, m.position,
        ⟨body, before, value, m.value, rest, hts, hbody, hm, hk, hearlier, hrest⟩, rfl⟩
  · rintro ⟨k, p, ⟨body, members, value, m, after, rfl, hbody, hm, hk, hearlier, hafter⟩, rfl⟩
    obtain ⟨others, hmembers⟩ := Body.exists_members_of_spelled hg owner p hbody hm hk hafter
    exact ⟨members, ⟨m, p⟩, others, k, hmembers, hk, .inr hearlier, rfl⟩

end Bodies

namespace Attempt

/-- The findings about fields that are set again in what was read of a statement. -/
def repeats (line : Nat) (a : Attempt) : List Finding := a.statement?.elim [] (·.repeats line)

/-- Once there is a body, there is a statement, be it broken or not. -/
theorem statement?_ofBody (st : Statement) (outcome : Except Fault (List Token)) :
    (ofBody st outcome).statement? = some st := by
  cases outcome <;> rfl

end Attempt

/-- An action finds the repeats of its body. -/
theorem mem_repeats_readAction_iff {ts rest : List Token} {typeId : TypeId}
    (h : readActionHead ts = .ok typeId rest) (line : Nat) (f : Finding) :
    f ∈ (readStatement .action ts).repeats line ↔
      ∃ k p, ActionMember.fields.RepeatsAt rest k p ∧ f = ⟨.repeatedField k, p⟩ := by
  rw [readStatement, readAction, h, Attempt.repeats, Attempt.statement?_ofBody, Option.elim_some,
    Statement.repeats, Statement.declare_action]
  exact mem_repeats_body_iff ActionMember.readsFields ActionDecl.findsRepeats
    (fun k => by cases k <;> rfl) _ rest f

/-- A marker finds the repeats of its body. -/
theorem mem_repeats_readMarker_iff {ts rest : List Token} {name : String}
    (h : readMarkerHead ts = .ok name rest) (line : Nat) (f : Finding) :
    f ∈ (readStatement .marker ts).repeats line ↔
      ∃ k p, MarkerMember.fields.RepeatsAt rest k p ∧ f = ⟨.repeatedField k, p⟩ := by
  rw [readStatement, readMarker, h, Attempt.repeats, Attempt.statement?_ofBody, Option.elim_some,
    Statement.repeats, Statement.declare_marker]
  exact mem_repeats_body_iff MarkerMember.readsFields MarkerDecl.findsRepeats
    (fun k => by cases k <;> rfl) _ rest f

/-- **A statement finds a repeat exactly where it sets a field again**, even if it is broken
later. -/
theorem mem_repeats_readStatement_iff (kind : StatementKind) (ts : List Token) (line : Nat)
    (f : Finding) :
    f ∈ (readStatement kind ts).repeats line ↔
      ∃ k p, RepeatsAfter kind ts k p ∧ f = ⟨.repeatedField k, p⟩ := by
  constructor
  · intro hf
    cases kind with
    | action =>
        cases hhead : readActionHead ts with
        | fault fault =>
            rw [readStatement, readAction, hhead] at hf
            cases hf
        | ok typeId rest =>
            obtain ⟨k, p, hrepeats, rfl⟩ := (mem_repeats_readAction_iff hhead line f).mp hf
            obtain ⟨head, q, first, others, rfl, -, hid⟩ := readActionHead_sound hhead
            exact ⟨k, p, .action hid hrepeats, rfl⟩
    | marker =>
        cases hhead : readMarkerHead ts with
        | fault fault =>
            rw [readStatement, readMarker, hhead] at hf
            cases hf
        | ok name rest =>
            obtain ⟨k, p, hrepeats, rfl⟩ := (mem_repeats_readMarker_iff hhead line f).mp hf
            obtain ⟨q, r, rfl⟩ := readMarkerHead_sound hhead
            exact ⟨k, p, .marker hrepeats, rfl⟩
  · rintro ⟨k, p, hrepeats, rfl⟩
    cases hrepeats with
    | action hid hrepeats =>
        exact (mem_repeats_readAction_iff (readActionHead_complete hid) line _).mpr
          ⟨k, p, hrepeats, rfl⟩
    | marker hrepeats =>
        exact (mem_repeats_readMarker_iff rfl line _).mpr ⟨k, p, hrepeats, rfl⟩

/-- The repeats of a statement stand in the order of its tokens. -/
theorem positions_repeats_sublist (kind : StatementKind) (ts : List Token) (line : Nat) :
    (((readStatement kind ts).repeats line).map Located.position).Sublist
      (ts.map Located.position) := by
  cases kind with
  | action =>
      have hhead := readActionHead_stops.left_suffix ts
      rw [readStatement, readAction]
      cases hread : readActionHead ts with
      | fault f => exact List.nil_sublist _
      | ok typeId rest =>
          rw [hread] at hhead
          rw [Attempt.repeats, Attempt.statement?_ofBody, Option.elim_some, Statement.repeats,
            Statement.declare_action]
          exact (ActionDecl.findsRepeats.positions_sublist _ _).trans
            ((Body.positions_sublist rest).trans (hhead.sublist.map _))
  | marker =>
      have hhead := readMarkerHead_stops.left_suffix ts
      rw [readStatement, readMarker]
      cases hread : readMarkerHead ts with
      | fault f => exact List.nil_sublist _
      | ok name rest =>
          rw [hread] at hhead
          rw [Attempt.repeats, Attempt.statement?_ofBody, Option.elim_some, Statement.repeats,
            Statement.declare_marker]
          exact (MarkerDecl.findsRepeats.positions_sublist _ _).trans
            ((Body.positions_sublist rest).trans (hhead.sublist.map _))

/-! ### Sections -/

namespace Section

variable {stop : Token} {warn : Bool}

/-- A section stands somewhere in the tokens, up to the next statement. -/
theorem exists_of_mem_split {ts : List Token} {s : Section} (hs : s ∈ (split stop ts).2) :
    ∃ before tail, ts = before ++ s.head :: (s.body ++ tail) ∧ AtStatement tail := by
  induction ts with
  | nil => cases hs
  | cons t ts ih =>
      rw [split] at hs
      cases hkind : kind? t.value with
      | none =>
          rw [hkind] at hs
          obtain ⟨before, tail, hts, htail⟩ := ih hs
          exact ⟨t :: before, tail, by rw [hts, List.cons_append], htail⟩
      | some kind =>
          rw [hkind] at hs
          obtain rfl | hs := List.mem_cons.mp hs
          · obtain ⟨v, p⟩ := t
            obtain rfl := eq_keyword_of_kind? hkind
            exact ⟨[], _, congrArg _ (split_append stop ts).symm, atStatement_tokens _⟩
          · obtain ⟨before, tail, hts, htail⟩ := ih hs
            exact ⟨t :: before, tail, by rw [hts, List.cons_append], htail⟩

/-- Wherever a statement keyword stands, a section begins. -/
theorem exists_mem_split (stop : Token) (before : List Token) (kind : StatementKind) (p : Position)
    (after : List Token) :
    ∃ s ∈ (split stop (before ++ ⟨.keyword kind.keyword, p⟩ :: after)).2, s.kind = kind ∧
      ∃ tail, after = s.body ++ tail ∧ AtStatement tail := by
  have hself : kind? (.keyword kind.keyword) = some kind := by cases kind <;> rfl
  induction before with
  | nil =>
      rw [List.nil_append, split, hself]
      exact ⟨_, List.mem_cons_self, rfl, _, (split_append stop after).symm, atStatement_tokens _⟩
  | cons t before ih =>
      obtain ⟨s, hs, hrest⟩ := ih
      refine ⟨s, ?_, hrest⟩
      rw [List.cons_append, split]
      cases kind? t.value with
      | none => exact hs
      | some _ => exact List.mem_cons_of_mem _ hs

/-- The findings of a section about fields that are set again. -/
def repeats (s : Section) : List Finding := (readStatement s.kind s.body).repeats s.position.line

/-- The findings of a section about repeats are those of what was read of it. -/
theorem filter_findings_outcome (s : Section) :
    (s.outcome true).findings.filter Finding.isRepeat = s.repeats := by
  rw [outcome, repeats, attempt_eq]
  cases readStatement s.kind s.body with
  | complete st rest => rfl
  | broken st fault => cases st <;> rfl

/-- **A section finds a repeat exactly where its statement sets a field again**, whatever
follows. -/
theorem mem_repeats_iff (s : Section) {tail : List Token} (htail : AtBoundary tail) (f : Finding) :
    f ∈ s.repeats ↔
      ∃ k p, RepeatsAfter s.kind (s.body ++ tail) k p ∧ f = ⟨.repeatedField k, p⟩ := by
  rw [← mem_repeats_readStatement_iff s.kind _ s.position.line, readStatement_append s.kind _ htail,
    Attempt.repeats, Attempt.statement?_before]
  rfl

/-- The repeats of sections stand in the order of their tokens. -/
theorem positions_repeats_sublist (ss : List Section) :
    ((ss.flatMap repeats).map Located.position).Sublist
      ((ss.flatMap fun s => s.head :: s.body).map Located.position) := by
  induction ss with
  | nil => exact .slnil
  | cons s ss ih =>
      rw [List.flatMap_cons, List.flatMap_cons, List.map_append, List.map_append, List.map_cons]
      exact ((Defsheet.positions_repeats_sublist s.kind s.body _).cons _).append ih

end Section

end Defsheet

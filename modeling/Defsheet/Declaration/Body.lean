import Defsheet.Declaration.Member

/-!
# The body of a statement

Members are read one after the other up to the closing brace. A body that breaks off keeps the
members before the fault, because their own findings are still reported.

What a reader leaves is the end of what it was given (`LeavesSuffix`), so each member shortens what
is left, and reading a body ends.

## Main definitions

* `MemberGrammar` says how the members of one kind of statement are read.
* `Body.read` reads a body.
-/

namespace Defsheet

/-! ### What readers leave -/

/-- The tokens that are left behind what was read, or at the fault. -/
def Reading.left {α : Type} : Reading α → List Token
  | ok _ rest => rest
  | fault f => f.rest

/-- Whatever the reader finds, it leaves the end of what it was given. -/
def LeavesSuffix {α : Type} (read : List Token → Reading α) : Prop :=
  ∀ ts, (read ts).left <:+ ts

namespace Reading

/-- A reading of two parts succeeds when both parts do. -/
theorem of_andThen_eq_ok {α β : Type} {r : Reading α} {next : α → List Token → Reading β} {b : β}
    {rest : List Token} (h : r.andThen next = .ok b rest) :
    ∃ a ts, r = .ok a ts ∧ next a ts = .ok b rest := by
  cases r with
  | ok a ts => exact ⟨a, ts, rfl, h⟩
  | fault f => cases h

/-- A changed reading succeeds when the reading itself does. -/
theorem of_map_eq_ok {α β : Type} {r : Reading α} {wrap : α → β} {b : β} {rest : List Token}
    (h : r.map wrap = .ok b rest) : ∃ a, r = .ok a rest ∧ wrap a = b := by
  obtain ⟨a, ts, hr, h⟩ := of_andThen_eq_ok h
  cases h
  exact ⟨a, hr, rfl⟩

end Reading

namespace LeavesSuffix

variable {α β : Type} {read : List Token → Reading α}

/-- What is left behind something that was read. -/
theorem of_eq_ok (hread : LeavesSuffix read) {ts rest : List Token} {a : α}
    (h : read ts = .ok a rest) : rest <:+ ts := by
  have hleft := hread ts
  rwa [h] at hleft

/-- Two parts that are read one after the other. -/
theorem andThen {next : α → List Token → Reading β} (hread : LeavesSuffix read)
    (hnext : ∀ a, LeavesSuffix (next a)) : LeavesSuffix fun ts => (read ts).andThen next := by
  intro ts
  have hleft := hread ts
  dsimp only
  cases hr : read ts with
  | ok a rest =>
      rw [hr] at hleft
      exact (hnext a rest).trans hleft
  | fault f =>
      rw [hr] at hleft
      exact hleft

/-- A reader that takes nothing. -/
theorem ok (a : α) : LeavesSuffix fun ts => .ok a ts := fun ts => List.suffix_refl ts

/-- A part that is wrapped up leaves what the part leaves. -/
theorem map {f : α → β} (hread : LeavesSuffix read) : LeavesSuffix fun ts => (read ts).map f :=
  hread.andThen fun a => .ok (f a)

/-- What is left behind a token and what follows it. -/
theorem cons (hread : LeavesSuffix read) (t : Token) (ts : List Token) :
    (read ts).left <:+ t :: ts :=
  (hread ts).trans (List.suffix_cons t ts)

end LeavesSuffix

/-- Reading one token leaves those after it. -/
theorem readOne_leavesSuffix {α : Type} (what : Expectation) (value? : Lexeme → Option α) :
    LeavesSuffix (readOne what value?) := by
  intro ts
  cases ts with
  | nil => exact List.suffix_refl []
  | cons t ts =>
      rw [readOne]
      split
      · exact List.suffix_cons t ts
      · exact List.suffix_refl _

/-- A part that may be missing leaves all tokens in that case. -/
theorem readOptional_leavesSuffix {α : Type} (k : Keyword) {read : List Token → Reading α}
    (hread : LeavesSuffix read) : LeavesSuffix (readOptional k read) := by
  intro ts
  fun_cases readOptional k read ts with
  | case1 p ts => exact hread.map.cons _ ts
  | case2 => exact List.suffix_refl _
  | case3 ts => exact List.suffix_refl _

/-- The options of a port are three parts that may be missing. -/
theorem PortOptions.read_leavesSuffix : LeavesSuffix PortOptions.read :=
  (readOptional_leavesSuffix _ (readOne_leavesSuffix _ _)).andThen fun _ =>
    (readOptional_leavesSuffix _ (readOne_leavesSuffix _ _)).andThen fun _ =>
      (readOptional_leavesSuffix _ (readOne_leavesSuffix _ _)).map

/-- A default is an equals sign and a literal, or nothing. -/
theorem readDefault_leavesSuffix : LeavesSuffix readDefault := by
  intro ts
  fun_cases readDefault ts with
  | case1 p ts => exact (readOne_leavesSuffix _ _).map.cons _ ts
  | case2 ts => exact List.suffix_refl ts

/-- A color is three numbers. -/
theorem Color.read_leavesSuffix : LeavesSuffix Color.read :=
  (readOne_leavesSuffix _ _).andThen fun _ =>
    (readOne_leavesSuffix _ _).andThen fun _ => (readOne_leavesSuffix _ _).map

/-- A data port is a type, a name, a default and options. -/
theorem readDataPort_leavesSuffix : LeavesSuffix readDataPort :=
  (readOne_leavesSuffix _ _).andThen fun _ => (readOne_leavesSuffix _ _).andThen fun _ =>
    readDefault_leavesSuffix.andThen fun _ => PortOptions.read_leavesSuffix.map

/-- A flow port is a name and options. -/
theorem readFlowPort_leavesSuffix : LeavesSuffix readFlowPort :=
  (readOne_leavesSuffix _ _).andThen fun _ => PortOptions.read_leavesSuffix.map

/-- A parameter is a number in parentheses, or nothing. -/
theorem readParameter_leavesSuffix : LeavesSuffix readParameter := by
  intro ts
  fun_cases readParameter ts with
  | case1 p ts =>
      have hnumber := (readOne_leavesSuffix .gizmoParameter Lexeme.number?).andThen fun n =>
        (readOne_leavesSuffix .closeParen (Lexeme.only? .closeParen)).map (f := fun () => some n)
      exact hnumber.cons _ ts
  | case2 ts => exact List.suffix_refl ts

/-- A gizmo is a shape and a parameter. -/
theorem Gizmo.read_leavesSuffix : LeavesSuffix Gizmo.read :=
  (readOne_leavesSuffix _ _).andThen fun _ => readParameter_leavesSuffix.map

/-! ### Bodies -/

/-- How the members of one kind of statement are read: the keyword that begins a member decides how
it goes on. -/
structure MemberGrammar (α : Type) where
  after? : Keyword → Option (List Token → Reading α)
  leavesSuffix : ∀ {k : Keyword} {read : List Token → Reading α},
    after? k = some read → LeavesSuffix read

/-- The members of an action. -/
def ActionMember.grammar : MemberGrammar ActionMember where
  after? := ActionMember.after?
  leavesSuffix := by
    intro k read h
    unfold ActionMember.after? at h
    split at h
    case h_8 => cases h
    all_goals cases h
    · exact (readOne_leavesSuffix _ _).map
    · exact (readOne_leavesSuffix _ _).map
    · exact (readOne_leavesSuffix _ _).map
    · exact Color.read_leavesSuffix.map
    · exact (readOne_leavesSuffix _ _).map
    · exact readDataPort_leavesSuffix
    · exact readFlowPort_leavesSuffix

/-- The members of a marker. -/
def MarkerMember.grammar : MemberGrammar MarkerMember where
  after? := MarkerMember.after?
  leavesSuffix := by
    intro k read h
    unfold MarkerMember.after? at h
    split at h
    case h_3 => cases h
    all_goals cases h
    · exact (readOne_leavesSuffix _ _).map
    · exact Gizmo.read_leavesSuffix.map

/-- What was read of a body: its members, each at the position of its keyword, and then either the
tokens after the closing brace or the fault that broke the body off. -/
structure Body (α : Type) where
  members : List (Located α)
  outcome : Except Fault (List Token)

/-- Reads the members of a statement up to its closing brace. -/
def Body.read {α : Type} (g : MemberGrammar α) (owner : Owner) : List Token → Body α
  | ⟨.closeBrace, _⟩ :: ts => ⟨[], .ok ts⟩
  | ⟨.keyword k, p⟩ :: ts =>
    match _hk : g.after? k with
    | none => ⟨[], .error ⟨.noMember owner, ⟨.keyword k, p⟩ :: ts⟩⟩
    | some read =>
      match _hread : read ts with
      | .fault f => ⟨[], .error f⟩
      | .ok member rest =>
        let body := Body.read g owner rest
        ⟨⟨member, p⟩ :: body.members, body.outcome⟩
  | ts => ⟨[], .error ⟨.noMember owner, ts⟩⟩
termination_by ts => ts.length
decreasing_by exact Nat.lt_succ_of_le ((g.leavesSuffix _hk).of_eq_ok _hread).length_le

end Defsheet

import Defsheet.Proofs.Recovery
import Mathlib.Data.List.TakeWhile
import Mathlib.Logic.Function.Iterate

/-!
# Reading a document step by step

`Outline.ofTokens` cuts the tokens of a document at the first end of file and at the statement
keywords before it reads anything. This module reads them without a cut. A `Progress` is a reading
in the middle of its work: it has a cursor in the whole list of tokens, which may go on behind an
end of file, and what it does next depends on its stage and on the tokens from the cursor on. One
step reads the head of a statement, one member or a closing brace, or it reports a fault and skips
to the next statement.

There are two places where a reading must never be. It has run past the last token, although it
looks at a token whenever it has to decide something; or it has taken a keyword for the beginning of
a member, and no member begins with it. Both are the stage `lost`, from which no step leads away.

A step moves the cursor forward or leaves the body of a statement, so that every reading comes to an
end. It ends at the first end of file with what `Outline.ofTokens` finds, which is shown along the
reading from left to right of `Outline.Reads`. Since the cursor never moves back, it has not passed
an end of file before.

## Main results

* `Progress.advances_step`, `Progress.isOver_iterate`: a step brings the reading forward, so every
  reading ends.
* `Progress.reaches_finished`: it ends at the end of file, with the outline of the document.
* `Progress.run_stops_at_end`: no reading of a document gets lost or passes an end of file.
-/

namespace Defsheet

/-! ### The machine -/

/-- What a reading is doing. -/
inductive Stage where
  /-- It is between statements. -/
  | between
  /-- It is among the members of an action. -/
  | action (a : ActionDecl)
  /-- It is among the members of a marker. -/
  | marker (m : MarkerDecl)
  /-- It has come to the end of file. -/
  | finished
  /-- It is where it must never be. -/
  | lost

/-- A reading in the middle of its work: its stage, the tokens from its cursor on, and what is known
of the document so far. -/
structure Progress where
  stage : Stage
  rest : List Token
  outline : Outline

/-- The outline with more findings. -/
def Outline.report (o : Outline) (fs : List Finding) : Outline := ⟨o.declarations, o.findings ++ fs⟩

/-- Skips to the next token that ends a statement. -/
def skipToBoundary (ts : List Token) : List Token := ts.dropWhile fun t => !t.value.endsStatement

/-- The keywords at which the members of an action are read. -/
def ActionMember.begins (k : Keyword) : Bool :=
  k ∈ [Keyword.port, .flow, .displayName, .category, .description, .themeColor, .duration]

/-- The keywords at which the members of a marker are read. -/
def MarkerMember.begins (k : Keyword) : Bool := k ∈ [Keyword.label, .gizmo]

namespace Progress

/-- A statement is given up: the fault is reported at the token where it shows, and reading goes on
where the statement ends. -/
def breakOff (o : Outline) (f : Fault) : Progress :=
  match f.rest with
  | [] => ⟨.lost, [], o⟩
  | t :: _ => ⟨.between, skipToBoundary f.rest, o.report [⟨f.issue t.value, t.position⟩]⟩

/-- Goes on with what was read, or gives the statement up. -/
def resume {α : Type} (o : Outline) (next : α → List Token → Progress) : Reading α → Progress
  | .fault f => breakOff o f
  | .ok a rest => next a rest

end Progress

/-- The loop over the members of one kind of statement: what begins a member, how it is read, and
what becomes of it. -/
structure MemberLoop (α σ : Type) where
  grammar : MemberGrammar α
  begins : Keyword → Bool
  owner : σ → Owner
  stage : σ → Stage
  add : σ → Located α → σ × List Finding
  whole : σ → Declaration

namespace MemberLoop

variable {α σ : Type}

/-- One round of the loop. -/
def step (l : MemberLoop α σ) (x : σ) (o : Outline) : List Token → Progress
  | [] => ⟨.lost, [], o⟩
  | ⟨.closeBrace, _⟩ :: ts => ⟨.between, ts, o.add ⟨some (l.whole x), [], none⟩⟩
  | ⟨.keyword k, p⟩ :: ts =>
    if l.begins k then
      match l.grammar.after? k with
      | none => ⟨.lost, ts, o⟩
      | some read =>
        Progress.resume o (fun member rest =>
          ⟨l.stage (l.add x ⟨member, p⟩).1, rest, o.report (l.add x ⟨member, p⟩).2⟩) (read ts)
    else .breakOff o ⟨.noMember (l.owner x), ⟨.keyword k, p⟩ :: ts⟩
  | ts => .breakOff o ⟨.noMember (l.owner x), ts⟩

/-- The members of an action. -/
def action (warn : Bool) : MemberLoop ActionMember ActionDecl where
  grammar := ActionMember.grammar
  begins := ActionMember.begins
  owner a := ⟨.action, a.typeId.text⟩
  stage := .action
  add := ActionDecl.addMember warn
  whole := .action

/-- The members of a marker. -/
def marker (warn : Bool) : MemberLoop MarkerMember MarkerDecl where
  grammar := MarkerMember.grammar
  begins := MarkerMember.begins
  owner m := ⟨.marker, m.name⟩
  stage := .marker
  add := MarkerDecl.addMember warn
  whole := .marker

end MemberLoop

namespace Progress

/-- One step between statements. -/
def stepBetween (o : Outline) : List Token → Progress
  | [] => ⟨.lost, [], o⟩
  | ⟨.endOfFile, p⟩ :: ts => ⟨.finished, ⟨.endOfFile, p⟩ :: ts, o⟩
  | ⟨.keyword .action, p⟩ :: ts =>
    resume o (fun typeId rest => ⟨.action ⟨typeId, {}, [], p.line⟩, rest, o⟩) (readActionHead ts)
  | ⟨.keyword .marker, p⟩ :: ts =>
    resume o (fun name rest => ⟨.marker ⟨name, none, none, p.line⟩, rest, o⟩) (readMarkerHead ts)
  | t :: ts => ⟨.between, skipToBoundary ts, o.report [⟨.expected .statement t.value, t.position⟩]⟩

/-- One step. -/
def step (warn : Bool) (s : Progress) : Progress :=
  match s.stage with
  | .between => stepBetween s.outline s.rest
  | .action a => (MemberLoop.action warn).step a s.outline s.rest
  | .marker m => (MemberLoop.marker warn).step m s.outline s.rest
  | .finished | .lost => s

/-- The tokens of a document, with an end of file behind them if there is none. -/
def sealed (tokens : List Token) : List Token :=
  if tokens.getLast?.map Located.value = some .endOfFile then tokens
  else tokens ++ [⟨.endOfFile, .ofLine ((tokens.getLast?.map Located.line).getD 1)⟩]

/-- A reading that has not begun yet. -/
def start (tokens : List Token) : Progress := ⟨.between, sealed tokens, ⟨[], []⟩⟩

end Progress

/-! ### Every reading ends -/

/-- What a stage adds to the number of steps that may be left. A statement that is given up at its
first token takes no token, but it is left for good. -/
def Stage.weight : Stage → Nat
  | .between => 1
  | .action _ | .marker _ => 2
  | .finished | .lost => 0

/-- No stage weighs more than the token that is taken in it. -/
theorem Stage.weight_le (stage : Stage) : stage.weight ≤ 2 := by
  cases stage <;> simp [weight]

/-- Skipping moves the cursor on. -/
theorem skipToBoundary_suffix (ts : List Token) : skipToBoundary ts <:+ ts :=
  List.dropWhile_suffix _

namespace Progress

variable {warn : Bool} {s s' : Progress}

/-- A bound on the number of steps that are left. -/
def budget (s : Progress) : Nat := 2 * s.rest.length + s.stage.weight

/-- The reading does nothing any more. -/
def IsOver (s : Progress) : Prop := s.stage = .finished ∨ s.stage = .lost

/-- The cursor does not move back, and fewer steps are left. -/
structure Advances (s s' : Progress) : Prop where
  suffix : s'.rest <:+ s.rest
  budget_lt : s'.budget < s.budget

/-- Whatever comes next, a token that is taken pays for it. -/
theorem advances_cons {stage stage' : Stage} (hstage : 0 < stage.weight) (t : Token)
    {ts rest : List Token} (hrest : rest <:+ ts) (o o' : Outline) :
    Advances ⟨stage, t :: ts, o⟩ ⟨stage', rest, o'⟩ := by
  refine ⟨hrest.trans (List.suffix_cons t ts), ?_⟩
  have hlength := hrest.length_le
  have hweight := stage'.weight_le
  simp only [budget, List.length_cons]
  omega

/-- To give a statement up moves on, if the token that is paid for was taken or the stage was one of
a statement. -/
theorem advances_breakOff {stage : Stage} {ts : List Token} {f : Fault} (hrest : f.rest <:+ ts)
    (hroom : 2 * f.rest.length + 1 < 2 * ts.length + stage.weight) (o o' : Outline) :
    Advances ⟨stage, ts, o⟩ (breakOff o' f) := by
  rw [breakOff]
  split
  · exact ⟨List.nil_suffix, Nat.lt_of_le_of_lt (Nat.zero_le _) hroom⟩
  · have hskip := skipToBoundary_suffix f.rest
    refine ⟨hskip.trans hrest, Nat.lt_of_le_of_lt ?_ hroom⟩
    exact Nat.add_le_add_right (Nat.mul_le_mul_left 2 hskip.length_le) 1

/-- Reading on after a token has been taken. -/
theorem advances_resume {α : Type} {read : List Token → Reading α} (hread : StopsAtStatement read)
    {stage : Stage} (hstage : 0 < stage.weight) (t : Token) (ts : List Token)
    (stage' : α → Stage) (o o' : Outline) (o'' : α → Outline) :
    Advances ⟨stage, t :: ts, o⟩ (resume o' (fun a rest => ⟨stage' a, rest, o'' a⟩) (read ts)) := by
  have hleft := hread.left_suffix ts
  cases hts : read ts with
  | ok a rest =>
      rw [hts] at hleft
      exact advances_cons hstage t hleft o (o'' a)
  | fault f =>
      rw [hts, Reading.left] at hleft
      have hlength := hleft.length_le
      refine advances_breakOff (hleft.trans (List.suffix_cons t ts)) ?_ o o'
      rw [List.length_cons]
      omega

end Progress

namespace MemberLoop

variable {α σ : Type} {l : MemberLoop α σ}

/-- The loop goes on to read a member exactly at the keywords that begin one, and what it gathers is
all that a round changes. -/
structure IsSound (l : MemberLoop α σ) : Prop where
  stops : l.grammar.Stops
  begins_eq : ∀ k, l.begins k = (l.grammar.after? k).isSome
  owner_add : ∀ x m, l.owner (l.add x m).1 = l.owner x
  weight_stage : ∀ x, (l.stage x).weight = 2

/-- The loop over the members of an action is sound. -/
theorem action_isSound (warn : Bool) : (action warn).IsSound where
  stops := ActionMember.grammar_stops
  begins_eq k := by cases k <;> rfl
  owner_add a m := by
    change Owner.mk .action (a.addMember warn m).1.typeId.text = _
    rw [ActionDecl.addMember_fst]
    rfl
  weight_stage _ := rfl

/-- So is the loop over the members of a marker. -/
theorem marker_isSound (warn : Bool) : (marker warn).IsSound where
  stops := MarkerMember.grammar_stops
  begins_eq k := by cases k <;> rfl
  owner_add d m := by obtain ⟨_ | _, p⟩ := m <;> rfl
  weight_stage _ := rfl

/-- Where there is neither a closing brace nor the keyword of a member, the statement is given
up. -/
theorem step_of_noMember (l : MemberLoop α σ) (x : σ) (o : Outline) {t : Token} (ts : List Token)
    (hclose : t.value ≠ .closeBrace) (hkeyword : ∀ k, t.value = .keyword k → l.begins k = false) :
    l.step x o (t :: ts) = .breakOff o ⟨.noMember (l.owner x), t :: ts⟩ := by
  obtain ⟨v, p⟩ := t
  cases v with
  | closeBrace => exact absurd rfl hclose
  | keyword k => rw [step, if_neg (by rw [hkeyword k rfl]; exact Bool.false_ne_true)]
  | _ => rfl

/-- A round of the loop brings the reading forward. -/
theorem advances_step (hl : l.IsSound) (x : σ) (o : Outline) (ts : List Token) :
    Progress.Advances ⟨l.stage x, ts, o⟩ (l.step x o ts) := by
  have hstage : 0 < (l.stage x).weight := by rw [hl.weight_stage]; exact Nat.succ_pos 1
  have hgiveUp (ts : List Token) : Progress.Advances ⟨l.stage x, ts, o⟩
      (.breakOff o ⟨.noMember (l.owner x), ts⟩) := by
    refine Progress.advances_breakOff (List.suffix_refl ts) ?_ o o
    rw [hl.weight_stage]
    exact Nat.lt_succ_self _
  fun_cases step l x o ts with
  | case1 => exact ⟨List.suffix_refl [], Nat.lt_add_left _ hstage⟩
  | case2 p ts => exact Progress.advances_cons hstage _ (List.suffix_refl ts) _ _
  | case3 k p ts hk hnone =>
      rw [hl.begins_eq, hnone] at hk
      cases hk
  | case4 k p ts hk read hread =>
      exact Progress.advances_resume (hl.stops.after_stops hread) hstage _ ts _ _ _ _
  | case5 k p ts hk => exact hgiveUp _
  | case6 ts => exact hgiveUp ts

end MemberLoop

namespace Progress

variable {warn : Bool} {s s' : Progress}

/-- A token that begins no statement is reported. -/
theorem stepBetween_of_stray (o : Outline) {t : Token} (ts : List Token)
    (hend : t.value ≠ .endOfFile) (hkind : Section.kind? t.value = none) :
    stepBetween o (t :: ts) =
      ⟨.between, skipToBoundary ts, o.report [⟨.expected .statement t.value, t.position⟩]⟩ := by
  obtain ⟨v, p⟩ := t
  cases v with
  | endOfFile => exact absurd rfl hend
  | keyword k =>
      cases k with
      | action => cases hkind
      | marker => cases hkind
      | _ => rfl
  | _ => rfl

/-- A step between statements brings the reading forward. -/
theorem advances_stepBetween (o : Outline) (ts : List Token) :
    Advances ⟨.between, ts, o⟩ (stepBetween o ts) := by
  have hstage : 0 < Stage.between.weight := Nat.zero_lt_one
  fun_cases stepBetween o ts with
  | case1 => exact ⟨List.suffix_refl [], hstage⟩
  | case2 p ts => exact ⟨List.suffix_refl _, Nat.lt_succ_self _⟩
  | case3 p ts => exact advances_resume readActionHead_stops hstage _ ts _ _ _ _
  | case4 p ts => exact advances_resume readMarkerHead_stops hstage _ ts _ _ _ _
  | case5 t ts => exact advances_cons hstage t (skipToBoundary_suffix ts) _ _

/-- **A step brings the reading forward**, unless it is over. -/
theorem advances_step (h : ¬ s.IsOver) : Advances s (step warn s) := by
  obtain ⟨stage, ts, o⟩ := s
  cases stage with
  | between => exact advances_stepBetween o ts
  | action a => exact MemberLoop.advances_step (MemberLoop.action_isSound warn) a o ts
  | marker m => exact MemberLoop.advances_step (MemberLoop.marker_isSound warn) m o ts
  | finished => exact absurd (.inl rfl) h
  | lost => exact absurd (.inr rfl) h

/-- A step does nothing once the reading is over. -/
theorem step_of_isOver (h : s.IsOver) : step warn s = s := by
  obtain ⟨stage, ts, o⟩ := s
  obtain h | h := h <;> cases h <;> rfl

/-- Nor does any number of steps. -/
theorem iterate_of_isOver (h : s.IsOver) (n : Nat) : (step warn)^[n] s = s :=
  Function.iterate_fixed (step_of_isOver h) n

/-- The cursor never moves back. -/
theorem rest_iterate_suffix (n : Nat) (s : Progress) : ((step warn)^[n] s).rest <:+ s.rest := by
  induction n generalizing s with
  | zero => exact List.suffix_refl s.rest
  | succ n ih =>
      rw [Function.iterate_succ_apply]
      by_cases h : s.IsOver
      · rw [step_of_isOver h]
        exact ih s
      · exact (ih _).trans (advances_step h).suffix

/-- **Every reading ends**, within its budget. -/
theorem isOver_iterate {n : Nat} (h : s.budget ≤ n) : ((step warn)^[n] s).IsOver := by
  induction n generalizing s with
  | zero =>
      by_contra hover
      have hlt := (@advances_step warn s hover).budget_lt
      omega
  | succ n ih =>
      rw [Function.iterate_succ_apply]
      by_cases hover : s.IsOver
      · rw [step_of_isOver hover, iterate_of_isOver hover]
        exact hover
      · have hlt := (@advances_step warn s hover).budget_lt
        exact ih (by omega)

end Progress

/-! ### Where a reading ends -/

namespace Outline

/-- Findings may be reported before a section is taken in, or with it. -/
theorem add_report (o : Outline) (fs gs : List Finding) (declared : Option Declaration)
    (fault : Option Finding) :
    (o.report fs).add ⟨declared, gs, fault⟩ = o.add ⟨declared, fs ++ gs, fault⟩ := by
  cases declared with
  | none => simp [add, report]
  | some d =>
      simp only [add, report]
      split <;> simp

end Outline

/-- Skipping stops at a token that ends a statement. -/
theorem skipToBoundary_append (ts : List Token) {tail : List Token} (htail : AtBoundary tail)
    (hts : ∀ t ∈ ts, t.value ≠ .endOfFile) :
    skipToBoundary (ts ++ tail) = skipToStatement ts ++ tail := by
  induction ts with
  | nil =>
      cases tail with
      | nil => rfl
      | cons t tail =>
          exact List.dropWhile_cons_of_neg (by simp [atBoundary_cons.mp htail])
  | cons t ts ih =>
      rw [List.forall_mem_cons] at hts
      cases hkind : Section.kind? t.value with
      | none =>
          have hends : t.value.endsStatement = false := by
            rw [Bool.eq_false_iff, ne_eq, Lexeme.endsStatement_iff, hkind]
            simp [hts.1]
          rw [List.cons_append, skipToBoundary, skipToStatement,
            List.dropWhile_cons_of_pos (by rw [hends]; rfl),
            List.dropWhile_cons_of_pos (by rw [hkind]; rfl)]
          exact ih hts.2
      | some kind =>
          have hends : t.value.endsStatement = true :=
            Lexeme.endsStatement_iff.mpr (.inr (by rw [hkind]; rfl))
          rw [List.cons_append, skipToBoundary, skipToStatement,
            List.dropWhile_cons_of_neg (by simp [hends]),
            List.dropWhile_cons_of_neg (by simp [hkind]), List.cons_append]

namespace Progress

variable {warn : Bool} {s s' s'' : Progress}

/-- Some number of steps leads from one point of a reading to the other. -/
def Reaches (warn : Bool) (s s' : Progress) : Prop := ∃ n, (step warn)^[n] s = s'

theorem Reaches.trans (h : Reaches warn s s') (h' : Reaches warn s' s'') : Reaches warn s s'' := by
  obtain ⟨m, rfl⟩ := h
  obtain ⟨n, rfl⟩ := h'
  exact ⟨n + m, Function.iterate_add_apply _ n m s⟩

theorem reaches_step (s : Progress) : Reaches warn s (step warn s) := ⟨1, rfl⟩

/-- A statement that is given up is reported where the fault shows, be it behind the tokens. -/
theorem breakOff_before (o : Outline) (f : Fault) (stop : Token) (zs : List Token) :
    breakOff o (f.before (stop :: zs)) =
      ⟨.between, skipToBoundary (f.rest ++ stop :: zs),
        o.add ⟨none, [], some (f.finding stop)⟩⟩ := by
  obtain ⟨cause, rest⟩ := f
  have hreport (fs : List Finding) : o.report fs = ⟨o.declarations, o.findings ++ [] ++ fs⟩ := by
    rw [List.append_nil]
    rfl
  cases rest with
  | nil => rw [breakOff]; simp only [Fault.before, List.nil_append, hreport]; rfl
  | cons t rest => rw [breakOff]; simp only [Fault.before, List.cons_append, hreport]; rfl

/-- A reader that is given the tokens behind a statement gives it up at the same place. -/
theorem resume_append {α : Type} {read : List Token → Reading α} (hread : StopsAtStatement read)
    {stop : Token} (hstop : stop.value = .endOfFile) (zs : List Token) (o : Outline)
    (next : α → List Token → Progress) (ts : List Token) :
    resume o next (read (ts ++ stop :: zs)) = resume o next ((read ts).before (stop :: zs)) := by
  rw [hread.read_append ts (atBoundary_cons.mpr (by rw [hstop]; rfl))]

end Progress

namespace MemberLoop

variable {α σ : Type} {l : MemberLoop α σ} {warn : Bool} {stop : Token} {zs : List Token}

/-- Where a reading is that has gone through a body with the end of file `stop` behind it. -/
def after (l : MemberLoop α σ) (stop : Token) (zs : List Token) (x : σ) (o : Outline)
    (body : Body α) : Progress :=
  match body.outcome with
  | .ok rest =>
    ⟨.between, rest ++ stop :: zs,
      o.add ⟨some (l.whole (gather l.add x body.members).1), (gather l.add x body.members).2, none⟩⟩
  | .error f =>
    ⟨.between, skipToBoundary (f.rest ++ stop :: zs),
      o.add ⟨none, (gather l.add x body.members).2, some (f.finding stop)⟩⟩

/-- What comes after a body is the same whether its first member was taken in before or not. -/
theorem after_cons (l : MemberLoop α σ) (x : σ) (o : Outline) (m : Located α) (body : Body α) :
    l.after stop zs (l.add x m).1 (o.report (l.add x m).2) body =
      l.after stop zs x o ⟨m :: body.members, body.outcome⟩ := by
  obtain ⟨ms, rest | f⟩ := body <;> simp only [after, gather, Outline.add_report]

/-- **A body is read member by member.** -/
theorem reaches_after (hl : l.IsSound)
    (hstep : ∀ x ts o, Progress.step warn ⟨l.stage x, ts, o⟩ = l.step x o ts)
    (hstop : stop.value = .endOfFile) (zs ts : List Token) (x : σ) (o : Outline) :
    Progress.Reaches warn ⟨l.stage x, ts ++ stop :: zs, o⟩
      (l.after stop zs x o (Body.read l.grammar (l.owner x) ts)) := by
  have hround (x : σ) (o : Outline) (ts : List Token) {s : Progress} (h : l.step x o ts = s) :
      Progress.Reaches warn ⟨l.stage x, ts, o⟩ s := by
    rw [← h, ← hstep]
    exact Progress.reaches_step _
  have hbegins {k : Keyword} {read : List Token → Reading α} (hk : l.grammar.after? k = some read) :
      l.begins k = true := by
    rw [hl.begins_eq, hk]
    rfl
  generalize howner : l.owner x = owner
  fun_induction Body.read l.grammar owner ts generalizing x o with
  | case1 p ts => exact hround x o _ rfl
  | case2 k p ts hk =>
      refine hround x o _ ?_
      have hnot : l.begins k = false := by
        rw [hl.begins_eq, hk]
        rfl
      rw [List.cons_append, l.step_of_noMember x o _ (by simp) (by rintro _ ⟨⟩; exact hnot), howner]
      exact Progress.breakOff_before o ⟨.noMember owner, ⟨.keyword k, p⟩ :: ts⟩ stop zs
  | case3 k p ts read hk f hread =>
      refine hround x o _ ?_
      have happend := Progress.resume_append (hl.stops.after_stops hk) hstop zs o
      rw [List.cons_append, step, if_pos (hbegins hk), hk]
      simp only [happend, hread]
      exact Progress.breakOff_before o f stop zs
  | case4 k p ts read hk member rest hread body ih =>
      have hfirst : l.step x o (⟨.keyword k, p⟩ :: (ts ++ stop :: zs)) =
          ⟨l.stage (l.add x ⟨member, p⟩).1, rest ++ stop :: zs,
            o.report (l.add x ⟨member, p⟩).2⟩ := by
        have happend := Progress.resume_append (hl.stops.after_stops hk) hstop zs o
        rw [step, if_pos (hbegins hk), hk]
        simp only [happend, hread]
        rfl
      refine (hround x o _ hfirst).trans ?_
      rw [← after_cons]
      exact ih _ _ ((hl.owner_add x _).trans howner)
  | case5 ts hclose hkeyword =>
      refine hround x o _ ?_
      have hfault := Progress.breakOff_before o ⟨.noMember owner, ts⟩ stop zs
      cases ts with
      | nil =>
          rw [List.nil_append, l.step_of_noMember x o zs (by simp [hstop]) (by simp [hstop]),
            howner]
          exact hfault
      | cons t ts =>
          rw [List.cons_append, l.step_of_noMember x o, howner]
          · exact hfault
          · exact fun h => hclose t.position ts (by rw [← h])
          · exact fun k h => absurd (by rw [← h]) (hkeyword k t.position ts)

end MemberLoop

/-- Tries a statement from its head. -/
def Attempt.ofHead {α : Type} (body : α → List Token → Attempt) : Reading α → Attempt
  | .fault f => .broken none f
  | .ok a rest => body a rest

namespace Progress

/-- Where a reading is that has tried a statement with the end of file `stop` behind it. -/
def afterAttempt (warn : Bool) (stop : Token) (zs : List Token) (line : Nat) (o : Outline) :
    Attempt → Progress
  | .complete st rest =>
    ⟨.between, rest ++ stop :: zs,
      o.add ⟨some (st.declare warn line).1, (st.declare warn line).2, none⟩⟩
  | .broken st f =>
    ⟨.between, skipToBoundary (f.rest ++ stop :: zs),
      o.add ⟨none, st.elim [] fun st => (st.declare warn line).2, some (f.finding stop)⟩⟩

end Progress

namespace MemberLoop

variable {α β σ : Type} {l : MemberLoop α σ} {warn : Bool} {stop : Token} {zs : List Token}

/-- Going through a body is trying the statement that it belongs to. -/
theorem after_eq_afterAttempt {x : σ} {line : Nat} {st : List (Located α) → Statement}
    (hst : ∀ ms, (st ms).declare warn line = (l.whole (gather l.add x ms).1, (gather l.add x ms).2))
    (o : Outline) (body : Body α) :
    l.after stop zs x o body =
      Progress.afterAttempt warn stop zs line o (.ofBody (st body.members) body.outcome) := by
  obtain ⟨ms, f | rest⟩ := body <;>
    simp only [after, Attempt.ofBody, Progress.afterAttempt, Option.elim_some, hst]

/-- **A statement is read step by step**: its head, and then its members. -/
theorem reaches_afterAttempt (hl : l.IsSound)
    (hstep : ∀ x ts o, Progress.step warn ⟨l.stage x, ts, o⟩ = l.step x o ts)
    (hstop : stop.value = .endOfFile) (t : Token) {read : List Token → Reading β}
    (hread : StopsAtStatement read) {init : β → σ}
    (hhead : ∀ ts o, Progress.step warn ⟨.between, t :: ts, o⟩ =
      Progress.resume o (fun b rest => ⟨l.stage (init b), rest, o⟩) (read ts))
    (st : β → List (Located α) → Statement)
    (hst : ∀ b ms, (st b ms).declare warn t.line =
      (l.whole (gather l.add (init b) ms).1, (gather l.add (init b) ms).2))
    (zs ts : List Token) (o : Outline) :
    Progress.Reaches warn ⟨.between, t :: (ts ++ stop :: zs), o⟩
      (Progress.afterAttempt warn stop zs t.line o
        (Attempt.ofHead (fun b rest =>
          .ofBody (st b (Body.read l.grammar (l.owner (init b)) rest).members)
            (Body.read l.grammar (l.owner (init b)) rest).outcome) (read ts))) := by
  have hfirst := (hhead (ts ++ stop :: zs) o).trans (Progress.resume_append hread hstop zs o _ ts)
  have hround := @Progress.reaches_step warn ⟨.between, t :: (ts ++ stop :: zs), o⟩
  rw [hfirst] at hround
  cases hts : read ts with
  | fault f =>
      rw [hts] at hround
      exact hround.trans ⟨0, Progress.breakOff_before o f stop zs⟩
  | ok b rest =>
      rw [hts] at hround
      have hbody := reaches_after hl hstep hstop zs rest (init b) o
      rw [after_eq_afterAttempt (hst b)] at hbody
      exact hround.trans hbody

end MemberLoop

namespace Progress

variable {warn : Bool} {stop : Token}

/-- Steps lead from the keyword of a statement to the point where what is read of it has been taken
in. -/
theorem reaches_readStatement (hstop : stop.value = .endOfFile) {t : Token} {kind : StatementKind}
    (hkind : Section.kind? t.value = some kind) (zs ts : List Token) (o : Outline) :
    Reaches warn ⟨.between, t :: (ts ++ stop :: zs), o⟩
      (afterAttempt warn stop zs t.line o (readStatement kind ts)) := by
  obtain ⟨v, p⟩ := t
  obtain rfl := Section.eq_keyword_of_kind? hkind
  cases kind with
  | action =>
      have hreaches := MemberLoop.reaches_afterAttempt (MemberLoop.action_isSound warn)
        (fun _ _ _ => rfl) hstop ⟨.keyword .action, p⟩ readActionHead_stops (fun _ _ => rfl) .action
        (Statement.declare_action warn p.line) zs ts o
      rw [readStatement, readAction]
      cases hhead : readActionHead ts <;> rw [hhead] at hreaches <;> exact hreaches
  | marker =>
      have hreaches := MemberLoop.reaches_afterAttempt (MemberLoop.marker_isSound warn)
        (fun _ _ _ => rfl) hstop ⟨.keyword .marker, p⟩ readMarkerHead_stops (fun _ _ => rfl) .marker
        (Statement.declare_marker warn p.line) zs ts o
      rw [readStatement, readMarker]
      cases hhead : readMarkerHead ts <;> rw [hhead] at hreaches <;> exact hreaches

/-- **Reading step by step is reading from left to right**, up to the end of file. -/
theorem reaches_of_reads (hstop : stop.value = .endOfFile) (zs : List Token) {o o' : Outline}
    {ts : List Token} (hts : ∀ t ∈ ts, t.value ≠ .endOfFile) (h : Outline.Reads warn stop o ts o') :
    Reaches warn ⟨.between, ts ++ stop :: zs, o⟩ ⟨.finished, stop :: zs, o'⟩ := by
  have htail : AtBoundary (stop :: zs) := atBoundary_cons.mpr (by rw [hstop]; rfl)
  have hskip {us : List Token} (hus : ∀ t ∈ us, t.value ≠ .endOfFile) :
      (∀ t ∈ skipToStatement us, t.value ≠ .endOfFile) ∧
        skipToBoundary (us ++ stop :: zs) = skipToStatement us ++ stop :: zs :=
    ⟨fun t ht => hus t ((List.dropWhile_suffix _).subset ht), skipToBoundary_append us htail hus⟩
  induction h with
  | done =>
      obtain ⟨v, p⟩ := stop
      cases hstop
      exact reaches_step _
  | @stray o o' t ts hkind _ ih =>
      rw [List.forall_mem_cons] at hts
      obtain ⟨hrest, hskipped⟩ := hskip hts.2
      refine Reaches.trans ⟨1, ?_⟩ (ih hrest)
      rw [← hskipped]
      exact stepBetween_of_stray o _ hts.1 hkind
  | @complete o o' t ts rest kind st hkind hread _ ih =>
      rw [List.forall_mem_cons] at hts
      have hleft := left_readStatement kind ts
      have hfirst := @reaches_readStatement warn _ hstop _ _ hkind zs ts o
      rw [hread] at hleft hfirst
      exact hfirst.trans (ih fun t ht => hts.2 t (hleft.subset ht))
  | @broken o o' t ts kind st fault hkind hread _ ih =>
      rw [List.forall_mem_cons] at hts
      have hleft := left_readStatement kind ts
      have hfirst := @reaches_readStatement warn _ hstop _ _ hkind zs ts o
      rw [hread, Attempt.left] at hleft
      rw [hread, afterAttempt] at hfirst
      obtain ⟨hrest, hskipped⟩ := hskip fun t ht => hts.2 t (hleft.subset ht)
      rw [hskipped] at hfirst
      exact hfirst.trans (ih hrest)

end Progress

/-! ### The end of file -/

namespace Outline

/-- Tokens are closed at the first end of file, or at one that is put behind them. -/
theorem close_cases (tokens : List Token) :
    (∃ body stop zs, tokens = body ++ stop :: zs ∧ (∀ t ∈ body, t.value ≠ .endOfFile) ∧
        stop.value = .endOfFile ∧ close tokens = (body, stop)) ∨
      (∀ t ∈ tokens, t.value ≠ .endOfFile) ∧
        close tokens =
          (tokens, ⟨.endOfFile, .ofLine ((tokens.getLast?.map Located.line).getD 1)⟩) := by
  cases hfind : tokens.find? fun t => decide (t.value = .endOfFile) with
  | none =>
      have hbody : ∀ t ∈ tokens, t.value ≠ .endOfFile := by simpa using hfind
      have htake : tokens.takeWhile (fun t => !decide (t.value = .endOfFile)) = tokens :=
        List.takeWhile_eq_self_iff.mpr (by simpa using hbody)
      exact .inr ⟨hbody, by simp only [close, htake, hfind, Option.getD_none]⟩
  | some stop =>
      obtain ⟨hstop, body, zs, rfl, hbody⟩ := List.find?_eq_some_iff_append.mp hfind
      have hstop : stop.value = .endOfFile := by simpa using hstop
      have hbody : ∀ t ∈ body, t.value ≠ .endOfFile := by simpa using hbody
      exact .inl ⟨body, stop, zs, rfl, hbody, hstop, close_append_cons zs hbody hstop⟩

/-- What stands behind an end of file is not read. -/
theorem close_append_end (xs zs : List Token) {stop : Token} (hstop : stop.value = .endOfFile) :
    close (xs ++ stop :: zs) = close (xs ++ [stop]) := by
  obtain ⟨body, first, ys, rfl, hbody, hfirst, -⟩ | ⟨hxs, -⟩ := close_cases xs
  · rw [List.append_assoc, List.append_assoc, List.cons_append, List.cons_append,
      close_append_cons _ hbody hfirst, close_append_cons _ hbody hfirst]
  · rw [close_append_cons zs hxs hstop, close_append_stop hxs hstop]

end Outline

namespace Progress

variable {warn : Bool} {s s' : Progress}

/-- The tokens that are read, with the end of file at which they are closed. -/
theorem exists_sealed_eq (tokens : List Token) :
    ∃ zs, sealed tokens = (Outline.close tokens).1 ++ (Outline.close tokens).2 :: zs ∧
      (∀ t ∈ (Outline.close tokens).1, t.value ≠ .endOfFile) ∧
        (Outline.close tokens).2.value = .endOfFile := by
  obtain ⟨body, stop, zs, htokens, hbody, hstop, hclose⟩ | ⟨hbody, hclose⟩ :=
    Outline.close_cases tokens
  · rw [hclose, sealed, htokens]
    split
    · exact ⟨zs, rfl, hbody, hstop⟩
    · exact ⟨_, by rw [List.append_assoc, List.cons_append], hbody, hstop⟩
  · have hlast : tokens.getLast?.map Located.value ≠ some .endOfFile := by
      intro hlast
      obtain ⟨t, ht, hvalue⟩ := Option.map_eq_some_iff.mp hlast
      exact hbody t (List.mem_of_getLast? ht) hvalue
    rw [hclose, sealed, if_neg hlast]
    exact ⟨[], rfl, hbody, rfl⟩

/-- **A reading comes to the end of file**, with the outline of the document. -/
theorem reaches_finished (warn : Bool) (tokens : List Token) :
    ∃ zs, sealed tokens = (Outline.close tokens).1 ++ (Outline.close tokens).2 :: zs ∧
      Reaches warn (start tokens)
        ⟨.finished, (Outline.close tokens).2 :: zs, Outline.ofTokens warn tokens⟩ := by
  obtain ⟨zs, hsealed, hbody, hstop⟩ := exists_sealed_eq tokens
  have hreads := @Outline.reads_ofTokens warn _ _ hbody hstop
  have houtline : Outline.ofTokens warn ((Outline.close tokens).1 ++ [(Outline.close tokens).2]) =
      Outline.ofTokens warn tokens := by
    rw [Outline.ofTokens, Outline.close_append_stop hbody hstop, Outline.ofTokens]
  rw [houtline] at hreads
  refine ⟨zs, hsealed, ?_⟩
  rw [start, hsealed]
  exact reaches_of_reads hstop zs hbody hreads

/-- Every point of a reading is on the way to where it ends. -/
theorem Reaches.of_iterate (h : Reaches warn s s') (hover : s'.IsOver) (n : Nat) :
    Reaches warn ((step warn)^[n] s) s' := by
  obtain ⟨m, rfl⟩ := h
  obtain hle | hle := Nat.le_total n m
  · refine ⟨m - n, ?_⟩
    rw [← Function.iterate_add_apply, Nat.sub_add_cancel hle]
  · refine ⟨0, ?_⟩
    rw [← Nat.sub_add_cancel hle, Function.iterate_add_apply, iterate_of_isOver hover]
    rfl

/-- Where a reading is over it stays. -/
theorem Reaches.eq_of_isOver (h : Reaches warn s s') (hover : s.IsOver) : s = s' := by
  obtain ⟨n, rfl⟩ := h
  exact (iterate_of_isOver hover n).symm

/-- **A reading ends at the first end of file.** Whatever the tokens are, it never gets lost and
never passes an end of file; after at most two steps for each token, and one more, it is finished
and has found what the document declares and what is wrong with it. So nothing behind an end of file
matters. -/
theorem run_stops_at_end (warn : Bool) :
    (∀ (tokens : List Token) (n : Nat),
      let now := (step warn)^[n] (start tokens)
      now.stage ≠ .lost ∧
        (∃ passed, passed ++ now.rest = sealed tokens ∧ ∀ t ∈ passed, t.value ≠ .endOfFile) ∧
        (2 * (sealed tokens).length < n →
          now.stage = .finished ∧ now.outline = Outline.ofTokens warn tokens)) ∧
      ∀ (xs zs : List Token) (p : Position),
        Outline.ofTokens warn (xs ++ [⟨.endOfFile, p⟩] ++ zs) =
          Outline.ofTokens warn (xs ++ [⟨.endOfFile, p⟩]) := by
  constructor
  · intro tokens n now
    obtain ⟨zs, hsealed, hreaches⟩ := reaches_finished warn tokens
    have hbody : ∀ t ∈ (Outline.close tokens).1, t.value ≠ .endOfFile :=
      (exists_sealed_eq tokens).elim fun _ h => h.2.1
    have hnow : Reaches warn now _ := hreaches.of_iterate (.inl rfl) n
    refine ⟨?_, ?_, ?_⟩
    · intro hlost
      have hend := hnow.eq_of_isOver (.inr hlost)
      rw [hend] at hlost
      cases hlost
    · -- The cursor lies between the beginning and the end of file where the reading ends.
      obtain ⟨passed, hpassed⟩ := @rest_iterate_suffix warn n (start tokens)
      obtain ⟨m, hend⟩ := hnow
      obtain ⟨ahead, hahead⟩ := @rest_iterate_suffix warn m now
      rw [hend] at hahead
      refine ⟨passed, hpassed, fun t ht => hbody t ?_⟩
      have hsplit : passed ++ ahead = (Outline.close tokens).1 := by
        rw [← hahead, ← List.append_assoc] at hpassed
        exact List.append_cancel_right (hpassed.trans hsealed)
      rw [← hsplit]
      exact List.mem_append_left ahead ht
    · intro hn
      have hover : now.IsOver := isOver_iterate hn
      have hend := hnow.eq_of_isOver hover
      rw [hend]
      exact ⟨rfl, rfl⟩
  · intro xs zs p
    rw [List.append_assoc, List.singleton_append, Outline.ofTokens,
      Outline.close_append_end xs zs rfl, Outline.ofTokens]

end Progress

end Defsheet

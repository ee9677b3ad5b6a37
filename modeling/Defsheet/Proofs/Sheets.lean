import Defsheet.Proofs.NothingLost

/-!
# Writing definitions down

Definitions can be written down as a text of the document language: every definition is a statement,
the fields that are set and the ports are its members, and blanks stand between the tokens. This
module says how such a text is read. Its tokens spell statements that state the definitions
(`Statement.States`), and what these statements declare is what the definitions declare, up to the
lines on which things stand.

## Main definitions

* `sheet` is the text of definitions.
* `Definition.declaration` is the declaration that a definition amounts to.

## Main results

* `SpellsFile.exists_states`: the tokens spell statements that state the definitions.
* `Statement.States.eraseLines_meaning`: what they declare is what the definitions amount to.
* `Definition.isReadable_lexemes`: when a definition can be written down.
-/

namespace Defsheet

/-! ### Definitions as text -/

/-- The fields that are set, as members. -/
def Metadata.members (m : Metadata) : List ActionMember :=
  (m.displayName.map .displayName).toList ++ (m.category.map .category).toList
    ++ (m.description.map .description).toList ++ (m.themeColor.map .themeColor).toList
    ++ (m.duration.map .duration).toList

/-- The members of an action: its fields, then its ports. -/
def ActionDefinition.members (a : ActionDefinition) : List ActionMember :=
  a.metadata.members ++ a.ports.map PortDefinition.member

/-- The members of a marker. -/
def MarkerDefinition.members (m : MarkerDefinition) : List MarkerMember :=
  (m.label.map .label).toList ++ (m.gizmo.map .gizmo).toList

/-- The lexemes of a type id. -/
def TypeId.lexemes (t : TypeId) : List Lexeme :=
  match t.segments with
  | [] => []
  | first :: others => typeIdLexemes first others

/-- The lexemes of a definition, as the grammar has them. -/
def Definition.lexemes : Definition → List Lexeme
  | .action a =>
    .keyword .action :: (a.typeId.lexemes
      ++ .openBrace :: (a.members.flatMap ActionMember.lexemes ++ [.closeBrace]))
  | .marker m =>
    .keyword .marker :: .ident m.name :: .openBrace
      :: (m.members.flatMap MarkerMember.lexemes ++ [.closeBrace])

/-- **The text of definitions**: their lexemes in order, with blanks between them. -/
def sheet (xs : List Definition) : String :=
  String.ofList (spacedText (xs.flatMap Definition.lexemes))

example :
    sheet [.marker ⟨"Goal", "Goal", "GOAL", some "The goal", some ⟨.box, none⟩, 3⟩] =
      "marker Goal \x7b label \"The goal\" gizmo box \x7d" := by decide +kernel

/-! ### Definitions as declarations -/

/-- The port as it is declared, on no line in particular. -/
def PortDefinition.port (q : PortDefinition) : Port :=
  match q.role with
  | .flow => .flow ⟨q.name, q.givenLabel, 0⟩
  | .data type value lo hi => .data ⟨type, q.name, value, q.givenLabel, lo, hi, 0⟩

/-- The declaration that a definition amounts to, on no line in particular. -/
def Definition.declaration : Definition → Declaration
  | .action a => .action ⟨a.typeId, a.metadata, a.ports.map PortDefinition.port, 0⟩
  | .marker m => .marker ⟨m.name, m.label, m.gizmo, 0⟩

@[simp] theorem PortDefinition.name_port (q : PortDefinition) : q.port.name = q.name := by
  obtain ⟨name, label, const, role⟩ := q
  cases role <;> rfl

/-- A definition is declared under its id. -/
theorem Definition.id_declaration (x : Definition) : x.declaration.id = x.id := by
  cases x <;> rfl

/-! ### Lines -/

/-- The port without its line. -/
def Port.eraseLine : Port → Port
  | .data p => .data { p with line := 0 }
  | .flow p => .flow { p with line := 0 }

/-- The declaration without its lines. -/
def Declaration.eraseLines : Declaration → Declaration
  | .action a => .action { a with ports := a.ports.map Port.eraseLine, line := 0 }
  | .marker m => .marker { m with line := 0 }

@[simp] theorem Port.name_eraseLine (p : Port) : p.eraseLine.name = p.name := by
  cases p <;> rfl

/-- The id of a declaration does not depend on its lines. -/
theorem Declaration.id_eraseLines (d : Declaration) : d.eraseLines.id = d.id := by
  cases d <;> rfl

/-- The line of a member is that of its port and of nothing else. -/
theorem ActionMember.eraseLine_port? (m : ActionMember) (line : Nat) :
    (m.port? line).map Port.eraseLine = m.port? 0 := by
  cases m <;> rfl

/-- Up to their lines, ports are determined by the members that declare them. -/
theorem map_eraseLine_declaredPorts (ms : List (Located ActionMember)) :
    (declaredPorts ms).map Port.eraseLine =
      (ms.map Located.value).filterMap (ActionMember.port? 0) := by
  rw [declaredPorts, List.map_filterMap, List.filterMap_map]
  congr 1
  funext m
  exact m.value.eraseLine_port? m.line

/-- Names of ports do not depend on lines. -/
theorem map_name_declaredPorts (ms : List (Located ActionMember)) :
    (declaredPorts ms).map Port.name =
      ((ms.map Located.value).filterMap (ActionMember.port? 0)).map Port.name := by
  rw [← map_eraseLine_declaredPorts, List.map_map]
  exact List.map_congr_left fun p _ => p.name_eraseLine.symm

/-! ### What members of a definition declare -/

/-- The member for a port declares the port. -/
theorem PortDefinition.port?_member (q : PortDefinition) : q.member.port? 0 = some q.port := by
  obtain ⟨name, label, const, role⟩ := q
  cases role <;> rfl

/-- A flow port that was resolved has no bounds to write. -/
theorem PortDefinition.not_isBoundedFlow_member (q : PortDefinition) :
    q.member.isBoundedFlow = false := by
  obtain ⟨name, label, const, role⟩ := q
  cases role <;> rfl

/-- What items give that stand for a value which may be set. -/
theorem filterMap_toList_map {α β γ : Type} (item : α → β) (value? : β → Option γ) (o : Option α) :
    (o.map item).toList.filterMap value? = (o.bind fun a => value? (item a)).toList := by
  cases o with
  | none => rfl
  | some a => cases h : value? (item a) <;> simp [h]

/-- What the fields of an action give, one after the other. -/
theorem Metadata.filterMap_members {β : Type} (m : Metadata) (value? : ActionMember → Option β) :
    m.members.filterMap value? =
      (m.displayName.bind fun text => value? (.displayName text)).toList
        ++ (m.category.bind fun text => value? (.category text)).toList
        ++ (m.description.bind fun text => value? (.description text)).toList
        ++ (m.themeColor.bind fun c => value? (.themeColor c)).toList
        ++ (m.duration.bind fun kind => value? (.duration kind)).toList := by
  simp only [members, List.filterMap_append, filterMap_toList_map]

/-- The members of an action declare its ports. -/
theorem ActionDefinition.filterMap_port?_members (a : ActionDefinition) :
    a.members.filterMap (ActionMember.port? 0) = a.ports.map PortDefinition.port := by
  have hfields : a.metadata.members.filterMap (ActionMember.port? 0) = [] := by
    simp [Metadata.filterMap_members, ActionMember.port?]
  rw [members, List.filterMap_append, hfields, List.nil_append, List.filterMap_map,
    ← List.filterMap_eq_map]
  congr 1
  funext q
  exact q.port?_member

/-- No member that is written for an action is a flow port with bounds. -/
theorem ActionDefinition.not_isBoundedFlow_of_mem_members {a : ActionDefinition}
    {m : ActionMember} (hm : m ∈ a.members) : m.isBoundedFlow = false := by
  obtain hfield | hport := List.mem_append.mp hm
  · simp only [Metadata.members, List.mem_append, Option.mem_toList, Option.map_eq_some_iff]
      at hfield
    obtain (((⟨_, _, rfl⟩ | ⟨_, _, rfl⟩) | ⟨_, _, rfl⟩) | ⟨_, _, rfl⟩) | ⟨_, _, rfl⟩ := hfield <;>
      rfl
  · obtain ⟨q, -, rfl⟩ := List.mem_map.mp hport
    exact q.not_isBoundedFlow_member

/-- The last value among members depends on the members only, not on where they stand. -/
theorem lastOf_value {α β : Type} (value? : α → Option β) (ms : List (Located α)) :
    lastOf (fun m => value? m.value) ms = lastOf value? (ms.map Located.value) := by
  rw [lastOf, lastOf, List.filterMap_map]
  rfl

/-- A field that ports do not set has the value that the fields of the action give it. -/
theorem ActionDefinition.lastOf_members {β : Type} {a : ActionDefinition}
    {ms : List (Located ActionMember)} (h : ms.map Located.value = a.members)
    (value? : ActionMember → Option β) (o : Option β)
    (hdata : ∀ type name value o, value? (.dataPort type name value o) = none)
    (hflow : ∀ name o, value? (.flowPort name o) = none)
    (hfields : a.metadata.members.filterMap value? = o.toList) :
    lastOf (fun m => value? m.value) ms = o := by
  have hport (q : PortDefinition) : value? q.member = none := by
    rw [PortDefinition.member]
    split
    · exact hflow _ _
    · exact hdata _ _ _ _
  have hports : (a.ports.map PortDefinition.member).filterMap value? = [] := by
    rw [List.filterMap_map]
    exact List.filterMap_eq_nil_iff.mpr fun q _ => hport q
  rw [lastOf_value value?, h, lastOf, members, List.filterMap_append, hports, List.append_nil,
    hfields]
  cases o <;> rfl

/-- The members of an action set its fields. -/
theorem ActionDefinition.ofMembers_eq {a : ActionDefinition} {ms : List (Located ActionMember)}
    (h : ms.map Located.value = a.members) : Metadata.ofMembers ms = a.metadata := by
  have hname := lastOf_members h ActionMember.displayName? a.metadata.displayName
    (fun _ _ _ _ => rfl) (fun _ _ => rfl)
    (by simp [Metadata.filterMap_members, ActionMember.displayName?])
  have hcategory := lastOf_members h ActionMember.category? a.metadata.category
    (fun _ _ _ _ => rfl) (fun _ _ => rfl)
    (by simp [Metadata.filterMap_members, ActionMember.category?])
  have hdescription := lastOf_members h ActionMember.description? a.metadata.description
    (fun _ _ _ _ => rfl) (fun _ _ => rfl)
    (by simp [Metadata.filterMap_members, ActionMember.description?])
  have hcolor := lastOf_members h ActionMember.themeColor? a.metadata.themeColor
    (fun _ _ _ _ => rfl) (fun _ _ => rfl)
    (by simp [Metadata.filterMap_members, ActionMember.themeColor?])
  have hduration := lastOf_members h ActionMember.duration? a.metadata.duration
    (fun _ _ _ _ => rfl) (fun _ _ => rfl)
    (by simp [Metadata.filterMap_members, ActionMember.duration?])
  rw [Metadata.ofMembers, hname, hcategory, hdescription, hcolor, hduration]

/-- The members of a marker set its label and its gizmo. -/
theorem MarkerDefinition.lastOf_members {m : MarkerDefinition} {ms : List (Located MarkerMember)}
    (h : ms.map Located.value = m.members) :
    lastOf (fun x => x.value.label?) ms = m.label ∧
      lastOf (fun x => x.value.gizmo?) ms = m.gizmo := by
  rw [lastOf_value MarkerMember.label?, lastOf_value MarkerMember.gizmo?, h]
  simp only [lastOf, members, List.filterMap_append, filterMap_toList_map]
  cases m.label <;> cases m.gizmo <;> exact ⟨rfl, rfl⟩

/-! ### Statements that state definitions -/

/-- The statement states the definition: it has its name and its members. -/
def Statement.States : Statement → Definition → Prop
  | .action typeId ms, .action a => typeId = a.typeId ∧ ms.map Located.value = a.members
  | .marker name ms, .marker m => name = m.name ∧ ms.map Located.value = m.members
  | _, _ => False

/-- The definition has a name: the type id of an action is not empty. -/
def Definition.IsNamed : Definition → Prop
  | .action a => a.typeId.segments ≠ []
  | .marker _ => True

/-- Tokens with the lexemes of a definition spell a statement that states it. -/
theorem SpellsStatement.exists_states {ts : List Token} {x : Definition} (hx : x.IsNamed)
    (h : ts.map Located.value = x.lexemes) :
    ∃ st, SpellsStatement ts st ∧ st.value.States x := by
  cases x with
  | action a =>
      obtain ⟨first, others, hsegments⟩ := List.exists_cons_of_ne_nil hx
      have htypeId : a.typeId = ⟨first :: others⟩ := congrArg TypeId.mk hsegments
      have hlexemes : a.typeId.lexemes = typeIdLexemes first others := by
        rw [TypeId.lexemes, hsegments]
      rw [Definition.lexemes, hlexemes] at h
      obtain ⟨ms, p, hspelled, hvalues⟩ := exists_action h
      exact ⟨_, hspelled, htypeId.symm, hvalues⟩
  | marker m =>
      obtain ⟨ms, p, hspelled, hvalues⟩ := exists_marker h
      exact ⟨_, hspelled, rfl, hvalues⟩

/-- **Tokens with the lexemes of definitions** spell statements that state them one by one. -/
theorem SpellsFile.exists_states {ts : List Token} {xs : List Definition}
    (hxs : ∀ x ∈ xs, x.IsNamed) (h : ts.map Located.value = xs.flatMap Definition.lexemes) :
    ∃ sts, SpellsFile ts sts ∧ List.Forall₂ (fun st x => st.value.States x) sts xs := by
  induction xs generalizing ts with
  | nil =>
      obtain rfl : ts = [] := by simpa using h
      exact ⟨[], .nil, .nil⟩
  | cons x xs ih =>
      rw [List.forall_mem_cons] at hxs
      rw [List.flatMap_cons] at h
      obtain ⟨us, vs, rfl, hus, hvs⟩ := List.map_eq_append_iff.mp h
      obtain ⟨st, hst, hstates⟩ := SpellsStatement.exists_states hxs.1 hus
      obtain ⟨sts, hsts, hrest⟩ := ih hxs.2 hvs
      exact ⟨st :: sts, .cons hst hsts, .cons hstates hrest⟩

namespace Statement.States

variable {st : Statement} {x : Definition}

/-- A statement that states a definition is in order if the ports of the definition have different
names. -/
theorem inOrder (h : st.States x)
    (hnames : ∀ a, x = .action a → (a.ports.map PortDefinition.name).Nodup) : st.InOrder := by
  cases st <;> cases x
  case action.action typeId ms a =>
    obtain ⟨-, hvalues⟩ := h
    constructor
    · intro m hm
      have hmem : m.value ∈ a.members := hvalues ▸ List.mem_map_of_mem hm
      exact ActionDefinition.not_isBoundedFlow_of_mem_members hmem
    · rw [map_name_declaredPorts, hvalues, ActionDefinition.filterMap_port?_members, List.map_map]
      have hmap : a.ports.map (Port.name ∘ PortDefinition.port) = a.ports.map PortDefinition.name :=
        List.map_congr_left fun q _ => q.name_port
      rw [hmap]
      exact hnames a rfl
  case marker.marker => trivial
  case action.marker => exact h.elim
  case marker.action => exact h.elim

/-- **A statement that states a definition declares it**, up to lines. -/
theorem eraseLines_meaning (h : st.States x) (horder : st.InOrder) (line : Nat) :
    (st.meaning line).eraseLines = x.declaration := by
  cases st <;> cases x
  case action.action typeId ms a =>
    obtain ⟨rfl, hvalues⟩ := h
    have hports : (firstOfEach Port.name (declaredPorts ms)).map Port.eraseLine =
        a.ports.map PortDefinition.port := by
      rw [firstOfEach_eq_self horder.2, map_eraseLine_declaredPorts, hvalues,
        ActionDefinition.filterMap_port?_members]
    rw [meaning, Declaration.eraseLines, hports, ActionDefinition.ofMembers_eq hvalues]
    rfl
  case marker.marker name ms m =>
    obtain ⟨rfl, hvalues⟩ := h
    obtain ⟨hlabel, hgizmo⟩ := MarkerDefinition.lastOf_members hvalues
    rw [meaning, Declaration.eraseLines, hlabel, hgizmo]
    rfl
  case action.marker => exact h.elim
  case marker.action => exact h.elim

/-- Statements that state definitions one by one declare them, up to lines. -/
theorem map_eraseLines_meaning {sts : List (Located Statement)} {xs : List Definition}
    (h : List.Forall₂ (fun st x => st.value.States x) sts xs)
    (hnames : ∀ a, .action a ∈ xs → (a.ports.map PortDefinition.name).Nodup) :
    (∀ st ∈ sts, st.value.InOrder) ∧
      (sts.map fun st => st.value.meaning st.line).map Declaration.eraseLines =
        xs.map Definition.declaration := by
  induction h with
  | nil => exact ⟨List.forall_mem_nil _, rfl⟩
  | cons hst _ ih =>
      obtain ⟨horders, hrest⟩ := ih fun a ha => hnames a (List.mem_cons_of_mem _ ha)
      have horder := hst.inOrder fun a ha => hnames a (ha ▸ List.mem_cons_self)
      refine ⟨List.forall_mem_cons.mpr ⟨horder, horders⟩, ?_⟩
      rw [List.map_cons, List.map_cons, List.map_cons, hst.eraseLines_meaning horder, hrest]

end Statement.States

/-! ### Texts that can be read -/

/-- An optional part can be read if its value can. -/
theorem isReadable_optionLexemes {α : Type} {k : Keyword} {lexeme : α → Lexeme} {o : Option α}
    (h : ∀ a, o = some a → (lexeme a).IsReadable) :
    ∀ l ∈ optionLexemes k lexeme o, l.IsReadable := by
  cases o with
  | none => exact List.forall_mem_nil _
  | some a =>
      exact List.forall_mem_cons.mpr ⟨trivial, List.forall_mem_cons.mpr
        ⟨h a rfl, List.forall_mem_nil _⟩⟩

/-- Options can be read if the label can. -/
theorem PortOptions.isReadable_lexemes {label : Option String} (lo hi : Option Numeral)
    (h : ∀ l ∈ textLexemes label, l.IsReadable) :
    ∀ l ∈ PortOptions.lexemes ⟨label, lo, hi⟩, l.IsReadable := by
  simp only [lexemes, List.forall_mem_append]
  refine ⟨⟨isReadable_optionLexemes fun s hs => ?_, isReadable_optionLexemes fun _ _ => trivial⟩,
    isReadable_optionLexemes fun _ _ => trivial⟩
  exact h _ (mem_textLexemes.mpr ⟨s, hs, rfl⟩)

/-- A port can be written down if its names and texts can be read. -/
theorem PortDefinition.isReadable_member {q : PortDefinition}
    (h : ∀ l ∈ q.port.words, l.IsReadable) : ∀ l ∈ q.member.lexemes, l.IsReadable := by
  obtain ⟨name, label, const, role⟩ := q
  cases role with
  | flow =>
      have hwords := List.forall_mem_cons.mp h
      simp only [member, ActionMember.lexemes, List.forall_mem_cons]
      exact ⟨trivial, hwords.1, PortOptions.isReadable_lexemes none none hwords.2⟩
  | data type value lo hi =>
      simp only [port, Port.words, List.forall_mem_cons, List.forall_mem_append] at h
      obtain ⟨hname, ⟨htype, hvalue⟩, hlabel⟩ := h
      simp only [member, ActionMember.lexemes, List.forall_mem_cons, List.forall_mem_append]
      refine ⟨trivial, ?_, hname, ?_, PortOptions.isReadable_lexemes lo hi hlabel⟩
      · cases type with
        | custom typeName => exact htype _ List.mem_cons_self
        | _ => trivial
      · rcases value with _ | (n | text | _ | _)
        · exact List.forall_mem_nil _
        all_goals
          refine List.forall_mem_cons.mpr ⟨trivial, List.forall_mem_cons.mpr
            ⟨?_, List.forall_mem_nil _⟩⟩
        · trivial
        · exact hvalue _ (List.mem_flatMap.mpr ⟨.string text, List.mem_cons_self,
            List.mem_cons_self⟩)
        · trivial
        · trivial

/-- Fields can be written down if their texts can be read. -/
theorem Metadata.isReadable_members {m : Metadata} (h : ∀ l ∈ m.words, l.IsReadable) :
    ∀ x ∈ m.members, ∀ l ∈ x.lexemes, l.IsReadable := by
  have htext {s : String} (hs : Lexeme.string s ∈ m.words) (k : Keyword) :
      ∀ l ∈ [Lexeme.keyword k, .string s], l.IsReadable :=
    List.forall_mem_cons.mpr ⟨trivial, List.forall_mem_cons.mpr ⟨h _ hs, List.forall_mem_nil _⟩⟩
  intro x hx
  simp only [members, List.mem_append, Option.mem_toList, Option.map_eq_some_iff] at hx
  obtain (((⟨s, hs, rfl⟩ | ⟨s, hs, rfl⟩) | ⟨s, hs, rfl⟩) | ⟨c, -, rfl⟩) | ⟨kind, -, rfl⟩ := hx
  · exact htext (by simp [words, mem_textLexemes, hs]) _
  · exact htext (by simp [words, mem_textLexemes, hs]) _
  · exact htext (by simp [words, mem_textLexemes, hs]) _
  · simp [ActionMember.lexemes, Lexeme.IsReadable]
  · cases kind <;> simp [ActionMember.lexemes, DurationKind.lexeme, Lexeme.IsReadable]

/-- A gizmo can always be written down. -/
theorem Gizmo.isReadable_lexemes (g : Gizmo) : ∀ l ∈ g.lexemes, l.IsReadable := by
  obtain ⟨shape, _ | n⟩ := g <;> cases shape <;>
    simp [lexemes, GizmoShape.lexeme, parameterLexemes, Lexeme.IsReadable]

/-- A type id can be written if its segments can. -/
theorem TypeId.isReadable_lexemes {t : TypeId}
    (h : ∀ l ∈ t.segments.map Lexeme.ident, l.IsReadable) : ∀ l ∈ t.lexemes, l.IsReadable := by
  obtain ⟨_ | ⟨first, others⟩⟩ := t
  · exact List.forall_mem_nil _
  · rw [List.map_cons, List.forall_mem_cons] at h
    refine List.forall_mem_cons.mpr ⟨h.1, fun l hl => ?_⟩
    obtain ⟨name, hname, hl⟩ := List.mem_flatMap.mp hl
    obtain rfl | hl := List.mem_cons.mp hl
    · trivial
    · obtain rfl := List.mem_singleton.mp hl
      exact h.2 _ (List.mem_map_of_mem hname)

/-- **A definition can be written down** if its names and texts can be read. -/
theorem Definition.isReadable_lexemes {x : Definition}
    (h : ∀ l ∈ x.declaration.words, l.IsReadable) : ∀ l ∈ x.lexemes, l.IsReadable := by
  cases x with
  | action a =>
      simp only [declaration, Declaration.words, List.forall_mem_append] at h
      obtain ⟨⟨hids, hfields⟩, hports⟩ := h
      simp only [lexemes, List.forall_mem_cons, List.forall_mem_append]
      refine ⟨trivial, TypeId.isReadable_lexemes hids, trivial, ?_, trivial, List.forall_mem_nil _⟩
      intro l hl
      obtain ⟨m, hm, hl⟩ := List.mem_flatMap.mp hl
      obtain hfield | hport := List.mem_append.mp hm
      · exact Metadata.isReadable_members hfields m hfield l hl
      · obtain ⟨q, hq, rfl⟩ := List.mem_map.mp hport
        refine PortDefinition.isReadable_member (fun w hw => ?_) l hl
        exact hports w (List.mem_flatMap.mpr ⟨q.port, List.mem_map_of_mem hq, hw⟩)
  | marker m =>
      obtain ⟨hname, hlabel⟩ := List.forall_mem_cons.mp h
      simp only [lexemes, List.forall_mem_cons, List.forall_mem_append]
      refine ⟨trivial, hname, trivial, ?_, trivial, List.forall_mem_nil _⟩
      intro l hl
      obtain ⟨x, hx, hl⟩ := List.mem_flatMap.mp hl
      simp only [MarkerDefinition.members, List.mem_append, Option.mem_toList,
        Option.map_eq_some_iff] at hx
      obtain ⟨s, hs, rfl⟩ | ⟨g, -, rfl⟩ := hx
      · have htext := hlabel _ (mem_textLexemes.mpr ⟨s, hs, rfl⟩)
        obtain rfl | hl := List.mem_cons.mp hl
        · trivial
        · obtain rfl := List.mem_singleton.mp hl
          exact htext
      · obtain rfl | hl := List.mem_cons.mp hl
        · trivial
        · exact g.isReadable_lexemes l hl

end Defsheet

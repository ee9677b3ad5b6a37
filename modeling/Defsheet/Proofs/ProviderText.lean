import Defsheet.Proofs.Compiling
import Defsheet.Proofs.GeneratedText
import Defsheet.Proofs.Scanning

/-!
# What the file of action providers says

The file of action providers shows, of each action, its registration data. This module states what
that is as a record, `ActionView`, and shows that the text of the file and the records of the
actions determine each other. Nothing of the record is lost, although texts of every kind stand next
to one another on the lines: literals end where they say, numbers have no comma in them, and the
last call of a property is told from the others by its comma.

## Main definitions

* `PortView` and `ActionView` are what is shown of a port and of an action.

## Main results

* `propertyEntry_append_inj`: the entry of a property determines its calls.
* `actionProvider_append_inj`: a provider in front of other code determines what it shows.
* `Document.content_actionProviders_eq_iff`: the text of the file and what it shows determine each
  other.
-/

namespace Defsheet

/-! ### What is shown -/

/-- What is shown of the value that a port carries. -/
structure ValueView where
  type : PortType
  /-- The expression for the default. -/
  default : Option String
  min : Option String
  max : Option String
deriving DecidableEq

/-- What is shown of a port. A flow port carries no value. -/
structure PortView where
  name : String
  label : String
  value : Option ValueView
deriving DecidableEq

/-- What is shown of an action. -/
structure ActionView where
  providerConst : String
  typeId : String
  displayName : String
  category : String
  description : String
  /-- The literals for red, green and blue. -/
  color : String × String × String
  duration : DurationKind
  ports : List PortView
deriving DecidableEq

/-- What is shown of the value that a port carries. -/
def PortRole.view : PortRole → Option ValueView
  | flow => none
  | data type default min max =>
    some ⟨type, default.map (Literal.tagged type), min.map Numeral.floatLiteral,
      max.map Numeral.floatLiteral⟩

/-- What is shown of a port. -/
def PortDefinition.view (p : PortDefinition) : PortView := ⟨p.name, p.label, p.role.view⟩

/-- The literals for the parts of a color. -/
def Color.literals (c : Color) : String × String × String :=
  (c.red.floatLiteral, c.green.floatLiteral, c.blue.floatLiteral)

/-- What is shown of an action. A text that is absent is shown as the empty one, a color that is
absent as white, and an action takes no time unless it says so. -/
def ActionDefinition.view (a : ActionDefinition) : ActionView where
  providerConst := a.providerConst
  typeId := a.typeId.text
  displayName := a.displayName
  category := a.metadata.category.getD ""
  description := a.metadata.description.getD ""
  color := a.metadata.themeColor.elim ("1.0", "1.0", "1.0") Color.literals
  duration := a.metadata.duration.getD .instant
  ports := a.ports.map PortDefinition.view

/-! ### Numbers and colors -/

/-- What stands between a fixed beginning and a fixed end is determined by the whole. -/
theorem enclosed_inj {opening closing s t : String}
    (h : opening ++ s ++ closing = opening ++ t ++ closing) : s = t :=
  (String.append_right_inj _).mp ((String.append_left_inj _).mp h)

/-- A numeral consists of digits, a sign and a point. -/
theorem Numeral.not_mem_text {n : Numeral} {c : Char} (hdigit : c.isDigit = false) (hsign : c ≠ '-')
    (hpoint : c ≠ '.') : c ∉ n.text.toList := by
  have hdigits (ds : Digits) : c ∉ ds.spelling := by
    intro h
    obtain ⟨d, -, rfl⟩ := List.mem_map.mp h
    rw [Digit.isDigit_char] at hdigit
    cases hdigit
  rw [text, String.toList_ofList, spelling, List.mem_append, List.mem_append]
  rintro ((h | h) | h)
  · rw [signText] at h
    split at h
    · exact hsign (List.mem_singleton.mp h)
    · cases h
  · exact hdigits _ h
  · cases hfraction : n.fraction with
    | none =>
        rw [hfraction] at h
        cases h
    | some ds =>
        rw [hfraction] at h
        obtain rfl | h := List.mem_cons.mp h
        · exact hpoint rfl
        · exact hdigits ds h

/-- The literal of a float consists of digits, a minus and a point. -/
theorem Numeral.not_mem_floatLiteral {n : Numeral} {c : Char} (hdigit : c.isDigit = false)
    (hsign : c ≠ '-') (hpoint : c ≠ '.') : c ∉ n.floatLiteral.toList := by
  have hzero : c ≠ '0' := by
    rintro rfl
    cases hdigit
  have htext : c ∉ n.text.toList := not_mem_text hdigit hsign hpoint
  rw [floatLiteral]
  split
  · simp [htext, hpoint, hzero]
  · exact htext

/-- A number in front of a comma determines what is on either side. -/
theorem Numeral.floatLiteral_append_inj {n n' : Numeral} {u v : String}
    (h : n.floatLiteral ++ (", " ++ u) = n'.floatLiteral ++ (", " ++ v)) :
    n.floatLiteral = n'.floatLiteral ∧ u = v := by
  have hcomma (n : Numeral) : ∀ c ∈ n.floatLiteral.toList, c ≠ ',' := by
    rintro c hc rfl
    exact not_mem_floatLiteral rfl (by decide) (by decide) hc
  have hlist := congrArg String.toList h
  simp only [String.toList_append] at hlist
  obtain ⟨hn, -, hrest⟩ := append_stop_inj (hcomma n) (hcomma n') (not_not_intro rfl)
    (not_not_intro rfl) hlist
  exact ⟨String.toList_inj.mp hn, String.toList_inj.mp (List.cons.inj hrest).2⟩

/-- The color that stands for none. -/
def Color.white : Color :=
  let one : Numeral := ⟨false, ⟨.ofChar '1', []⟩, some ⟨.ofChar '0', []⟩⟩
  ⟨one, one, one⟩

/-- A color that is not set is shown as white. -/
theorem Color.elim_literal (color : Option Color) :
    color.elim defaultColor literal = (color.getD white).literal := by
  cases color with
  | none => decide
  | some c => rfl

/-- The parts of a color that is not set are those of white. -/
theorem Color.elim_literals (color : Option Color) :
    color.elim ("1.0", "1.0", "1.0") literals = (color.getD white).literals := by
  cases color with
  | none => decide
  | some c => rfl

/-- A color is shown in full. -/
theorem Color.literal_eq_iff {c c' : Color} :
    c.literal = c'.literal ↔ c.literals = c'.literals := by
  simp only [literals, Prod.mk.injEq]
  constructor
  · intro h
    simp only [literal, String.append_assoc, String.append_right_inj] at h
    obtain ⟨hred, h⟩ := Numeral.floatLiteral_append_inj h
    obtain ⟨hgreen, h⟩ := Numeral.floatLiteral_append_inj h
    exact ⟨hred, hgreen, (String.append_left_inj _).mp h⟩
  · rintro ⟨hred, hgreen, hblue⟩
    rw [literal, hred, hgreen, hblue, literal]

/-! ### Types and values -/

/-- Kinds of duration are shown by different names. -/
theorem DurationKind.variant_injective {d d' : DurationKind} (h : d.variant = d'.variant) :
    d = d' := by
  cases d <;> cases d' <;> simp_all [variant]

namespace PortType

theorem tag_custom (name : String) :
    (custom name).tag = "ValueType::Opaque(" ++ quote name ++ ")" := rfl

/-- A type is one of the four built in, or a custom one. -/
theorem custom_or_mem (t : PortType) :
    (∃ name, t = custom name) ∨ t ∈ [float, int, bool, string] := by
  cases t <;> simp

/-- The tag of a custom type is longer than all others. -/
theorem tag_custom_ne {name : String} {t : PortType} (ht : t ∈ [float, int, bool, string]) :
    (custom name).tag ≠ t.tag := by
  intro h
  have hshort : ∀ t ∈ [float, int, bool, string], t.tag.toList.length ≤ 16 := by decide
  have hlong : 18 < (custom name).tag.toList.length := by
    rw [tag_custom]
    simp
  have := hshort t ht
  rw [h] at hlong
  omega

/-- Types have tags of their own; in the tag of a custom type its name stands as a literal. -/
theorem tag_injective {t t' : PortType} (h : t.tag = t'.tag) : t = t' := by
  have hknown : ∀ t ∈ [float, int, bool, string], ∀ t' ∈ [float, int, bool, string],
      t.tag = t'.tag → t = t' := by decide
  rcases t.custom_or_mem with ⟨name, rfl⟩ | ht <;> rcases t'.custom_or_mem with ⟨name', rfl⟩ | ht'
  · rw [tag_custom, tag_custom] at h
    rw [quote_injective (enclosed_inj h)]
  · exact absurd h (tag_custom_ne ht')
  · exact absurd h.symm (tag_custom_ne ht)
  · exact hknown t ht t' ht' h

end PortType

/-! ### Properties -/

/-- Two lists that may begin with an item of some sort, and have none of it later, begin with the
same one or with none. -/
theorem option_append_inj {α : Type} {p : α → Prop} {x y : Option α} {r r' : List α}
    (hx : ∀ a ∈ x, p a) (hy : ∀ a ∈ y, p a) (hr : ∀ a ∈ r, ¬p a) (hr' : ∀ a ∈ r', ¬p a)
    (h : x.toList ++ r = y.toList ++ r') : x = y ∧ r = r' := by
  rcases x with - | a <;> rcases y with - | b
  · exact ⟨rfl, h⟩
  · rw [Option.toList_none, List.nil_append] at h
    exact absurd (hy b rfl) (hr b (h ▸ List.mem_cons_self))
  · rw [Option.toList_none, List.nil_append] at h
    exact absurd (hx a rfl) (hr' a (h ▸ List.mem_cons_self))
  · obtain ⟨rfl, rfl⟩ := List.cons.inj h
    exact ⟨rfl, rfl⟩

/-- So is an optional text. -/
theorem option_map_enclosed_inj {α β : Type} {x : Option α} {y : Option β} {f : α → String}
    {g : β → String} {opening closing : String}
    (h : (x.map fun a => opening ++ f a ++ closing) = y.map fun b => opening ++ g b ++ closing) :
    x.map f = y.map g := by
  rcases x with - | a <;> rcases y with - | b
  · rfl
  · cases h
  · cases h
  · exact congrArg some (enclosed_inj (Option.some.inj h))

/-- The calls of a property depend on what they set only. -/
theorem propertyCalls_eq (t : PortType) (d : Option Literal) (n m : Option Numeral) :
    propertyCalls t d n m =
      ((d.map (Literal.tagged t)).map fun s => ".with_default(" ++ s ++ ")").toList
        ++ ((n.map Numeral.floatLiteral).map fun s => ".with_min(" ++ s ++ ")").toList
        ++ ((m.map Numeral.floatLiteral).map fun s => ".with_max(" ++ s ++ ")").toList := by
  simp only [propertyCalls, Option.map_map, Function.comp_def]

/-- **The calls of a property** determine what they set. -/
theorem propertyCalls_inj {t t' : PortType} {d d' : Option Literal} {n n' m m' : Option Numeral}
    (h : propertyCalls t d n m = propertyCalls t' d' n' m') :
    d.map (Literal.tagged t) = d'.map (Literal.tagged t') ∧
      n.map Numeral.floatLiteral = n'.map Numeral.floatLiteral ∧
      m.map Numeral.floatLiteral = m'.map Numeral.floatLiteral := by
  -- The eighth character of a call tells which one it is.
  rw [propertyCalls, propertyCalls, List.append_assoc, List.append_assoc] at h
  obtain ⟨hdefault, h⟩ := option_append_inj (p := fun s => s.toList[7]? = some 'e')
    (by simp) (by simp) (by simp [or_imp, forall_and]) (by simp [or_imp, forall_and]) h
  obtain ⟨hmin, hmax⟩ := option_append_inj (p := fun s => s.toList[7]? = some 'i')
    (by simp) (by simp) (by simp) (by simp) h
  have hmax := congrArg List.head? hmax
  rw [Option.head?_toList, Option.head?_toList] at hmax
  exact ⟨option_map_enclosed_inj hdefault, option_map_enclosed_inj hmin,
    option_map_enclosed_inj hmax⟩

/-- No call ends with a comma. -/
theorem propertyCalls_ends {t : PortType} {d : Option Literal} {n m : Option Numeral} :
    ∀ s ∈ propertyCalls t d n m, s.toList.getLast? ≠ some ',' := by
  simp [propertyCalls, or_imp, forall_and, List.getLast?_cons]

/-- What a comma is put behind ends with it. -/
theorem append_comma_ends (s : String) : (s ++ ",").toList.getLast? = some ',' := by
  simp

/-- **The text with a comma is the last one**, so a list of texts can be told from the code that it
begins. -/
theorem commaAfterLast_append_inj {xs ys : List String} {f : String → CodeLine} {r r' : Code}
    (hf : ∀ s s', f s = f s' → s = s') (hxs : ∀ s ∈ xs, s.toList.getLast? ≠ some ',')
    (hys : ∀ s ∈ ys, s.toList.getLast? ≠ some ',') (hx : xs ≠ []) (hy : ys ≠ [])
    (h : (commaAfterLast xs).map f ++ r = (commaAfterLast ys).map f ++ r') :
    xs = ys ∧ r = r' := by
  induction xs generalizing ys with
  | nil => exact absurd rfl hx
  | cons x xs ih =>
      cases ys with
      | nil => exact absurd rfl hy
      | cons y ys =>
          obtain ⟨hxcomma, hxs⟩ := List.forall_mem_cons.mp hxs
          obtain ⟨hycomma, hys⟩ := List.forall_mem_cons.mp hys
          rcases xs with - | ⟨x', xs⟩ <;> rcases ys with - | ⟨y', ys⟩
          · obtain ⟨hhead, rfl⟩ := List.cons.inj h
            rw [(String.append_left_inj _).mp (hf _ _ hhead)]
            exact ⟨rfl, rfl⟩
          · obtain rfl := hf _ _ (List.cons.inj h).1
            exact absurd (append_comma_ends x) hycomma
          · obtain rfl := hf _ _ (List.cons.inj h).1
            exact absurd (append_comma_ends y) hxcomma
          · obtain ⟨hhead, htail⟩ := List.cons.inj h
            obtain ⟨htexts, hrest⟩ := ih hxs hys (List.cons_ne_nil _ _) (List.cons_ne_nil _ _) htail
            rw [hf _ _ hhead, htexts]
            exact ⟨rfl, hrest⟩

/-- An entry with calls has its head on a line of its own, without a comma. -/
theorem propertyEntry_cons (head c : String) (cs : List String) :
    Code.indent (Code.indent (propertyEntry head (c :: cs))) =
      ⟨2, head⟩ :: (commaAfterLast (c :: cs)).map (CodeLine.mk 3) := by
  simp [propertyEntry, commaAfterLast, Code.indent, Code.line]

/-- **The entry of a property** determines its calls, whatever code follows it. -/
theorem propertyEntry_append_inj {head : String} {calls calls' : List String} {r r' : Code}
    (hcalls : ∀ s ∈ calls, s.toList.getLast? ≠ some ',')
    (hcalls' : ∀ s ∈ calls', s.toList.getLast? ≠ some ',')
    (h : Code.indent (Code.indent (propertyEntry head calls)) ++ r =
      Code.indent (Code.indent (propertyEntry head calls')) ++ r') :
    calls = calls' ∧ r = r' := by
  have hcomma : head ++ "," ≠ head := by
    intro heq
    have hlength := congrArg (fun s => s.toList.length) heq
    simp at hlength
  have hnil : Code.indent (Code.indent (propertyEntry head [])) = [⟨2, head ++ ","⟩] := rfl
  rcases calls with - | ⟨c, cs⟩ <;> rcases calls' with - | ⟨c', cs'⟩
  · exact ⟨rfl, (List.cons.inj h).2⟩
  · rw [hnil, propertyEntry_cons] at h
    exact absurd (CodeLine.mk.inj (List.cons.inj h).1).2 hcomma
  · rw [hnil, propertyEntry_cons] at h
    exact absurd (CodeLine.mk.inj (List.cons.inj h).1).2.symm hcomma
  · rw [propertyEntry_cons, propertyEntry_cons] at h
    exact commaAfterLast_append_inj (fun _ _ heq => (CodeLine.mk.inj heq).2) hcalls hcalls'
      (List.cons_ne_nil _ _) (List.cons_ne_nil _ _) (List.cons.inj h).2

/-! ### Ports -/

/-- The type of the value that a port carries. -/
def PortRole.type? : PortRole → Option PortType
  | flow => none
  | data type _ _ _ => some type

/-- The type of a port is part of what is shown of it. -/
theorem PortRole.type?_eq (role : PortRole) : role.type? = role.view.map ValueView.type := by
  cases role <;> rfl

/-- Roles of the same type are both flow, or carry values of that type. -/
theorem PortRole.cases_of_type?_eq {x y : PortRole} (h : x.type? = y.type?) :
    (x = flow ∧ y = flow) ∨
      ∃ t d n m d' n' m', x = data t d n m ∧ y = data t d' n' m' := by
  rcases x with - | ⟨t, d, n, m⟩ <;> rcases y with - | ⟨t', d', n', m'⟩
  · exact .inl ⟨rfl, rfl⟩
  · cases h
  · cases h
  · obtain rfl : t = t' := Option.some.inj h
    exact .inr ⟨t, d, n, m, d', n', m', rfl, rfl⟩

variable {p q : PortDefinition}

/-- The text of the entry of a port. -/
theorem portEntry_eq (p : PortDefinition) :
    portEntry p = ⟨0, p.role.type?.elim
      ("PortDef::flow_out(" ++ quote p.name ++ ", " ++ quote p.label ++ "),") fun t =>
        "PortDef::data_in(" ++ quote p.name ++ ", " ++ quote p.label ++ ", " ++ t.tag ++ "),"⟩ := by
  obtain ⟨name, label, const, _ | _⟩ := p <;> rfl

/-- **The entry of a port** determines its name, its label and its type. -/
theorem portEntry_inj (h : portEntry p = portEntry q) :
    p.name = q.name ∧ p.label = q.label ∧ p.role.type? = q.role.type? := by
  rw [portEntry_eq, portEntry_eq, CodeLine.mk.injEq] at h
  obtain ⟨-, h⟩ := h
  -- The tenth character tells flow from data.
  have htenth := congrArg (fun s => s.toList[9]?) h
  generalize p.role.type? = x at h htenth ⊢
  generalize q.role.type? = y at h htenth ⊢
  rcases x with - | t <;> rcases y with - | t'
  · simp only [Option.elim_none, String.append_assoc, String.append_right_inj] at h
    obtain ⟨hname, h⟩ := quote_append_inj h
    obtain ⟨hlabel, -⟩ := quote_append_inj ((String.append_right_inj _).mp h)
    exact ⟨hname, hlabel, rfl⟩
  · simp at htenth
  · simp at htenth
  · simp only [Option.elim_some, String.append_assoc, String.append_right_inj] at h
    obtain ⟨hname, h⟩ := quote_append_inj h
    obtain ⟨hlabel, h⟩ := quote_append_inj ((String.append_right_inj _).mp h)
    rw [String.append_right_inj, String.append_left_inj] at h
    exact ⟨hname, hlabel, congrArg some (PortType.tag_injective h)⟩

/-- A flow port is no property. -/
theorem propertyCode_of_flow (h : p.role = .flow) : propertyCode p = [] := by
  rw [propertyCode, h]

/-- A data port is a property with a name, a label, a type, and calls for what is set. -/
theorem propertyCode_of_data {t : PortType} {d : Option Literal} {n m : Option Numeral}
    (h : p.role = .data t d n m) :
    propertyCode p = propertyEntry
      ("PropertyDef::new(" ++ quote p.name ++ ", " ++ quote p.label ++ ", " ++ t.tag ++ ")")
      (propertyCalls t d n m) := by
  rw [propertyCode, h]

/-- **The property of a port** determines what is shown of its value. -/
theorem propertyCode_append_inj {r r' : Code} (hentry : portEntry p = portEntry q)
    (h : Code.indent (Code.indent (propertyCode p)) ++ r =
      Code.indent (Code.indent (propertyCode q)) ++ r') : p.view = q.view ∧ r = r' := by
  obtain ⟨hname, hlabel, htype⟩ := portEntry_inj hentry
  rw [PortDefinition.view, PortDefinition.view, hname, hlabel]
  obtain ⟨hp, hq⟩ | ⟨t, d, n, m, d', n', m', hp, hq⟩ := PortRole.cases_of_type?_eq htype
  · rw [propertyCode_of_flow hp, propertyCode_of_flow hq] at h
    rw [hp, hq]
    exact ⟨rfl, h⟩
  · rw [propertyCode_of_data hp, propertyCode_of_data hq, hname, hlabel] at h
    obtain ⟨hcalls, hrest⟩ := propertyEntry_append_inj propertyCalls_ends propertyCalls_ends h
    obtain ⟨hdefault, hmin, hmax⟩ := propertyCalls_inj hcalls
    rw [hp, hq, PortRole.view, PortRole.view, hdefault, hmin, hmax]
    exact ⟨rfl, hrest⟩

/-- What is shown of a port determines its entry and its property. -/
theorem portEntry_and_propertyCode_of_view (h : p.view = q.view) :
    portEntry p = portEntry q ∧ propertyCode p = propertyCode q := by
  obtain ⟨hname, hlabel, hvalue⟩ := PortView.mk.inj h
  have htype : p.role.type? = q.role.type? := by
    rw [PortRole.type?_eq, PortRole.type?_eq, hvalue]
  constructor
  · rw [portEntry_eq, portEntry_eq, hname, hlabel, htype]
  · obtain ⟨hp, hq⟩ | ⟨t, d, n, m, d', n', m', hp, hq⟩ := PortRole.cases_of_type?_eq htype
    · rw [propertyCode_of_flow hp, propertyCode_of_flow hq]
    · rw [hp, hq] at hvalue
      obtain ⟨-, hdefault, hmin, hmax⟩ := ValueView.mk.inj (Option.some.inj hvalue)
      rw [propertyCode_of_data hp, propertyCode_of_data hq, hname, hlabel, propertyCalls_eq,
        hdefault, hmin, hmax, ← propertyCalls_eq]

variable {ps qs : List PortDefinition}

/-- The entries and the properties of ports determine what is shown of them. -/
theorem flatMap_propertyCode_append_inj {r r' : Code}
    (hentries : ps.map portEntry = qs.map portEntry)
    (h : Code.indent (Code.indent (ps.flatMap propertyCode)) ++ r =
      Code.indent (Code.indent (qs.flatMap propertyCode)) ++ r') :
    ps.map PortDefinition.view = qs.map PortDefinition.view ∧ r = r' := by
  induction ps generalizing qs with
  | nil =>
      obtain rfl : qs = [] := List.map_eq_nil_iff.mp hentries.symm
      exact ⟨rfl, h⟩
  | cons p ps ih =>
      cases qs with
      | nil => cases hentries
      | cons q qs =>
          rw [List.map_cons, List.map_cons, List.cons.injEq] at hentries
          simp only [Code.indent, List.flatMap_cons, List.map_append, List.append_assoc] at h
          obtain ⟨hview, h⟩ := propertyCode_append_inj hentries.1 h
          obtain ⟨hviews, hrest⟩ := ih hentries.2 h
          rw [List.map_cons, List.map_cons, hview, hviews]
          exact ⟨rfl, hrest⟩

/-- The tenth character of an entry tells whether the port carries a value. -/
theorem isData_eq (p : PortDefinition) :
    p.isData = ((portEntry p).text.toList[9]? == some 'd') := by
  obtain ⟨name, label, const, _ | _⟩ := p <;> simp [PortDefinition.isData, portEntry]

/-- Whether there are data ports can be seen in the entries of the ports. -/
theorem any_isData_eq (ps : List PortDefinition) :
    ps.any PortDefinition.isData =
      (ps.map portEntry).any fun l => l.text.toList[9]? == some 'd' := by
  rw [List.any_map]
  exact congrArg ps.any (funext isData_eq)

/-- Flow ports have no properties. -/
theorem flatMap_propertyCode_eq_nil (h : ¬ps.any PortDefinition.isData = true) :
    ps.flatMap propertyCode = [] := by
  refine List.flatMap_eq_nil_iff.mpr fun p hp => ?_
  cases hrole : p.role with
  | flow => exact propertyCode_of_flow hrole
  | data t d n m =>
      have hdata : p.isData = true := by rw [PortDefinition.isData, hrole]
      exact absurd (List.any_eq_true.mpr ⟨p, hp, hdata⟩) h

/-- **The list of properties** and the entries of the ports determine what is shown of the ports. -/
theorem propertiesCode_append_inj {r r' : Code} (hentries : ps.map portEntry = qs.map portEntry)
    (h : Code.indent (propertiesCode ps) ++ r = Code.indent (propertiesCode qs) ++ r') :
    ps.map PortDefinition.view = qs.map PortDefinition.view ∧ r = r' := by
  have hany : ps.any PortDefinition.isData = qs.any PortDefinition.isData := by
    rw [any_isData_eq, any_isData_eq, hentries]
  rw [propertiesCode, propertiesCode, hany] at h
  split at h
  · rw [Code.indent_bracketed, Code.indent_bracketed, List.cons_append, List.cons_append,
      List.append_assoc, List.append_assoc] at h
    obtain ⟨hviews, hrest⟩ := flatMap_propertyCode_append_inj hentries (List.cons.inj h).2
    exact ⟨hviews, (List.cons.inj hrest).2⟩
  · next hnone =>
    have hps := flatMap_propertyCode_eq_nil (hany.symm ▸ hnone)
    have hqs := flatMap_propertyCode_eq_nil hnone
    have hnil : Code.indent (Code.indent (ps.flatMap propertyCode)) ++ [] =
        Code.indent (Code.indent (qs.flatMap propertyCode)) ++ [] := by rw [hps, hqs]
    exact ⟨(flatMap_propertyCode_append_inj hentries hnil).1, (List.cons.inj h).2⟩

/-- What is shown of ports determines their entries and their properties. -/
theorem portEntries_and_propertiesCode_of_views
    (h : ps.map PortDefinition.view = qs.map PortDefinition.view) :
    ps.map portEntry = qs.map portEntry ∧ propertiesCode ps = propertiesCode qs := by
  have hports : ps.map portEntry = qs.map portEntry ∧
      ps.flatMap propertyCode = qs.flatMap propertyCode := by
    induction ps generalizing qs with
    | nil =>
        obtain rfl : qs = [] := List.map_eq_nil_iff.mp h.symm
        exact ⟨rfl, rfl⟩
    | cons p ps ih =>
        cases qs with
        | nil => cases h
        | cons q qs =>
            rw [List.map_cons, List.map_cons, List.cons.injEq] at h
            obtain ⟨hentry, hproperty⟩ := portEntry_and_propertyCode_of_view h.1
            obtain ⟨hentries, hproperties⟩ := ih h.2
            rw [List.map_cons, List.map_cons, List.flatMap_cons, List.flatMap_cons, hentry,
              hproperty, hentries, hproperties]
            exact ⟨rfl, rfl⟩
  refine ⟨hports.1, ?_⟩
  rw [propertiesCode, propertiesCode, any_isData_eq, any_isData_eq, hports.1, hports.2]

/-! ### Providers -/

variable {a b : ActionDefinition}

/-- The lines of a provider. -/
theorem actionProvider_eq (a : ActionDefinition) :
    actionProvider a =
      ⟨0, "/// `" ++ a.typeId.text ++ "`"⟩ ::
      ⟨0, "pub const " ++ a.providerConst ++ ": ActionProvider = ActionProvider" ++ " \x7b"⟩ ::
      ⟨1, "type_id: " ++ quote a.typeId.text ++ ","⟩ ::
      ⟨1, "display_name: " ++ quote a.displayName ++ ","⟩ ::
      ⟨1, "category: " ++ quote (a.metadata.category.getD "") ++ ","⟩ ::
      ⟨1, "description: " ++ quote (a.metadata.description.getD "") ++ ","⟩ ::
      ⟨1, "theme_color: " ++ (a.metadata.themeColor.getD .white).literal ++ ","⟩ ::
      ⟨1, "duration: DurationKind::" ++ (a.metadata.duration.getD .instant).variant ++ ","⟩ ::
      ⟨1, "ports: &["⟩ ::
      (Code.indent (Code.indent (implicitPortEntries ++ a.ports.map portEntry)) ++
        ⟨1, "],"⟩ :: (Code.indent (propertiesCode a.ports) ++
          [⟨1, "scene_requirements: &[],"⟩, ⟨0, "\x7d;"⟩])) := by
  simp [actionProvider, Code.block, Code.bracketed, providerFields, Code.indent, Code.line,
    Color.elim_literal]

/-- The entries of the ports end with the line that closes their list. -/
theorem portEntries_append_inj {r r' : Code} {closing : String}
    (h : Code.indent (Code.indent (implicitPortEntries ++ ps.map portEntry)) ++ ⟨1, closing⟩ :: r =
      Code.indent (Code.indent (implicitPortEntries ++ qs.map portEntry)) ++ ⟨1, closing⟩ :: r') :
    ps.map portEntry = qs.map portEntry ∧ r = r' := by
  have hdepth (ps : List PortDefinition) :
      ∀ l ∈ Code.indent (Code.indent (implicitPortEntries ++ ps.map portEntry)), l.depth = 2 := by
    simp [Code.indent, implicitPortEntries, portEntry_eq]
  obtain ⟨hentries, -, hrest⟩ :=
    append_stop_inj (p := (·.depth = 2)) (hdepth ps) (hdepth qs) (by simp) (by simp) h
  exact ⟨List.append_cancel_left (Code.indent_injective (Code.indent_injective hentries)), hrest⟩

/-- **A provider** in front of other code determines what it shows. -/
theorem actionProvider_append_inj {r r' : Code}
    (h : actionProvider a ++ r = actionProvider b ++ r') : a.view = b.view ∧ r = r' := by
  rw [actionProvider_eq, actionProvider_eq] at h
  simp only [List.cons_append, List.append_assoc, List.cons.injEq, CodeLine.mk.injEq,
    true_and] at h
  obtain ⟨-, hconst, htypeId, hname, hcategory, hdescription, hcolor, hduration, h⟩ := h
  obtain ⟨hentries, h⟩ := portEntries_append_inj h
  obtain ⟨hports, h⟩ := propertiesCode_append_inj hentries h
  refine ⟨?_, (List.cons.inj (List.cons.inj h).2).2⟩
  simp only [ActionDefinition.view, Color.elim_literals, ActionView.mk.injEq]
  exact ⟨enclosed_inj ((String.append_left_inj _).mp hconst),
    quote_injective (enclosed_inj htypeId), quote_injective (enclosed_inj hname),
    quote_injective (enclosed_inj hcategory), quote_injective (enclosed_inj hdescription),
    Color.literal_eq_iff.mp (enclosed_inj hcolor),
    DurationKind.variant_injective (enclosed_inj hduration), hports⟩

/-- What is shown of an action determines its provider. -/
theorem actionProvider_eq_of_view (h : a.view = b.view) : actionProvider a = actionProvider b := by
  simp only [ActionDefinition.view, Color.elim_literals, ActionView.mk.injEq] at h
  obtain ⟨hconst, htypeId, hname, hcategory, hdescription, hcolor, hduration, hports⟩ := h
  obtain ⟨hentries, hproperties⟩ := portEntries_and_propertiesCode_of_views hports
  rw [actionProvider_eq, actionProvider_eq, hconst, htypeId, hname, hcategory, hdescription,
    Color.literal_eq_iff.mpr hcolor, hduration, hentries, hproperties]

/-- **The providers of actions** and what they show determine each other. -/
theorem flatMap_actionProvider_eq_iff {as bs : List ActionDefinition} :
    ((as.flatMap fun a => Code.gap :: actionProvider a) =
        bs.flatMap fun b => Code.gap :: actionProvider b) ↔
      as.map ActionDefinition.view = bs.map ActionDefinition.view := by
  induction as generalizing bs with
  | nil => cases bs <;> simp
  | cons a as ih =>
      cases bs with
      | nil => simp
      | cons b bs =>
          rw [List.flatMap_cons, List.flatMap_cons, List.map_cons, List.map_cons, List.cons.injEq,
            List.cons_append, List.cons_append, List.cons.injEq, ← ih]
          constructor
          · rintro ⟨-, h⟩
            exact actionProvider_append_inj h
          · rintro ⟨hview, hrest⟩
            exact ⟨rfl, by rw [actionProvider_eq_of_view hview, hrest]⟩

/-! ### Lines -/

/-- The literal of a float stays on one line. -/
theorem Numeral.lineFeed_not_mem_floatLiteral (n : Numeral) : '\n' ∉ n.floatLiteral.toList :=
  not_mem_floatLiteral rfl (by decide) (by decide)

/-- So does the literal of a color. -/
theorem Color.lineFeed_not_mem_literal (c : Color) : '\n' ∉ c.literal.toList := by
  simp [literal, Numeral.lineFeed_not_mem_floatLiteral]

/-- So does a kind of duration. -/
theorem DurationKind.lineFeed_not_mem_variant (d : DurationKind) : '\n' ∉ d.variant.toList := by
  cases d <;> decide

/-- So does the tag of a type. -/
theorem PortType.lineFeed_not_mem_tag (t : PortType) : '\n' ∉ t.tag.toList := by
  rcases t.custom_or_mem with ⟨name, rfl⟩ | ht
  · simp [tag_custom]
  · revert t
    decide

/-- So does a tagged default. -/
theorem Literal.lineFeed_not_mem_tagged (t : PortType) (v : Literal) :
    '\n' ∉ (v.tagged t).toList := by
  cases v with
  | number n =>
      have htext : '\n' ∉ n.text.toList := Numeral.not_mem_text rfl (by decide) (by decide)
      rw [tagged]
      split
      · simpa using htext
      · simpa using n.lineFeed_not_mem_floatLiteral
  | string s => simp [tagged]
  | bool v => cases v <;> simp [tagged, boolText]

/-- A line inside a provider: it is firm, and it declares nothing that others can see. -/
structure IsInner (s : String) : Prop where
  isFirm : IsFirm s
  notPublic : ¬"pub ".toList <+: s.toList

/-- What makes an inner line, as one condition. -/
theorem isInner_iff {s : String} : IsInner s ↔ IsFirm s ∧ ¬"pub ".toList <+: s.toList := by
  constructor
  · rintro ⟨hfirm, hpublic⟩
    exact ⟨hfirm, hpublic⟩
  · rintro ⟨hfirm, hpublic⟩
    exact ⟨hfirm, hpublic⟩

/-- The entry of a port is an inner line. -/
theorem isInner_portEntry (p : PortDefinition) : IsInner (portEntry p).text := by
  rw [portEntry_eq]
  rcases p.role.type? with - | t
  · simp [isInner_iff, isFirm_iff, List.getLast?_cons]
  · simp [isInner_iff, isFirm_iff, List.getLast?_cons, t.lineFeed_not_mem_tag]

/-- So is each call, with a comma or without. -/
theorem isInner_of_mem_propertyCalls {t : PortType} {d : Option Literal} {n m : Option Numeral} :
    ∀ s ∈ propertyCalls t d n m, IsInner s ∧ IsInner (s ++ ",") := by
  simp [propertyCalls, or_imp, forall_and, isInner_iff, isFirm_iff, List.getLast?_cons,
    Literal.lineFeed_not_mem_tagged, Numeral.lineFeed_not_mem_floatLiteral]

/-- What holds of texts with a comma and without holds when the last one gets a comma. -/
theorem forall_mem_commaAfterLast {P : String → Prop} {ss : List String}
    (h : ∀ s ∈ ss, P s ∧ P (s ++ ",")) : ∀ s ∈ commaAfterLast ss, P s := by
  fun_induction commaAfterLast ss with
  | case1 => exact List.forall_mem_nil _
  | case2 s => exact List.forall_mem_singleton.mpr (h s List.mem_cons_self).2
  | case3 s ss _ ih =>
      rw [List.forall_mem_cons] at h ⊢
      exact ⟨h.1.1, ih h.2⟩

/-- An entry has its head and its calls for lines, the last of them with a comma. -/
theorem allTexts_propertyEntry {P : String → Prop} {head : String} {calls : List String}
    (h : ∀ s ∈ head :: calls, P s ∧ P (s ++ ",")) : Code.AllTexts P (propertyEntry head calls) := by
  have hlines := forall_mem_commaAfterLast h
  rw [propertyEntry]
  split
  · exact Code.allTexts_nil
  · next first rest heq =>
    rw [heq, List.forall_mem_cons] at hlines
    rw [Code.allTexts_cons_iff, Code.allTexts_indent_iff]
    refine ⟨hlines.1, fun l hl => ?_⟩
    obtain ⟨s, hs, rfl⟩ := List.mem_map.mp hl
    exact hlines.2 s hs

/-- The lines of a property are inner lines. -/
theorem allTexts_propertyCode (p : PortDefinition) : Code.AllTexts IsInner (propertyCode p) := by
  cases hp : p.role with
  | flow =>
      rw [propertyCode_of_flow hp]
      exact Code.allTexts_nil
  | data t d n m =>
      rw [propertyCode_of_data hp]
      refine allTexts_propertyEntry (List.forall_mem_cons.mpr ⟨?_, isInner_of_mem_propertyCalls⟩)
      simp [isInner_iff, isFirm_iff, List.getLast?_cons, t.lineFeed_not_mem_tag]

/-- So are the lines of all properties. -/
theorem allTexts_propertiesCode (ps : List PortDefinition) :
    Code.AllTexts IsInner (propertiesCode ps) := by
  rw [propertiesCode]
  split
  · refine Code.allTexts_bracketed_iff.mpr ⟨?_, .flatMap allTexts_propertyCode, ?_⟩
    · simp [isInner_iff, isFirm_iff]
    · simp [isInner_iff, isFirm_iff]
  · simp [Code.line, isInner_iff, isFirm_iff]

/-- **The fields of a provider** stay inside it, as they are literals for the most part. -/
theorem allTexts_providerFields (a : ActionDefinition) :
    Code.AllTexts IsInner (providerFields a) := by
  have hcolor := (a.metadata.themeColor.getD .white).lineFeed_not_mem_literal
  have hduration := (a.metadata.duration.getD .instant).lineFeed_not_mem_variant
  simp only [providerFields, Color.elim_literal, Code.allTexts_append_iff, Code.allTexts_cons_iff,
    Code.allTexts_bracketed_iff]
  refine ⟨⟨⟨⟨?_, ?_, ?_, ?_, ?_, ?_, Code.allTexts_nil⟩, ?_, ⟨?_, .map isInner_portEntry⟩, ?_⟩,
    allTexts_propertiesCode a.ports⟩, ?_, Code.allTexts_nil⟩
  all_goals simp [Code.line, implicitPortEntries, isInner_iff, isFirm_iff, List.getLast?_cons,
    hcolor, hduration]

/-- The lines of a provider are firm. -/
theorem allTexts_actionProvider (htypeId : '\n' ∉ a.typeId.text.toList)
    (hconst : '\n' ∉ a.providerConst.toList) : Code.AllTexts IsFirm (actionProvider a) := by
  have hfields : Code.AllTexts IsFirm (providerFields a) :=
    fun l hl => (allTexts_providerFields a l hl).isFirm
  rw [actionProvider, Code.block, Code.allTexts_cons_iff, Code.allTexts_bracketed_iff]
  refine ⟨?_, ?_, hfields, ?_⟩
  · simp [Code.line, isFirm_iff, List.getLast?_cons, htypeId]
  · simp [isFirm_iff, List.getLast?_cons, hconst]
  · simp [isFirm_iff]

/-! ### Files -/

/-- The providers of a document are tidy, whatever its text. -/
theorem Document.isTidy_actionProviders (d : Document) (o : Options) :
    Code.IsTidy ((Definition.actions (d.resolve o).definitions).flatMap fun a =>
      Code.gap :: actionProvider a) := by
  intro l hl
  obtain ⟨a, ha, hl⟩ := List.mem_flatMap.mp hl
  have ha := Definition.mem_actions_iff.mp ha
  obtain rfl | hl := List.mem_cons.mp hl
  · exact .inl rfl
  · exact .inr (allTexts_actionProvider (isUnbroken_id ha).1
      (isIdent_of_action ha).isUnbroken.1 l hl)

/-- Files of action providers have the same text exactly if they show the same. -/
theorem actionProviders_content_eq_iff {c : Context} {as bs : List ActionDefinition}
    (has : Code.IsTidy (as.flatMap fun a => Code.gap :: actionProvider a))
    (hbs : Code.IsTidy (bs.flatMap fun b => Code.gap :: actionProvider b)) :
    (Artifact.of? .actionProviders c as (actionProvidersCode c)).map Artifact.content =
        (Artifact.of? .actionProviders c bs (actionProvidersCode c)).map Artifact.content ↔
      as.map ActionDefinition.view = bs.map ActionDefinition.view := by
  rcases as with - | ⟨a, as⟩ <;> rcases bs with - | ⟨b, bs⟩
  · exact iff_of_true rfl rfl
  · exact iff_of_false (by simp [Artifact.of?]) (by simp)
  · exact iff_of_false (by simp [Artifact.of?]) (by simp)
  · rw [← flatMap_actionProvider_eq_iff]
    constructor
    · intro h
      exact Code.render_inj has hbs (Option.some.inj h)
    · intro h
      simp only [Artifact.of?, actionProvidersCode, h]
      rfl

/-- **The text of the file of action providers determines its data.** Whatever two documents say,
their files of action providers, if any, have the same text exactly if the actions that are left of
them show the same: as many actions, and of each of them the same constant, type id, name, category,
description, color and duration, and the same ports in the same order, with the same types, defaults
and bounds. -/
theorem Document.content_actionProviders_eq_iff (c : Context) (d d' : Document) :
    (artifact? c (d.resolve c.options).definitions .actionProviders).map Artifact.content =
        (artifact? c (d'.resolve c.options).definitions .actionProviders).map Artifact.content ↔
      (Definition.actions (d.resolve c.options).definitions).map ActionDefinition.view =
        (Definition.actions (d'.resolve c.options).definitions).map ActionDefinition.view :=
  actionProviders_content_eq_iff (d.isTidy_actionProviders _) (d'.isTidy_actionProviders _)

end Defsheet

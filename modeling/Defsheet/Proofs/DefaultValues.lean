import Defsheet.Proofs.Compiling
import Defsheet.Proofs.DecimalTexts
import Defsheet.Proofs.InOrder
import Defsheet.Proofs.ProviderText

/-!
# Default values

The default of a port is written twice: bare in the file of port keys, and wrapped in the file of
action providers. Both texts are read here by rules of their own (`Denotes`), which know the
literals of each type and nothing of how they are written. A default that is kept has the same
literal in both files, and the literal denotes what is written in the document, because only values
of the port's type are kept.

## Main results

* `Denotes.unique`: a literal denotes one value.
* `Literal.exists_denotes_bare` and `Literal.tagged_eq`: what is written for a value that a type
  admits.
* `Document.exists_source_of_mem`: a port comes from one that the text spells out.
* `Document.compile_writes_defaults`: the defaults in the generated files of a document.
-/

namespace Defsheet

/-! ### Literals of generated code -/

/-- The values of ports. -/
inductive Datum where
  | float (x : ℚ)
  | int (i : ℤ)
  | bool (b : Bool)
  | string (text : String)

/-- The literals of each type, and what they denote. A floating-point literal has a point, an
integer literal has none and denotes an integer of 32 bits. A string literal is decoded to its end.
A type that the user supplies has no literals. -/
inductive Denotes : PortType → List Char → Datum → Prop
  | float {cs : List Char} {x : ℚ} : IsFloatText cs → decimal? cs = some x →
      Denotes .float cs (.float x)
  | int {cs : List Char} {i : ℤ} : '.' ∉ cs → decimal? cs = some (i : ℚ) → -2 ^ 31 ≤ i →
      i ≤ 2 ^ 31 - 1 → Denotes .int cs (.int i)
  | trueWord : Denotes .bool ['t', 'r', 'u', 'e'] (.bool true)
  | falseWord : Denotes .bool ['f', 'a', 'l', 's', 'e'] (.bool false)
  | string {cs : List Char} {text : String} : decode? cs = some (text, []) →
      Denotes .string cs (.string text)

/-- **A literal denotes one value.** -/
theorem Denotes.unique {type : PortType} {cs : List Char} {x y : Datum} (hx : Denotes type cs x)
    (hy : Denotes type cs y) : x = y := by
  cases hx with
  | float _ hx =>
      cases hy with
      | float _ hy => rw [Option.some.inj (hx.symm.trans hy)]
  | int _ hx =>
      cases hy with
      | int _ hy => rw [Int.cast_inj.mp (Option.some.inj (hx.symm.trans hy))]
  | trueWord =>
      cases hy with
      | trueWord => rfl
  | falseWord =>
      cases hy with
      | falseWord => rfl
  | string hx =>
      cases hy with
      | string hy => rw [(Prod.mk.inj (Option.some.inj (hx.symm.trans hy))).1]

/-! ### Literals of documents -/

/-- The value of a literal in a document. A number can be meant as a fraction or as an integer. -/
inductive Literal.Means : Literal → Datum → Prop
  | float {n : Numeral} {x : ℚ} : decimal? n.text.toList = some x → Means (.number n) (.float x)
  | int {n : Numeral} {i : ℤ} : decimal? n.text.toList = some (i : ℚ) → Means (.number n) (.int i)
  | bool (b : Bool) : Means (.bool b) (.bool b)
  | string (text : String) : Means (.string text) (.string text)

/-- The literal is no value of an `int` port: it is no number, has a point, or denotes an integer
that does not have 32 bits. -/
def Literal.MisfitsInt : Literal → Prop
  | .number n => '.' ∈ n.text.toList ∨
    ∃ i : ℤ, decimal? n.text.toList = some (i : ℚ) ∧ (i < -2 ^ 31 ∨ 2 ^ 31 - 1 < i)
  | _ => True

/-- An integer port turns down exactly the literals that are no integers of 32 bits. -/
theorem PortType.admits_int_eq_false_iff {v : Literal} :
    PortType.int.admits v = false ↔ v.MisfitsInt := by
  cases v with
  | number n => exact Numeral.fitsInt_eq_false_iff
  | _ => exact iff_of_true rfl trivial

/-- A value is lost if it does not pass. -/
theorem filter_some_eq_none_iff {α : Type} {p : α → Bool} {a : α} :
    (some a).filter p = none ↔ p a = false := by
  rw [Option.filter_eq_none_iff]
  simp

/-- The values of a type: numbers, truth values or texts. A type that the user supplies has none. -/
theorem PortType.admits_cases {type : PortType} {v : Literal} (h : type.admits v = true) :
    (type = .float ∧ ∃ n, v = .number n) ∨ (type = .int ∧ ∃ n, v = .number n ∧ n.fitsInt = true) ∨
      (type = .bool ∧ ∃ b, v = .bool b) ∨ (type = .string ∧ ∃ text, v = .string text) := by
  cases type with
  | float =>
      cases v with
      | number n => exact .inl ⟨rfl, n, rfl⟩
      | _ => cases h
  | int =>
      cases v with
      | number n => exact .inr (.inl ⟨rfl, n, rfl, h⟩)
      | _ => cases h
  | bool =>
      cases v with
      | bool b => exact .inr (.inr (.inl ⟨rfl, b, rfl⟩))
      | _ => cases h
  | string =>
      cases v with
      | string text => exact .inr (.inr (.inr ⟨rfl, text, rfl⟩))
      | _ => cases h
  | custom name => cases v <;> cases h

/-- A value between the parentheses of the run-time tag of its type. -/
def PortType.wrapped : PortType → String → String
  | .float, text => "Value::Float(" ++ text ++ ")"
  | .int, text => "Value::Int(" ++ text ++ ")"
  | .bool, text => "Value::Bool(" ++ text ++ ")"
  | .string, text => "Value::Str(" ++ text ++ ")"
  | .custom _, text => text

/-- **What is written for a value of a type** is a literal of the type and denotes the value. -/
theorem Literal.exists_denotes_bare {type : PortType} {v : Literal} (h : type.admits v = true) :
    ∃ x, Denotes type (v.bare type).toList x ∧ v.Means x := by
  obtain ⟨rfl, n, rfl⟩ | ⟨rfl, n, rfl, hfits⟩ | ⟨rfl, b, rfl⟩ | ⟨rfl, text, rfl⟩ :=
    PortType.admits_cases h
  · exact ⟨.float n.exact, .float n.isFloatText_floatLiteral n.decimal?_floatLiteral,
      .float n.decimal?_text⟩
  · obtain ⟨hpoint, i, hi, hlo, hhi⟩ := Numeral.fitsInt_iff.mp hfits
    exact ⟨.int i, .int hpoint hi hlo hhi, .int hi⟩
  · cases b
    · exact ⟨.bool false, .falseWord, .bool false⟩
    · exact ⟨.bool true, .trueWord, .bool true⟩
  · refine ⟨.string text, .string ?_, .string text⟩
    have hdecode := decode?_quote_append text []
    rwa [List.append_nil] at hdecode

/-- The wrapped value holds the same literal. -/
theorem Literal.tagged_eq {type : PortType} {v : Literal} (h : type.admits v = true) :
    v.tagged type = type.wrapped (v.bare type) := by
  obtain ⟨rfl, n, rfl⟩ | ⟨rfl, n, rfl, -⟩ | ⟨rfl, b, rfl⟩ | ⟨rfl, text, rfl⟩ :=
    PortType.admits_cases h <;> rfl

/-! ### Ports of the text -/

/-- The lexemes that spell a data port. -/
def DataPort.lexemes (q : DataPort) : List Lexeme :=
  (ActionMember.dataPort q.type q.name q.default ⟨q.label, q.min, q.max⟩).lexemes

/-- A member that declares a data port spells it. -/
theorem ActionMember.lexemes_eq_of_port? {m : ActionMember} {line : Nat} {q : DataPort}
    (h : m.port? line = some (.data q)) : m.lexemes = q.lexemes := by
  cases m with
  | dataPort type name default options =>
      obtain rfl := Port.data.inj (Option.some.inj h)
      rfl
  | flowPort name options => cases h
  | _ => cases h

/-- A statement spells out the data ports that it declares. -/
theorem SpellsStatement.infix_of_mem_ports {ts : List Token} {st : Located Statement} {line : Nat}
    {b : ActionDecl} {q : DataPort} (h : SpellsStatement ts st)
    (hb : st.value.meaning line = .action b) (hq : .data q ∈ b.ports) :
    q.lexemes <:+: ts.map Located.value := by
  cases h with
  | @action p _ _ head body first others members hhead hbody =>
      obtain rfl := Declaration.action.inj hb
      obtain ⟨m, hm, hport⟩ := List.mem_filterMap.mp ((firstOfEach_sublist _).subset hq)
      have hmember := List.infix_of_mem_flatten
        (List.mem_map_of_mem (f := fun m : Located ActionMember => m.value.lexemes) hm)
      rw [← List.flatMap_def, ← hbody.map_value, ActionMember.lexemes_eq_of_port? hport] at hmember
      refine hmember.trans (List.IsInfix.map _ ?_)
      exact ((List.prefix_append _ _).isInfix.trans (List.suffix_cons _ _).isInfix).trans
        ((List.suffix_append _ _).isInfix.trans (List.suffix_cons _ _).isInfix)
  | marker hbody => cases hb

namespace Document

variable {d : Document} {o : Options} {a : ActionDefinition} {p : PortDefinition} {type : PortType}
  {default : Option Literal} {min max : Option Numeral}

/-- An action with the type id declares the data port, and the text spells it out. -/
structure Declares (d : Document) (o : Options) (id : TypeId) (q : DataPort) : Prop where
  declared : ∃ b, .action b ∈ d.declarations o ∧ b.typeId = id ∧ .data q ∈ b.ports
  spelled : q.lexemes <:+: (Scan.ofText d.text).tokens.map Located.value

/-- **A data port comes from one that the text spells out.** It has the values that its type
admits. -/
theorem exists_source_of_mem (ha : .action a ∈ (d.resolve o).definitions) (hp : p ∈ a.ports)
    (hrole : p.role = .data type default min max) :
    ∃ q, d.Declares o a.typeId q ∧ q.name = p.name ∧ q.type = type ∧
      default = q.default.filter type.admits ∧ min = q.min.filter type.admitsNumber ∧
      max = q.max.filter type.admitsNumber := by
  obtain ⟨decl, hdecl, hfrom⟩ := resolvedFrom_of_mem ha
  cases decl with
  | marker m => exact hfrom.realizes.elim
  | action b =>
      rw [hfrom.ports a b rfl rfl] at hp
      obtain ⟨port, hport, hresolved⟩ := exists_port_of_mem_resolvePorts hp
      cases port with
      | flow q =>
          rw [PortDefinition.ofPort?, PortDefinition.ofFlow?] at hresolved
          split at hresolved
          · cases hresolved
          · obtain rfl := Option.some.inj hresolved
            cases hrole
      | data q =>
          obtain ⟨-, -, rfl⟩ := PortDefinition.ofData?_eq_some_iff.mp hresolved
          obtain ⟨rfl, rfl, rfl, rfl⟩ := PortRole.data.inj hrole
          obtain ⟨ts, st, hspelled, hmeaning, hwithin, -⟩ := Outline.exists_spelled_of_mem hdecl
          refine ⟨q, ⟨⟨b, hdecl, hfrom.realizes.1.symm, hport⟩, ?_⟩, rfl, rfl, rfl, rfl, rfl⟩
          exact (hspelled.infix_of_mem_ports hmeaning hport).trans (hwithin.map _)

end Document

/-! ### Lines of generated code -/

/-- The line of a key with a default. -/
def keyLine (typesPath : String) (p : PortDefinition) (type : PortType) (text : String) : String :=
  "pub const " ++ p.const ++ ": TypedKey<" ++ type.typeArgument typesPath ++ "> = "
    ++ ("TypedKey::new(" ++ quote p.name ++ ")" ++ (".with_default(" ++ text ++ ")")) ++ ";"

/-- The first line of a property. -/
def propertyHead (p : PortDefinition) (type : PortType) : String :=
  "PropertyDef::new(" ++ quote p.name ++ ", " ++ quote p.label ++ ", " ++ type.tag ++ ")"

namespace Code

/-- An indentation leaves the texts of lines as they are. -/
theorem map_text_indent (code : Code) :
    (indent code).map CodeLine.text = code.map CodeLine.text := by
  rw [indent, List.map_map]
  rfl

/-- What is enclosed stands between the enclosing lines. -/
theorem infix_bracketed (opening : String) (code : Code) (closing : String) :
    code.map CodeLine.text <:+: (bracketed opening code closing).map CodeLine.text := by
  rw [bracketed, List.map_cons, List.map_append, map_text_indent]
  exact (List.prefix_append _ _).isInfix.trans (List.suffix_cons _ _).isInfix

end Code

section

variable {a : ActionDefinition} {p : PortDefinition} {type : PortType} {v : Literal}
  {min max : Option Numeral}

/-- **The key of a port** shows its default. -/
theorem keyLine_mem_portKeysModule (o : Options) (hp : p ∈ a.ports)
    (hrole : p.role = .data type (some v) min max) :
    keyLine o.typesPath p type (v.bare type) ∈ (portKeysModule o a).map CodeLine.text := by
  have hline : (portKeyLine o.typesPath p).text = keyLine o.typesPath p type (v.bare type) := by
    obtain ⟨name, label, const, role⟩ := p
    cases hrole
    rfl
  rw [portKeysModule, List.map_cons]
  refine List.mem_cons_of_mem _ ((Code.infix_bracketed _ _ _).subset ?_)
  rw [List.map_append]
  exact List.mem_append_right _ (List.mem_map.mpr ⟨_, List.mem_map_of_mem hp, hline⟩)

/-- A call is written as it is, or with a comma if it is the last one. -/
theorem exists_commaAfterLast_cons (call : String) (calls : List String) :
    ∃ ending rest, (ending = "" ∨ ending = ",") ∧
      commaAfterLast (call :: calls) = (call ++ ending) :: rest := by
  cases calls with
  | nil => exact ⟨",", [], .inr rfl, rfl⟩
  | cons next calls =>
      refine ⟨"", commaAfterLast (next :: calls), .inl rfl, ?_⟩
      simp [commaAfterLast]

/-- **The property of a port** shows its default. A comma follows if nothing else is known of the
property. -/
theorem exists_infix_propertyCode (hrole : p.role = .data type (some v) min max) :
    ∃ ending, (ending = "" ∨ ending = ",") ∧
      [propertyHead p type, ".with_default(" ++ v.tagged type ++ ")" ++ ending] <:+:
        (propertyCode p).map CodeLine.text := by
  obtain ⟨ending, rest, hending, hcalls⟩ :=
    exists_commaAfterLast_cons (".with_default(" ++ v.tagged type ++ ")")
      ((min.map fun n => ".with_min(" ++ n.floatLiteral ++ ")").toList
        ++ (max.map fun n => ".with_max(" ++ n.floatLiteral ++ ")").toList)
  refine ⟨ending, hending, List.IsPrefix.isInfix ⟨rest, ?_⟩⟩
  have hentry (head call : String) (calls : List String) :
      (propertyEntry head (call :: calls)).map CodeLine.text =
        head :: commaAfterLast (call :: calls) := by
    simp [propertyEntry, commaAfterLast, Code.map_text_indent, Code.line, Function.comp_def]
  rw [propertyCode_of_data hrole, propertyCalls, Option.map_some, Option.toList_some,
    List.append_assoc, List.singleton_append, hentry, hcalls]
  rfl

/-- The properties of an action stand in its provider. -/
theorem infix_actionProvider (hp : p ∈ a.ports) (hdata : p.isData = true) :
    (propertyCode p).map CodeLine.text <:+: (actionProvider a).map CodeLine.text := by
  have hproperties : (propertyCode p).map CodeLine.text <:+:
      (propertiesCode a.ports).map CodeLine.text := by
    rw [propertiesCode, if_pos (List.any_eq_true.mpr ⟨p, hp, hdata⟩)]
    refine List.IsInfix.trans (List.IsInfix.map _ ?_) (Code.infix_bracketed _ _ _)
    rw [List.flatMap_def]
    exact List.infix_of_mem_flatten (List.mem_map_of_mem hp)
  have hfields : (propertiesCode a.ports).map CodeLine.text <:+:
      (providerFields a).map CodeLine.text := by
    refine List.IsInfix.map _ ?_
    rw [providerFields]
    exact (List.suffix_append _ _).isInfix.trans (List.prefix_append _ _).isInfix
  rw [actionProvider, List.map_cons]
  exact ((hproperties.trans hfields).trans (Code.infix_bracketed _ _ _)).trans
    (List.suffix_cons _ _).isInfix

/-- The default of a port is written as the text. The text denotes one value, which is that of the
literal in the document, and an integer keeps its digits. The key of the port has the text as it is,
and its property has it wrapped. -/
structure WritesDefault (o : Options) (a : ActionDefinition) (p : PortDefinition) (type : PortType)
    (v : Literal) (text : String) (x : Datum) : Prop where
  denotes : ∀ y, Denotes type text.toList y ↔ y = x
  means : v.Means x
  digits : ∀ n, type = .int → v = .number n → text = n.text
  key : keyLine o.typesPath p type text ∈ (portKeysModule o a).map CodeLine.text
  property : ∃ ending, (ending = "" ∨ ending = ",") ∧
    [propertyHead p type, ".with_default(" ++ type.wrapped text ++ ")" ++ ending] <:+:
      (actionProvider a).map CodeLine.text

/-- A value that the type admits is written. -/
theorem exists_writesDefault (o : Options) (hp : p ∈ a.ports)
    (hrole : p.role = .data type (some v) min max) (h : type.admits v = true) :
    ∃ text x, WritesDefault o a p type v text x := by
  obtain ⟨x, hdenotes, hmeans⟩ := Literal.exists_denotes_bare h
  obtain ⟨ending, hending, hwithin⟩ := exists_infix_propertyCode hrole
  have hdata : p.isData = true := by
    rw [PortDefinition.isData, hrole]
  refine ⟨v.bare type, x, fun y => ⟨fun hy => hy.unique hdenotes, ?_⟩, hmeans, ?_,
    keyLine_mem_portKeysModule o hp hrole, ending, hending, ?_⟩
  · rintro rfl
    exact hdenotes
  · rintro n rfl rfl
    rfl
  · rw [← Literal.tagged_eq h]
    exact hwithin.trans (infix_actionProvider hp hdata)

end

/-! ### Files of documents -/

/-- The file of a kind has the code in it: the lines stand one after the other among those of the
file, and its text has what they become, from the beginning of a line on. -/
def Compilation.Holds (c : Compilation) (k : ArtifactKind) (code : Code) : Prop :=
  ∃ f ∈ c.artifacts, f.kind = k ∧ code <:+: f.code ∧
    ∃ before after, f.content = before ++ code.render ++ after ∧
      ∀ x ∈ before.toList.getLast?, x = '\n'

/-- Lines that stand in the code of a file stand in its text. -/
theorem Artifact.exists_content_eq {f : Artifact} {code : Code} (h : code <:+: f.code) :
    ∃ before after, f.content = before ++ code.render ++ after ∧
      ∀ x ∈ before.toList.getLast?, x = '\n' := by
  obtain ⟨before, after, hcode⟩ := h
  refine ⟨Code.render before, Code.render after, ?_, Code.getLast?_render before⟩
  rw [content, ← hcode, Code.render_append, Code.render_append]

namespace Document

variable {d : Document} {o : Options} {a : ActionDefinition}

/-- The code for one of several items stands in the file that is made from them. -/
theorem holds_of_mem {α : Type} {k : ArtifactKind} {items : List α} {x : α}
    {code : List α → Code} {part : Code} (hmodule : moduleName d.name ≠ "")
    (hfile : artifact? (d.context o) (d.resolve o).definitions k =
      Artifact.of? k (d.context o) items code)
    (hx : x ∈ items) (hpart : part <:+: code items) : (d.compile o).Holds k part :=
  ⟨_, file_mem_artifacts hmodule hfile hx, rfl, hpart, Artifact.exists_content_eq hpart⟩

/-- The keys and the provider of an action stand in the files of the document. -/
theorem holds_action (hmodule : moduleName d.name ≠ "")
    (ha : .action a ∈ (d.resolve o).definitions) :
    (d.compile o).Holds .portKeys (portKeysModule o a) ∧
      (d.compile o).Holds .actionProviders (actionProvider a) := by
  have hmem := Definition.mem_actions_iff.mpr ha
  have hpart (header : Code) (f : ActionDefinition → Code) :
      f a <:+: header ++ (Definition.actions (d.resolve o).definitions).flatMap
        fun a => Code.gap :: f a := by
    refine List.IsInfix.trans ?_ (List.suffix_append _ _).isInfix
    rw [List.flatMap_def]
    exact (List.suffix_cons _ _).isInfix.trans
      (List.infix_of_mem_flatten (List.mem_map_of_mem (f := fun a => Code.gap :: f a) hmem))
  exact ⟨holds_of_mem hmodule rfl hmem (hpart _ _), holds_of_mem hmodule rfl hmem (hpart _ _)⟩

/-- **The defaults in the generated files of a document.** A data port comes from one that the text
spells out. If it has a default, this is the one of the text, and both files have it as a literal of
the port's type that denotes the value in the text. A port of a type that the user supplies has
none. What an `int` port loses is no number, has a point, or is an integer that does not have 32
bits. -/
theorem compile_writes_defaults (d : Document) (o : Options) (a : ActionDefinition)
    (p : PortDefinition) (type : PortType) (default : Option Literal) (min max : Option Numeral)
    (ha : .action a ∈ (d.resolve o).definitions) (hp : p ∈ a.ports)
    (hrole : p.role = .data type default min max) :
    ∃ q : DataPort, d.Declares o a.typeId q ∧ q.name = p.name ∧ q.type = type ∧
      (∀ v, default = some v →
        q.default = some v ∧ ∃ text x, WritesDefault o a p type v text x) ∧
      (∀ name, type = .custom name → default = none) ∧
      (type = .int →
        (∀ v, q.default = some v → (default = none ↔ v.MisfitsInt)) ∧
        (∀ n, q.min = some n → (min = none ↔ (Literal.number n).MisfitsInt)) ∧
        ∀ n, q.max = some n → (max = none ↔ (Literal.number n).MisfitsInt)) ∧
      (moduleName d.name ≠ "" →
        (d.compile o).Holds .portKeys (portKeysModule o a) ∧
          (d.compile o).Holds .actionProviders (actionProvider a)) := by
  obtain ⟨q, hdeclares, hname, htype, hdefault, hmin, hmax⟩ := exists_source_of_mem ha hp hrole
  refine ⟨q, hdeclares, hname, htype, fun v hv => ?_, ?_, ?_,
    fun hmodule => holds_action hmodule ha⟩
  · obtain ⟨hsource, hadmits⟩ := Option.filter_eq_some_iff.mp (hdefault.symm.trans hv)
    exact ⟨hsource, exists_writesDefault o hp (hv ▸ hrole) hadmits⟩
  · rintro name rfl
    rw [hdefault, Option.filter_eq_none_iff]
    intro v _ hadmits
    cases v <;> cases hadmits
  · rintro rfl
    refine ⟨fun v hv => ?_, fun n hn => ?_, fun n hn => ?_⟩
    · rw [hdefault, hv]
      exact filter_some_eq_none_iff.trans PortType.admits_int_eq_false_iff
    · rw [hmin, hn]
      exact filter_some_eq_none_iff.trans Numeral.fitsInt_eq_false_iff
    · rw [hmax, hn]
      exact filter_some_eq_none_iff.trans Numeral.fitsInt_eq_false_iff

/-! ### A port with zeros in front of its default -/

/-- A document with an `int` port. Its default has zeros in front, and its upper bound is one more
than the largest integer of 32 bits. -/
def counter : Document :=
  ⟨"counter", "action A \x7b port int n = -007 max 2147483648 \x7d"⟩

/-- The default of the port. -/
def minusSeven : Numeral := ⟨true, Digits.ofChars '0' ['0', '7'], none⟩

/-- The port that is left. -/
def counterPort : PortDefinition :=
  ⟨"n", none, "N", .data .int (some (.number minusSeven)) none none⟩

/-- The action that is left. -/
def counterAction : ActionDefinition := ⟨⟨["A"]⟩, [], "A", "A", "A", {}, [counterPort], 1⟩

/-- The action of the document is not dropped. -/
theorem action_mem_counter : .action counterAction ∈ (counter.resolve {}).definitions := by
  decide +kernel

/-- The zeros are written too, and the literal denotes the integer. -/
theorem compile_writes_defaults_of_counter :
    .action counterAction ∈ (counter.resolve {}).definitions ∧
      counterPort ∈ counterAction.ports ∧
      ∃ q : DataPort, counter.Declares {} counterAction.typeId q ∧
        q.default = some (.number minusSeven) ∧
        WritesDefault {} counterAction counterPort .int (.number minusSeven) "-007"
          (.int (-7)) := by
  obtain ⟨q, hdeclares, -, -, hdefault, -⟩ :=
    compile_writes_defaults counter {} counterAction counterPort .int (some (.number minusSeven))
      none none action_mem_counter List.mem_cons_self rfl
  obtain ⟨hsource, text, x, hwrites⟩ := hdefault _ rfl
  have htext : text = "-007" := (hwrites.digits minusSeven rfl rfl).trans (by decide)
  have hvalue := minusSeven.decimal?_text
  rw [Numeral.exact_eq_of_toInt? (i := -7) (by decide)] at hvalue
  have hx : x = .int (-7) := by
    cases hwrites.means with
    | float _ => cases (hwrites.denotes _).mpr rfl
    | int hi => rw [Int.cast_inj.mp (Option.some.inj (hi.symm.trans hvalue))]
  exact ⟨action_mem_counter, List.mem_cons_self, q, hdeclares, hsource, htext ▸ hx ▸ hwrites⟩

end Document

end Defsheet

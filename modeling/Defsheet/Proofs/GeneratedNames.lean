import Defsheet.Proofs.StringLiterals
import Defsheet.Proofs.Words
import Mathlib.Data.List.Basic
import Mathlib.Data.List.Nodup

/-!
# Generated names are defined once

Generated code defines constants, modules and types after the names of a document. Different names
may give the same identifier, so the resolver keeps track of the identifiers that are taken and
drops whatever needs one of them. This module says what is left: no identifier is defined twice, and
nothing is dropped without one of the reasons that the language gives.

Names are claimed as strings, with a tag in front and colons between the parts of a path. A string
determines the name that it stands for (`GeneratedName.key_injective`), because tags and
identifiers are free of colons. So two definitions that get into each other's way do have an
identifier in common.

## Main results

* `resolvePorts_fst`: of the ports of an action, the first of each constant is kept.
* `Document.definitions_resolve`: of the definitions of a document, those are kept whose names are
  free.
* `Document.resolve_defines_once`: both halves, for every document.
-/

namespace Defsheet

/-! ### Strings that stand for names -/

/-- What stands before the first colon of a text, and what after it, are determined by the text. -/
theorem append_colon_inj {u u' v v' : List Char} (hu : ':' ∉ u) (hu' : ':' ∉ u')
    (h : u ++ ':' :: v = u' ++ ':' :: v') : u = u' ∧ v = v' := by
  obtain ⟨hhead, -, htail⟩ := append_stop_inj (p := (· ≠ ':'))
    (fun _ hx heq => hu (heq ▸ hx)) (fun _ hx heq => hu' (heq ▸ hx)) (not_not_intro rfl)
    (not_not_intro rfl) h
  exact ⟨hhead, htail⟩

/-- A path whose parts are free of colons is determined by its text. -/
theorem intercalate_colons_injective {path path' : List (List Char)} (hne : path ≠ [])
    (hne' : path' ≠ []) (hpath : ∀ s ∈ path, ':' ∉ s) (hpath' : ∀ s ∈ path', ':' ∉ s)
    (h : [':', ':'].intercalate path = [':', ':'].intercalate path') : path = path' := by
  -- The first colon of the text, if there is one, ends the first part of either path.
  induction path generalizing path' with
  | nil => exact absurd rfl hne
  | cons s rest ih =>
      obtain _ | ⟨s', rest'⟩ := path'
      · exact absurd rfl hne'
      rw [List.forall_mem_cons] at hpath hpath'
      have hcolon (u v : List Char) : ':' ∈ u ++ [':', ':'] ++ v := by simp
      obtain _ | ⟨t, rest⟩ := rest <;> obtain _ | ⟨t', rest'⟩ := rest'
      · simpa using h
      · rw [List.intercalate_singleton, List.intercalate_cons_cons] at h
        exact absurd (h ▸ hcolon s' _) hpath.1
      · rw [List.intercalate_singleton, List.intercalate_cons_cons] at h
        exact absurd (h ▸ hcolon s _) hpath'.1
      · rw [List.intercalate_cons_cons, List.intercalate_cons_cons, List.append_assoc,
          List.append_assoc] at h
        obtain ⟨rfl, htail⟩ := append_colon_inj hpath.1 hpath'.1 h
        rw [ih (List.cons_ne_nil _ _) (List.cons_ne_nil _ _) hpath.2 hpath'.2
          (List.cons.inj htail).2]

/-- The name can be told from its text: it has a path, and the parts of it are identifiers. -/
structure GeneratedName.Legible (n : GeneratedName) : Prop where
  path_ne_nil : n.path ≠ []
  isIdent : ∀ s ∈ n.path, IsIdent s

/-- No colon stands in a part of a legible name, so colons can separate the parts. -/
theorem GeneratedName.Legible.colon_not_mem {n : GeneratedName} (h : n.Legible) :
    ∀ s ∈ n.path, ':' ∉ s.toList :=
  fun s hs => (h.isIdent s hs).not_mem (by decide)

/-- **A string claims one name.** -/
theorem GeneratedName.key_injective {n n' : GeneratedName} (hn : n.Legible) (hn' : n'.Legible)
    (h : n.key = n'.key) : n = n' := by
  obtain ⟨space, path⟩ := n
  obtain ⟨space', path'⟩ := n'
  have htag (s : NameSpace) : ':' ∉ s.tag.toList := by
    cases s <;> decide
  have hlist := congrArg String.toList h
  simp only [key, text, String.toList_append, List.append_assoc] at hlist
  obtain ⟨hspace, hpath⟩ := append_colon_inj (htag _) (htag _) hlist
  change ("::".intercalate path).toList = ("::".intercalate path').toList at hpath
  rw [String.toList_intercalate, String.toList_intercalate] at hpath
  have hmap : path.map String.toList = path'.map String.toList := by
    apply intercalate_colons_injective _ _ _ _ hpath
    · simpa using hn.path_ne_nil
    · simpa using hn'.path_ne_nil
    · simpa using hn.colon_not_mem
    · simpa using hn'.colon_not_mem
  rw [List.map_inj_right fun _ _ => String.toList_inj.mp] at hmap
  subst hmap
  congr 1
  revert hspace
  cases space <;> cases space' <;> decide

/-! ### Ports -/

/-- Generated code cannot have the port: its constant cannot be written, or its type. -/
def Port.isUnspellable : Port → Bool
  | .data p => p.type.isUnspellable || Defsheet.isUnspellable (constName p.name)
  | .flow p => Defsheet.isUnspellable (constName p.name)

/-- The definition is that of the port. Values that do not fit the type may have been dropped. -/
def PortDefinition.Realizes (q : PortDefinition) (p : Port) : Prop :=
  q.name = p.name ∧ q.const = constName p.name ∧
    match p with
    | .data p => q.givenLabel = p.label ∧ ∃ default min max, q.role = .data p.type default min max
    | .flow p => q.givenLabel = p.label ∧ q.role = .flow

/-- A port that can be written is resolved to its own definition. -/
theorem PortDefinition.ofPort?_cases (action : String) (p : Port) :
    (p.isUnspellable = true ∧ (ofPort? action p).1 = none) ∨
      ∃ q, (ofPort? action p).1 = some q ∧ q.Realizes p := by
  cases p with
  | data p =>
      simp only [ofPort?, ofData?, Port.isUnspellable, Bool.or_eq_true]
      split
      · next htype => exact .inl ⟨.inl htype, rfl⟩
      split
      · next hconst => exact .inl ⟨.inr hconst, rfl⟩
      · exact .inr ⟨_, rfl, rfl, rfl, rfl, _, _, _, rfl⟩
  | flow p =>
      simp only [ofPort?, ofFlow?, Port.isUnspellable]
      split
      · next hconst => exact .inl ⟨hconst, rfl⟩
      · exact .inr ⟨_, rfl, rfl, rfl, rfl, rfl⟩

/-- The constants of the ports that every action has. -/
theorem map_fst_implicitConsts : implicitConsts.map Prod.fst = ["IN", "OUT"] := by
  decide

/-- A constant is free unless a kept port has it, or a port that every action has. -/
theorem constOwner?_eq_none_iff {kept : List PortDefinition} {const : String} :
    constOwner? kept const = none ↔
      const ∉ ["IN", "OUT"] ∧ const ∉ kept.map PortDefinition.const := by
  have hkept : (kept.map fun p => (p.const, p.name)).map Prod.fst =
      kept.map PortDefinition.const := by
    rw [List.map_map]
    rfl
  rw [← map_fst_implicitConsts, ← hkept, constOwner?, List.lookup_eq_none_iff]
  simp only [List.mem_append, List.mem_map, bne_iff_ne]
  constructor
  · intro h
    refine ⟨?_, ?_⟩
    · rintro ⟨x, hx, rfl⟩
      exact h x (.inl hx) rfl
    · rintro ⟨x, hx, rfl⟩
      exact h x (.inr hx) rfl
  · rintro ⟨himplicit, hkept⟩ x (hx | hx) heq
    · exact himplicit ⟨x, hx, heq.symm⟩
    · exact hkept ⟨x, hx, heq.symm⟩

/-- **What is left of ports**: of those that can be written and whose constant is not that of a port
which every action has, the first of each constant. -/
theorem resolvePorts_fst (action : String) (kept : List PortDefinition) (ports : List Port) :
    (resolvePorts action kept ports).1 =
      ((ports.filterMap fun p => (PortDefinition.ofPort? action p).1).filter
        fun q => q.const ∉ ["IN", "OUT"]).foldl (keepFirst PortDefinition.const) kept := by
  induction ports generalizing kept with
  | nil => rfl
  | cons p ports ih =>
      rw [resolvePorts, List.filterMap_cons]
      cases hp : (PortDefinition.ofPort? action p).1 with
      | none => simp only [hp, ih]
      | some q =>
          simp only [hp]
          cases howner : constOwner? kept q.const with
          | none =>
              obtain ⟨himplicit, hkept⟩ := constOwner?_eq_none_iff.mp howner
              rw [List.filter_cons_of_pos (by simpa using himplicit), List.foldl_cons, keepFirst,
                if_neg hkept]
              exact ih _
          | some owner =>
              have htaken :
                  ¬(q.const ∉ ["IN", "OUT"] ∧ q.const ∉ kept.map PortDefinition.const) := by
                rw [← constOwner?_eq_none_iff, howner]
                exact Option.some_ne_none owner
              by_cases himplicit : q.const ∈ ["IN", "OUT"]
              · rw [List.filter_cons_of_neg (by simp only [himplicit]; decide)]
                exact ih kept
              · have hkept : q.const ∈ kept.map PortDefinition.const := by
                  by_contra hkept
                  exact htaken ⟨himplicit, hkept⟩
                rw [List.filter_cons_of_pos (by simpa using himplicit), List.foldl_cons, keepFirst,
                  if_pos hkept]
                exact ih kept

/-- A port that is kept is what one of the ports is resolved to. -/
theorem exists_port_of_mem_resolvePorts {action : String} {ports : List Port} {q : PortDefinition}
    (hq : q ∈ (resolvePorts action [] ports).1) :
    ∃ p ∈ ports, (PortDefinition.ofPort? action p).1 = some q := by
  rw [resolvePorts_fst, foldl_keepFirst_nil] at hq
  have hkept := List.mem_of_mem_filter ((firstOfEach_sublist _).subset hq)
  exact List.mem_filterMap.mp hkept

/-- Among kept ports no constant repeats, and none is that of a port which every action has. -/
theorem nodup_resolvePorts (action : String) (ports : List Port) :
    ((resolvePorts action [] ports).1.map PortDefinition.const).Nodup ∧
      ∀ q ∈ (resolvePorts action [] ports).1, q.const ≠ "IN" ∧ q.const ≠ "OUT" := by
  rw [resolvePorts_fst, foldl_keepFirst_nil]
  refine ⟨nodup_map_firstOfEach _, fun q hq => ?_⟩
  have hfree := of_decide_eq_true (List.mem_filter.mp ((firstOfEach_sublist _).subset hq)).2
  simpa using hfree

/-- The port is kept, or there is a reason to drop it: it cannot be written, its constant is that of
a port which every action has, or it is that of an earlier port which is kept. -/
def Port.KeptOrBarred (kept : List PortDefinition) (before : List Port) (p : Port) : Prop :=
  (∃ q ∈ kept, q.Realizes p) ∨ p.isUnspellable = true ∨ constName p.name = "IN" ∨
    constName p.name = "OUT" ∨
      ∃ e ∈ before, ∃ q ∈ kept, q.Realizes e ∧ q.const = constName p.name

/-- No port is dropped without a reason. -/
theorem keptOrBarred_resolvePorts (action : String) (before after : List Port) (p : Port) :
    p.KeptOrBarred (resolvePorts action [] (before ++ p :: after)).1 before := by
  obtain ⟨hunspellable, -⟩ | ⟨q, hq, hrealizes⟩ := PortDefinition.ofPort?_cases action p
  · exact .inr (.inl hunspellable)
  by_cases himplicit : q.const ∈ ["IN", "OUT"]
  · rw [hrealizes.2.1, List.mem_pair] at himplicit
    exact .inr (.inr (himplicit.imp_right .inl))
  · rw [resolvePorts_fst, foldl_keepFirst_nil, List.filterMap_append, List.filterMap_cons, hq]
    simp only [List.filter_append]
    rw [List.filter_cons_of_pos (by simpa using himplicit)]
    obtain hkept | ⟨b, hb, hkept, hconst⟩ := mem_firstOfEach_or PortDefinition.const _ _ q
    · exact .inl ⟨q, hkept, hrealizes⟩
    · obtain ⟨e, he, hresolved⟩ := List.mem_filterMap.mp (List.mem_of_mem_filter hb)
      obtain ⟨-, hnone⟩ | ⟨b', hb', hb'e⟩ := PortDefinition.ofPort?_cases action e
      · rw [hnone] at hresolved
        cases hresolved
      · obtain rfl := Option.some.inj (hb'.symm.trans hresolved)
        refine .inr (.inr (.inr (.inr ⟨e, he, b', hkept, hb'e, ?_⟩)))
        rw [hconst, hrealizes.2.1]

/-! ### Definitions -/

/-- The identifiers that generated code needs for a declaration, before they are written out. -/
def Declaration.bareIdents : Declaration → List String
  | .action a => a.typeId.modulePath ++ [a.typeId.joined, constName a.typeId.last]
  | .marker m => [m.name, constName m.name]

/-- The definition is that of the declaration. -/
def Definition.Realizes : Definition → Declaration → Prop
  | .action x, .action a => x.typeId = a.typeId ∧ x.metadata = a.metadata ∧ x.line = a.line
  | .marker x, .marker m =>
    x.name = m.name ∧ x.label = m.label ∧ x.gizmo = m.gizmo ∧ x.line = m.line
  | _, _ => False

/-- The definition has a generated name that the declaration needs too. -/
def Definition.HasNameOf : Definition → Declaration → Prop
  | .action x, .action a =>
    x.modulePath ++ [x.idConst] =
        a.typeId.modulePath.map writtenIdent ++ [constName a.typeId.last] ∨
      x.className = writtenIdent a.typeId.joined ∨ x.providerConst = constName a.typeId.joined
  | .marker x, .marker m => x.ident = writtenIdent m.name ∨ x.idConst = constName m.name
  | _, _ => False

/-- The names that the definition of a declaration takes up. -/
def Declaration.generatedNames : Declaration → List GeneratedName
  | .action a =>
    [⟨.actionId, a.typeId.modulePath.map writtenIdent ++ [constName a.typeId.last]⟩,
      ⟨.portKeys, [writtenIdent a.typeId.joined]⟩, ⟨.provider, [constName a.typeId.joined]⟩]
  | .marker m => [⟨.markerId, [constName m.name]⟩, ⟨.component, [writtenIdent m.name]⟩]

/-- A common name is one of the names that a definition may have in common with a declaration. -/
theorem Definition.hasNameOf_of_mem {x : Definition} {d : Declaration} {n : GeneratedName}
    (hx : n ∈ x.generatedNames) (hd : n ∈ d.generatedNames) : x.HasNameOf d := by
  -- A name is shared only inside one name space, so each name meets its counterpart.
  cases x <;> cases d <;>
    simp only [generatedNames, Declaration.generatedNames, List.mem_cons, List.not_mem_nil,
      or_false] at hx hd
  case action.action =>
      obtain rfl | rfl | rfl := hx
      · exact .inl (by simpa only [GeneratedName.mk.injEq, true_and, reduceCtorEq, false_and,
          or_false] using hd)
      · exact .inr (.inl (by simpa using hd))
      · exact .inr (.inr (by simpa using hd))
  case action.marker => obtain rfl | rfl | rfl := hx <;> simp at hd
  case marker.action => obtain rfl | rfl := hx <;> simp at hd
  case marker.marker =>
      obtain rfl | rfl := hx
      · exact .inr (by simpa using hd)
      · exact .inl (by simpa using hd)

/-- The parts of a type id make words. -/
theorem TypeId.isWordy {t : TypeId} (h : ∀ s ∈ t.segments, IsWordy s) :
    (∀ s ∈ t.modulePath, IsWordy s) ∧ IsWordy t.joined ∧ IsWordy t.last := by
  refine ⟨?_, .join h, ?_⟩
  · intro s hs
    obtain ⟨segment, hsegment, rfl⟩ := List.mem_map.mp hs
    exact (h segment (List.dropLast_subset _ hsegment)).foldAcronym
  · unfold last
    cases hlast : t.segments.getLast? with
    | none => exact fun c hc => absurd hc List.not_mem_nil
    | some s => exact h s (List.mem_of_getLast? hlast)

/-- The names that come from words can be told from their texts. -/
theorem Declaration.legible {d : Declaration} (h : ∀ s ∈ d.names, IsWordy s) :
    ∀ n ∈ d.generatedNames, n.Legible := by
  cases d with
  | action a =>
      obtain ⟨hpath, hjoined, hlast⟩ := TypeId.isWordy h
      simp only [generatedNames, List.forall_mem_cons]
      refine ⟨⟨by simp, ?_⟩, ⟨by simp, ?_⟩, ⟨by simp, ?_⟩, fun n hn => absurd hn List.not_mem_nil⟩
      · intro s hs
        rw [List.mem_append, List.mem_map, List.mem_singleton] at hs
        obtain ⟨part, hpart, rfl⟩ | rfl := hs
        · exact (hpath part hpart).writtenIdent
        · exact hlast.constName.isIdent
      · simpa using hjoined.writtenIdent
      · simpa using hjoined.constName.isIdent
  | marker m =>
      have hname : IsWordy m.name := h m.name List.mem_cons_self
      simp only [generatedNames, List.forall_mem_cons]
      refine ⟨⟨by simp, ?_⟩, ⟨by simp, ?_⟩, fun n hn => absurd hn List.not_mem_nil⟩
      · simpa using hname.constName.isIdent
      · simpa using hname.writtenIdent

/-- What a declaration is resolved to by itself. -/
structure Definition.ResolvedFrom (x : Definition) (d : Declaration) : Prop where
  realizes : x.Realizes d
  names : x.generatedNames = d.generatedNames
  ports : ∀ a b, x = .action a → d = .action b → a.ports = (resolvePorts b.typeId.text [] b.ports).1

/-- A declaration that can be written is resolved to its own definition. -/
theorem Definition.ofDeclaration?_cases (d : Declaration) :
    ((∃ s ∈ d.bareIdents, isUnspellable s = true) ∧ (ofDeclaration? d).1 = none) ∨
      ∃ x, (ofDeclaration? d).1 = some x ∧ x.ResolvedFrom d := by
  cases d with
  | action a =>
      simp only [ofDeclaration?, ActionDefinition.ofDecl?]
      cases hfind : (a.typeId.modulePath ++ [a.typeId.joined, constName a.typeId.last]).find?
          isUnspellable with
      | some s => exact .inl ⟨⟨s, List.mem_of_find?_eq_some hfind, List.find?_some hfind⟩, rfl⟩
      | none =>
          refine .inr ⟨_, rfl, ⟨rfl, rfl, rfl⟩, rfl, ?_⟩
          rintro _ _ ⟨⟩ ⟨⟩
          rfl
  | marker m =>
      simp only [ofDeclaration?, MarkerDefinition.ofDecl?]
      split
      · next h =>
        refine .inl ⟨?_, rfl⟩
        obtain h | h := Bool.or_eq_true_iff.mp h
        · exact ⟨m.name, List.mem_cons_self, h⟩
        · exact ⟨constName m.name, List.mem_cons_of_mem _ List.mem_cons_self, h⟩
      · exact .inr ⟨_, rfl, ⟨rfl, rfl, rfl, rfl⟩, rfl, fun _ _ hx _ => by cases hx⟩

/-! ### Documents -/

/-- A definition is in the way exactly if it claims one of the strings. -/
theorem Definition.clash?_eq_none_iff {kept : List Definition} {x : Definition} :
    x.clash? kept = none ↔ ¬∃ k ∈ x.keys, k ∈ kept.flatMap keys := by
  rw [clash?, List.findSome?_eq_none_iff]
  constructor
  · rintro h ⟨k, hk, hkept⟩
    obtain ⟨n, hn, rfl⟩ := List.mem_map.mp hk
    obtain ⟨y, hy, hkey⟩ := List.mem_flatMap.mp hkept
    have howner := List.find?_eq_none.mp (Option.map_eq_none_iff.mp (h n hn)) y hy
    exact howner (List.contains_iff_mem.mpr hkey)
  · intro h n hn
    refine Option.map_eq_none_iff.mpr (List.find?_eq_none.mpr fun y hy hcontains => h ?_)
    exact ⟨n.key, List.mem_map_of_mem hn,
      List.mem_flatMap.mpr ⟨y, hy, List.contains_iff_mem.mp hcontains⟩⟩

namespace Resolution

/-- One more declaration adds its definition if the names of that are free. -/
theorem definitions_add (r : Resolution) (d : Declaration) :
    (r.add d).definitions =
      match (Definition.ofDeclaration? d).1 with
      | none => r.definitions
      | some x => claimAll Definition.keys r.definitions x := by
  unfold add
  generalize Definition.ofDeclaration? d = resolved
  obtain ⟨_ | x, findings⟩ := resolved
  · rfl
  · simp only [claimAll]
    cases hclash : x.clash? r.definitions with
    | none => rw [if_neg (Definition.clash?_eq_none_iff.mp hclash)]
    | some c =>
        have htaken : ∃ k ∈ x.keys, k ∈ r.definitions.flatMap Definition.keys := by
          by_contra hfree
          rw [Definition.clash?_eq_none_iff.mpr hfree] at hclash
          cases hclash
        rw [if_pos htaken]

/-- Declarations leave their definitions, each if its names are free when its turn comes. -/
theorem definitions_foldl_add (ds : List Declaration) (r : Resolution) :
    (ds.foldl add r).definitions =
      (ds.filterMap fun d => (Definition.ofDeclaration? d).1).foldl (claimAll Definition.keys)
        r.definitions := by
  induction ds generalizing r with
  | nil => rfl
  | cons d ds ih =>
      rw [List.foldl_cons, ih, definitions_add, List.filterMap_cons]
      cases (Definition.ofDeclaration? d).1 <;> rfl

end Resolution

/-- **What is left of a document**: of the definitions of its declarations, those whose names are
free when their turn comes. -/
theorem Document.definitions_resolve (doc : Document) (o : Options) :
    (doc.resolve o).definitions =
      ((doc.declarations o).filterMap fun d => (Definition.ofDeclaration? d).1).foldl
        (claimAll Definition.keys) [] :=
  Resolution.definitions_foldl_add _ _

/-- The generated names of declarations can be told from their texts. -/
theorem Document.legible_of_mem_declarations {doc : Document} {o : Options} {d : Declaration}
    (hd : d ∈ doc.declarations o) : ∀ n ∈ d.generatedNames, n.Legible :=
  Declaration.legible fun _ hs => (isName_of_mem_names hd hs).wordy

/-- What is left comes from the declarations. -/
theorem Document.exists_resolved_of_mem {doc : Document} {o : Options} {x : Definition}
    (hx : x ∈ (doc.resolve o).definitions) :
    ∃ d ∈ doc.declarations o, (Definition.ofDeclaration? d).1 = some x := by
  rw [definitions_resolve] at hx
  exact List.mem_filterMap.mp ((mem_of_mem_foldl_claimAll hx).resolve_left List.not_mem_nil)

/-- What is left is what its declaration is resolved to by itself. -/
theorem Document.resolvedFrom_of_mem {doc : Document} {o : Options} {x : Definition}
    (hx : x ∈ (doc.resolve o).definitions) : ∃ d ∈ doc.declarations o, x.ResolvedFrom d := by
  obtain ⟨d, hd, hresolved⟩ := exists_resolved_of_mem hx
  obtain ⟨-, hnone⟩ | ⟨y, hy, hfrom⟩ := Definition.ofDeclaration?_cases d
  · rw [hnone] at hresolved
    cases hresolved
  · obtain rfl := Option.some.inj (hy.symm.trans hresolved)
    exact ⟨d, hd, hfrom⟩

/-- The generated names of definitions can be told from their texts. -/
theorem Document.legible_of_mem_definitions {doc : Document} {o : Options} {x : Definition}
    (hx : x ∈ (doc.resolve o).definitions) : ∀ n ∈ x.generatedNames, n.Legible := by
  obtain ⟨d, hd, hfrom⟩ := resolvedFrom_of_mem hx
  rw [hfrom.names]
  exact legible_of_mem_declarations hd

/-- Names of one kind do not repeat among definitions that claim different strings. -/
theorem nodup_names {α : Type} {kept : List Definition}
    (h : Apart Definition.keys kept) (part : Definition → Option α)
    (name : α → GeneratedName) (hname : ∀ x a, part x = some a → name a ∈ x.generatedNames) :
    ((kept.filterMap part).map name).Nodup := by
  rw [List.Nodup, List.pairwise_map]
  refine List.Pairwise.filterMap part ?_ h
  intro x y hxy a ha b hb heq
  refine hxy (name a).key (List.mem_map_of_mem (hname x a ha)) ?_
  rw [heq]
  exact List.mem_map_of_mem (hname y b hb)

/-- No generated name is defined twice: not the path of an action's constant, the module of its port
keys or the constant of its provider, not the component or the constant of a marker, and not the
constant of a port inside its action. -/
structure DefinedOnce (kept : List Definition) : Prop where
  actionPaths : ((Definition.actions kept).map fun a => a.modulePath ++ [a.idConst]).Nodup
  classNames : ((Definition.actions kept).map ActionDefinition.className).Nodup
  providerConsts : ((Definition.actions kept).map ActionDefinition.providerConst).Nodup
  markerIdents : ((Definition.markers kept).map MarkerDefinition.ident).Nodup
  markerConsts : ((Definition.markers kept).map MarkerDefinition.idConst).Nodup
  portConsts : ∀ a ∈ Definition.actions kept, (a.ports.map PortDefinition.const).Nodup ∧
    ∀ p ∈ a.ports, p.const ≠ "IN" ∧ p.const ≠ "OUT"

/-- The definitions of a document claim different strings. -/
theorem Document.apart_definitions (doc : Document) (o : Options) :
    Apart Definition.keys (doc.resolve o).definitions := by
  rw [definitions_resolve]
  exact apart_foldl_claimAll .nil

/-- No generated name is defined twice in a document. -/
theorem Document.definedOnce_resolve (doc : Document) (o : Options) :
    DefinedOnce (doc.resolve o).definitions := by
  have hkeys := doc.apart_definitions o
  have haction (name : ActionDefinition → GeneratedName)
      (hname : ∀ a, name a ∈ (Definition.action a).generatedNames) :
      ((Definition.actions (doc.resolve o).definitions).map name).Nodup := by
    refine nodup_names hkeys Definition.action? name ?_
    rintro (x | x) a ⟨⟩
    exact hname x
  have hmarker (name : MarkerDefinition → GeneratedName)
      (hname : ∀ m, name m ∈ (Definition.marker m).generatedNames) :
      ((Definition.markers (doc.resolve o).definitions).map name).Nodup := by
    refine nodup_names hkeys Definition.marker? name ?_
    rintro (x | x) m ⟨⟩
    exact hname x
  refine ⟨?_, ?_, ?_, ?_, ?_, ?_⟩
  · have h := haction (fun a => ⟨.actionId, a.modulePath ++ [a.idConst]⟩)
      fun a => List.mem_cons_self
    exact .of_map (GeneratedName.mk .actionId) (by rwa [List.map_map])
  · have h := haction (fun a => ⟨.portKeys, [a.className]⟩) fun a => by
      simp [Definition.generatedNames]
    exact .of_map (fun s => GeneratedName.mk .portKeys [s]) (by rwa [List.map_map])
  · have h := haction (fun a => ⟨.provider, [a.providerConst]⟩) fun a => by
      simp [Definition.generatedNames]
    exact .of_map (fun s => GeneratedName.mk .provider [s]) (by rwa [List.map_map])
  · have h := hmarker (fun m => ⟨.component, [m.ident]⟩) fun m => by
      simp [Definition.generatedNames]
    exact .of_map (fun s => GeneratedName.mk .component [s]) (by rwa [List.map_map])
  · have h := hmarker (fun m => ⟨.markerId, [m.idConst]⟩) fun m => by
      simp [Definition.generatedNames]
    exact .of_map (fun s => GeneratedName.mk .markerId [s]) (by rwa [List.map_map])
  · intro a ha
    obtain ⟨x, hx, hxa⟩ := List.mem_filterMap.mp ha
    obtain ⟨d, -, hfrom⟩ := resolvedFrom_of_mem hx
    obtain ⟨⟩ | ⟨⟩ := x
    · obtain rfl := Option.some.inj hxa
      obtain b | m := d
      · rw [hfrom.ports _ b rfl rfl]
        exact nodup_resolvePorts _ _
      · exact hfrom.realizes.elim
    · cases hxa

/-- The declaration is kept, or there is a reason to drop it: one of its identifiers cannot be
written, or an earlier declaration that is kept has one of its generated names. -/
def Declaration.KeptOrBarred (kept : List Definition) (before : List Declaration)
    (d : Declaration) : Prop :=
  (∃ x ∈ kept, x.Realizes d) ∨ (∃ s ∈ d.bareIdents, isUnspellable s = true) ∨
    ∃ e ∈ before, ∃ x ∈ kept, x.Realizes e ∧ x.HasNameOf d

/-- No declaration is dropped without a reason. -/
theorem Document.keptOrBarred_resolve {doc : Document} {o : Options}
    {before after : List Declaration} {d : Declaration}
    (h : doc.declarations o = before ++ d :: after) :
    d.KeptOrBarred (doc.resolve o).definitions before := by
  have hlegible (e : Declaration) (he : e ∈ before ++ d :: after) :
      ∀ n ∈ e.generatedNames, n.Legible :=
    legible_of_mem_declarations (h ▸ he)
  obtain ⟨hunspellable, -⟩ | ⟨x, hx, hfrom⟩ := Definition.ofDeclaration?_cases d
  · exact .inr (.inl hunspellable)
  rw [definitions_resolve, h, List.filterMap_append, List.filterMap_cons, hx]
  obtain hkept | ⟨y, hy, hkept, k, hk, hk'⟩ := mem_foldl_claimAll_or Definition.keys
    (before.filterMap fun d => (Definition.ofDeclaration? d).1)
    (after.filterMap fun d => (Definition.ofDeclaration? d).1) x
  · exact .inl ⟨x, hkept, hfrom.realizes⟩
  obtain ⟨e, he, hresolved⟩ := List.mem_filterMap.mp hy
  obtain ⟨-, hnone⟩ | ⟨y', hy', hfrom'⟩ := Definition.ofDeclaration?_cases e
  · rw [hnone] at hresolved
    cases hresolved
  obtain rfl := Option.some.inj (hy'.symm.trans hresolved)
  obtain ⟨n, hn, rfl⟩ := List.mem_map.mp hk
  obtain ⟨n', hn', hkey⟩ := List.mem_map.mp hk'
  -- The strings are the same, and both can be read back, so the names are.
  obtain rfl : n' = n := by
    refine GeneratedName.key_injective ?_ ?_ hkey
    · exact hlegible e (List.mem_append_left _ he) n' (hfrom'.names ▸ hn')
    · exact hlegible d (List.mem_append_right _ List.mem_cons_self) n (hfrom.names ▸ hn)
  exact .inr (.inr ⟨e, he, y', hkept, hfrom'.realizes,
    Definition.hasNameOf_of_mem hn' (hfrom.names ▸ hn)⟩)

/-- The type ids of declarations are different. -/
theorem Document.nodup_ids (doc : Document) (o : Options) :
    ((doc.declarations o).map Declaration.id).Nodup := by
  rw [declarations, Outline.declarations_ofTokens]
  exact nodup_map_firstOfEach _

/-- No port of a kept action is dropped without a reason. -/
theorem Document.keptOrBarred_ports {doc : Document} {o : Options} {a : ActionDecl}
    {x : ActionDefinition} (ha : .action a ∈ doc.declarations o)
    (hx : .action x ∈ (doc.resolve o).definitions)
    (hreal : (Definition.action x).Realizes (.action a)) {before after : List Port} {p : Port}
    (hports : a.ports = before ++ p :: after) :
    p.KeptOrBarred x.ports before := by
  obtain ⟨d, hd, hfrom⟩ := resolvedFrom_of_mem hx
  obtain b | m := d
  · -- The action that the definition comes from has the same type id, so it is this one.
    have hid : (Declaration.action b).id = (Declaration.action a).id :=
      congrArg TypeId.text (hfrom.realizes.1.symm.trans hreal.1)
    obtain ⟨⟩ := List.inj_on_of_nodup_map (nodup_ids doc o) hd ha hid
    rw [hfrom.ports x a rfl rfl, hports]
    exact keptOrBarred_resolvePorts _ _ _ _
  · exact hfrom.realizes.elim

/-- **Generated names are defined once, and only what gets in the way is dropped.** Whatever the
text of a document, its definitions come from its declarations and no two of them define the same
generated name. A declaration that is missing has an identifier that cannot be written, or an
earlier one that is kept has one of its names. A port that is missing from a kept action cannot be
written, or its constant is taken by a port that every action has or by an earlier one that is
kept. -/
theorem Document.resolve_defines_once (doc : Document) (o : Options) :
    DefinedOnce (doc.resolve o).definitions ∧
      (∀ x ∈ (doc.resolve o).definitions, ∃ d ∈ doc.declarations o, x.Realizes d) ∧
      (∀ before d after, doc.declarations o = before ++ d :: after →
        d.KeptOrBarred (doc.resolve o).definitions before) ∧
      ∀ a x, .action a ∈ doc.declarations o → .action x ∈ (doc.resolve o).definitions →
        (Definition.action x).Realizes (.action a) →
        ∀ before p after, a.ports = before ++ p :: after → p.KeptOrBarred x.ports before := by
  refine ⟨definedOnce_resolve doc o, ?_, ?_, ?_⟩
  · intro x hx
    obtain ⟨d, hd, hfrom⟩ := resolvedFrom_of_mem hx
    exact ⟨d, hd, hfrom.realizes⟩
  · intro before d after h
    exact keptOrBarred_resolve h
  · intro a x ha hx hreal before p after hports
    exact keptOrBarred_ports ha hx hreal hports

end Defsheet

import Defsheet.Proofs.Sheets

/-!
# Reading definitions again

Whatever a document says, the definitions that are left of it can be written down as a document of
their own, and reading that document leaves them as they are. So reading is a projection: what was
dropped on the way has left no trace in what was kept.

A definition that is kept is in order once it is taken for a declaration again
(`Definition.settled_of_ofDeclaration?`): its names can be written, and its type admits the values
that were not dropped. Lines are the one thing that changes, and generated files do not depend on
them (`artifacts_eraseLine`).

## Main results

* `Document.resolve_reads_sheet`: writing the definitions of a document down and reading them again
  gives the same definitions up to lines, no error, and the same generated files.
-/

namespace Defsheet

/-! ### Lines -/

/-- The definition without its line. -/
def Definition.eraseLine : Definition → Definition
  | .action a => .action { a with line := 0 }
  | .marker m => .marker { m with line := 0 }

/-- The generated names of a definition do not depend on its line. -/
theorem Definition.keys_eraseLine (x : Definition) : x.eraseLine.keys = x.keys := by
  cases x <;> rfl

/-- Whether a port is in order does not depend on its line. -/
theorem Port.inOrder_eraseLine {p : Port} : p.eraseLine.InOrder ↔ p.InOrder := by
  cases p <;> exact Iff.rfl

/-- Nor does what it defines. -/
theorem Port.definition_eraseLine (p : Port) : p.eraseLine.definition = p.definition := by
  cases p <;> rfl

/-- Whether a declaration is in order does not depend on lines. -/
theorem Declaration.inOrder_eraseLines {d : Declaration} : d.eraseLines.InOrder ↔ d.InOrder := by
  cases d with
  | action a =>
      have hconsts : (a.ports.map Port.eraseLine).map (fun p => constName p.name) =
          a.ports.map fun p => constName p.name := by
        rw [List.map_map]
        exact List.map_congr_left fun p _ => congrArg constName p.name_eraseLine
      have hports : portsInOrder (a.ports.map Port.eraseLine) ↔ portsInOrder a.ports := by
        rw [portsInOrder, portsInOrder, hconsts, List.forall_mem_map]
        simp only [Port.inOrder_eraseLine]
      exact and_congr Iff.rfl hports
  | marker m => exact Iff.rfl

/-- What a declaration defines differs in its line only. -/
theorem Declaration.definition_eraseLines (d : Declaration) :
    d.eraseLines.definition = d.definition.eraseLine := by
  cases d with
  | action a =>
      have hports : (a.ports.map Port.eraseLine).map Port.definition =
          a.ports.map Port.definition := by
        rw [List.map_map]
        exact List.map_congr_left fun p _ => p.definition_eraseLine
      rw [eraseLines, definition, hports]
      rfl
  | marker m => rfl

/-! ### Kept definitions are in order -/

/-- What is left of a port is in order, and it has the constant of its name. -/
theorem PortDefinition.settled_of_ofPort? {action : String} {p : Port} {q : PortDefinition}
    (h : (ofPort? action p).1 = some q) : q.port.InOrder ∧ q.port.definition = q := by
  cases p with
  | data p =>
      obtain ⟨htype, hconst, rfl⟩ := ofData?_eq_some_iff.mp h
      refine ⟨⟨htype, hconst, fun v hv => ?_, fun n hn => ?_, fun n hn => ?_⟩, rfl⟩
      · exact (Option.filter_eq_some_iff.mp hv).2
      · exact (Option.filter_eq_some_iff.mp hn).2
      · exact (Option.filter_eq_some_iff.mp hn).2
  | flow p =>
      simp only [ofPort?, ofFlow?] at h
      split at h
      · cases h
      · next hconst =>
        obtain rfl := Option.some.inj h
        exact ⟨Bool.eq_false_iff.mpr hconst, rfl⟩

/-- What is left of the ports of an action is in order. -/
theorem settled_resolvePorts (action : String) (ports : List Port) :
    portsInOrder ((resolvePorts action [] ports).1.map PortDefinition.port) ∧
      ((resolvePorts action [] ports).1.map PortDefinition.port).map Port.definition =
        (resolvePorts action [] ports).1 := by
  have hsettled : ∀ q ∈ (resolvePorts action [] ports).1,
      q.port.InOrder ∧ q.port.definition = q := by
    intro q hq
    obtain ⟨p, -, hresolved⟩ := exists_port_of_mem_resolvePorts hq
    exact PortDefinition.settled_of_ofPort? hresolved
  obtain ⟨hnodup, hfree⟩ := nodup_resolvePorts action ports
  have hconsts : ((resolvePorts action [] ports).1.map PortDefinition.port).map
        (fun p => constName p.name) =
      (resolvePorts action [] ports).1.map PortDefinition.const := by
    rw [List.map_map]
    refine List.map_congr_left fun q hq => ?_
    have hconst := congrArg PortDefinition.const (hsettled q hq).2
    rwa [Port.const_definition] at hconst
  refine ⟨⟨List.forall_mem_map.mpr fun q hq => (hsettled q hq).1, ?_⟩, ?_⟩
  · rw [hconsts, List.nodup_append]
    refine ⟨by decide, hnodup, ?_⟩
    rintro c hc _ hmem rfl
    obtain ⟨q, hq, rfl⟩ := List.mem_map.mp hmem
    obtain ⟨hin, hout⟩ := hfree q hq
    rcases List.mem_pair.mp hc with heq | heq
    · exact hin heq
    · exact hout heq
  · rw [List.map_map]
    exact (List.map_congr_left fun q hq => (hsettled q hq).2).trans (List.map_id _)

/-- **What is left of a declaration is in order**: taken for a declaration again, it is resolved to
itself. -/
theorem Definition.settled_of_ofDeclaration? {d : Declaration} {x : Definition}
    (h : (ofDeclaration? d).1 = some x) :
    x.declaration.InOrder ∧ x.declaration.definition = x.eraseLine := by
  cases d with
  | action a =>
      simp only [ofDeclaration?, ActionDefinition.ofDecl?] at h
      split at h
      · cases h
      · next hfind =>
        obtain rfl := Option.some.inj h
        obtain ⟨hports, hdefinition⟩ := settled_resolvePorts a.typeId.text a.ports
        refine ⟨⟨fun s hs => Bool.eq_false_iff.mpr (List.find?_eq_none.mp hfind s hs), hports⟩, ?_⟩
        simp only [declaration, Declaration.definition, hdefinition]
        rfl
  | marker m =>
      simp only [ofDeclaration?, MarkerDefinition.ofDecl?] at h
      split at h
      · cases h
      · next hidents =>
        obtain rfl := Option.some.inj h
        simp only [Bool.or_eq_true, not_or, Bool.not_eq_true] at hidents
        refine ⟨⟨?_, trivial⟩, rfl⟩
        simp only [declaration, Declaration.bareIdents, List.forall_mem_cons]
        exact ⟨hidents.1, hidents.2, List.forall_mem_nil _⟩

/-- What is left of a port has no names or texts but those of the port. -/
theorem PortDefinition.words_port_subset {action : String} {p : Port} {q : PortDefinition}
    (h : (ofPort? action p).1 = some q) : q.port.words ⊆ p.words := by
  cases p with
  | data p =>
      obtain ⟨-, -, rfl⟩ := ofData?_eq_some_iff.mp h
      intro l hl
      simp only [port, Port.words, List.mem_cons, List.mem_append, List.mem_flatMap,
        Option.mem_toList] at hl ⊢
      obtain hname | (htype | ⟨v, hv, hvalue⟩) | hlabel := hl
      · exact .inl hname
      · exact .inr (.inl (.inl htype))
      · exact .inr (.inl (.inr ⟨v, (Option.filter_eq_some_iff.mp hv).1, hvalue⟩))
      · exact .inr (.inr hlabel)
  | flow p =>
      simp only [ofPort?, ofFlow?] at h
      split at h
      · cases h
      · obtain rfl := Option.some.inj h
        exact List.Subset.refl _

/-- What is left of a declaration has no names or texts but those of the declaration. -/
theorem Definition.words_declaration_subset {d : Declaration} {x : Definition}
    (h : (ofDeclaration? d).1 = some x) : x.declaration.words ⊆ d.words := by
  cases d with
  | action a =>
      simp only [ofDeclaration?, ActionDefinition.ofDecl?] at h
      split at h
      · cases h
      · obtain rfl := Option.some.inj h
        intro l hl
        obtain hl | hl := List.mem_append.mp hl
        · exact List.mem_append_left _ hl
        · obtain ⟨port, hport, hl⟩ := List.mem_flatMap.mp hl
          obtain ⟨q, hq, rfl⟩ := List.mem_map.mp hport
          obtain ⟨p, hp, hresolved⟩ := exists_port_of_mem_resolvePorts hq
          refine List.mem_append_right _ (List.mem_flatMap.mpr ⟨p, hp, ?_⟩)
          exact PortDefinition.words_port_subset hresolved hl
  | marker m =>
      simp only [ofDeclaration?, MarkerDefinition.ofDecl?] at h
      split at h
      · cases h
      · obtain rfl := Option.some.inj h
        exact List.Subset.refl _

/-! ### The definitions of a document -/

namespace Document

variable {doc : Document} {o : Options} {x : Definition}

/-- What is resolved has a name, because nothing else can be parsed. -/
theorem isNamed_of_mem (hx : x ∈ (doc.resolve o).definitions) : x.IsNamed := by
  obtain ⟨d, hd, hfrom⟩ := resolvedFrom_of_mem hx
  cases x with
  | action a =>
      cases d with
      | action b =>
          have htypeId : a.typeId = b.typeId := hfrom.realizes.1
          change a.typeId.segments ≠ []
          rw [htypeId]
          exact segments_ne_nil hd
      | marker m => exact hfrom.realizes.elim
  | marker m => trivial

/-- The definitions of a document can be written down. -/
theorem isReadable_lexemes_of_mem (hx : x ∈ (doc.resolve o).definitions) :
    ∀ l ∈ x.lexemes, l.IsReadable := by
  obtain ⟨d, hd, hresolved⟩ := exists_resolved_of_mem hx
  refine Definition.isReadable_lexemes fun l hl => ?_
  exact isReadable_of_mem_words hd (Definition.words_declaration_subset hresolved hl)

/-- What is resolved, if it were declared again, would be in order and resolved to itself. -/
theorem settled_of_mem (hx : x ∈ (doc.resolve o).definitions) :
    x.declaration.InOrder ∧ x.declaration.definition = x.eraseLine := by
  obtain ⟨d, -, hresolved⟩ := exists_resolved_of_mem hx
  exact Definition.settled_of_ofDeclaration? hresolved

/-- The definitions of a document register under different strings. -/
theorem nodup_ids_definitions (doc : Document) (o : Options) :
    ((doc.resolve o).definitions.map Definition.id).Nodup := by
  have hid (d : Declaration) (x : Definition) (h : (Definition.ofDeclaration? d).1 = some x) :
      x.id = d.id := by
    obtain ⟨-, hnone⟩ | ⟨y, hy, hfrom⟩ := Definition.ofDeclaration?_cases d
    · rw [hnone] at h
      cases h
    · obtain rfl := Option.some.inj (hy.symm.trans h)
      have hrealizes := hfrom.realizes
      cases y <;> cases d
      case action.action => exact congrArg TypeId.text hrealizes.1
      case marker.marker => exact hrealizes.1
      case action.marker => exact hrealizes.elim
      case marker.action => exact hrealizes.elim
  have hall : (((doc.declarations o).filterMap fun d => (Definition.ofDeclaration? d).1).map
      Definition.id).Nodup := by
    have hids := nodup_ids doc o
    rw [List.Nodup, List.pairwise_map] at hids ⊢
    refine List.Pairwise.filterMap _ ?_ hids
    intro d e hne x hx y hy
    rw [hid d x hx, hid e y hy]
    exact hne
  rw [definitions_resolve]
  exact ((foldl_claimAll_sublist _ []).map Definition.id).nodup hall

/-- The ports of a definition have different names, since they have different constants. -/
theorem nodup_portNames {a : ActionDefinition} (ha : .action a ∈ (doc.resolve o).definitions) :
    (a.ports.map PortDefinition.name).Nodup := by
  have hconsts := (settled_of_mem ha).1.2.2.of_append_right
  rw [List.map_map] at hconsts
  refine List.Nodup.of_map constName ?_
  rw [List.map_map]
  refine (List.map_congr_left fun q _ => ?_) ▸ hconsts
  exact congrArg constName q.name_port

/-- The document that consists of the definitions of another one. -/
def reduced (doc : Document) (o : Options) : Document :=
  ⟨doc.name, sheet (doc.resolve o).definitions⟩

/-- Declarations that the definitions of a document amount to, up to lines, have these definitions,
up to lines. -/
theorem map_eraseLine_definition {ds : List Declaration}
    (h : ds.map Declaration.eraseLines =
      (doc.resolve o).definitions.map Definition.declaration) :
    (ds.map Declaration.definition).map Definition.eraseLine =
      (doc.resolve o).definitions.map Definition.eraseLine := by
  calc (ds.map Declaration.definition).map Definition.eraseLine
      = (ds.map Declaration.eraseLines).map Declaration.definition := by
        rw [List.map_map, List.map_map]
        exact List.map_congr_left fun d _ => d.definition_eraseLines.symm
    _ = ((doc.resolve o).definitions.map Definition.declaration).map Declaration.definition := by
        rw [h]
    _ = (doc.resolve o).definitions.map Definition.eraseLine := by
        rw [List.map_map]
        exact List.map_congr_left fun x hx => (settled_of_mem hx).2

/-- Declarations that the definitions of a document amount to, up to lines, are in order, and they
have different type ids. -/
theorem inOrder_of_eraseLines {ds : List Declaration}
    (h : ds.map Declaration.eraseLines =
      (doc.resolve o).definitions.map Definition.declaration) :
    (ds.map Declaration.id).Nodup ∧ Resolution.InOrder ds := by
  have hids : ds.map Declaration.id = (doc.resolve o).definitions.map Definition.id := by
    have hmap := congrArg (List.map Declaration.id) h
    simp only [List.map_map] at hmap
    rw [← List.map_congr_left fun d _ => d.id_eraseLines]
    exact hmap.trans (List.map_congr_left fun x _ => x.id_declaration)
  have hkeys : (doc.resolve o).definitions.map Definition.keys =
      (ds.map Declaration.definition).map Definition.keys := by
    have hmap := congrArg (List.map Definition.keys) (map_eraseLine_definition h)
    simp only [List.map_map] at hmap
    rw [List.map_map, ← List.map_congr_left fun x _ => x.keys_eraseLine]
    refine hmap.symm.trans (List.map_congr_left fun d _ => ?_)
    exact d.definition.keys_eraseLine
  refine ⟨hids ▸ nodup_ids_definitions doc o, fun d hd => ?_, ?_⟩
  · have hmem := List.mem_map_of_mem (f := Declaration.eraseLines) hd
    rw [h] at hmem
    obtain ⟨x, hx, heq⟩ := List.mem_map.mp hmem
    rw [← Declaration.inOrder_eraseLines, ← heq]
    exact (settled_of_mem hx).1
  · exact (doc.apart_definitions o).congr hkeys

/-- **The definitions of a document make a document in order**, and its statements have these
definitions up to lines. -/
theorem inOrder_reduced (doc : Document) (o : Options) :
    ∃ sts, (doc.reduced o).InOrder sts ∧
      ((sts.map fun st => st.value.meaning st.line).map Declaration.definition).map
          Definition.eraseLine =
        (doc.resolve o).definitions.map Definition.eraseLine := by
  have hreadable : ∀ l ∈ (doc.resolve o).definitions.flatMap Definition.lexemes, l.IsReadable := by
    intro l hl
    obtain ⟨x, hx, hl⟩ := List.mem_flatMap.mp hl
    exact isReadable_lexemes_of_mem hx l hl
  obtain ⟨hlexemes, hfindings⟩ := Scan.ofText_spaced hreadable
  obtain ⟨sts, hspelled, hstates⟩ := SpellsFile.exists_states (fun _ => isNamed_of_mem) hlexemes
  obtain ⟨horder, hmeaning⟩ :=
    Statement.States.map_eraseLines_meaning hstates fun _ => nodup_portNames
  obtain ⟨hids, hdeclarations⟩ := inOrder_of_eraseLines hmeaning
  exact ⟨sts, ⟨hfindings, hspelled, ⟨horder, hids⟩, hdeclarations⟩,
    map_eraseLine_definition hmeaning⟩

end Document

/-! ### Generated files do not depend on lines -/

/-- A file stays the same if what is done to the items does not show in its code. -/
theorem Artifact.of?_map {α : Type} {kind : ArtifactKind} {c : Context} {items : List α}
    {code : List α → Code} {f : α → α} (h : code (items.map f) = code items) :
    Artifact.of? kind c (items.map f) code = Artifact.of? kind c items code := by
  rw [of?, of?, h, List.isEmpty_map]

/-- **Generated files do not depend on lines.** -/
theorem artifacts_eraseLine (c : Context) (xs : List Definition) :
    artifacts c (xs.map Definition.eraseLine) = artifacts c xs := by
  have hactions : Definition.actions (xs.map Definition.eraseLine) =
      (Definition.actions xs).map fun a => { a with line := 0 } := by
    rw [Definition.actions, Definition.actions, List.filterMap_map, List.map_filterMap]
    congr 1
    funext x
    cases x <;> rfl
  have hmarkers : Definition.markers (xs.map Definition.eraseLine) =
      (Definition.markers xs).map fun m => { m with line := 0 } := by
    rw [Definition.markers, Definition.markers, List.filterMap_map, List.map_filterMap]
    congr 1
    funext x
    cases x <;> rfl
  refine List.filterMap_congr fun kind _ => ?_
  cases kind with
  | actionTypeIds =>
      rw [artifact?, artifact?, hactions]
      refine Artifact.of?_map ?_
      rw [actionTypeIdsCode, actionTypeIdsCode, ConstForest.ofActions, List.foldl_map]
      rfl
  | portKeys =>
      rw [artifact?, artifact?, hactions]
      refine Artifact.of?_map ?_
      rw [portKeysCode, portKeysCode, List.flatMap_map]
      rfl
  | actionProviders =>
      rw [artifact?, artifact?, hactions]
      refine Artifact.of?_map ?_
      rw [actionProvidersCode, actionProvidersCode, List.flatMap_map]
      rfl
  | markerTypeIds =>
      rw [artifact?, artifact?, hmarkers]
      refine Artifact.of?_map ?_
      rw [markerTypeIdsCode, markerTypeIdsCode, List.map_map]
      rfl
  | markerComponents =>
      rw [artifact?, artifact?, hmarkers]
      refine Artifact.of?_map ?_
      rw [markerComponentsCode, markerComponentsCode, List.map_map]
      rfl
  | markerProviders =>
      rw [artifact?, artifact?, hmarkers]
      refine Artifact.of?_map ?_
      rw [markerProvidersCode, markerProvidersCode, List.flatMap_map]
      rfl
  | manifest =>
      rw [artifact?, artifact?]
      refine Artifact.of?_map ?_
      rw [manifestCode, manifestCode, hactions, hmarkers, List.map_map, List.map_map]
      rfl

/-- Definitions that are the same up to lines give rise to the same files. -/
theorem artifacts_congr {c : Context} {xs ys : List Definition}
    (h : xs.map Definition.eraseLine = ys.map Definition.eraseLine) :
    artifacts c xs = artifacts c ys := by
  rw [← artifacts_eraseLine, h, artifacts_eraseLine]

/-- **Reading is a projection.** Whatever the text of a document, its definitions can be written
down as a text of the document language. Reading that text gives the same definitions again up to
lines, and no error; so compiling it under the same name gives the same files. -/
theorem Document.resolve_reads_sheet (doc : Document) (o : Options) :
    let again : Document := ⟨doc.name, sheet (doc.resolve o).definitions⟩
    (again.resolve o).definitions.map Definition.eraseLine =
        (doc.resolve o).definitions.map Definition.eraseLine ∧
      (again.resolve o).diagnostics.any Diagnostic.isError = false ∧
      (again.compile o).artifacts = (doc.compile o).artifacts := by
  intro again
  obtain ⟨sts, hsts, hsame⟩ := doc.inOrder_reduced o
  rw [← hsts.definitions_eq (o := o)] at hsame
  refine ⟨hsame, ?_, ?_⟩
  · rw [List.any_eq_false]
    exact fun d hd => Bool.eq_false_iff.mp (inOrder_iff.mpr ⟨sts, hsts⟩ d hd)
  · rw [compile, compile]
    split
    · rfl
    · exact artifacts_congr hsame

end Defsheet

import Defsheet.Proofs.ProviderText

/-!
# Reading generated files

Whoever uses a generated file sees lines. This module reads names off them: what stands between a
fixed beginning and a fixed end, and the constant that a line declares. It says what is read from
each of the files that a document is compiled to. Comments are passed over, whatever a document puts
into them.

## Main definitions

* `between?` and `declared?` read one line.
* `Compilation.read` reads the file of a kind.

## Main results

* `Document.read_compile`: reading a file is reading its code.
* `read_actionProvidersCode`, `read_markerTypeIdsCode` and their neighbours: what is read from the
  code of each file.
-/

namespace Defsheet

/-! ### Reading lines -/

/-- What stands on a line between a beginning and an end. -/
def between? (opening closing line : String) : Option String :=
  let rest := line.toList.drop opening.toList.length
  let inner := String.ofList (rest.take (rest.length - closing.toList.length))
  if line = opening ++ inner ++ closing then some inner else none

/-- What is read between two texts is what stands between them. -/
theorem between?_eq_some_iff {opening closing line s : String} :
    between? opening closing line = some s ↔ line = opening ++ s ++ closing := by
  rw [between?]
  constructor
  · intro h
    split at h
    · next hline =>
      rw [← Option.some.inj h]
      exact hline
    · cases h
  · rintro rfl
    simp

/-- What was put between two texts is read there. -/
theorem between?_enclosed (opening closing s : String) :
    between? opening closing (opening ++ s ++ closing) = some s :=
  between?_eq_some_iff.mpr rfl

/-- Other lines are passed over. -/
theorem between?_eq_none {opening closing line : String}
    (h : ¬opening.toList <+: line.toList) : between? opening closing line = none := by
  refine Option.eq_none_iff_forall_ne_some.mpr fun s hs => h ?_
  rw [between?_eq_some_iff.mp hs, String.toList_append, String.toList_append, List.append_assoc]
  exact List.prefix_append _ _

/-- So are lines that end otherwise. -/
theorem between?_eq_none_of_ends {opening closing line : String}
    (h : ¬closing.toList.reverse <+: line.toList.reverse) :
    between? opening closing line = none := by
  refine Option.eq_none_iff_forall_ne_some.mpr fun s hs => h (List.reverse_prefix.mpr ?_)
  rw [between?_eq_some_iff.mp hs, String.toList_append]
  exact List.suffix_append _ _

/-- The name and the value of the constant of a type that a line begins to declare. -/
def declared? (type line : String) : Option (String × String) :=
  let name := String.ofList ((line.toList.drop "pub const ".toList.length).takeWhile (· != ':'))
  let head := "pub const " ++ name ++ ": " ++ type ++ " = "
  let value := String.ofList (line.toList.drop head.toList.length)
  if line = head ++ value then some (name, value) else none

/-- What a line declares, said without the reader. -/
theorem declared?_eq_some_iff {type line name value : String} :
    declared? type line = some (name, value) ↔
      ':' ∉ name.toList ∧ line = "pub const " ++ name ++ ": " ++ type ++ " = " ++ value := by
  rw [declared?]
  constructor
  · intro h
    split at h
    · next hline =>
      obtain ⟨hname, hvalue⟩ := Prod.mk.inj (Option.some.inj h)
      rw [hname] at hline hvalue
      rw [hvalue] at hline
      refine ⟨?_, hline⟩
      rw [← hname, String.toList_ofList]
      exact not_mem_takeWhile_ne _ _
    · cases h
  · rintro ⟨hcolon, rfl⟩
    have hchars : ∀ c ∈ name.toList, (c != ':') = true := by
      intro c hc
      exact bne_iff_ne.mpr fun heq => hcolon (heq ▸ hc)
    have hname : ((("pub const " ++ name ++ ": " ++ type ++ " = " ++ value).toList.drop
        "pub const ".toList.length).takeWhile (· != ':')) = name.toList := by
      simp only [String.append_assoc, String.toList_append, List.drop_left]
      exact (takeWhile_append_stop hchars (by simp)).1
    simp only [hname, String.ofList_toList]
    simp

/-- A line that is not public declares nothing. -/
theorem declared?_eq_none {type line : String} (h : ¬"pub ".toList <+: line.toList) :
    declared? type line = none := by
  refine Option.eq_none_iff_forall_ne_some.mpr fun s hs => h ?_
  rw [(declared?_eq_some_iff.mp hs).2]
  simp

/-! ### Files -/

namespace Compilation

/-- What is read from the lines of the file of a kind; nothing if there is no such file. -/
def read {α : Type} (c : Compilation) (k : ArtifactKind) (reader : String → Option α) : List α :=
  (c.artifact? k).elim [] fun a => (unindentedLines a.content).filterMap reader

end Compilation

/-- The file of a kind is found among all files. -/
theorem find?_artifacts (c : Context) (ds : List Definition) (k : ArtifactKind) :
    ((artifacts c ds).find? fun a => a.kind = k) = artifact? c ds k := by
  have hmem {a : Artifact} (ha : a ∈ artifacts c ds) : artifact? c ds a.kind = some a := by
    obtain ⟨k', -, hk'⟩ := List.mem_filterMap.mp ha
    rw [(artifact?_eq_some hk').1, hk']
  cases hfind : (artifacts c ds).find? fun a => a.kind = k with
  | some a =>
      have hkind : a.kind = k := by simpa using List.find?_some hfind
      rw [← hkind, hmem (List.mem_of_find?_eq_some hfind)]
  | none =>
      refine (Option.eq_none_iff_forall_ne_some.mpr fun a ha => ?_).symm
      refine List.find?_eq_none.mp hfind a ?_ (by simpa using (artifact?_eq_some ha).1)
      exact List.mem_filterMap.mpr ⟨k, k.mem_all, ha⟩

/-- What is read from the code of a file, line by line. -/
def Code.read {α : Type} (reader : String → Option α) (code : Code) : List α :=
  code.filterMap fun l => reader l.text

/-- **Reading a file** is reading its code. -/
theorem Document.read_compile {α β : Type} {d : Document} {o : Options} {k : ArtifactKind}
    {items : List α} {code : List α → Code} {reader : String → Option β} {out : List β}
    (hmodule : moduleName d.name ≠ "")
    (hfile : artifact? (d.context o) (d.resolve o).definitions k =
      Artifact.of? k (d.context o) items code)
    (htidy : Code.IsTidy (code items)) (hread : Code.read reader (code items) = out)
    (hnone : items = [] → out = []) : (d.compile o).read k reader = out := by
  have hartifact : (d.compile o).artifact? k = Artifact.of? k (d.context o) items code := by
    rw [Compilation.artifact?, compile_eq rfl hmodule rfl, ← hfile]
    exact find?_artifacts _ _ _
  rw [Compilation.read, hartifact, Artifact.of?]
  split
  · next hempty =>
    exact (hnone (List.isEmpty_iff.mp hempty)).symm
  · rw [Option.elim_some, Artifact.content, Code.unindentedLines_render htidy, List.filterMap_map]
    exact hread

/-! ### Parts of files -/

namespace Code

variable {α : Type} {reader : String → Option α}

@[simp]
theorem read_nil : read reader [] = [] := rfl

@[simp]
theorem read_cons (l : CodeLine) (code : Code) :
    read reader (l :: code) = (reader l.text).toList ++ read reader code := by
  rw [read, List.filterMap_cons]
  cases reader l.text <;> rfl

@[simp]
theorem read_append (code code' : Code) :
    read reader (code ++ code') = read reader code ++ read reader code' :=
  List.filterMap_append

/-- An indentation is not read. -/
@[simp]
theorem read_indent (code : Code) : read reader (indent code) = read reader code := by
  rw [read, indent, List.filterMap_map]
  rfl

/-- Pieces of code are read one after the other. -/
theorem read_flatMap {β : Type} (xs : List β) (f : β → Code) :
    read reader (xs.flatMap f) = xs.flatMap fun x => read reader (f x) :=
  List.filterMap_flatMap

theorem read_map {β : Type} (xs : List β) (f : β → CodeLine) :
    read reader (xs.map f) = xs.filterMap fun x => reader (f x).text :=
  List.filterMap_map

/-- Nothing is read from lines that the reader passes over. -/
theorem read_eq_nil {code : Code} (h : AllTexts (fun s => reader s = none) code) :
    read reader code = [] :=
  List.filterMap_eq_nil_iff.mpr h

/-- Gaps are passed over. -/
theorem read_joinWithGaps (hgap : reader "" = none) (codes : List Code) :
    read reader (joinWithGaps codes) = codes.flatMap (read reader) := by
  fun_induction joinWithGaps codes with
  | case1 => rfl
  | case2 code => simp
  | case3 code codes _ ih => simp [gap, hgap, ih]

end Code

/-- The reader passes over comments and gaps. -/
structure PassesComments {α : Type} (reader : String → Option α) : Prop where
  comment : ∀ {line : String}, ['/'] <+: line.toList → reader line = none
  gap : reader "" = none

/-- A reader of lines with a beginning that is not that of a comment passes over comments. -/
theorem PassesComments.of_opening {α : Type} {reader : String → Option α} (opening : String)
    {c : Char} (h : opening.toList.head? = some c) (hc : c ≠ '/')
    (hnone : ∀ {line : String}, ¬opening.toList <+: line.toList → reader line = none) :
    PassesComments reader := by
  obtain ⟨cs, hcs⟩ := List.head?_eq_some_iff.mp h
  constructor
  · intro line hline
    refine hnone fun hopening => hc ?_
    obtain ⟨rest, hrest⟩ := hline
    rw [hcs, ← hrest] at hopening
    exact (List.cons_prefix_cons.mp hopening).1
  · refine hnone fun hopening => ?_
    rw [hcs] at hopening
    exact List.cons_ne_nil _ _ (List.prefix_nil.mp hopening)

/-- A comment does not begin with anything but a slash. -/
theorem passesComments_between? {opening closing : String} {c : Char}
    (h : opening.toList.head? = some c) (hc : c ≠ '/') :
    PassesComments (between? opening closing) :=
  .of_opening opening h hc between?_eq_none

/-- A comment declares nothing. -/
theorem passesComments_declared? (type : String) : PassesComments (declared? type) :=
  .of_opening "pub " rfl (by decide) declared?_eq_none

/-- Nothing is read in the header of a file. -/
theorem PassesComments.read_fileHeader {α : Type} {reader : String → Option α}
    (h : PassesComments reader) (document summary : String) :
    Code.read reader (Code.fileHeader document summary) = [] := by
  refine Code.read_eq_nil ?_
  simp [Code.fileHeader, Code.line, Code.gap, h.gap, h.comment]

/-- The constants that the file of action providers declares. -/
theorem read_actionProvidersCode {c : Context} {as : List ActionDefinition}
    (h : ∀ a ∈ as, ':' ∉ a.providerConst.toList) :
    Code.read (declared? "ActionProvider") (actionProvidersCode c as) =
      as.map fun a => (a.providerConst, "ActionProvider \x7b") := by
  have hprovider : ∀ a ∈ as, Code.read (declared? "ActionProvider") (Code.gap :: actionProvider a) =
      [(a.providerConst, "ActionProvider \x7b")] := by
    intro a ha
    have hfields : Code.read (declared? "ActionProvider") (providerFields a) = [] :=
      Code.read_eq_nil fun l hl => declared?_eq_none (allTexts_providerFields a l hl).notPublic
    have hdeclared : declared? "ActionProvider"
        ("pub const " ++ a.providerConst ++ ": ActionProvider = ActionProvider" ++ " \x7b") =
          some (a.providerConst, "ActionProvider \x7b") :=
      declared?_eq_some_iff.mpr ⟨h a ha, String.toList_inj.mp (by simp)⟩
    simp [actionProvider, Code.block, Code.bracketed, hfields, Code.gap, Code.line,
      declared?_eq_none, hdeclared]
  rw [actionProvidersCode, Code.read_append, Code.read_append, Code.read_flatMap,
    List.flatMap_congr hprovider, ← List.map_eq_flatMap,
    (passesComments_declared? _).read_fileHeader]
  simp [Code.line, declared?_eq_none]

/-- The line of a constant stays one line. -/
theorem isFirm_idConstLine {name : String} (h : '\n' ∉ name.toList) (value : String) :
    IsFirm (idConstLine name value).text := by
  simp [idConstLine, isFirm_iff, List.getLast?_cons, h]

/-- The line of a constant declares it. -/
theorem declared?_idConstLine {name : String} (h : ':' ∉ name.toList) (value : String) :
    declared? "&str" (idConstLine name value).text = some (name, quote value ++ ";") :=
  declared?_eq_some_iff.mpr ⟨h, String.toList_inj.mp (by simp [idConstLine])⟩

/-- The constants that the file of marker type ids declares, with their values. -/
theorem read_markerTypeIdsCode {c : Context} {ms : List MarkerDefinition}
    (h : ∀ m ∈ ms, ':' ∉ m.idConst.toList) :
    Code.read (declared? "&str") (markerTypeIdsCode c ms) =
      ms.map fun m => (m.idConst, quote m.name ++ ";") := by
  have hdeclared : ∀ m ∈ ms, declared? "&str" (idConstLine m.idConst m.name).text =
      some (m.idConst, quote m.name ++ ";") :=
    fun m hm => declared?_idConstLine (h m hm) m.name
  rw [markerTypeIdsCode, Code.read_append, (passesComments_declared? _).read_fileHeader,
    List.nil_append, Code.read_map, List.filterMap_congr hdeclared]
  exact congrFun List.filterMap_eq_map ms

/-! ### Components -/

/-- Blanks are taken from the end, so not from before a character that stays. -/
theorem trimEnd_cons {c : Char} (h : isBlank c = false) (cs : List Char) :
    trimEnd (c :: cs) = c :: trimEnd cs := by
  rw [trimEnd, trimEnd, List.reverse_cons, List.dropWhile_append]
  split
  · next hempty =>
    rw [List.isEmpty_iff.mp hempty, List.dropWhile_cons_of_neg (by simp [h])]
    rfl
  · rw [List.reverse_append]
    rfl

/-- The comment for a line of a label is a comment. -/
theorem slash_prefix_labelComment (l : List Char) : ['/'] <+: (labelComment l).text.toList := by
  rw [labelComment, String.toList_ofList, trimEnd_cons (by decide)]
  exact List.cons_prefix_cons.mpr ⟨rfl, List.nil_prefix⟩

/-- What is read of the component of a marker: the comments do not matter. -/
theorem PassesComments.read_markerComponent {α : Type} {reader : String → Option α}
    (h : PassesComments reader) (c : Context) (m : MarkerDefinition) :
    Code.read reader (markerComponent c m) =
      (reader "#[derive(Debug, Clone, Default)]").toList ++
      (reader ("pub struct " ++ m.ident ++ ";")).toList ++
      (reader ("impl " ++ c.options.runtimePath ++ "::MarkerComponent for " ++ m.ident ++
        " \x7b")).toList ++
      (reader ("const TYPE_ID: &'static str = " ++ c.markerIdPath m ++ ";")).toList ++
      (reader "\x7d").toList := by
  have hlabel : Code.read reader (labelComments m.displayName) = [] :=
    Code.read_eq_nil (.map fun l => h.comment (slash_prefix_labelComment l))
  have hgizmo : Code.read reader (m.gizmo.map gizmoComment).toList = [] := by
    cases m.gizmo <;> simp [gizmoComment, h.comment]
  simp [markerComponent, Code.block, Code.bracketed, Code.line, Code.gap, hlabel, hgizmo, h.gap]

/-- What is read of each component is read of the file, in the order of the markers. -/
theorem PassesComments.read_markerComponentsCode {α : Type} {reader : String → Option α}
    (h : PassesComments reader) {c : Context} {f : MarkerDefinition → α}
    (hread : ∀ m, Code.read reader (markerComponent c m) = [f m]) (ms : List MarkerDefinition) :
    Code.read reader (markerComponentsCode c ms) = ms.map f := by
  rw [markerComponentsCode, Code.read_append, h.read_fileHeader, List.nil_append,
    Code.read_joinWithGaps h.gap, List.flatMap_map, funext hread, ← List.map_eq_flatMap]

/-- The components that the file of marker components declares. -/
theorem read_structs (c : Context) (ms : List MarkerDefinition) :
    Code.read (between? "pub struct " ";") (markerComponentsCode c ms) =
      ms.map MarkerDefinition.ident := by
  have hpasses : PassesComments (between? "pub struct " ";") :=
    passesComments_between? rfl (by decide)
  refine hpasses.read_markerComponentsCode (fun m => ?_) ms
  rw [hpasses.read_markerComponent]
  simp [between?_enclosed, between?_eq_none]

/-- The components that the file of marker components registers. -/
theorem read_impls (c : Context) (ms : List MarkerDefinition) :
    Code.read (between? ("impl " ++ c.options.runtimePath ++ "::MarkerComponent for ") " \x7b")
        (markerComponentsCode c ms) = ms.map MarkerDefinition.ident := by
  have hpasses : PassesComments
      (between? ("impl " ++ c.options.runtimePath ++ "::MarkerComponent for ") " \x7b") :=
    passesComments_between? (c := 'i') (by simp) (by decide)
  refine hpasses.read_markerComponentsCode (fun m => ?_) ms
  rw [hpasses.read_markerComponent]
  simp [between?_enclosed, between?_eq_none]

/-- The paths under which the file of marker components looks for type ids. -/
theorem read_typeIdPaths (c : Context) (ms : List MarkerDefinition) :
    Code.read (between? "const TYPE_ID: &'static str = " ";") (markerComponentsCode c ms) =
      ms.map c.markerIdPath := by
  have hpasses : PassesComments (between? "const TYPE_ID: &'static str = " ";") :=
    passesComments_between? rfl (by decide)
  refine hpasses.read_markerComponentsCode (fun m => ?_) ms
  rw [hpasses.read_markerComponent]
  simp [between?_enclosed, between?_eq_none]

/-! ### Marker providers -/

/-- What is read of each provider is read of the file, in the order of the markers. -/
theorem PassesComments.read_markerProvidersCode {α : Type} {reader : String → Option α}
    (h : PassesComments reader) {c : Context} {f : MarkerDefinition → α}
    (huse : reader ("use " ++ c.options.editorPath ++ "::MarkerProvider;") = none)
    (hread : ∀ m, Code.read reader (markerProvider c m) = [f m]) (ms : List MarkerDefinition) :
    Code.read reader (markerProvidersCode c ms) = ms.map f := by
  have hgap (m : MarkerDefinition) : Code.read reader (Code.gap :: markerProvider c m) = [f m] := by
    rw [Code.read_cons, hread, Code.gap, h.gap]
    rfl
  rw [markerProvidersCode, Code.read_append, Code.read_append, h.read_fileHeader, Code.read_flatMap,
    funext hgap, ← List.map_eq_flatMap]
  simp [Code.line, huse]

/-- The type ids of the markers that the file of marker providers registers. -/
theorem read_providedIds (c : Context) (ms : List MarkerDefinition) :
    Code.read (between? "type_id: " ",") (markerProvidersCode c ms) =
      ms.map fun m => quote m.name := by
  refine (passesComments_between? rfl (by decide)).read_markerProvidersCode ?_ (fun m => ?_) ms
  · simp [between?_eq_none]
  · simp [markerProvider, Code.block, Code.bracketed, Code.line, between?_enclosed,
      between?_eq_none]

/-- The paths of components that the file of marker providers refers to. -/
theorem read_componentTypes (c : Context) (ms : List MarkerDefinition) :
    Code.read (between? "component_type: " ",") (markerProvidersCode c ms) =
      ms.map fun m => quote (c.componentPath m) := by
  refine (passesComments_between? rfl (by decide)).read_markerProvidersCode ?_ (fun m => ?_) ms
  · simp [between?_eq_none]
  · simp [markerProvider, Code.block, Code.bracketed, Code.line, between?_enclosed,
      between?_eq_none]

/-! ### Manifests -/

variable {α : Type} {reader : String → Option α}

/-- A reader that passes over the lines around a list reads the entries. -/
theorem read_sliceCode {head module : String} {f : String → Option α}
    (hframe : ∀ line ∈ [head, head ++ "];", "];"], reader line = none)
    (hentry : ∀ n, reader (module ++ "::" ++ n ++ ",") = f n) (names : List String) :
    Code.read reader (sliceCode head module names) = names.filterMap f := by
  simp only [List.forall_mem_cons] at hframe
  obtain ⟨hhead, hempty, hclosing, -⟩ := hframe
  rw [sliceCode]
  split
  · next hnames =>
    rw [List.isEmpty_iff.mp hnames]
    simp [Code.line, hempty]
  · simp [Code.bracketed, Code.read_map, Code.line, hhead, hclosing, hentry]

/-- Something is imported only if there is something to import. -/
theorem read_importAs (c : Context) (k : ArtifactKind) (localName : String) (names : List String) :
    Code.read reader (importAs c k localName names) =
      if names = [] then []
      else (reader ("use " ++ c.options.generatedPath ++ "::" ++ k.module ++ "::" ++ c.module ++
        " as " ++ localName ++ ";")).toList := by
  rw [importAs]
  split
  · next hnames => rw [if_pos (List.isEmpty_iff.mp hnames), Code.read_nil]
  · next hnames =>
    rw [if_neg fun hnil => hnames (List.isEmpty_iff.mpr hnil)]
    simp [Code.line]

/-- The lists of a manifest. -/
inductive ManifestList where
  | providers
  | markerIds
deriving DecidableEq

namespace ManifestList

/-- What stands before each name in the list. -/
def opening : ManifestList → String
  | providers => "providers::"
  | markerIds => "marker_ids::"

/-- What stands behind the path in the import that the list needs. -/
def closing : ManifestList → String
  | providers => " as providers;"
  | markerIds => " as marker_ids;"

/-- The kind of the file that is imported. -/
def kind : ManifestList → ArtifactKind
  | providers => .actionProviders
  | markerIds => .markerTypeIds

/-- How the kind of the file stands in a path. -/
def segment : ManifestList → String
  | providers => "::action_providers::"
  | markerIds => "::marker_type_ids::"

/-- The names in the list. -/
def names (ds : List Definition) : ManifestList → List String
  | providers => (Definition.actions ds).map ActionDefinition.providerConst
  | markerIds => (Definition.markers ds).map MarkerDefinition.idConst

/-- The name under which the file is imported. -/
def localName : ManifestList → String
  | providers => "providers"
  | markerIds => "marker_ids"

/-- The line that begins the list. -/
def head : ManifestList → String
  | providers => "pub const ACTION_PROVIDERS: &[ActionProvider] = &["
  | markerIds => "pub const MARKER_TYPE_IDS: &[&str] = &["

end ManifestList

/-- What is read of a manifest, part by part. -/
theorem PassesComments.read_manifestCode (h : PassesComments reader) {c : Context}
    (huse : reader ("use " ++ c.options.runtimePath ++ "::ActionProvider;") = none)
    (ds : List Definition) :
    Code.read reader (manifestCode c ds) =
      ([.providers, .markerIds] : List ManifestList).flatMap (fun y =>
        Code.read reader (importAs c y.kind y.localName (y.names ds))) ++
      ([.providers, .markerIds] : List ManifestList).flatMap fun y =>
        Code.read reader (sliceCode y.head y.localName (y.names ds)) := by
  simp [manifestCode, h.read_fileHeader, Code.line, Code.gap, huse, h.gap, ManifestList.kind,
    ManifestList.localName, ManifestList.names, ManifestList.head]

/-- What a manifest lists. -/
theorem read_listed (c : Context) (ds : List Definition) (x : ManifestList) :
    Code.read (between? x.opening ",") (manifestCode c ds) = x.names ds := by
  have hpasses : PassesComments (between? x.opening ",") := by
    cases x <;> exact passesComments_between? rfl (by decide)
  have huse (rest : String) : between? x.opening "," ("use " ++ rest) = none := by
    cases x <;> simp [ManifestList.opening, between?_eq_none]
  have hframe (y : ManifestList) :
      ∀ line ∈ [y.head, y.head ++ "];", "];"], between? x.opening "," line = none := by
    cases x <;> cases y <;> simp [ManifestList.opening, ManifestList.head, between?_eq_none]
  have hentry (y : ManifestList) (n : String) : between? x.opening ","
      (y.localName ++ "::" ++ n ++ ",") = if y = x then some n else none := by
    split
    · next heq =>
      subst heq
      refine between?_eq_some_iff.mpr (String.toList_inj.mp ?_)
      cases y <;> simp [ManifestList.opening, ManifestList.localName]
    · next hne =>
      cases x <;> cases y <;>
        simp_all [ManifestList.opening, ManifestList.localName, between?_eq_none]
  have hslice (y : ManifestList) :
      Code.read (between? x.opening ",") (sliceCode y.head y.localName (y.names ds)) =
        if y = x then y.names ds else [] := by
    rw [read_sliceCode (hframe y) (hentry y)]
    split <;> simp
  have himport (y : ManifestList) :
      Code.read (between? x.opening ",") (importAs c y.kind y.localName (y.names ds)) = [] := by
    simp [read_importAs, String.append_assoc, huse]
  rw [hpasses.read_manifestCode (by rw [String.append_assoc, huse])]
  simp only [List.flatMap_cons, List.flatMap_nil, himport, hslice]
  cases x <;> simp

/-- The import of the file that a list of a manifest takes its names from. -/
theorem read_listImport {c : Context} {path module : String}
    (hpath : c.options.generatedPath = path) (hmodule : c.module = module) (ds : List Definition)
    (x : ManifestList) :
    Code.read (between? "use " x.closing) (manifestCode c ds) =
      if x.names ds = [] then [] else [path ++ x.segment ++ module] := by
  have hpasses : PassesComments (between? "use " x.closing) :=
    passesComments_between? rfl (by decide)
  have huse : between? "use " x.closing ("use " ++ c.options.runtimePath ++ "::ActionProvider;") =
      none := by
    refine between?_eq_none_of_ends ?_
    cases x <;> simp [ManifestList.closing]
  have hslice (y : ManifestList) :
      Code.read (between? "use " x.closing) (sliceCode y.head y.localName (y.names ds)) = [] := by
    rw [read_sliceCode (f := fun _ => none)]
    · exact List.filterMap_none _
    · cases y <;> simp [ManifestList.head, between?_eq_none]
    · cases y <;> simp [ManifestList.localName, between?_eq_none]
  have hline (y : ManifestList) : between? "use " x.closing ("use " ++ path ++ "::" ++
      y.kind.module ++ "::" ++ module ++ " as " ++ y.localName ++ ";") =
        if y = x then some (path ++ y.segment ++ module) else none := by
    split
    · next heq =>
      subst heq
      refine between?_eq_some_iff.mpr (String.toList_inj.mp ?_)
      cases y <;> simp [ManifestList.closing, ManifestList.localName, ManifestList.segment,
        ManifestList.kind, ArtifactKind.module]
    · next hne =>
      refine between?_eq_none_of_ends ?_
      cases x <;> cases y <;> simp_all [ManifestList.closing, ManifestList.localName]
  have himport (y : ManifestList) :
      Code.read (between? "use " x.closing) (importAs c y.kind y.localName (y.names ds)) =
        if y = x ∧ y.names ds ≠ [] then [path ++ y.segment ++ module] else [] := by
    rw [read_importAs, hpath, hmodule, hline]
    by_cases hnames : y.names ds = []
    · simp [hnames]
    · by_cases heq : y = x <;> simp [hnames, heq]
  rw [hpasses.read_manifestCode huse]
  simp only [List.flatMap_cons, List.flatMap_nil, himport, hslice]
  cases x <;> simp

end Defsheet

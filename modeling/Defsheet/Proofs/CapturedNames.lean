import Defsheet.Proofs.SiblingFiles

/-!
# Names that components capture

The file of marker components declares a type for each marker, and it uses types itself. Inside the
file a declared type goes before one of the same name from elsewhere, so a marker may capture a name
that the file relies on. Nearly everything that the file refers to stands behind a path, where a
marker of that name does no harm. One name has no path, the `str` in the type of the constants with
type ids, and nothing keeps a marker from being called so.

A component also goes by its bare name where it is registered. There the declared type is meant.

## Main definitions

* `bareNames` are the names in a type that have no path.
* `Compilation.structs` and `Compilation.bareTypes` read what the file of components declares and
  which types it uses without a path.

## Main results

* `Document.structs_compile` and `Document.bareTypes_compile`: what is read from the file.
* `Document.captures_nothing_iff`: when no name is captured.
* `Document.captures_str`: a marker that does capture one.
-/

namespace Defsheet

/-! ### Types of constants -/

/-- The type that a line gives to the constant which it declares: what stands between the first
colon and the first equals sign. -/
def constType? (line : String) : Option String :=
  if "const ".toList.isPrefixOf line.toList then
    some (String.ofList (((line.toList.dropWhile (· != ':')).drop 1).takeWhile (· != '=')))
  else none

/-- A line that does not declare a constant gives the type of none. -/
theorem constType?_eq_none {line : String} (h : ¬"const ".toList <+: line.toList) :
    constType? line = none := by
  rw [constType?, if_neg]
  rwa [List.isPrefixOf_iff_prefix]

/-- Comments declare no constants. -/
theorem passesComments_constType? : PassesComments constType? :=
  .of_opening "const " rfl (by decide) constType?_eq_none

/-- Whether the character may be part of a path or of a lifetime. -/
def isPathChar (c : Char) : Bool := isWordChar c || "#:'".toList.contains c

/-- The names that stand alone in a type: neither in a path nor as a lifetime. -/
def bareNames (type : String) : List String :=
  ((type.toList.splitOnP fun c => !isPathChar c).filter fun w =>
    !w.isEmpty && w.all fun c => isWordChar c || c == '#').map String.ofList

example : bareNames "Option<&'static crate::types::Prefab, r#type>" = ["Option", "r#type"] := by
  decide

namespace Compilation

/-- The types that the file of marker components declares. -/
def structs (c : Compilation) : List String :=
  c.read .markerComponents (between? "pub struct " ";")

/-- The types that the file of marker components uses without a path. -/
def bareTypes (c : Compilation) : List String :=
  (c.read .markerComponents constType?).flatMap bareNames

end Compilation

/-- The types of the constants in the file of marker components. -/
theorem read_constTypes (c : Context) (ms : List MarkerDefinition) :
    Code.read constType? (markerComponentsCode c ms) = ms.map fun _ => " &'static str " := by
  refine passesComments_constType?.read_markerComponentsCode (fun m => ?_) ms
  have hconst : constType? ("const TYPE_ID: &'static str = " ++ c.markerIdPath m ++ ";") =
      some " &'static str " := by
    simp [constType?]
  rw [passesComments_constType?.read_markerComponent, hconst]
  simp [constType?_eq_none]

/-- The type of a type id mentions one name that is not qualified. -/
theorem bareNames_constType : bareNames " &'static str " = ["str"] := by decide

/-! ### Components -/

/-- Only the word itself is written as a word that is not reserved. -/
theorem writtenIdent_eq_iff {s w : String} (hmark : '#' ∉ w.toList) (hfree : isReserved w = false) :
    writtenIdent s = w ↔ s = w := by
  rw [writtenIdent]
  split
  · next hreserved =>
    constructor
    · rintro rfl
      simp at hmark
    · rintro rfl
      rw [hfree] at hreserved
      cases hreserved
  · exact Iff.rfl

namespace Document

variable {d : Document} {o : Options}

/-- The component of a marker is named after the marker. -/
theorem ident_of_mem_markers {m : MarkerDefinition}
    (hm : m ∈ Definition.markers (d.resolve o).definitions) : m.ident = writtenIdent m.name := by
  obtain ⟨x, -, hfrom⟩ := resolvedFrom_of_mem (Definition.mem_markers_iff.mp hm)
  cases x with
  | action a => exact hfrom.realizes.elim
  | marker x =>
      have hnames : m.idConst = constName x.name ∧ m.ident = writtenIdent x.name := by
        simpa [Definition.generatedNames, Declaration.generatedNames] using hfrom.names
      rw [hfrom.realizes.1]
      exact hnames.2

section Reading

variable (hmodule : moduleName d.name ≠ "") (hname : '\n' ∉ d.name.toList)
  (hruntime : '\n' ∉ o.runtimePath.toList) (hgenerated : '\n' ∉ o.generatedPath.toList)
include hname hruntime hgenerated

/-- The file of components does not depend on the paths for the editor. -/
theorem isTidy_markerComponents :
    Code.IsTidy (markerComponentsCode (d.context o)
      (Definition.markers (d.resolve o).definitions)) := by
  have hc : (d.context { o with editorPath := "" }).OnOneLine :=
    context_onOneLine hname hruntime List.not_mem_nil hgenerated
  exact hc.isTidy_markerComponentsCode onOneLine_of_mem_markers

include hmodule

/-- **What the file of components declares**: one type for each marker. -/
theorem structs_compile : (d.compile o).structs =
    (Definition.markers (d.resolve o).definitions).map MarkerDefinition.ident :=
  read_compile hmodule rfl (isTidy_markerComponents hname hruntime hgenerated) (read_structs _ _)
    fun h => by rw [h, List.map_nil]

/-- **What the file of components uses without a path**: one name, once for each marker. -/
theorem bareTypes_compile : (d.compile o).bareTypes =
    (Definition.markers (d.resolve o).definitions).map fun _ => "str" := by
  have hread : (d.compile o).read .markerComponents constType? =
      (Definition.markers (d.resolve o).definitions).map fun _ => " &'static str " :=
    read_compile hmodule rfl (isTidy_markerComponents hname hruntime hgenerated)
      (read_constTypes _ _) fun h => by rw [h, List.map_nil]
  rw [Compilation.bareTypes, hread, List.flatMap_map, bareNames_constType, ← List.map_eq_flatMap]

end Reading

/-- **When no name is captured.** Whatever the text of a document and the options are, as long as
the name of the document and the paths in the file have no line feed in them, none of the types that
the file of marker components declares has the name of a type that the file uses without a path,
exactly if no marker of the document is called `str`. -/
theorem captures_nothing_iff (d : Document) (o : Options) (hname : '\n' ∉ d.name.toList)
    (hruntime : '\n' ∉ o.runtimePath.toList) (hgenerated : '\n' ∉ o.generatedPath.toList) :
    (∀ s ∈ (d.compile o).structs, s ∉ (d.compile o).bareTypes) ↔
      (moduleName d.name ≠ "" →
        ∀ m ∈ Definition.markers (d.resolve o).definitions, m.name ≠ "str") := by
  by_cases hmodule : moduleName d.name = ""
  · simp [Compilation.structs, Compilation.read, Compilation.artifact?, compile, hmodule]
  have hident {m : MarkerDefinition} (hm : m ∈ Definition.markers (d.resolve o).definitions) :
      m.ident = "str" ↔ m.name = "str" := by
    rw [ident_of_mem_markers hm]
    exact writtenIdent_eq_iff (by decide) (by decide)
  rw [structs_compile hmodule hname hruntime hgenerated,
    bareTypes_compile hmodule hname hruntime hgenerated]
  constructor
  · intro h _ m hm hstr
    refine h m.ident (List.mem_map_of_mem hm) (List.mem_map.mpr ⟨m, hm, ?_⟩)
    exact ((hident hm).mpr hstr).symm
  · intro h s hs hbare
    obtain ⟨m, hm, rfl⟩ := List.mem_map.mp hs
    obtain ⟨-, -, hstr⟩ := List.mem_map.mp hbare
    exact h hmodule m hm ((hident hm).mp hstr.symm)

/-- A document with a text, under a plain name. -/
def markerSheet (text : String) : Document := ⟨"level", text⟩

/-- What the file of components declares and uses for such a document, by default. -/
theorem read_markerSheet {text : String} {ms : List MarkerDefinition}
    (h : Definition.markers ((markerSheet text).resolve {}).definitions = ms) :
    ((markerSheet text).compile {}).structs = ms.map MarkerDefinition.ident ∧
      ((markerSheet text).compile {}).bareTypes = ms.map fun _ => "str" := by
  have hmodule : moduleName "level" ≠ "" := by decide +kernel
  have hname : '\n' ∉ "level".toList := by decide
  have hruntime : '\n' ∉ ({} : Options).runtimePath.toList := by decide
  have hgenerated : '\n' ∉ ({} : Options).generatedPath.toList := by decide
  rw [← h]
  exact ⟨structs_compile hmodule hname hruntime hgenerated,
    bareTypes_compile hmodule hname hruntime hgenerated⟩

/-- A marker that is called like the trait behind its path captures nothing. Nor does a marker `str`
that is dropped, because another one has its constant. -/
theorem captures_nothing_of_dropped :
    let d := markerSheet
      "marker Str \x7b \x7d marker str \x7b \x7d marker MarkerComponent \x7b \x7d"
    (d.compile {}).structs = ["Str", "MarkerComponent"] ∧
      ∀ s ∈ (d.compile {}).structs, s ∉ (d.compile {}).bareTypes := by
  intro d
  have hmarkers : Definition.markers (d.resolve {}).definitions =
      [⟨"Str", "Str", "STR", none, none, 1⟩,
        ⟨"MarkerComponent", "MarkerComponent", "MARKER_COMPONENT", none, none, 1⟩] := by
    decide +kernel
  refine ⟨(read_markerSheet hmarkers).1,
    (captures_nothing_iff d {} (by decide) (by decide) (by decide)).mpr fun _ => ?_⟩
  rw [hmarkers]
  simp

/-- A marker called `str` captures the type of its own constant. -/
theorem captures_str :
    let d := markerSheet "marker str \x7b \x7d"
    ∃ s ∈ (d.compile {}).structs, s ∈ (d.compile {}).bareTypes := by
  intro d
  have hmarkers : Definition.markers (d.resolve {}).definitions =
      [⟨"str", "str", "STR", none, none, 1⟩] := by decide +kernel
  obtain ⟨hstructs, htypes⟩ := read_markerSheet hmarkers
  rw [hstructs, htypes]
  exact ⟨"str", List.mem_singleton.mpr rfl, List.mem_singleton.mpr rfl⟩

end Document

end Defsheet

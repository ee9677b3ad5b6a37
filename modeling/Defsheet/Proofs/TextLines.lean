import Defsheet.Output
import Defsheet.Proofs.Words

/-!
# Lines of generated texts

Generated texts are put together from pieces that end with a line feed, so their lines are those of
the pieces. A piece that has no other line end in it is one line.

## Main results

* `lines_append`: a text may be cut after a line feed.
* `lines_join`: the lines of a text that is put together from pieces.
* `hasLine_render`: a line of code is a line of the text that it becomes.
* `hasLine_indexContent_iff`: the modules that an index mounts.
-/

namespace Defsheet

/-! ### Cutting texts -/

/-- A text without a line end. -/
def IsUnbroken (s : String) : Prop := '\n' ∉ s.toList ∧ '\r' ∉ s.toList

/-- A character that ends no line goes to the front of the line after it. -/
theorem lines_cons_of_eq {c : Char} {cs l : List Char} {ls : List (List Char)} (hc : c ≠ '\n')
    (hcr : ∀ cs', c = '\r' → cs = '\n' :: cs' → False) (h : lines cs = l :: ls) :
    lines (c :: cs) = (c :: l) :: ls := by
  rw [lines, h]
  · exact hc
  · exact hcr

/-- A text that is not empty has a line. -/
theorem lines_ne_nil {cs : List Char} (h : cs ≠ []) : lines cs ≠ [] := by
  fun_cases lines cs with
  | case1 => exact absurd rfl h
  | case2 cs => exact List.cons_ne_nil _ _
  | case3 cs => exact List.cons_ne_nil _ _
  | case4 c cs => exact List.cons_ne_nil _ _
  | case5 c cs l ls => exact List.cons_ne_nil _ _

/-- What is left of a text after its first character ends like the text. -/
theorem getLast?_tail {c d : Char} {cs : List Char} (h : ∀ c' ∈ (c :: cs).getLast?, c' = d) :
    ∀ c' ∈ cs.getLast?, c' = d := by
  intro c' hc'
  refine h c' ?_
  rw [List.getLast?_cons, hc', Option.getD_some]
  rfl

/-- What a line feed is put behind ends with it. -/
theorem getLast?_lineFeed (s : List Char) : ∀ c ∈ (s ++ ['\n']).getLast?, c = '\n' := by
  simp

/-- **Cutting after a line feed** cuts between lines. -/
theorem lines_append {u v : List Char} (h : ∀ c ∈ u.getLast?, c = '\n') :
    lines (u ++ v) = lines u ++ lines v := by
  fun_induction lines u with
  | case1 => rfl
  | case2 cs ih => rw [List.cons_append, lines, ih (getLast?_tail h), List.cons_append]
  | case3 cs ih =>
      rw [List.cons_append, List.cons_append, lines, ih (getLast?_tail (getLast?_tail h)),
        List.cons_append]
  | case4 c cs hc hcr hnil ih =>
      obtain rfl : cs = [] := Classical.not_not.mp fun hne => lines_ne_nil hne hnil
      exact absurd (h c rfl) hc
  | case5 c cs hc hcr l ls heq ih =>
      have hne : cs ≠ [] := by
        rintro rfl
        cases heq
      have hrest := ih (getLast?_tail h)
      rw [heq, List.cons_append] at hrest
      refine lines_cons_of_eq hc (fun cs' hr hcs' => ?_) hrest
      obtain ⟨c', cs'', rfl⟩ := List.exists_cons_of_ne_nil hne
      obtain ⟨rfl, -⟩ := List.cons.inj hcs'
      exact hcr _ hr rfl

/-- A text without a line feed is one line. A carriage return at its end would belong to the end of
the line. -/
theorem lines_concat {s : List Char} (hlf : '\n' ∉ s) (hcr : s.getLast? ≠ some '\r') :
    lines (s ++ ['\n']) = [s] := by
  induction s with
  | nil => rfl
  | cons c cs ih =>
      rw [List.mem_cons, not_or] at hlf
      cases cs with
      | nil => exact lines_cons_of_eq (Ne.symm hlf.1) (fun _ hr _ => hcr (congrArg some hr)) rfl
      | cons c' cs =>
          refine lines_cons_of_eq (Ne.symm hlf.1) (fun _ _ hfeed => ?_) (ih hlf.2 hcr)
          exact hlf.2 ((List.cons.inj hfeed).1 ▸ List.mem_cons_self)

/-- A text without a line end is one line. -/
theorem IsUnbroken.lines_eq {s : String} (h : IsUnbroken s) :
    lines (s.toList ++ ['\n']) = [s.toList] :=
  lines_concat h.1 fun hlast => h.2 (List.mem_of_getLast? hlast)

/-- **The lines of a text that is put together** from pieces are those of the pieces. -/
theorem lines_join {pieces : List String} (h : ∀ s ∈ pieces, ∀ c ∈ s.toList.getLast?, c = '\n') :
    lines (String.join pieces).toList = pieces.flatMap fun s => lines s.toList := by
  induction pieces with
  | nil => simp [lines]
  | cons s pieces ih =>
      rw [List.forall_mem_cons] at h
      rw [String.join_cons, String.toList_append, lines_append h.1, ih h.2, List.flatMap_cons]

/-! ### Lines of code -/

/-- Whether a line of a text is the given one. -/
def HasLine (content line : String) : Prop := line.toList ∈ lines content.toList

instance (content line : String) : Decidable (HasLine content line) :=
  inferInstanceAs (Decidable (_ ∈ _))

/-- A line of code ends with a line feed. -/
theorem CodeLine.getLast?_render (l : CodeLine) : ∀ c ∈ l.render.toList.getLast?, c = '\n' := by
  unfold render
  split
  · exact getLast?_lineFeed []
  · rw [String.toList_append]
    exact getLast?_lineFeed _

/-- **A line of code is a line of the text** that it becomes. -/
theorem hasLine_render {code : Code} {text : String} (htext : IsUnbroken text)
    (h : Code.line text ∈ code) : HasLine code.render text := by
  have hends : ∀ s ∈ code.map CodeLine.render, ∀ c ∈ s.toList.getLast?, c = '\n' := by
    intro s hs
    obtain ⟨l, -, rfl⟩ := List.mem_map.mp hs
    exact l.getLast?_render
  have hrender : (Code.line text).render.toList = text.toList ++ ['\n'] := by
    rw [CodeLine.render]
    split
    · next hempty =>
      have hempty : text = "" := hempty
      rw [hempty]
      rfl
    · simp [Code.line]
  rw [HasLine, Code.render, lines_join hends, List.mem_flatMap]
  refine ⟨_, List.mem_map_of_mem h, ?_⟩
  rw [hrender, htext.lines_eq]
  exact List.mem_singleton_self _

/-! ### Lines of indexes -/

/-- The modules of kinds have no line ends. -/
theorem ArtifactKind.isUnbroken_module (k : ArtifactKind) : IsUnbroken k.module := by
  cases k <;> exact ⟨by decide, by decide⟩

/-- The line that mounts a module. -/
def mountLine (m : String) : String := "pub mod " ++ m ++ ";"

/-- A module is mounted in one line. -/
theorem IsUnbroken.mountLine {m : String} (h : IsUnbroken m) : IsUnbroken (mountLine m) := by
  simpa [IsUnbroken, Defsheet.mountLine] using h

/-- The line that mounts a module tells which one. -/
theorem mountLine_injective {m m' : String} (h : mountLine m = mountLine m') : m = m' := by
  have hlist := congrArg String.toList h
  simp only [mountLine, String.toList_append] at hlist
  exact String.toList_inj.mp (List.append_cancel_left (List.append_cancel_right hlist))

/-- The lines of an index: two that do not depend on the modules, and those of the modules. -/
theorem lines_indexContent (ms : List String) :
    lines (indexContent ms).toList =
      ["// @generated by actiondef. Do not edit by hand.".toList, []] ++
        ms.flatMap fun m => lines ((mountLine m).toList ++ ['\n']) := by
  have hline (m : String) : ("pub mod " ++ m ++ ";\n").toList = (mountLine m).toList ++ ['\n'] := by
    simp [mountLine]
  have hends : ∀ s ∈ ms.map (fun m => "pub mod " ++ m ++ ";\n"), ∀ c ∈ s.toList.getLast?,
      c = '\n' := by
    intro s hs
    obtain ⟨m, -, rfl⟩ := List.mem_map.mp hs
    rw [hline]
    exact getLast?_lineFeed _
  have hheader : lines "// @generated by actiondef. Do not edit by hand.\n\n".toList =
      ["// @generated by actiondef. Do not edit by hand.".toList, []] := by
    decide +kernel
  have hfeed : ∀ c ∈ "// @generated by actiondef. Do not edit by hand.\n\n".toList.getLast?,
      c = '\n' := by
    simp
  unfold indexContent
  rw [String.toList_append, lines_append hfeed, hheader, lines_join hends, List.flatMap_map]
  simp only [hline]

/-- A module of an index is mounted by a line. -/
theorem hasLine_indexContent {ms : List String} {m : String} (hm : IsUnbroken m) (h : m ∈ ms) :
    HasLine (indexContent ms) (mountLine m) := by
  rw [HasLine, lines_indexContent]
  refine List.mem_append_right _ (List.mem_flatMap.mpr ⟨m, h, ?_⟩)
  rw [hm.mountLine.lines_eq]
  exact List.mem_singleton_self _

/-- **The modules that an index mounts** are those that it is made from. -/
theorem hasLine_indexContent_iff {ms : List String} (hms : ∀ m ∈ ms, IsUnbroken m) {x : String} :
    HasLine (indexContent ms) (mountLine x) ↔ x ∈ ms := by
  refine ⟨fun h => ?_, fun h => hasLine_indexContent (hms x h) h⟩
  rw [HasLine, lines_indexContent] at h
  obtain hheader | hline := List.mem_append.mp h
  · simp [mountLine] at hheader
  · obtain ⟨m, hm, hline⟩ := List.mem_flatMap.mp hline
    rw [(hms m hm).mountLine.lines_eq, List.mem_singleton] at hline
    rwa [mountLine_injective (String.toList_inj.mp hline)]

end Defsheet

import Defsheet.Proofs.FirstWins

/-!
# The order of a batch

Which document gets a module and which entry gets a type id depends on the order of the documents in
a batch, but only where two of them want the same. Whether this happens does not depend on the
order: nothing is turned down exactly if all modules are different and all type ids are. Then
everybody is written and every entry is registered, in any order.

Documents without a module are passed over, so they may come and go as well.

## Main results

* `Registry.diagnostics_eq_nil_iff`: when nothing is turned down.
* `Registry.diagnostics_withModule`: documents without a module do not show in what is reported.
* `Registry.ofBatch_reordered`: batches that register the same.
-/

namespace Defsheet

/-- The documents of a batch that have a module. -/
def withModule (cs : List Compilation) : List Compilation := cs.filter fun c => c.module ≠ ""

/-- The last document counts if it has a module. -/
theorem withModule_concat (cs : List Compilation) (c : Compilation) :
    withModule (cs ++ [c]) = withModule cs ++ if c.module = "" then [] else [c] := by
  rw [withModule, List.filter_append, ← withModule, List.filter_singleton]
  by_cases hempty : c.module = "" <;> simp [hempty]

/-- Looking for a module among documents that have one. -/
theorem find?_withModule (cs : List Compilation) {m : String} (hm : m ≠ "") :
    ((withModule cs).find? fun c => c.module = m) = cs.find? fun c => c.module = m := by
  rw [withModule, List.find?_filter]
  congr 1
  funext c
  by_cases hc : c.module = m <;> simp [hc, hm]

/-! ### Nothing is turned down -/

/-- No entry is a duplicate exactly if all type ids are different. -/
theorem duplicates_eq_nil_iff {before : List ManifestEntry}
    (hbefore : (before.map ManifestEntry.typeId).Nodup) (es : List ManifestEntry) :
    duplicates before es = [] ↔ ((before ++ es).map ManifestEntry.typeId).Nodup := by
  induction es using List.reverseRecOn with
  | nil => rw [List.append_nil]; exact iff_of_true rfl hbefore
  | append_singleton es e ih =>
      have hstep : duplicates before (es ++ [e]) = duplicates before es ++
          (((before ++ es).find? fun e' => e'.typeId = e.typeId).map e.rejection).toList := by
        rw [duplicates, withEarlier_concat, List.filterMap_append, ← duplicates]
        simp only [List.filterMap_cons, List.filterMap_nil]
        cases (before ++ es).find? fun e' => e'.typeId = e.typeId <;> rfl
      have hfree : ((before ++ es).find? fun e' => e'.typeId = e.typeId) = none ↔
          e.typeId ∉ (before ++ es).map ManifestEntry.typeId := by
        simp [List.find?_eq_none]
      rw [hstep, List.append_eq_nil_iff, ih, ← List.append_assoc]
      simp only [Option.toList_eq_nil_iff, Option.map_eq_none_iff, hfree]
      constructor
      · rintro ⟨hnodup, hnew⟩
        exact (nodup_map_concat_iff hnodup).mpr hnew
      · intro hnodup
        have hrest : ((before ++ es).map ManifestEntry.typeId).Nodup := by
          rw [List.map_append] at hnodup
          exact hnodup.of_append_left
        exact ⟨hrest, (nodup_map_concat_iff hrest).mp hnodup⟩

/-- Modules and type ids are all different. -/
structure IsClashFree (cs : List Compilation) : Prop where
  modules : (cs.map Compilation.module).Nodup
  typeIds : ((cs.flatMap Compilation.manifest).map ManifestEntry.typeId).Nodup

/-- That there are no clashes does not depend on the order. -/
theorem IsClashFree.perm {cs cs' : List Compilation} (h : IsClashFree cs) (hperm : cs.Perm cs') :
    IsClashFree cs' where
  modules := (hperm.map _).nodup_iff.mp h.modules
  typeIds := ((hperm.flatMap_right _).map _).nodup_iff.mp h.typeIds

namespace Registry

/-- If modules are different, everybody who has one owns it. -/
theorem ownersOf_eq {cs : List Compilation}
    (h : ((withModule cs).map Compilation.module).Nodup) : ownersOf cs = withModule cs := by
  rw [← writable_eq_ownersOf, writable_ofBatch]
  exact firstOfEach_eq_self h

/-- What is reported for the last document of a batch that reports nothing before it. -/
theorem rejections_eq_nil_iff {cs : List Compilation} (h : IsClashFree (withModule cs))
    (c : Compilation) : c.rejections cs = [] ↔ IsClashFree (withModule (cs ++ [c])) := by
  rw [withModule_concat, Compilation.rejections]
  by_cases hempty : c.module = ""
  · rw [if_pos hempty, if_pos hempty, List.append_nil]
    exact iff_of_true rfl h
  rw [if_neg hempty, if_neg hempty, ← find?_withModule cs hempty]
  have hmodules := nodup_map_concat_iff (a := c) h.modules
  cases hfirst : (withModule cs).find? fun c' => c'.module = c.module with
  | some owner =>
      refine iff_of_false (List.cons_ne_nil _ _) fun hclash => ?_
      refine hmodules.mp hclash.modules (List.mem_map.mpr ⟨owner, ?_, ?_⟩)
      · exact List.mem_of_find?_eq_some hfirst
      · simpa using List.find?_some hfirst
  | none =>
      have hfree : c.module ∉ (withModule cs).map Compilation.module := by
        simpa [List.find?_eq_none] using hfirst
      simp only [ownersOf_eq h.modules]
      rw [duplicates_eq_nil_iff h.typeIds]
      constructor
      · intro hids
        exact ⟨hmodules.mpr hfree, by rwa [List.flatMap_append, List.flatMap_singleton]⟩
      · intro hclash
        have hids := hclash.typeIds
        rwa [List.flatMap_append, List.flatMap_singleton] at hids

/-- **Nothing is turned down** exactly if the documents that have a module have different ones, and
all their type ids are different. -/
theorem diagnostics_eq_nil_iff (cs : List Compilation) :
    (ofBatch cs).2 = [] ↔ IsClashFree (withModule cs) := by
  induction cs using List.reverseRecOn with
  | nil => exact iff_of_true rfl ⟨.nil, .nil⟩
  | append_singleton cs c ih =>
      rw [ofBatch_concat, addDocument_snd, List.append_eq_nil_iff, ih]
      constructor
      · rintro ⟨hbefore, hlast⟩
        exact (rejections_eq_nil_iff hbefore c).mp hlast
      · intro hall
        have hbefore : IsClashFree (withModule cs) := by
          rw [withModule_concat] at hall
          refine ⟨?_, ?_⟩
          · have hmodules := hall.modules
            rw [List.map_append] at hmodules
            exact hmodules.of_append_left
          · have hids := hall.typeIds
            rw [List.flatMap_append, List.map_append] at hids
            exact hids.of_append_left
        exact ⟨hbefore, (rejections_eq_nil_iff hbefore c).mpr hall⟩

/-! ### Documents without a module -/

/-- The documents that are written are among those that have a module. -/
theorem writable_congr {cs cs' : List Compilation} (h : withModule cs = withModule cs') :
    (ofBatch cs).1.writable cs = (ofBatch cs').1.writable cs' := by
  rw [writable_ofBatch, writable_ofBatch, ← withModule, ← withModule, h]

/-- Documents without a module have no entries. -/
theorem entries_congr {cs cs' : List Compilation} (h : withModule cs = withModule cs') :
    (ofBatch cs).1.entries = (ofBatch cs').1.entries := by
  rw [entries_ofBatch, entries_ofBatch, writable_congr h]

/-- Leaving out the documents without a module a second time changes nothing. -/
theorem withModule_withModule (cs : List Compilation) :
    withModule (withModule cs) = withModule cs := by
  rw [withModule, withModule, List.filter_filter]
  simp

/-- **Documents without a module do not show** in what is reported. -/
theorem diagnostics_withModule (cs : List Compilation) :
    (ofBatch (withModule cs)).2 = (ofBatch cs).2 := by
  induction cs using List.reverseRecOn with
  | nil => rfl
  | append_singleton cs c ih =>
      rw [withModule_concat, ofBatch_concat, addDocument_snd]
      by_cases hempty : c.module = ""
      · rw [if_pos hempty, List.append_nil, ih, Compilation.rejections, if_pos hempty,
          List.append_nil]
      · have howners : ownersOf (withModule cs) = ownersOf cs := by
          rw [← writable_eq_ownersOf, ← writable_eq_ownersOf]
          exact writable_congr (withModule_withModule cs)
        rw [if_neg hempty, ofBatch_concat, addDocument_snd, ih, Compilation.rejections,
          Compilation.rejections, find?_withModule cs hempty, howners]

/-- Nothing is reported for documents without a module. -/
theorem diagnostics_congr {cs cs' : List Compilation} (h : withModule cs = withModule cs') :
    (ofBatch cs).2 = (ofBatch cs').2 := by
  rw [← diagnostics_withModule cs, h, diagnostics_withModule cs']

/-! ### Other orders -/

/-- An entry is found under a type id exactly if it is registered and has it. -/
theorem get?_eq_some_iff {cs : List Compilation} {id : String} {e : ManifestEntry} :
    (ofBatch cs).1.get? id = some e ↔ e ∈ (ofBatch cs).1.entries ∧ e.typeId = id := by
  constructor
  · intro h
    exact ⟨List.mem_of_find?_eq_some h, by simpa using List.find?_some h⟩
  · rintro ⟨hmem, rfl⟩
    exact (mem_sorted_iff cs e).mp (List.mem_mergeSort.mpr hmem)

/-- Two batches register the same: the same entry stands under each type id, the entries come in the
same order, and the same documents are written. -/
structure SameOutcome (cs cs' : List Compilation) : Prop where
  get?_eq : ∀ id, (ofBatch cs).1.get? id = (ofBatch cs').1.get? id
  sorted_eq : (ofBatch cs).1.sorted = (ofBatch cs').1.sorted
  writable_perm : ((ofBatch cs).1.writable cs).Perm ((ofBatch cs').1.writable cs')

/-- What can be looked up depends on which entries there are, not on how they came. -/
theorem SameOutcome.of_perm {cs cs' : List Compilation}
    (hentries : (ofBatch cs).1.entries.Perm (ofBatch cs').1.entries)
    (hwritable : ((ofBatch cs).1.writable cs).Perm ((ofBatch cs').1.writable cs')) :
    SameOutcome cs cs' where
  get?_eq id := by
    ext e
    rw [get?_eq_some_iff, get?_eq_some_iff, hentries.mem_iff]
  sorted_eq := by
    have hsorted : (ofBatch cs).1.sorted.Perm (ofBatch cs').1.sorted :=
      (List.mergeSort_perm _ _).trans (hentries.trans (List.mergeSort_perm _ _).symm)
    refine hsorted.eq_of_pairwise ?_ (pairwise_sorted cs) (pairwise_sorted cs')
    intro a b _ _ hab hba
    exact absurd hba (lt_asymm hab)
  writable_perm := hwritable

/-- A batch without clashes is registered as a whole. -/
theorem entries_of_isClashFree {cs : List Compilation} (h : IsClashFree (withModule cs)) :
    (ofBatch cs).1.writable cs = withModule cs ∧
      (ofBatch cs).1.entries = (withModule cs).flatMap Compilation.manifest := by
  have hwritable : (ofBatch cs).1.writable cs = withModule cs := by
    rw [writable_eq_ownersOf, ownersOf_eq h.modules]
  refine ⟨hwritable, ?_⟩
  rw [entries_ofBatch, hwritable]
  exact firstOfEach_eq_self h.typeIds

/-- **Batches that register the same.** If nothing of a batch is turned down, then nothing is turned
down in any other order of it either, every type id leads to the same entry, and the same documents
are written. Documents without a module have no influence, whatever is turned down: batches with the
same documents otherwise report the same, register the same entries and write the same documents, in
the same order. -/
theorem ofBatch_reordered (cs cs' : List Compilation) :
    ((ofBatch cs).2 = [] → cs.Perm cs' → (ofBatch cs').2 = [] ∧ SameOutcome cs cs') ∧
      (withModule cs = withModule cs' →
        (ofBatch cs).2 = (ofBatch cs').2 ∧ (ofBatch cs).1.entries = (ofBatch cs').1.entries ∧
          (ofBatch cs).1.writable cs = (ofBatch cs').1.writable cs') := by
  refine ⟨fun hnone hperm => ?_, fun hsame => ?_⟩
  · have hclash := (diagnostics_eq_nil_iff cs).mp hnone
    have hperm' : (withModule cs).Perm (withModule cs') := hperm.filter _
    have hclash' := hclash.perm hperm'
    obtain ⟨hwritable, hentries⟩ := entries_of_isClashFree hclash
    obtain ⟨hwritable', hentries'⟩ := entries_of_isClashFree hclash'
    refine ⟨(diagnostics_eq_nil_iff cs').mpr hclash', .of_perm ?_ ?_⟩
    · rw [hentries, hentries']
      exact hperm'.flatMap_right _
    · rwa [hwritable, hwritable']
  · exact ⟨diagnostics_congr hsame, entries_congr hsame, writable_congr hsame⟩

/-- The results of some documents. -/
def compileAll (docs : List Document) : List Compilation := docs.map fun d => d.compile {}

/-- Two documents that share no name, and one without a module whose marker the first one has too:
the last may stand anywhere, or be left out. -/
theorem ofBatch_reordered_of_nameless :
    let first : Document := ⟨"hall", "marker Lamp \x7b \x7d"⟩
    let nameless : Document := ⟨"-", "marker Lamp \x7b \x7d"⟩
    let second : Document := ⟨"yard", "action Gate.Open \x7b \x7d"⟩
    let cs := compileAll [first, nameless, second]
    let cs' := compileAll [second, first, nameless]
    let cs'' := compileAll [first, second]
    (ofBatch cs).2 = [] ∧ cs.Perm cs' ∧ (ofBatch cs').2 = [] ∧ SameOutcome cs cs' ∧
      withModule cs = withModule cs'' ∧ (ofBatch cs'').2 = [] ∧
        (ofBatch cs).1.entries = (ofBatch cs'').1.entries ∧
          (ofBatch cs).1.writable cs = (ofBatch cs'').1.writable cs'' := by
  intro first nameless second cs cs' cs''
  have hnone : (ofBatch cs).2 = [] := by decide +kernel
  have hperm : cs.Perm cs' :=
    List.Perm.map _ (@List.perm_append_comm _ [first, nameless] [second])
  have hsame : withModule cs = withModule cs'' := by decide +kernel
  obtain ⟨hnone', houtcome⟩ := (ofBatch_reordered cs cs').1 hnone hperm
  obtain ⟨hreports, hentries, hwritable⟩ := (ofBatch_reordered cs cs'').2 hsame
  exact ⟨hnone, hperm, hnone', houtcome, hsame, hreports ▸ hnone, hentries, hwritable⟩

end Registry

end Defsheet

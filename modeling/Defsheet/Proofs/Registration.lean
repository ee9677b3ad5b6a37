import Defsheet.Proofs.FirstOfEach
import Defsheet.Registry

/-!
# What a batch registers

The registry is built document by document and entry by entry. What comes out can be said without
going through that: the first document of each module is written, and the first entry of each type
id in the manifests of these documents is registered.

## Main results

* `Registry.writable_ofBatch`: the documents that have their modules for themselves.
* `Registry.entries_ofBatch`: the entries of the registry.
-/

namespace Defsheet

/-- The documents that get a module when some modules are taken already. -/
def claimants (taken : List String) (cs : List Compilation) : List Compilation :=
  (firstOfEach Compilation.module (cs.filter fun c => c.module ≠ "")).filter
    fun c => c.module ∉ taken

/-- A document gets its module unless it has none or the module is taken. -/
theorem claimants_cons (taken : List String) (c : Compilation) (cs : List Compilation) :
    claimants taken (c :: cs) =
      if c.module = "" ∨ c.module ∈ taken then claimants taken cs
      else c :: claimants (taken ++ [c.module]) cs := by
  unfold claimants
  by_cases hempty : c.module = ""
  · rw [List.filter_cons_of_neg (by simpa using hempty), if_pos (.inl hempty)]
  rw [List.filter_cons_of_pos (by simpa using hempty), firstOfEach]
  by_cases htaken : c.module ∈ taken
  · rw [List.filter_cons_of_neg (by simpa using htaken), List.filter_filter, if_pos (.inr htaken)]
    apply List.filter_congr
    intro c' _
    by_cases hsame : c'.module = c.module <;> simp_all
  · rw [List.filter_cons_of_pos (by simpa using htaken), List.filter_filter,
      if_neg (not_or.mpr ⟨hempty, htaken⟩)]
    congr 1
    apply List.filter_congr
    intro c' _
    simp [not_or]

namespace Registry

variable {r : Registry} {i : Nat} {c : Compilation}

/-! ### One document -/

/-- Entries are registered if their type ids are free, and owners stay. -/
theorem addEntries_fst (r : Registry) (es : List ManifestEntry) :
    (r.addEntries es).1.entries = es.foldl (keepFirst ManifestEntry.typeId) r.entries ∧
      (r.addEntries es).1.owners = r.owners := by
  induction es generalizing r with
  | nil => exact ⟨rfl, rfl⟩
  | cons e es ih =>
      rw [addEntries, List.foldl_cons, keepFirst]
      cases hfirst : r.get? e.typeId with
      | none =>
          have hfree : e.typeId ∉ r.entries.map ManifestEntry.typeId := by
            simpa [get?, List.find?_eq_none] using hfirst
          rw [if_neg hfree]
          exact ih (r.insert e)
      | some first =>
          have hmem : e.typeId ∈ r.entries.map ManifestEntry.typeId :=
            List.mem_map.mpr ⟨first, List.mem_of_find?_eq_some hfirst, by
              simpa using List.find?_some hfirst⟩
          rw [if_pos hmem]
          exact ih r

/-- Whether a module is taken. -/
theorem owner?_eq_none_iff {module : String} :
    r.owner? module = none ↔ module ∉ r.owners.map ModuleOwner.module := by
  simp [owner?, List.find?_eq_none]

/-- A document that is passed over changes nothing. -/
theorem addDocument_of_taken (h : c.module = "" ∨ c.module ∈ r.owners.map ModuleOwner.module) :
    (r.addDocument i c).1 = r := by
  unfold addDocument
  split
  · rfl
  · next hne =>
    cases howner : r.owner? c.module with
    | none => exact absurd (h.resolve_left hne) (owner?_eq_none_iff.mp howner)
    | some owner => rfl

/-- A document that gets its module registers its entries. -/
theorem addDocument_of_free (h : ¬(c.module = "" ∨ c.module ∈ r.owners.map ModuleOwner.module)) :
    (r.addDocument i c).1.owners = r.owners ++ [⟨c.module, c.document, i⟩] ∧
      (r.addDocument i c).1.entries =
        c.manifest.foldl (keepFirst ManifestEntry.typeId) r.entries := by
  rw [not_or] at h
  unfold addDocument
  rw [if_neg h.1, owner?_eq_none_iff.mpr h.2]
  obtain ⟨hentries, howners⟩ := addEntries_fst (r.assign ⟨c.module, c.document, i⟩) c.manifest
  exact ⟨howners, hentries⟩

/-! ### A batch -/

/-- Owners stay, and new ones come later. -/
theorem owners_addBatch (cs : List Compilation) (r : Registry) (i : Nat) :
    ∃ new, (r.addBatch i cs).1.owners = r.owners ++ new ∧ ∀ o ∈ new, i ≤ o.index := by
  induction cs generalizing r i with
  | nil => exact ⟨[], (List.append_nil _).symm, List.forall_mem_nil _⟩
  | cons c cs ih =>
      obtain ⟨new, hnew, hindex⟩ := ih (r.addDocument i c).1 (i + 1)
      have hlater : ∀ o ∈ new, i ≤ o.index := fun o ho => Nat.le_of_succ_le (hindex o ho)
      change ∃ new, ((r.addDocument i c).1.addBatch (i + 1) cs).1.owners = _ ∧ _
      rw [hnew]
      by_cases htaken : c.module = "" ∨ c.module ∈ r.owners.map ModuleOwner.module
      · rw [addDocument_of_taken htaken]
        exact ⟨new, rfl, hlater⟩
      · rw [(addDocument_of_free htaken).1]
        refine ⟨⟨c.module, c.document, i⟩ :: new, by simp, ?_⟩
        exact List.forall_mem_cons.mpr ⟨Nat.le_refl i, hlater⟩

/-- The document at a position has its module in the end exactly if it gets it there. -/
theorem owns_addBatch_iff (h : ∀ o ∈ r.owners, o.index < i) (c : Compilation)
    (cs : List Compilation) :
    ((r.addDocument i c).1.addBatch (i + 1) cs).1.owns i c = true ↔
      ¬(c.module = "" ∨ c.module ∈ r.owners.map ModuleOwner.module) := by
  obtain ⟨new, hnew, hindex⟩ := owners_addBatch cs (r.addDocument i c).1 (i + 1)
  simp only [owns, owner?, hnew]
  constructor
  · -- Whoever has the module came before this position or comes after it.
    intro howns htaken
    rw [addDocument_of_taken htaken] at howns
    cases howner : (r.owners ++ new).find? fun o => o.module = c.module with
    | none => simp [howner] at howns
    | some o =>
        have hposition : o.index = i := by simpa [howner] using howns
        obtain ho | ho := List.mem_append.mp (List.mem_of_find?_eq_some howner)
        · exact absurd hposition (Nat.ne_of_lt (h o ho))
        · exact absurd hposition (Nat.ne_of_gt (hindex o ho))
  · intro hfree
    have hnone := owner?_eq_none_iff.mpr (not_or.mp hfree).2
    rw [owner?] at hnone
    rw [(addDocument_of_free hfree).1, List.find?_append, List.find?_append, hnone]
    simp

/-- The documents that have their modules in the end, given what is registered before them. -/
theorem filter_owns_addBatch (cs : List Compilation) (h : ∀ o ∈ r.owners, o.index < i) :
    ((cs.zipIdx i).filter fun x => (r.addBatch i cs).1.owns x.2 x.1).map Prod.fst =
      claimants (r.owners.map ModuleOwner.module) cs := by
  induction cs generalizing r i with
  | nil => rfl
  | cons c cs ih =>
      have hnext : ∀ o ∈ (r.addDocument i c).1.owners, o.index < i + 1 := by
        intro o ho
        by_cases htaken : c.module = "" ∨ c.module ∈ r.owners.map ModuleOwner.module
        · rw [addDocument_of_taken htaken] at ho
          exact Nat.lt_succ_of_lt (h o ho)
        · rw [(addDocument_of_free htaken).1] at ho
          obtain ho | ho := List.mem_append.mp ho
          · exact Nat.lt_succ_of_lt (h o ho)
          · obtain rfl := List.mem_singleton.mp ho
            exact Nat.lt_succ_self i
      have howns := owns_addBatch_iff h c cs
      change (((c :: cs).zipIdx i).filter fun x =>
        ((r.addDocument i c).1.addBatch (i + 1) cs).1.owns x.2 x.1).map Prod.fst = _
      rw [List.zipIdx_cons, claimants_cons]
      by_cases htaken : c.module = "" ∨ c.module ∈ r.owners.map ModuleOwner.module
      · rw [List.filter_cons_of_neg (by exact fun h => howns.mp h htaken), if_pos htaken, ih hnext,
          addDocument_of_taken htaken]
      · rw [List.filter_cons_of_pos (by exact howns.mpr htaken), if_neg htaken, List.map_cons,
          ih hnext, (addDocument_of_free htaken).1, List.map_append]
        rfl

/-- **The documents that are written**: the first of each module. -/
theorem writable_ofBatch (cs : List Compilation) :
    (ofBatch cs).1.writable cs =
      firstOfEach Compilation.module (cs.filter fun c => c.module ≠ "") := by
  have hfilter := filter_owns_addBatch (r := {}) (i := 0) cs (List.forall_mem_nil _)
  rw [writable, ofBatch, hfilter, claimants]
  exact List.filter_eq_self.mpr fun c _ => by simp

/-- A document that is written is one of the batch and has a module. -/
theorem mem_of_mem_writable {cs : List Compilation} (h : c ∈ (ofBatch cs).1.writable cs) :
    c ∈ cs ∧ c.module ≠ "" := by
  rw [writable_ofBatch] at h
  simpa using (firstOfEach_sublist _).subset h

/-- No two documents that are written have the same module. -/
theorem nodup_module_writable (cs : List Compilation) :
    (((ofBatch cs).1.writable cs).map Compilation.module).Nodup := by
  rw [writable_ofBatch]
  exact nodup_map_firstOfEach _

/-- The entries that are registered in the end, given what is registered before. -/
theorem entries_addBatch (cs : List Compilation) (r : Registry) (i : Nat) :
    (r.addBatch i cs).1.entries =
      ((claimants (r.owners.map ModuleOwner.module) cs).flatMap Compilation.manifest).foldl
        (keepFirst ManifestEntry.typeId) r.entries := by
  induction cs generalizing r i with
  | nil => rfl
  | cons c cs ih =>
      change ((r.addDocument i c).1.addBatch (i + 1) cs).1.entries = _
      rw [ih, claimants_cons]
      by_cases htaken : c.module = "" ∨ c.module ∈ r.owners.map ModuleOwner.module
      · rw [addDocument_of_taken htaken, if_pos htaken]
      · obtain ⟨howners, hentries⟩ := addDocument_of_free (i := i) htaken
        rw [howners, hentries, if_neg htaken, List.map_append, List.flatMap_cons,
          List.foldl_append]
        rfl

/-- **The entries of a registry**: the first of each type id in the manifests of the documents that
are written. -/
theorem entries_ofBatch (cs : List Compilation) :
    (ofBatch cs).1.entries =
      firstOfEach ManifestEntry.typeId
        (((ofBatch cs).1.writable cs).flatMap Compilation.manifest) := by
  have hclaimants : claimants [] cs = (ofBatch cs).1.writable cs := by
    rw [writable_ofBatch, claimants]
    exact List.filter_eq_self.mpr fun c _ => by simp
  rw [← hclaimants, ofBatch, entries_addBatch]
  exact foldl_keepFirst_nil _

/-- An entry comes from the manifest of a document that is written. -/
theorem exists_of_mem_entries {cs : List Compilation} {e : ManifestEntry}
    (h : e ∈ (ofBatch cs).1.entries) : ∃ c ∈ (ofBatch cs).1.writable cs, e ∈ c.manifest := by
  rw [entries_ofBatch] at h
  exact List.mem_flatMap.mp ((firstOfEach_sublist _).subset h)

end Registry

end Defsheet

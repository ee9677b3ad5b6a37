/-!
# First come, first served

Names are claimed in order, and the first one to claim a name keeps it: ports in an action,
declarations in a document, documents in a batch. `firstOfEach` says what is left without saying how
it is found. The readers keep a list of what they have so far and go on from left to right, which is
`keepFirst`; `foldl_keepFirst` ties the two together.

An item may also need several names at once, and then it is kept only if all of them are free. This
is `claimAll`. What is kept has no name in common, and what is not kept had a name in common with
something before it that is.
-/

namespace Defsheet

variable {α β : Type} [DecidableEq β] {key : α → β}

/-- The first item of each key, in order. -/
def firstOfEach (key : α → β) : List α → List α
  | [] => []
  | a :: as => a :: (firstOfEach key as).filter fun b => key b ≠ key a

/-- Adds an item at the end unless its key is taken. -/
def keepFirst (key : α → β) (kept : List α) (a : α) : List α :=
  if key a ∈ kept.map key then kept else kept ++ [a]

/-- Going on from what is kept adds the first item of each key that is not taken yet. -/
theorem foldl_keepFirst (as kept : List α) :
    as.foldl (keepFirst key) kept =
      kept ++ (firstOfEach key as).filter fun b => key b ∉ kept.map key := by
  induction as generalizing kept with
  | nil => simp [firstOfEach]
  | cons a as ih =>
      rw [List.foldl_cons, ih, keepFirst]
      by_cases ha : key a ∈ kept.map key
      · rw [if_pos ha, firstOfEach, List.filter_cons_of_neg (by simpa using ha), List.filter_filter]
        congr 1
        apply List.filter_congr
        intro b _
        by_cases hb : key b = key a <;> simp_all
      · rw [if_neg ha, firstOfEach, List.filter_cons_of_pos (by simpa using ha), List.filter_filter,
          List.append_assoc, List.singleton_append]
        congr 2
        apply List.filter_congr
        intro b _
        simp [List.map_append, not_or]

/-- Starting from nothing, the first item of each key is kept. -/
theorem foldl_keepFirst_nil (as : List α) : as.foldl (keepFirst key) [] = firstOfEach key as := by
  simp [foldl_keepFirst]

/-- What comes later is kept unless its key is taken by what was kept before. -/
theorem firstOfEach_append (as bs : List α) :
    firstOfEach key (as ++ bs) =
      firstOfEach key as ++
        (firstOfEach key bs).filter fun b => key b ∉ (firstOfEach key as).map key := by
  rw [← foldl_keepFirst_nil, List.foldl_append, foldl_keepFirst_nil, foldl_keepFirst]

/-- What is kept stands in the original order. -/
theorem firstOfEach_sublist (as : List α) : (firstOfEach key as).Sublist as := by
  induction as with
  | nil => exact .slnil
  | cons a as ih => exact (List.filter_sublist.trans ih).cons_cons a

/-- No key is kept twice. -/
theorem nodup_map_firstOfEach (as : List α) : ((firstOfEach key as).map key).Nodup := by
  induction as with
  | nil => exact .nil
  | cons a as ih =>
      rw [firstOfEach, List.map_cons, List.nodup_cons]
      refine ⟨?_, (List.filter_sublist.map key).nodup ih⟩
      rw [List.mem_map]
      rintro ⟨b, hb, hkey⟩
      exact of_decide_eq_true (List.mem_filter.mp hb).2 hkey

omit [DecidableEq β] in
/-- One more item leaves the keys different exactly if its key is free. -/
theorem nodup_map_concat_iff {kept : List α} {a : α} (h : (kept.map key).Nodup) :
    ((kept ++ [a]).map key).Nodup ↔ key a ∉ kept.map key := by
  rw [List.map_append, List.map_singleton, List.nodup_append]
  constructor
  · rintro ⟨-, -, hfree⟩ hmem
    exact hfree _ hmem _ List.mem_cons_self rfl
  · intro hfree
    refine ⟨h, List.pairwise_singleton _ _, ?_⟩
    rintro k hk _ hka rfl
    obtain rfl := List.mem_singleton.mp hka
    exact hfree hk

/-- Items whose keys are different are all kept. -/
theorem firstOfEach_eq_self {as : List α} (h : (as.map key).Nodup) : firstOfEach key as = as := by
  induction as with
  | nil => rfl
  | cons a as ih =>
      rw [List.map_cons, List.nodup_cons] at h
      rw [firstOfEach, ih h.2, List.filter_eq_self.mpr]
      intro b hb
      have hne : key b ≠ key a := fun hkey => h.1 (hkey ▸ List.mem_map_of_mem hb)
      simpa using hne

/-! ### Items that need several keys -/

section

variable {keys : α → List β}

/-- Adds an item at the end unless one of its keys is taken. -/
def claimAll (keys : α → List β) (kept : List α) (a : α) : List α :=
  if ∃ k ∈ keys a, k ∈ kept.flatMap keys then kept else kept ++ [a]

/-- No two of the items have a key in common. -/
def Apart (keys : α → List β) (as : List α) : Prop :=
  as.Pairwise fun a b => ∀ k ∈ keys a, k ∉ keys b

omit [DecidableEq β] in
/-- One more item stays apart from others exactly if its keys are free. -/
theorem apart_concat_iff {kept : List α} {a : α} :
    Apart keys (kept ++ [a]) ↔ Apart keys kept ∧ ¬∃ k ∈ keys a, k ∈ kept.flatMap keys := by
  rw [Apart, List.pairwise_append]
  constructor
  · rintro ⟨hkept, -, hfree⟩
    refine ⟨hkept, ?_⟩
    rintro ⟨k, hk, hmem⟩
    obtain ⟨b, hb, hkb⟩ := List.mem_flatMap.mp hmem
    exact hfree b hb a List.mem_cons_self k hkb hk
  · rintro ⟨hkept, hfree⟩
    refine ⟨hkept, List.pairwise_singleton _ _, ?_⟩
    intro b hb a' ha' k hkb hka
    obtain rfl := List.mem_singleton.mp ha'
    exact hfree ⟨k, hka, List.mem_flatMap.mpr ⟨b, hb, hkb⟩⟩

omit [DecidableEq β] in
/-- Whether items are apart depends on their keys only. -/
theorem Apart.congr {as bs : List α} (h : Apart keys as) (hkeys : as.map keys = bs.map keys) :
    Apart keys bs := by
  have hmap : (as.map keys).Pairwise fun ks ks' => ∀ k ∈ ks, k ∉ ks' := List.pairwise_map.mpr h
  rw [hkeys] at hmap
  exact List.pairwise_map.mp hmap

/-- Items that are apart are all kept. -/
theorem foldl_claimAll_of_apart {as kept : List α} (h : Apart keys (kept ++ as)) :
    as.foldl (claimAll keys) kept = kept ++ as := by
  induction as generalizing kept with
  | nil => rw [List.foldl_nil, List.append_nil]
  | cons a as ih =>
      rw [List.append_cons] at h
      have hfree := (apart_concat_iff.mp (List.pairwise_append.mp h).1).2
      rw [List.foldl_cons, claimAll, if_neg hfree, ih h, ← List.append_cons]

/-- An item with a single key is kept under the same condition either way. -/
theorem keepFirst_eq_claimAll : keepFirst key = claimAll fun a => [key a] := by
  funext kept a
  simp [keepFirst, claimAll, eq_comm]

/-- Nothing that is kept is lost later. -/
theorem prefix_foldl_claimAll (as kept : List α) : kept <+: as.foldl (claimAll keys) kept := by
  induction as generalizing kept with
  | nil => exact List.prefix_rfl
  | cons a as ih =>
      have hstep : kept <+: claimAll keys kept a := by
        unfold claimAll
        split
        · exact List.prefix_rfl
        · exact List.prefix_append _ _
      exact hstep.trans (ih _)

/-- What is kept stands in the order in which it was offered. -/
theorem foldl_claimAll_sublist (as kept : List α) :
    (as.foldl (claimAll keys) kept).Sublist (kept ++ as) := by
  induction as generalizing kept with
  | nil =>
      rw [List.append_nil]
      exact List.Sublist.refl kept
  | cons a as ih =>
      have hstep : (claimAll keys kept a).Sublist (kept ++ [a]) := by
        rw [claimAll]
        split
        · exact List.sublist_append_left kept [a]
        · exact List.Sublist.refl _
      rw [List.append_cons]
      exact (ih _).trans (hstep.append_right as)

/-- Only what was offered is kept. -/
theorem mem_of_mem_foldl_claimAll {as kept : List α} {b : α}
    (h : b ∈ as.foldl (claimAll keys) kept) : b ∈ kept ∨ b ∈ as :=
  List.mem_append.mp ((foldl_claimAll_sublist as kept).subset h)

/-- No two items that are kept have a key in common. -/
theorem apart_foldl_claimAll {as kept : List α} (h : Apart keys kept) :
    Apart keys (as.foldl (claimAll keys) kept) := by
  induction as generalizing kept with
  | nil => exact h
  | cons a as ih =>
      apply ih
      rw [claimAll]
      split
      · exact h
      · next hfree => exact apart_concat_iff.mpr ⟨h, hfree⟩

/-- An item that is not kept has a key in common with an earlier item that is. -/
theorem mem_foldl_claimAll_or (keys : α → List β) (before after : List α) (a : α) :
    a ∈ (before ++ a :: after).foldl (claimAll keys) [] ∨
      ∃ b ∈ before, b ∈ (before ++ a :: after).foldl (claimAll keys) [] ∧
        ∃ k ∈ keys a, k ∈ keys b := by
  rw [List.foldl_append, List.foldl_cons]
  generalize hkept : before.foldl (claimAll keys) [] = kept
  by_cases htaken : ∃ k ∈ keys a, k ∈ kept.flatMap keys
  · right
    obtain ⟨k, hk, hmem⟩ := htaken
    obtain ⟨b, hb, hkb⟩ := List.mem_flatMap.mp hmem
    have hbefore : b ∈ before := by
      rw [← hkept] at hb
      exact (mem_of_mem_foldl_claimAll hb).resolve_left List.not_mem_nil
    refine ⟨b, hbefore, ?_, k, hk, hkb⟩
    rw [claimAll, if_pos ⟨k, hk, hmem⟩]
    exact (prefix_foldl_claimAll after kept).subset hb
  · left
    rw [claimAll, if_neg htaken]
    exact (prefix_foldl_claimAll after _).subset (List.mem_append_right _ List.mem_cons_self)

/-- An item that is not the first of its key comes after the one that is. -/
theorem mem_firstOfEach_or (key : α → β) (before after : List α) (a : α) :
    a ∈ firstOfEach key (before ++ a :: after) ∨
      ∃ b ∈ before, b ∈ firstOfEach key (before ++ a :: after) ∧ key b = key a := by
  rw [← foldl_keepFirst_nil, keepFirst_eq_claimAll]
  refine (mem_foldl_claimAll_or _ before after a).imp_right ?_
  rintro ⟨b, hb, hkept, k, hk, hkb⟩
  rw [List.mem_singleton] at hk hkb
  exact ⟨b, hb, hkept, hkb.symm.trans hk⟩

end

end Defsheet

import Defsheet.Proofs.Registration
import Mathlib.Data.List.Induction
import Mathlib.Data.List.Nodup
import Mathlib.Data.String.Basic

/-!
# The first one wins

A registry is built in one pass over a batch, with two name spaces at once: a document that does not
get its module takes no part in the competition for type ids. Here both are described by what stands
before an item in the batch. A document owns its module if no document before it has the same one;
an entry is turned down if its type id occurs before it in the manifests of owners. Everything that
a registry shows follows from that, the diagnostics included.

The pass is followed from the end of the batch: `Registry.ofBatch_concat` says what the last
document adds, and every statement about a batch is an induction over that step.

## Main results

* `toUTF8_lt`: the order of strings is the order of their encodings.
* `Registry.owners_ofBatch`: the modules that are taken, with their owners.
* `Registry.diagnostics_ofBatch`: what is reported, and in which order.
* `Registry.ofBatch_firstWins`: all of this together.
-/

namespace Defsheet

/-! ### The order of bytes -/

/-- A smaller character has a smaller encoding, whatever follows the two. -/
theorem utf8EncodeChar_append_lt {c d : Char} (h : c < d) (u v : List UInt8) :
    String.utf8EncodeChar c ++ u < String.utf8EncodeChar d ++ v := by
  have hlt : c.val.toNat < d.val.toNat := h
  have hmax : d.val.toNat < 0x110000 := by
    rcases d.valid with hlow | hhigh
    · exact hlow.trans (by decide)
    · exact hhigh.2
  -- The bytes hold digits to the base 64, so the arithmetic needs to know how these nest.
  have hdigits (n : Nat) : n / 64 / 64 = n / 4096 ∧ n / 4096 / 64 = n / 262144 :=
    ⟨Nat.div_div_eq_div_mul n 64 64, Nat.div_div_eq_div_mul n 4096 64⟩
  have hc := hdigits c.val.toNat
  have hd := hdigits d.val.toNat
  simp only [String.utf8EncodeChar]
  split_ifs <;>
    simp (disch := omega) only [List.cons_append, List.nil_append, List.cons_lt_cons_iff,
      UInt8.lt_iff_toNat_lt, ← UInt8.toNat_inj, UInt8.toNat_ofNat', Nat.reducePow,
      Nat.mod_eq_of_lt] <;>
    omega

/-- Characters are ordered as their bytes are, so texts are as well. -/
theorem flatMap_utf8EncodeChar_lt {u v : List Char} (h : u < v) :
    u.flatMap String.utf8EncodeChar < v.flatMap String.utf8EncodeChar := by
  have hlex : List.Lex (· < ·) u v := h
  induction hlex with
  | @nil c v =>
      obtain ⟨b, bs, hb⟩ := List.exists_cons_of_ne_nil (String.utf8EncodeChar_ne_nil (c := c))
      rw [List.flatMap_nil, List.flatMap_cons, hb]
      exact .nil
  | cons hrest ih =>
      rw [List.flatMap_cons, List.flatMap_cons]
      exact List.append_left_lt (ih hrest)
  | rel hcd =>
      rw [List.flatMap_cons, List.flatMap_cons]
      exact utf8EncodeChar_append_lt hcd _ _

/-- **The order of strings is the order of their encodings**, byte by byte. -/
theorem toUTF8_lt {s t : String} (h : s < t) :
    s.toUTF8.data.toList < t.toUTF8.data.toList := by
  have hbytes (cs : List Char) :
      (String.ofList cs).toUTF8.data.toList = cs.flatMap String.utf8EncodeChar := by
    rw [String.toUTF8_eq_toByteArray, String.toByteArray_ofList, List.utf8Encode,
      List.toList_data_toByteArray]
  rw [← String.ofList_toList (s := s), ← String.ofList_toList (s := t), hbytes, hbytes]
  exact flatMap_utf8EncodeChar_lt (String.lt_iff.mp h)

/-! ### Items and those before them -/

section

variable {α β : Type}

/-- Every item together with the items before it. -/
def withEarlier (as : List α) : List (List α × α) := as.zipIdx.map fun x => (as.take x.2, x.1)

/-- The last item has all others before it. -/
theorem withEarlier_concat (as : List α) (a : α) :
    withEarlier (as ++ [a]) = withEarlier as ++ [(as, a)] := by
  rw [withEarlier, List.zipIdx_append, List.map_append]
  congr 1
  · refine List.map_congr_left fun x hx => ?_
    have hx' := List.snd_lt_of_mem_zipIdx hx
    rw [List.take_append_of_le_length (by omega)]
  · simp

/-- The first item with a key stays the first one if later items are kept only as long as their keys
are free. -/
theorem find?_foldl_keepFirst [DecidableEq β] {key : α → β} (as kept : List α) (k : β) :
    (as.foldl (keepFirst key) kept).find? (fun a => key a = k) =
      (kept ++ as).find? fun a => key a = k := by
  induction as generalizing kept with
  | nil => rw [List.foldl_nil, List.append_nil]
  | cons a as ih =>
      rw [List.foldl_cons, ih, keepFirst]
      split
      · next htaken =>
        obtain ⟨b, hb, hkey⟩ := List.mem_map.mp htaken
        rw [List.find?_append, List.find?_append, List.find?_cons]
        by_cases hk : key a = k
        · -- The item has a key that is looked for, but `b` is found before it.
          have hsome : (kept.find? fun a => key a = k).isSome = true :=
            List.find?_isSome.mpr ⟨b, hb, by simpa [hkey] using hk⟩
          obtain ⟨first, hfirst⟩ := Option.isSome_iff_exists.mp hsome
          rw [hfirst, Option.some_or, Option.some_or]
        · simp [hk]
      · rw [List.append_assoc, List.singleton_append]

end

/-- A document owns its module if it has one and no document before it has the same. -/
def Compilation.IsOwner (before : List Compilation) (c : Compilation) : Prop :=
  c.module ≠ "" ∧ ∀ c' ∈ before, c'.module ≠ c.module

instance (before : List Compilation) (c : Compilation) : Decidable (c.IsOwner before) :=
  inferInstanceAs (Decidable (_ ∧ _))

/-- The documents of a batch that own their modules, in order. -/
def ownersOf (cs : List Compilation) : List Compilation :=
  ((withEarlier cs).filter fun x => x.2.IsOwner x.1).map Prod.snd

/-- The last document of a batch owns its module if none before it does. -/
theorem ownersOf_concat (cs : List Compilation) (c : Compilation) :
    ownersOf (cs ++ [c]) = ownersOf cs ++ if c.IsOwner cs then [c] else [] := by
  rw [ownersOf, withEarlier_concat, List.filter_append, List.map_append, ownersOf,
    List.filter_singleton]
  split <;> simp_all

/-- A module is owned if some document has it. -/
theorem mem_map_module_ownersOf {cs : List Compilation} {m : String} :
    m ∈ (ownersOf cs).map Compilation.module ↔ m ≠ "" ∧ m ∈ cs.map Compilation.module := by
  induction cs using List.reverseRecOn with
  | nil => simp [ownersOf, withEarlier]
  | append_singleton cs c ih =>
      rw [ownersOf_concat, List.map_append, List.mem_append, ih, List.map_append, List.mem_append,
        List.map_singleton, List.mem_singleton]
      split
      · next howner =>
        rw [List.map_singleton, List.mem_singleton]
        constructor
        · rintro (⟨hne, hm⟩ | rfl)
          · exact ⟨hne, .inl hm⟩
          · exact ⟨howner.1, .inr rfl⟩
        · rintro ⟨hne, hm | hm⟩
          · exact .inl ⟨hne, hm⟩
          · exact .inr hm
      · next howner =>
        -- The module of a document that does not own it occurs before.
        have hbefore : c.module ≠ "" → c.module ∈ cs.map Compilation.module := by
          intro hne
          by_contra hfree
          exact howner ⟨hne, fun c' hc' heq => hfree (heq ▸ List.mem_map_of_mem hc')⟩
        constructor
        · rintro (⟨hne, hm⟩ | hm)
          · exact ⟨hne, .inl hm⟩
          · cases hm
        · rintro ⟨hne, hm | rfl⟩
          · exact .inl ⟨hne, hm⟩
          · exact .inl ⟨hne, hbefore hne⟩

/-- The modules that are owned, with their owners and the positions of these. -/
def moduleOwners (cs : List Compilation) : List ModuleOwner :=
  ((withEarlier cs).filter fun x => x.2.IsOwner x.1).map
    fun x => ⟨x.2.module, x.2.document, x.1.length⟩

/-- A document owns its module exactly if it has one and nobody before it owns that one. -/
theorem Compilation.isOwner_iff (cs : List Compilation) (c : Compilation) :
    c.IsOwner cs ↔ ¬(c.module = "" ∨ c.module ∈ (moduleOwners cs).map ModuleOwner.module) := by
  have hmodules : (moduleOwners cs).map ModuleOwner.module =
      (ownersOf cs).map Compilation.module := by
    rw [moduleOwners, ownersOf, List.map_map, List.map_map]
    rfl
  rw [hmodules, mem_map_module_ownersOf, not_or, not_and, IsOwner]
  refine and_congr_right fun hne => ⟨fun hfree _ hmem => ?_, fun hfree c' hc' heq => ?_⟩
  · obtain ⟨c', hc', heq⟩ := List.mem_map.mp hmem
    exact hfree c' hc' heq
  · exact hfree hne (heq ▸ List.mem_map_of_mem hc')

/-! ### What is turned down -/

/-- The report of an entry whose type id occurs before it. -/
def ManifestEntry.rejection (e first : ManifestEntry) : Diagnostic :=
  (Issue.registeredTypeId e.typeId first.document first.line).diagnostic e.document (.ofLine e.line)

/-- The reports of those entries whose type ids occur in `before` or earlier among the entries. -/
def duplicates (before es : List ManifestEntry) : List Diagnostic :=
  (withEarlier es).filterMap fun x =>
    ((before ++ x.1).find? fun e => e.typeId = x.2.typeId).map x.2.rejection

/-- The reports of a document that comes after others: of the document itself if its module is
taken, or else of its duplicates. -/
def Compilation.rejections (before : List Compilation) (c : Compilation) : List Diagnostic :=
  if c.module = "" then []
  else
    match before.find? fun c' => c'.module = c.module with
    | some owner =>
      [(Issue.moduleTaken c.document c.module owner.document).diagnostic c.document .start]
    | none => duplicates ((ownersOf before).flatMap Compilation.manifest) c.manifest

/-- The diagnostic reports a duplicate type id. -/
def Diagnostic.isDuplicate (d : Diagnostic) : Bool :=
  "duplicate type id '".toList.isPrefixOf d.message.toList

/-- What is reported about an entry with a taken type id is that it is a duplicate. -/
theorem ManifestEntry.isDuplicate_rejection (e first : ManifestEntry) :
    (e.rejection first).isDuplicate = true := by
  have hmessage : (e.rejection first).message =
      "duplicate type id '" ++ e.typeId ++ "' (first declared in '" ++ first.document ++
        "' on line " ++ toString first.line ++ ")" := rfl
  rw [Diagnostic.isDuplicate, hmessage, List.isPrefixOf_iff_prefix]
  simp only [String.toList_append, List.append_assoc]
  exact List.prefix_append _ _

/-- The report of a document is no report of a type id: the two begin differently. -/
theorem not_isDuplicate_moduleTaken (document module owner : String) (p : Position) :
    ((Issue.moduleTaken document module owner).diagnostic document p).isDuplicate = false := by
  have hmessage : ((Issue.moduleTaken document module owner).diagnostic document p).message =
      "document '" ++ document ++ "' maps to module '" ++ module ++
        "' already used by document '" ++ owner ++ "'" := rfl
  rw [Diagnostic.isDuplicate, hmessage, Bool.eq_false_iff, ne_eq, List.isPrefixOf_iff_prefix]
  simp only [String.toList_append, List.append_assoc]
  rintro ⟨rest, hrest⟩
  have htake := congrArg (List.take 2) hrest
  rw [List.take_append_of_le_length (by decide +kernel),
    List.take_append_of_le_length (by decide +kernel)] at htake
  exact absurd htake (by decide +kernel)

namespace Registry

/-! ### One more entry -/

/-- The last entry is turned down if its type id is taken by then. -/
theorem addEntries_concat (r : Registry) (es : List ManifestEntry) (e : ManifestEntry) :
    (r.addEntries (es ++ [e])).2 =
      (r.addEntries es).2 ++ (((r.addEntries es).1.get? e.typeId).map e.rejection).toList := by
  induction es generalizing r with
  | nil =>
      rw [List.nil_append, addEntries, addEntries, List.nil_append]
      cases r.get? e.typeId with
      | none => rfl
      | some first => rfl
  | cons e' es ih =>
      rw [List.cons_append, addEntries, addEntries]
      cases r.get? e'.typeId with
      | none => exact ih _
      | some first => exact congrArg (e'.rejection first :: ·) (ih r)

/-- The first entry of a type id is the one that is registered. -/
theorem get?_addEntries (r : Registry) (es : List ManifestEntry) (id : String) :
    (r.addEntries es).1.get? id = (r.entries ++ es).find? fun e => e.typeId = id := by
  rw [get?, (addEntries_fst r es).1]
  exact find?_foldl_keepFirst es r.entries id

/-- **What is reported for entries** are the duplicates. -/
theorem addEntries_snd (r : Registry) (es : List ManifestEntry) :
    (r.addEntries es).2 = duplicates r.entries es := by
  induction es using List.reverseRecOn with
  | nil => rfl
  | append_singleton es e ih =>
      rw [addEntries_concat, ih, get?_addEntries, duplicates, duplicates, withEarlier_concat,
        List.filterMap_append, List.filterMap_cons, List.filterMap_nil]
      rfl

/-- Every entry is registered or reported. -/
theorem length_addEntries (r : Registry) (es : List ManifestEntry) :
    (r.addEntries es).1.size + (r.addEntries es).2.length = r.size + es.length := by
  induction es generalizing r with
  | nil => rfl
  | cons e es ih =>
      rw [addEntries, List.length_cons]
      cases r.get? e.typeId with
      | none =>
          have hinsert : (r.insert e).size = r.size + 1 := List.length_append
          have hrest := ih (r.insert e)
          simp only
          omega
      | some first =>
          have hrest := ih r
          simp only [List.length_cons]
          omega

/-- Entries are turned down as duplicates only. -/
theorem isDuplicate_of_mem_addEntries {r : Registry} {es : List ManifestEntry} {d : Diagnostic}
    (h : d ∈ (r.addEntries es).2) : d.isDuplicate = true := by
  rw [addEntries_snd] at h
  obtain ⟨x, -, hx⟩ := List.mem_filterMap.mp h
  obtain ⟨first, -, rfl⟩ := Option.map_eq_some_iff.mp hx
  exact x.2.isDuplicate_rejection first

/-! ### One more document -/

/-- A batch can be taken in two parts, if the documents go on to be counted. -/
theorem addBatch_append (r : Registry) (i : Nat) (cs cs' : List Compilation) :
    r.addBatch i (cs ++ cs') =
      (((r.addBatch i cs).1.addBatch (i + cs.length) cs').1,
        (r.addBatch i cs).2 ++ ((r.addBatch i cs).1.addBatch (i + cs.length) cs').2) := by
  induction cs generalizing r i with
  | nil => rfl
  | cons c cs ih =>
      rw [List.cons_append, addBatch, addBatch, List.length_cons, Nat.add_comm cs.length 1,
        ← Nat.add_assoc]
      simp only [ih, List.append_assoc]

/-- **What the last document of a batch adds.** -/
theorem ofBatch_concat (cs : List Compilation) (c : Compilation) :
    ofBatch (cs ++ [c]) =
      (((ofBatch cs).1.addDocument cs.length c).1,
        (ofBatch cs).2 ++ ((ofBatch cs).1.addDocument cs.length c).2) := by
  rw [ofBatch, addBatch_append, Nat.zero_add, addBatch]
  simp only [addBatch, List.append_nil]
  rfl

/-- **The modules that are taken**, with the documents that own them and where these stand. -/
theorem owners_ofBatch (cs : List Compilation) : (ofBatch cs).1.owners = moduleOwners cs := by
  induction cs using List.reverseRecOn with
  | nil => rfl
  | append_singleton cs c ih =>
      have howner := c.isOwner_iff cs
      rw [← ih] at howner
      rw [ofBatch_concat, moduleOwners, withEarlier_concat, List.filter_append, List.map_append,
        ← moduleOwners, ← ih, List.filter_singleton]
      by_cases hc : c.IsOwner cs
      · rw [(addDocument_of_free (howner.mp hc)).1]
        simp [hc]
      · rw [addDocument_of_taken (not_not.mp (mt howner.mpr hc))]
        simp [hc]

/-- A document that owns its module is one whose module is free in the registry. -/
theorem isOwner_iff_free (cs : List Compilation) (c : Compilation) :
    c.IsOwner cs ↔
      ¬(c.module = "" ∨ c.module ∈ (ofBatch cs).1.owners.map ModuleOwner.module) := by
  rw [owners_ofBatch, c.isOwner_iff]

/-- The document that a module is reported to belong to is the first one that has it. -/
theorem map_document_owner? (cs : List Compilation) {m : String} (hm : m ≠ "") :
    ((ofBatch cs).1.owner? m).map ModuleOwner.document =
      (cs.find? fun c => c.module = m).map Compilation.document := by
  rw [owner?, owners_ofBatch, moduleOwners]
  induction cs using List.reverseRecOn with
  | nil => rfl
  | append_singleton cs c ih =>
      rw [withEarlier_concat, List.filter_append, List.map_append, List.find?_append,
        List.find?_append, Option.map_or, Option.map_or, ih, List.filter_singleton]
      by_cases hc : c.IsOwner cs
      · by_cases hcm : c.module = m <;> simp [hc, hcm]
      · by_cases hcm : c.module = m
        · -- Somebody before has the module, so the last document is not looked at.
          have hbefore : ∃ c' ∈ cs, c'.module = m := by
            by_contra hfree
            exact hc ⟨hcm ▸ hm, fun c' hc' heq => hfree ⟨c', hc', heq.trans hcm⟩⟩
          obtain ⟨c', hc', hcm'⟩ := hbefore
          have hsome : (cs.find? fun c => c.module = m).isSome = true :=
            List.find?_isSome.mpr ⟨c', hc', by simpa using hcm'⟩
          obtain ⟨first, hfirst⟩ := Option.isSome_iff_exists.mp hsome
          rw [hfirst]
          rfl
        · simp [hc, hcm]

/-! ### Batches -/

/-- The documents that are written are the owners. -/
theorem writable_eq_ownersOf (cs : List Compilation) :
    (ofBatch cs).1.writable cs = ownersOf cs := by
  rw [writable_ofBatch]
  induction cs using List.reverseRecOn with
  | nil => rfl
  | append_singleton cs c ih =>
      rw [List.filter_append, firstOfEach_append, ih, ownersOf_concat]
      congr 1
      by_cases hempty : c.module = ""
      · rw [List.filter_cons_of_neg (by simpa using hempty), if_neg fun hc => hc.1 hempty]
        rfl
      · have hfree : c.IsOwner cs ↔ c.module ∉ (ownersOf cs).map Compilation.module := by
          rw [mem_map_module_ownersOf]
          simp [Compilation.IsOwner, hempty]
        rw [List.filter_cons_of_pos (by simpa using hempty), List.filter_nil, firstOfEach]
        by_cases hc : c.IsOwner cs
        · rw [if_pos hc, List.filter_cons_of_pos (by simpa using hfree.mp hc)]
          rfl
        · rw [if_neg hc, List.filter_cons_of_neg (by simpa using mt hfree.mpr hc)]
          rfl

/-- **Who owns a module**: the document at a position, if it has one and no document before it has
the same. -/
theorem owns_ofBatch_iff {cs : List Compilation} {i : Nat} {c : Compilation}
    (h : cs[i]? = some c) : (ofBatch cs).1.owns i c = true ↔ c.IsOwner (cs.take i) := by
  obtain ⟨hi, hc⟩ := List.getElem?_eq_some_iff.mp h
  have hsplit : cs = cs.take i ++ c :: cs.drop (i + 1) := by
    rw [← hc, ← List.drop_eq_getElem_cons hi, List.take_append_drop]
  have hlength : (cs.take i).length = i := List.length_take_of_le hi.le
  have hindex : ∀ o ∈ (ofBatch (cs.take i)).1.owners, o.index < i := by
    intro o ho
    rw [owners_ofBatch, moduleOwners] at ho
    obtain ⟨x, hx, rfl⟩ := List.mem_map.mp ho
    obtain ⟨y, hy, rfl⟩ := List.mem_map.mp (List.mem_filter.mp hx).1
    have hy' := List.snd_lt_of_mem_zipIdx hy
    simp only [List.length_take]
    omega
  have hbatch : (ofBatch cs).1 = (((ofBatch (cs.take i)).1.addDocument i c).1.addBatch (i + 1)
      (cs.drop (i + 1))).1 := by
    conv => lhs; rw [hsplit]
    rw [ofBatch, addBatch_append, Nat.zero_add, hlength]
    rfl
  rw [hbatch, owns_addBatch_iff hindex, isOwner_iff_free]

/-- **What is registered** under a type id: its first entry in the manifests of the owners. -/
theorem get?_ofBatch (cs : List Compilation) (id : String) :
    (ofBatch cs).1.get? id =
      ((ownersOf cs).flatMap Compilation.manifest).find? fun e => e.typeId = id := by
  rw [get?, entries_ofBatch, writable_eq_ownersOf, ← foldl_keepFirst_nil]
  exact find?_foldl_keepFirst _ [] id

/-- **What is reported** for the last document of a batch. -/
theorem addDocument_snd (cs : List Compilation) (c : Compilation) :
    ((ofBatch cs).1.addDocument cs.length c).2 = c.rejections cs := by
  rw [addDocument, Compilation.rejections]
  split
  · rfl
  next hempty =>
  have howner := map_document_owner? cs hempty
  cases hfirst : cs.find? fun c' => c'.module = c.module with
  | some first =>
      rw [hfirst] at howner
      obtain ⟨owner, howner, hdocument⟩ := Option.map_eq_some_iff.mp howner
      simp only [howner, hdocument]
  | none =>
      rw [hfirst] at howner
      rw [Option.map_eq_none_iff.mp howner]
      simp only [addEntries_snd, duplicates]
      congr 1
      funext x
      -- What was looked up in the entries so far can be looked up in all manifests.
      have hget := get?_ofBatch cs x.2.typeId
      rw [get?] at hget
      rw [List.find?_append, List.find?_append, ← hget]
      rfl

/-- **What is reported** for a batch. -/
theorem diagnostics_ofBatch (cs : List Compilation) :
    (ofBatch cs).2 = (withEarlier cs).flatMap fun x => x.2.rejections x.1 := by
  induction cs using List.reverseRecOn with
  | nil => rfl
  | append_singleton cs c ih =>
      rw [ofBatch_concat, addDocument_snd, ih, withEarlier_concat, List.flatMap_append,
        List.flatMap_singleton]

/-- What one document adds to the entries and to the duplicates. -/
theorem size_addDocument (cs : List Compilation) (c : Compilation) :
    ((ofBatch cs).1.addDocument cs.length c).1.size +
        ((ofBatch cs).1.addDocument cs.length c).2.countP Diagnostic.isDuplicate =
      (ofBatch cs).1.size + if c.IsOwner cs then c.manifest.length else 0 := by
  have howner := isOwner_iff_free cs c
  by_cases hc : c.IsOwner cs
  · have hfree := howner.mp hc
    rw [if_pos hc, addDocument, if_neg (not_or.mp hfree).1,
      owner?_eq_none_iff.mpr (not_or.mp hfree).2]
    have hlength := length_addEntries
      ((ofBatch cs).1.assign ⟨c.module, c.document, cs.length⟩) c.manifest
    rw [List.countP_eq_length.mpr fun d hd => isDuplicate_of_mem_addEntries hd]
    exact hlength
  · rw [addDocument_of_taken (not_not.mp (mt howner.mpr hc)), if_neg hc, Nat.add_zero, addDocument]
    split
    · rfl
    · next hempty =>
      cases htaken : (ofBatch cs).1.owner? c.module with
      | none =>
          exact absurd (howner.mpr (not_or.mpr ⟨hempty, owner?_eq_none_iff.mp htaken⟩)) hc
      | some owner => simp [not_isDuplicate_moduleTaken]

/-- **Every entry of an owner is registered or reported.** -/
theorem size_add_duplicates (cs : List Compilation) :
    (ofBatch cs).1.size + (ofBatch cs).2.countP Diagnostic.isDuplicate =
      ((ownersOf cs).flatMap Compilation.manifest).length := by
  induction cs using List.reverseRecOn with
  | nil => rfl
  | append_singleton cs c ih =>
      have hstep := size_addDocument cs c
      rw [ofBatch_concat, List.countP_append, ownersOf_concat, List.flatMap_append,
        List.length_append, ← ih]
      split at hstep
      · next hc =>
        rw [if_pos hc, List.flatMap_singleton]
        simp only
        omega
      · next hc =>
        rw [if_neg hc, List.flatMap_nil, List.length_nil]
        simp only
        omega

/-- No type id is registered twice. -/
theorem nodup_typeIds (cs : List Compilation) :
    ((ofBatch cs).1.entries.map ManifestEntry.typeId).Nodup := by
  rw [entries_ofBatch]
  exact nodup_map_firstOfEach _

/-- **The entries in order** have increasing type ids. -/
theorem pairwise_sorted (cs : List Compilation) :
    (ofBatch cs).1.sorted.Pairwise fun a b => a.typeId < b.typeId := by
  have hle : (ofBatch cs).1.sorted.Pairwise fun a b => a.typeId ≤ b.typeId := by
    refine (List.pairwise_mergeSort ?_ ?_ _).imp of_decide_eq_true
    · intro a b c hab hbc
      exact decide_eq_true ((of_decide_eq_true hab).trans (of_decide_eq_true hbc))
    · intro a b
      simpa using le_total a.typeId b.typeId
  have hne : (ofBatch cs).1.sorted.Pairwise fun a b => a.typeId ≠ b.typeId :=
    List.pairwise_map.mp (((List.mergeSort_perm _ _).map _).nodup_iff.mpr (nodup_typeIds cs))
  exact hle.imp₂ (fun _ _ hab hne => lt_of_le_of_ne hab hne) hne

/-- The entries in order are those that can be looked up. -/
theorem mem_sorted_iff (cs : List Compilation) (e : ManifestEntry) :
    e ∈ (ofBatch cs).1.sorted ↔ (ofBatch cs).1.get? e.typeId = some e := by
  rw [sorted, List.mem_mergeSort]
  constructor
  · intro he
    have hsome : ((ofBatch cs).1.get? e.typeId).isSome = true :=
      List.find?_isSome.mpr ⟨e, he, by simp⟩
    obtain ⟨first, hfirst⟩ := Option.isSome_iff_exists.mp hsome
    rw [hfirst]
    have hid : first.typeId = e.typeId := by simpa using List.find?_some hfirst
    exact congrArg some
      (List.inj_on_of_nodup_map (nodup_typeIds cs) (List.mem_of_find?_eq_some hfirst) he hid)
  · exact List.mem_of_find?_eq_some

/-! ### The rule -/

/-- The registry of a batch follows the rule that the first one wins. -/
structure FirstWins (cs : List Compilation) : Prop where
  /-- A document has its module for itself if it owns it. -/
  owns_iff : ∀ i c, cs[i]? = some c →
    ((ofBatch cs).1.owns i c = true ↔ c.module ≠ "" ∧ ∀ c' ∈ cs.take i, c'.module ≠ c.module)
  /-- The owners are written, in the order of the batch. -/
  writable_eq : (ofBatch cs).1.writable cs = ownersOf cs
  nodup_modules : (((ofBatch cs).1.writable cs).map Compilation.module).Nodup
  /-- Under a type id stands its first entry in the manifests of the owners. -/
  get?_eq : ∀ id, (ofBatch cs).1.get? id =
    ((ownersOf cs).flatMap Compilation.manifest).find? fun e => e.typeId = id
  contains_iff : ∀ id, (ofBatch cs).1.contains id = true ↔
    ∃ c ∈ ownersOf cs, ∃ e ∈ c.manifest, e.typeId = id
  /-- The entries come in the order of the bytes of their type ids. -/
  increasing : (ofBatch cs).1.sorted.Pairwise fun a b =>
    a.typeId.toUTF8.data.toList < b.typeId.toUTF8.data.toList
  mem_sorted : ∀ e, e ∈ (ofBatch cs).1.sorted ↔ (ofBatch cs).1.get? e.typeId = some e
  /-- Documents without their module and duplicates are reported, in the order of the batch. -/
  diagnostics_eq : (ofBatch cs).2 = (withEarlier cs).flatMap fun x => x.2.rejections x.1
  /-- Every entry of an owner is registered or reported. -/
  size_add : (ofBatch cs).1.size + (ofBatch cs).2.countP Diagnostic.isDuplicate =
    ((ownersOf cs).flatMap Compilation.manifest).length

/-- **The first one wins**, in every batch. -/
theorem ofBatch_firstWins (cs : List Compilation) : FirstWins cs where
  owns_iff _ _ h := owns_ofBatch_iff h
  writable_eq := writable_eq_ownersOf cs
  nodup_modules := nodup_module_writable cs
  get?_eq := get?_ofBatch cs
  contains_iff id := by
    rw [contains, get?_ofBatch, List.find?_isSome]
    simp only [List.mem_flatMap, decide_eq_true_eq]
    constructor
    · rintro ⟨e, ⟨c, hc, he⟩, hid⟩
      exact ⟨c, hc, e, he, hid⟩
    · rintro ⟨c, hc, e, he, hid⟩
      exact ⟨e, ⟨c, hc, he⟩, hid⟩
  increasing := (pairwise_sorted cs).imp toUTF8_lt
  mem_sorted := mem_sorted_iff cs
  diagnostics_eq := diagnostics_ofBatch cs
  size_add := size_add_duplicates cs

end Registry

end Defsheet

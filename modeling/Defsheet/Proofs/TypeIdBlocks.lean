import Defsheet.Proofs.FileReading
import Defsheet.Proofs.StringLiterals
import Defsheet.Proofs.NamesInComments

/-!
# Reading type ids back

The type ids of actions stand in nested blocks, one for each module on the way to a constant. They
are put there one after the other, each into the blocks that are there already as far as they go,
and written down in the end with an indentation for each block. Here the text is read back line by
line, with nothing but the names of the open blocks in mind. What is read is a list of items, each
with the blocks around it, and it can be told from the actions: nothing is lost, doubled or moved.

The insertion of one constant is followed block by block. A block gets at most one item from it
(`itemFor?`): the constant itself if it belongs there, or else the next block on the way.

## Main definitions

* `readTypeIds` reads the text of a file.
* `ListsActions` says what a list of items tells about actions.

## Main results

* `ConstForest.items_insert`: what one more constant does to each block.
* `readBlocks_code`: the code of blocks is read back.
* `Document.typeIds_read_back`: the file of action type ids is read back.
-/

namespace Defsheet

/-! ### Items in blocks -/

/-- What stands directly in a block: a constant with its value, or another block. -/
inductive BlockItem where
  | const (name value : String)
  | module (name : String)
deriving DecidableEq

/-- The name and the value of a constant. -/
def BlockItem.const? : BlockItem → Option (String × String)
  | const name value => some (name, value)
  | module _ => none

/-- An item with the names of the blocks around it, from the outside to the inside. -/
abbrev PlacedItem := List String × BlockItem

/-- The items that stand directly in a block, in order. -/
def itemsIn (block : List String) (es : List PlacedItem) : List BlockItem :=
  (es.filter fun e => e.1 = block).map Prod.snd

/-- The constants, each with the blocks around it, its name and its value. -/
def constantsOf (es : List PlacedItem) : List (List String × String × String) :=
  es.filterMap fun e => e.2.const?.map fun x => (e.1, x.1, x.2)

/-- The items with one more block around them. -/
def enclose (name : String) (es : List PlacedItem) : List PlacedItem :=
  es.map fun e => (name :: e.1, e.2)

theorem itemsIn_append (block : List String) (es es' : List PlacedItem) :
    itemsIn block (es ++ es') = itemsIn block es ++ itemsIn block es' := by
  rw [itemsIn, List.filter_append, List.map_append]
  rfl

/-- What has a block around it is not outside of all blocks. -/
theorem itemsIn_nil_enclose (name : String) (es : List PlacedItem) :
    itemsIn [] (enclose name es) = [] := by
  simp [itemsIn, enclose, List.filter_map, Function.comp_def]

/-- Inside a block are the items that it was put around. -/
theorem itemsIn_cons_enclose (head name : String) (block : List String) (es : List PlacedItem) :
    itemsIn (head :: block) (enclose name es) = if name = head then itemsIn block es else [] := by
  by_cases hname : name = head <;>
    simp [itemsIn, enclose, List.filter_map, hname, Function.comp_def]

theorem constantsOf_append (es es' : List PlacedItem) :
    constantsOf (es ++ es') = constantsOf es ++ constantsOf es' :=
  List.filterMap_append

/-- A block around constants is the first one on the way to them. -/
theorem constantsOf_enclose (name : String) (es : List PlacedItem) :
    constantsOf (enclose name es) = (constantsOf es).map fun x => (name :: x.1, x.2) := by
  rw [constantsOf, enclose, List.filterMap_map, constantsOf, List.map_filterMap]
  refine List.filterMap_congr fun e _ => ?_
  rw [Function.comp_apply, Option.map_map]
  rfl

/-- The item that a block needs so that a constant is reached from it: the constant if it belongs to
the block, or else the next block on the way. Other blocks need nothing. -/
def itemFor? : List String → List String → String → String → Option BlockItem
  | [], [], name, value => some (.const name value)
  | [], m :: _, _, _ => some (.module m)
  | head :: block, m :: path, name, value =>
    if head = m then itemFor? block path name value else none
  | _ :: _, [], _, _ => none

/-- A constant is needed in the block that its path leads to. -/
theorem itemFor?_eq_const_iff {block path : List String} {name value n v : String} :
    itemFor? block path name value = some (.const n v) ↔ block = path ∧ name = n ∧ value = v := by
  fun_induction itemFor? block path name value with
  | case1 => simp
  | case2 => simp
  | case3 block m path name value ih => simp [ih]
  | case4 head block m path name value hne => simp [hne]
  | case5 => simp

/-- Only the block that a constant belongs to needs it as a constant. -/
theorem bind_itemFor?_const? (block path : List String) (name value : String) :
    (itemFor? block path name value).bind BlockItem.const? =
      if path = block then some (name, value) else none := by
  split
  · next heq => rw [itemFor?_eq_const_iff.mpr ⟨heq.symm, rfl, rfl⟩]; rfl
  · next hne =>
    rcases hitem : itemFor? block path name value with - | ⟨n, v⟩ | m
    · rfl
    · exact absurd (itemFor?_eq_const_iff.mp hitem).1.symm hne
    · rfl

/-- The items of a block after one more is needed: a constant goes to the end, and so does a block
unless it is there already. -/
def addItem (items : List BlockItem) : BlockItem → List BlockItem
  | .const name value => items ++ [.const name value]
  | .module name => if .module name ∈ items then items else items ++ [.module name]

/-- Items stay when one more is needed. -/
theorem mem_addItem {items : List BlockItem} {i x : BlockItem} :
    x ∈ addItem items i ↔ x ∈ items ∨ x = i := by
  cases i with
  | const name value => simp [addItem]
  | module name =>
      rw [addItem]
      split
      · next hmem =>
        constructor
        · exact .inl
        · rintro (hx | rfl)
          · exact hx
          · exact hmem
      · simp

/-- A block is looked for behind any other item. -/
theorem addItem_cons {items : List BlockItem} {x : BlockItem} {name : String}
    (h : x ≠ .module name) :
    addItem (x :: items) (.module name) = x :: addItem items (.module name) := by
  simp only [addItem, List.mem_cons, h.symm, false_or]
  split <;> rfl

/-- Only a constant that is needed changes the constants. -/
theorem filterMap_const?_elim (items : List BlockItem) (needed : Option BlockItem) :
    (needed.elim items (addItem items)).filterMap BlockItem.const? =
      items.filterMap BlockItem.const? ++ (needed.bind BlockItem.const?).toList := by
  rcases needed with - | ⟨n, v⟩ | m
  · exact (List.append_nil _).symm
  · simp [addItem, BlockItem.const?]
  · rw [Option.elim_some, addItem]
    split <;> simp [BlockItem.const?]

/-- The item that a block needs for the constant of an action. -/
def ActionDefinition.itemIn? (block : List String) (a : ActionDefinition) : Option BlockItem :=
  itemFor? block a.modulePath a.idConst a.typeId.text

/-- The constant of an action, with the blocks around it. -/
def ActionDefinition.constant (a : ActionDefinition) : List String × String × String :=
  (a.modulePath, a.idConst, a.typeId.text)

/-! ### Forests -/

namespace ConstForest

variable {f : ConstForest}

/-- The items of a forest with the blocks around them, in the order in which they are written. -/
def placed : ConstForest → List PlacedItem
  | nil => []
  | const name value rest => ([], .const name value) :: rest.placed
  | module name body rest => ([], .module name) :: (enclose name body.placed ++ rest.placed)

/-- The items that stand directly in a block of a forest. -/
def items (f : ConstForest) (block : List String) : List BlockItem := itemsIn block f.placed

@[simp]
theorem items_nil (block : List String) : nil.items block = [] := rfl

@[simp]
theorem items_const_nil (name value : String) (rest : ConstForest) :
    (const name value rest).items [] = .const name value :: rest.items [] := rfl

@[simp]
theorem items_const_cons (name value : String) (rest : ConstForest) (head : String)
    (block : List String) :
    (const name value rest).items (head :: block) = rest.items (head :: block) := rfl

/-- Outside of all blocks stands the block itself. -/
@[simp]
theorem items_module_nil (name : String) (body rest : ConstForest) :
    (module name body rest).items [] = .module name :: rest.items [] := by
  have hrest : itemsIn [] (enclose name body.placed ++ rest.placed) = rest.items [] := by
    rw [itemsIn_append, itemsIn_nil_enclose]
    rfl
  exact congrArg (.module name :: ·) hrest

/-- Inside a block stand the items of its body, and of later blocks of the name. -/
@[simp]
theorem items_module_cons (name : String) (body rest : ConstForest) (head : String)
    (block : List String) :
    (module name body rest).items (head :: block) =
      (if name = head then body.items block else []) ++ rest.items (head :: block) := by
  have hrest : itemsIn (head :: block) (enclose name body.placed ++ rest.placed) =
      (if name = head then body.items block else []) ++ rest.items (head :: block) := by
    rw [itemsIn_append, itemsIn_cons_enclose]
    rfl
  exact hrest

/-- A block that is not there has nothing in it. -/
theorem items_cons_eq_nil {name : String} (h : .module name ∉ f.items []) (block : List String) :
    f.items (name :: block) = [] := by
  induction f with
  | nil => rfl
  | const n v rest ih =>
      rw [items_const_nil, List.mem_cons, not_or] at h
      rw [items_const_cons, ih h.2]
  | module m body rest _ ih =>
      rw [items_module_nil, List.mem_cons, not_or] at h
      have hne : m ≠ name := fun heq => h.1 (heq ▸ rfl)
      rw [items_module_cons, if_neg hne, ih h.2, List.append_nil]

/-- No block has two blocks of the same name directly in it. -/
def Distinct : ConstForest → Prop
  | nil => True
  | const _ _ rest => rest.Distinct
  | module name body rest => .module name ∉ rest.items [] ∧ body.Distinct ∧ rest.Distinct

/-! ### One more constant -/

/-- A single constant needs one item in each block on its way. -/
theorem items_single (path : List String) (name value : String) (block : List String) :
    (single path name value).items block = (itemFor? block path name value).toList := by
  induction path generalizing block with
  | nil => cases block <;> rfl
  | cons m path ih =>
      cases block with
      | nil => rw [single, items_module_nil, items_nil, itemFor?, Option.toList_some]
      | cons head block =>
          rw [single, items_module_cons, items_nil, List.append_nil, ih, itemFor?]
          by_cases hm : m = head <;> simp [hm, eq_comm]

/-- **What one more constant does to each block**: the item that the block needs for it is added. -/
theorem items_insert (hf : f.Distinct) (path : List String) (name value : String)
    (block : List String) :
    (f.insert path name value).items block =
      (itemFor? block path name value).elim (f.items block) (addItem (f.items block)) := by
  induction f generalizing path block with
  | nil =>
      rw [insert, items_single, items_nil]
      rcases itemFor? block path name value with - | ⟨n, v⟩ | m <;> rfl
  | const n v rest ih =>
      rw [insert]
      cases block with
      | cons head block => rw [items_const_cons, items_const_cons, ih hf]
      | nil =>
          rw [items_const_nil, items_const_nil, ih hf path []]
          cases path with
          | nil => rfl
          | cons m path => exact (addItem_cons (fun h => by cases h)).symm
  | module m body rest ihbody ihrest =>
      obtain ⟨hfree, hbody, hrest⟩ := hf
      cases path with
      | nil =>
          rw [insert]
          cases block with
          | nil => rw [items_module_nil, items_module_nil, ihrest hrest]; rfl
          | cons head block => rw [items_module_cons, items_module_cons, ihrest hrest]; rfl
      | cons head path =>
          rw [insert]
          split
          · next hm =>
            -- The constant goes into this block, and no later one has the same name.
            subst hm
            cases block with
            | nil => simp [itemFor?, addItem]
            | cons head block =>
                rw [items_module_cons, items_module_cons, itemFor?]
                by_cases hhead : m = head
                · subst hhead
                  rw [if_pos rfl, if_pos rfl, if_pos rfl, items_cons_eq_nil hfree, List.append_nil,
                    List.append_nil, ihbody hbody]
                · rw [if_neg hhead, if_neg hhead, if_neg (Ne.symm hhead)]
                  rfl
          · next hm =>
            cases block with
            | nil =>
                rw [items_module_nil, items_module_nil, ihrest hrest]
                exact (addItem_cons fun h => hm (BlockItem.module.inj h)).symm
            | cons head' block =>
                rw [items_module_cons, items_module_cons, ihrest hrest, itemFor?]
                by_cases hhead : head' = head
                · subst hhead
                  rw [if_neg hm, if_pos rfl, List.nil_append, List.nil_append]
                · rw [if_neg hhead]
                  rfl

/-- A single constant has one block in each other. -/
theorem distinct_single (path : List String) (name value : String) :
    (single path name value).Distinct := by
  induction path with
  | nil => exact trivial
  | cons m path ih => exact ⟨List.not_mem_nil, ih, trivial⟩

/-- One more constant opens no block twice. -/
theorem Distinct.insert (hf : f.Distinct) (path : List String) (name value : String) :
    (f.insert path name value).Distinct := by
  induction f generalizing path with
  | nil => exact distinct_single path name value
  | const n v rest ih => exact ih hf path
  | module m body rest ihbody ihrest =>
      obtain ⟨hfree, hbody, hrest⟩ := hf
      cases path with
      | nil =>
          refine ⟨?_, hbody, ihrest hrest []⟩
          rw [items_insert hrest]
          simpa [itemFor?, addItem] using hfree
      | cons head path =>
          rw [ConstForest.insert]
          split
          · exact ⟨hfree, ihbody hbody path, hrest⟩
          · next hm =>
            refine ⟨?_, hbody, ihrest hrest _⟩
            rw [items_insert hrest]
            simp only [itemFor?, Option.elim_some, mem_addItem, not_or]
            exact ⟨hfree, by simpa using hm⟩

/-- A single constant is the only one. -/
theorem constantsOf_single (path : List String) (name value : String) :
    constantsOf (single path name value).placed = [(path, name, value)] := by
  induction path with
  | nil => rfl
  | cons m path ih =>
      have hplaced : (single (m :: path) name value).placed =
          [([], .module m)] ++ enclose m (single path name value).placed :=
        congrArg (([], BlockItem.module m) :: ·) (List.append_nil _)
      rw [hplaced, constantsOf_append, constantsOf_enclose, ih]
      rfl

/-- **One more constant** is there once, and the others stay. -/
theorem constantsOf_insert (f : ConstForest) (path : List String) (name value : String) :
    (constantsOf (f.insert path name value).placed).Perm
      ((path, name, value) :: constantsOf f.placed) := by
  have hmodule (m : String) (body rest : ConstForest) :
      constantsOf (module m body rest).placed =
        (constantsOf body.placed).map (fun x => (m :: x.1, x.2)) ++ constantsOf rest.placed := by
    rw [← constantsOf_enclose, ← constantsOf_append]
    rfl
  induction f generalizing path with
  | nil => rw [insert, constantsOf_single]; exact .rfl
  | const n v rest ih => exact ((ih path).cons ([], n, v)).trans (.swap _ _ _)
  | module m body rest ihbody ihrest =>
      have hlater (path : List String) :
          (constantsOf (module m body (rest.insert path name value)).placed).Perm
            ((path, name, value) :: constantsOf (module m body rest).placed) := by
        rw [hmodule, hmodule]
        exact ((ihrest path).append_left _).trans List.perm_middle
      cases path with
      | nil => exact hlater []
      | cons head path =>
          rw [insert]
          split
          · next hm =>
            subst hm
            rw [hmodule, hmodule]
            exact ((ihbody path).map fun x => (m :: x.1, x.2)).append_right _
          · exact hlater (head :: path)

/-! ### The constants of actions -/

/-- The last action is put into the blocks of the others. -/
theorem ofActions_concat (as : List ActionDefinition) (a : ActionDefinition) :
    ofActions (as ++ [a]) = (ofActions as).insert a.modulePath a.idConst a.typeId.text := by
  rw [ofActions, List.foldl_append]
  rfl

/-- No block is opened twice, whatever the actions are. The induction is along the actions. -/
theorem distinct_ofActions (as : List ActionDefinition) : (ofActions as).Distinct := by
  induction as using List.reverseRecOn with
  | nil => exact trivial
  | append_singleton as a ih =>
      rw [ofActions_concat]
      exact ih.insert _ _ _

/-- The constants are those of the actions, in some order. -/
theorem constantsOf_ofActions (as : List ActionDefinition) :
    (constantsOf (ofActions as).placed).Perm (as.map ActionDefinition.constant) := by
  induction as using List.reverseRecOn with
  | nil => exact .rfl
  | append_singleton as a ih =>
      rw [ofActions_concat, List.map_append, List.map_singleton]
      exact ((constantsOf_insert _ _ _ _).trans (ih.cons _)).trans
        (List.perm_append_singleton _ _).symm

/-- The constants of a block stand in the order of the actions. -/
theorem filterMap_const?_items_ofActions (as : List ActionDefinition) (block : List String) :
    ((ofActions as).items block).filterMap BlockItem.const? =
      (as.filter fun a => a.modulePath = block).map fun a => (a.idConst, a.typeId.text) := by
  induction as using List.reverseRecOn with
  | nil => rfl
  | append_singleton as a ih =>
      rw [ofActions_concat, items_insert (distinct_ofActions as), filterMap_const?_elim,
        bind_itemFor?_const?, ih, List.filter_append, List.map_append, List.filter_singleton]
      by_cases hblock : a.modulePath = block <;> simp [hblock]

/-- **The items of a block** are those that the actions need, in the order in which they are first
needed. -/
theorem items_ofActions {as : List ActionDefinition}
    (h : (as.map fun a => a.modulePath ++ [a.idConst]).Nodup) (block : List String) :
    (ofActions as).items block =
      firstOfEach id (as.filterMap (ActionDefinition.itemIn? block)) := by
  induction as using List.reverseRecOn with
  | nil => rfl
  | append_singleton as a ih =>
      rw [List.map_append, List.nodup_append] at h
      obtain ⟨hbefore, -, hnew⟩ := h
      rw [ofActions_concat, items_insert (distinct_ofActions as), ih hbefore, List.filterMap_append,
        firstOfEach_append]
      generalize hneeded : firstOfEach id (as.filterMap (ActionDefinition.itemIn? block)) = needed
      have hitem : itemFor? block a.modulePath a.idConst a.typeId.text = a.itemIn? block := rfl
      rw [hitem]
      cases ha : a.itemIn? block with
      | none => simp [ha, firstOfEach]
      | some i =>
          have hlast : (firstOfEach id ([a].filterMap (ActionDefinition.itemIn? block))).filter
              (fun b => id b ∉ needed.map id) = if i ∈ needed then [] else [i] := by
            by_cases hi : i ∈ needed <;> simp [ha, firstOfEach, hi]
          rw [hlast, Option.elim_some]
          cases i with
          | module m => rw [addItem]; split <;> simp
          | const n v =>
              -- Nobody before has the same constant in the same block.
              have hfree : .const n v ∉ needed := by
                intro hmem
                rw [← hneeded] at hmem
                obtain ⟨b, hb, hbitem⟩ :=
                  List.mem_filterMap.mp ((firstOfEach_sublist _).subset hmem)
                obtain ⟨rfl, rfl, -⟩ := itemFor?_eq_const_iff.mp hbitem
                obtain ⟨hblock, hname, -⟩ := itemFor?_eq_const_iff.mp ha
                have hpath : b.modulePath ++ [b.idConst] = a.modulePath ++ [a.idConst] := by
                  rw [hblock, hname]
                exact hnew _ (List.mem_map_of_mem hb) _ (List.mem_singleton_self _) hpath
              rw [if_neg hfree]
              rfl

/-! ### Names -/

/-- Every name in a forest has some property. -/
def AllNames (P : String → Prop) : ConstForest → Prop
  | nil => True
  | const name _ rest => P name ∧ rest.AllNames P
  | module name body rest => P name ∧ body.AllNames P ∧ rest.AllNames P

variable {P : String → Prop}

/-- The names of a single constant are those of its path and its own. -/
theorem allNames_single {path : List String} {name : String} (hpath : ∀ m ∈ path, P m)
    (hname : P name) (value : String) : (single path name value).AllNames P := by
  induction path with
  | nil => exact ⟨hname, trivial⟩
  | cons m path ih =>
      rw [List.forall_mem_cons] at hpath
      exact ⟨hpath.1, ih hpath.2, trivial⟩

/-- One more constant brings no other names. -/
theorem AllNames.insert {path : List String} {name : String} (hf : f.AllNames P)
    (hpath : ∀ m ∈ path, P m) (hname : P name) (value : String) :
    (f.insert path name value).AllNames P := by
  induction f generalizing path with
  | nil => exact allNames_single hpath hname value
  | const n v rest ih => exact ⟨hf.1, ih hf.2 hpath⟩
  | module m body rest ihbody ihrest =>
      cases path with
      | nil => exact ⟨hf.1, hf.2.1, ihrest hf.2.2 hpath⟩
      | cons head path =>
          rw [ConstForest.insert]
          split
          · exact ⟨hf.1, ihbody hf.2.1 (List.forall_mem_cons.mp hpath).2, hf.2.2⟩
          · exact ⟨hf.1, hf.2.1, ihrest hf.2.2 hpath⟩

/-- The names in the blocks of actions are those of their modules and constants. -/
theorem allNames_ofActions {as : List ActionDefinition}
    (h : ∀ a ∈ as, ∀ name ∈ a.modulePath ++ [a.idConst], P name) : (ofActions as).AllNames P := by
  induction as using List.reverseRecOn with
  | nil => exact trivial
  | append_singleton as a ih =>
      rw [List.forall_mem_append, List.forall_mem_singleton, List.forall_mem_append,
        List.forall_mem_singleton] at h
      rw [ofActions_concat]
      exact (ih h.1).insert h.2.1 h.2.2 _

end ConstForest

/-! ### Lines -/

/-- The line that opens a block stays one line. -/
theorem isFirm_opening {name : String} (h : '\n' ∉ name.toList) :
    IsFirm ("pub mod " ++ name ++ " \x7b") := by
  simp [isFirm_iff, List.getLast?_cons, h]

/-- So does the line that closes it. -/
theorem isFirm_closing : IsFirm "\x7d" := by
  simp [isFirm_iff]

/-- The lines of a forest whose names are identifiers are firm. -/
theorem ConstForest.allTexts_code {f : ConstForest} (hf : f.AllNames IsIdent) :
    Code.AllTexts IsFirm f.code := by
  induction f with
  | nil => exact Code.allTexts_nil
  | const name value rest ih =>
      rw [code, Code.allTexts_cons_iff]
      exact ⟨isFirm_idConstLine hf.1.isUnbroken.1 value, ih hf.2⟩
  | module name body rest ihbody ihrest =>
      rw [code, Code.block, Code.allTexts_append_iff, Code.allTexts_bracketed_iff]
      exact ⟨⟨isFirm_opening hf.1.isUnbroken.1, ihbody hf.2.1, isFirm_closing⟩, ihrest hf.2.2⟩

/-- What a line of a file of type ids does. -/
inductive BlockLine where
  | opens (name : String)
  | closes
  | declares (name value : String)

namespace BlockLine

/-- Reads a line without the blanks before it. -/
def ofText? (s : String) : Option BlockLine :=
  if s = "\x7d" then some closes
  else
    match between? "pub mod " " \x7b" s with
    | some name => some (opens name)
    | none =>
      (declared? "&str" s).bind fun x =>
        (decode? x.2.toList).bind fun y => if y.2 = [';'] then some (declares x.1 y.1) else none

/-- A block is opened with its name. -/
theorem ofText?_opens (name : String) :
    ofText? ("pub mod " ++ name ++ " \x7b") = some (opens name) := by
  rw [ofText?, if_neg (by simp [← String.toList_inj]), between?_enclosed]

/-- A brace closes a block. -/
theorem ofText?_closes : ofText? "\x7d" = some closes := by
  rw [ofText?, if_pos rfl]

/-- The line of a constant declares it. -/
theorem ofText?_declares {name : String} (h : ':' ∉ name.toList) (value : String) :
    ofText? (idConstLine name value).text = some (declares name value) := by
  have hdecoded : decode? (quote value ++ ";").toList = some (value, [';']) := by
    rw [String.toList_append]
    exact decode?_quote_append value _
  rw [ofText?, if_neg (by simp [← String.toList_inj, idConstLine]),
    between?_eq_none (by simp [idConstLine]), declared?_idConstLine h, Option.bind_some, hdecoded,
    Option.bind_some, if_pos rfl]

end BlockLine

/-- Reads lines inside the open blocks of the given names, up to the end of the text. A line is
indented by four blanks for each block around it, a block is closed where it was opened, and none is
left open in the end; or else nothing is read. -/
def readBlocks (path : List String) : List (List Char) → Option (List PlacedItem)
  | [] => if path = [] then some [] else none
  | l :: ls =>
    let blanks := (l.takeWhile (· == ' ')).length
    match BlockLine.ofText? (String.ofList (l.dropWhile (· == ' '))) with
    | some (.opens name) =>
      if blanks = 4 * path.length then
        (readBlocks (path ++ [name]) ls).map ((path, .module name) :: ·)
      else none
    | some .closes => if blanks + 4 = 4 * path.length then readBlocks path.dropLast ls else none
    | some (.declares name value) =>
      if blanks = 4 * path.length then (readBlocks path ls).map ((path, .const name value) :: ·)
      else none
    | none => none

section Steps

variable (path : List String) (ls : List (List Char))

/-- A line that opens a block. -/
theorem readBlocks_opens {name : String} (h : IsIdent name) :
    readBlocks path ((CodeLine.mk path.length ("pub mod " ++ name ++ " \x7b")).chars :: ls) =
      (readBlocks (path ++ [name]) ls).map ((path, .module name) :: ·) := by
  obtain ⟨hblanks, htext⟩ := CodeLine.blanks_chars
    (l := ⟨path.length, "pub mod " ++ name ++ " \x7b"⟩) (isFirm_opening h.isUnbroken.1)
  simp only [readBlocks, hblanks, htext, BlockLine.ofText?_opens, if_true]

/-- A line that closes the block that was opened last. -/
theorem readBlocks_closes (name : String) :
    readBlocks (path ++ [name]) ((CodeLine.mk path.length "\x7d").chars :: ls) =
      readBlocks path ls := by
  obtain ⟨hblanks, htext⟩ := CodeLine.blanks_chars (l := ⟨path.length, "\x7d"⟩) isFirm_closing
  simp only [readBlocks, hblanks, htext, BlockLine.ofText?_closes, List.length_append,
    List.length_singleton, List.dropLast_concat]
  rw [if_pos (by omega)]

/-- A line that declares a constant. -/
theorem readBlocks_declares {name : String} (h : IsIdent name) (value : String) :
    readBlocks path ((CodeLine.mk path.length (idConstLine name value).text).chars :: ls) =
      (readBlocks path ls).map ((path, .const name value) :: ·) := by
  obtain ⟨hblanks, htext⟩ := CodeLine.blanks_chars
    (l := ⟨path.length, (idConstLine name value).text⟩) (isFirm_idConstLine h.isUnbroken.1 value)
  simp only [readBlocks, hblanks, htext, BlockLine.ofText?_declares (h.not_mem (by decide)),
    if_true]

end Steps

namespace Code

/-- Code some levels deeper. -/
def deeper (n : Nat) (code : Code) : Code := code.map fun l => ⟨n + l.depth, l.text⟩

@[simp]
theorem deeper_nil (n : Nat) : deeper n [] = [] := rfl

theorem deeper_zero (code : Code) : deeper 0 code = code := by
  refine (List.map_congr_left fun l _ => ?_).trans (List.map_id code)
  rw [Nat.zero_add]
  rfl

@[simp]
theorem deeper_cons (n : Nat) (l : CodeLine) (code : Code) :
    deeper n (l :: code) = ⟨n + l.depth, l.text⟩ :: deeper n code := rfl

/-- Code is moved piece by piece. -/
@[simp]
theorem deeper_append (n : Nat) (code code' : Code) :
    deeper n (code ++ code') = deeper n code ++ deeper n code' :=
  List.map_append

/-- An indentation is one more level. -/
@[simp]
theorem deeper_indent (n : Nat) (code : Code) : deeper n (indent code) = deeper (n + 1) code := by
  rw [deeper, indent, List.map_map, deeper]
  refine List.map_congr_left fun l _ => ?_
  rw [Function.comp_apply, Nat.add_assoc, Nat.add_comm 1]

end Code

/-- **The code of blocks is read back** inside any other blocks, whatever follows it. -/
theorem readBlocks_code {f : ConstForest} (hf : f.AllNames IsIdent) (path : List String)
    (ls : List (List Char)) :
    readBlocks path ((Code.deeper path.length f.code).map CodeLine.chars ++ ls) =
      (readBlocks path ls).map ((f.placed.map fun e => (path ++ e.1, e.2)) ++ ·) := by
  -- The induction is on the forest, and the blocks that are open change on the way into it.
  induction f generalizing path ls with
  | nil => exact Option.map_id'.symm
  | const name value rest ih =>
      have hdepth : (idConstLine name value).depth = 0 := rfl
      rw [ConstForest.code, Code.deeper_cons, List.map_cons, List.cons_append, hdepth, Nat.add_zero,
        readBlocks_declares path _ hf.1, ih hf.2, Option.map_map, ConstForest.placed, List.map_cons,
        List.append_nil]
      rfl
  | module name body rest ihbody ihrest =>
      have hcode : (Code.deeper path.length (ConstForest.module name body rest).code).map
          CodeLine.chars ++ ls =
            (CodeLine.mk path.length ("pub mod " ++ name ++ " \x7b")).chars ::
              ((Code.deeper (path ++ [name]).length body.code).map CodeLine.chars ++
                ((CodeLine.mk path.length "\x7d").chars ::
                  ((Code.deeper path.length rest.code).map CodeLine.chars ++ ls))) := by
        simp [ConstForest.code, Code.block, Code.bracketed, Code.line]
      have hbody : ((enclose name body.placed).map fun e => (path ++ e.1, e.2)) =
          body.placed.map fun e => (path ++ [name] ++ e.1, e.2) := by
        simp [enclose]
      rw [hcode, readBlocks_opens path _ hf.1, ihbody hf.2.1, readBlocks_closes, ihrest hf.2.2,
        Option.map_map, Option.map_map, ConstForest.placed, List.map_cons, List.map_append, hbody,
        List.append_nil]
      congr 1
      funext es
      simp

/-! ### The file -/

/-- Whether a line may stand before the first block: it is empty, a comment or an attribute. -/
def isPreamble (l : List Char) : Bool := l.isEmpty || isComment l || "#![".toList.isPrefixOf l

/-- Reads the text of a file of type ids. -/
def readTypeIds (text : String) : Option (List PlacedItem) :=
  readBlocks [] ((lines text.toList).dropWhile isPreamble)

/-- A line of code that is neither empty nor indented begins like its text. -/
theorem isPreamble_chars_eq_false {l : CodeLine} (hfirm : IsFirm l.text) (hdepth : l.depth = 0)
    (hpub : "pub ".toList <+: l.text.toList) : isPreamble l.chars = false := by
  obtain ⟨rest, hrest⟩ := hpub
  rw [CodeLine.chars_eq hfirm, hdepth, ← hrest]
  rfl

/-- The lines before the code of a forest are passed over, and none of the code is. -/
theorem dropWhile_isPreamble {f : ConstForest} (hf : f.AllNames IsIdent) {before : List (List Char)}
    (hbefore : ∀ l ∈ before, isPreamble l = true) :
    (before ++ f.code.map CodeLine.chars).dropWhile isPreamble = f.code.map CodeLine.chars := by
  have hfirm := ConstForest.allTexts_code hf
  rw [List.dropWhile_append_of_pos hbefore]
  cases f with
  | nil => rfl
  | const name value rest =>
      refine List.dropWhile_cons_of_neg (Bool.not_eq_true _ ▸ isPreamble_chars_eq_false
        (hfirm _ List.mem_cons_self) rfl ?_)
      simp [idConstLine]
  | module name body rest =>
      refine List.dropWhile_cons_of_neg (Bool.not_eq_true _ ▸ isPreamble_chars_eq_false
        (hfirm _ List.mem_cons_self) rfl ?_)
      simp [Code.line]

/-- **The file of action type ids is read back**: what is read is what the forest holds. -/
theorem readTypeIds_actionTypeIdsCode {c : Context} {as : List ActionDefinition}
    (hc : '\n' ∉ c.document.toList) (has : (ConstForest.ofActions as).AllNames IsIdent) :
    readTypeIds (actionTypeIdsCode c as).render = some (ConstForest.ofActions as).placed := by
  generalize hf : ConstForest.ofActions as = f at has
  have hheader : ∃ before : Code, actionTypeIdsCode c as = before ++ f.code ∧ before.IsTidy ∧
      ∀ l ∈ before.map CodeLine.chars, isPreamble l = true := by
    rw [actionTypeIdsCode, hf]
    refine ⟨_, rfl, Code.isTidy_append_iff.mpr ⟨Code.isTidy_fileHeader hc (by decide), ?_⟩, ?_⟩
    · split
      · simp [CodeLine.IsTidy, anyCaseLine, isFirm_iff]
      · exact Code.isTidy_nil
    · split <;>
        simp [Code.fileHeader, Code.line, Code.gap, anyCaseLine, CodeLine.chars, isPreamble,
          isComment]
  obtain ⟨before, hcode, hbefore, hpreamble⟩ := hheader
  have htidy : Code.IsTidy (before ++ f.code) :=
    Code.isTidy_append_iff.mpr ⟨hbefore, (ConstForest.allTexts_code has).isTidy⟩
  have hread := readBlocks_code has [] []
  rw [List.length_nil, Code.deeper_zero, List.append_nil] at hread
  rw [readTypeIds, hcode, Code.lines_render htidy, List.map_append,
    dropWhile_isPreamble has hpreamble, hread]
  simp [readBlocks]

/-- What a list of items tells about actions. -/
structure ListsActions (as : List ActionDefinition) (es : List PlacedItem) : Prop where
  /-- Its constants are those of the actions, -/
  constants : (constantsOf es).Perm (as.map ActionDefinition.constant)
  /-- each once. -/
  nodup_constants : (constantsOf es).Nodup
  /-- Nothing stands twice in a block, so no two blocks in it have the same name. -/
  nodup_items : ∀ block, (itemsIn block es).Nodup
  /-- The constants of a block stand in the order of the actions, -/
  consts_eq : ∀ block, (itemsIn block es).filterMap BlockItem.const? =
    (as.filter fun a => a.modulePath = block).map fun a => (a.idConst, a.typeId.text)
  /-- and all its items in the order in which the actions first need them. -/
  items_eq : ∀ block, itemsIn block es =
    firstOfEach id (as.filterMap (ActionDefinition.itemIn? block))

/-- What is read from the file of actions with different paths tells about them. -/
theorem listsActions_placed {as : List ActionDefinition}
    (h : (as.map fun a => a.modulePath ++ [a.idConst]).Nodup) :
    ListsActions as (ConstForest.ofActions as).placed where
  constants := ConstForest.constantsOf_ofActions as
  nodup_constants := by
    rw [(ConstForest.constantsOf_ofActions as).nodup_iff]
    refine .of_map (fun x => x.1 ++ [x.2.1]) ?_
    rwa [List.map_map]
  nodup_items block := by
    have hitems := ConstForest.items_ofActions h block
    rw [ConstForest.items] at hitems
    have hnodup : ((firstOfEach id (as.filterMap (ActionDefinition.itemIn? block))).map id).Nodup :=
      nodup_map_firstOfEach _
    rwa [List.map_id, ← hitems] at hnodup
  consts_eq := ConstForest.filterMap_const?_items_ofActions as
  items_eq := ConstForest.items_ofActions h

/-- The modules and the constant of an action are identifiers. -/
theorem Document.isIdent_of_mem_path {d : Document} {o : Options} {a : ActionDefinition}
    (ha : a ∈ Definition.actions (d.resolve o).definitions) :
    ∀ name ∈ a.modulePath ++ [a.idConst], IsIdent name :=
  (legible_of_mem_definitions (Definition.mem_actions_iff.mp ha)
    ⟨.actionId, a.modulePath ++ [a.idConst]⟩ List.mem_cons_self).isIdent

/-- **The file of action type ids is read back.** Whatever a document says, there is such a file if
an action is left of it. Its blocks are closed where they were opened, and everything is indented by
its depth; what is read are the constants of the actions, each once, under their modules. No block
is opened twice inside another, the constants of a block stand in the order of the actions, and the
items of a block in the order in which they are first needed. Only a line feed in the name of the
document would spoil it. -/
theorem Document.typeIds_read_back (c : Context) (hc : '\n' ∉ c.document.toList) (d : Document)
    (o : Options) :
    let as := Definition.actions (d.resolve o).definitions
    let file := artifact? c (d.resolve o).definitions .actionTypeIds
    (file.isSome ↔ as ≠ []) ∧
      ∀ a ∈ file, ∃ es, readTypeIds a.content = some es ∧ ListsActions as es := by
  intro as file
  have hfile : file = Artifact.of? .actionTypeIds c as (actionTypeIdsCode c) := rfl
  have hread :
      readTypeIds (actionTypeIdsCode c as).render = some (ConstForest.ofActions as).placed :=
    readTypeIds_actionTypeIdsCode hc
      (ConstForest.allNames_ofActions fun _ ha => isIdent_of_mem_path ha)
  rw [hfile, Artifact.of?]
  split
  · next hempty => simp [List.isEmpty_iff.mp hempty]
  · next hne =>
    refine ⟨iff_of_true rfl (mt List.isEmpty_iff.mpr hne), ?_⟩
    rintro a ⟨⟩
    exact ⟨_, hread, listsActions_placed (definedOnce_resolve d o).actionPaths⟩

/-- Modules that are left and entered again, at two depths, with constants before and behind them.
-/
theorem Document.typeIds_read_back_of_combat :
    let d : Document := ⟨"combat", "action AI.Combat.Hit \x7b \x7d action Wait \x7b \x7d " ++
      "action AI.Idle \x7b \x7d action AI.Combat.Block \x7b \x7d"⟩
    '\n' ∉ (d.context {}).document.toList ∧
      ∃ a ∈ artifact? (d.context {}) (d.resolve {}).definitions .actionTypeIds,
        ∃ es, readTypeIds a.content = some es ∧
          itemsIn [] es = [.module "Ai", .const "WAIT" "Wait"] ∧
          itemsIn ["Ai"] es = [.module "Combat", .const "IDLE" "AI.Idle"] ∧
          itemsIn ["Ai", "Combat"] es =
            [.const "HIT" "AI.Combat.Hit", .const "BLOCK" "AI.Combat.Block"] := by
  intro d
  have hconstants : (Definition.actions (d.resolve {}).definitions).map ActionDefinition.constant =
      [(["Ai", "Combat"], "HIT", "AI.Combat.Hit"), ([], "WAIT", "Wait"),
        (["Ai"], "IDLE", "AI.Idle"), (["Ai", "Combat"], "BLOCK", "AI.Combat.Block")] := by
    decide +kernel
  have hc : '\n' ∉ (d.context {}).document.toList := by decide
  obtain ⟨hfile, hread⟩ := typeIds_read_back (d.context {}) hc d {}
  have hsome := hfile.mpr fun hnil => by simp [hnil] at hconstants
  obtain ⟨a, ha⟩ := Option.isSome_iff_exists.mp hsome
  obtain ⟨es, hes, hlists⟩ := hread a ha
  have hitems (block : List String) : itemsIn block es = firstOfEach id
      ([(["Ai", "Combat"], "HIT", "AI.Combat.Hit"), ([], "WAIT", "Wait"),
        (["Ai"], "IDLE", "AI.Idle"), (["Ai", "Combat"], "BLOCK", "AI.Combat.Block")].filterMap
          fun x => itemFor? block x.1 x.2.1 x.2.2) := by
    rw [hlists.items_eq, ← hconstants, List.filterMap_map]
    rfl
  refine ⟨hc, a, ha, es, hes, ?_, ?_, ?_⟩ <;> rw [hitems] <;> decide +kernel

end Defsheet

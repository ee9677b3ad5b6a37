import Defsheet.Compilation

/-!
# The registry

The registry joins the documents of a batch. Module names and type ids are each one name space, and
the first document that claims a name keeps it. A document that loses its module contributes
nothing; a document without a module name is passed over.

## Main definitions

* `Registry.ofBatch` builds the registry and reports what was turned down.
* `Registry.get?` and `Registry.sorted` give access to the entries.
* `Registry.writable` selects the documents whose files may be written.
-/

namespace Defsheet

/-- The document that a module belongs to. -/
structure ModuleOwner where
  module : String
  document : String
  /-- The position of the document in its batch. -/
  index : Nat
deriving DecidableEq

/-- What the documents of a batch register. -/
structure Registry where
  /-- The entries, in the order in which they were registered. -/
  entries : List ManifestEntry := []
  /-- The modules that are taken. -/
  owners : List ModuleOwner := []
deriving DecidableEq

namespace Registry

/-- The entry with a type id. -/
def get? (r : Registry) (id : String) : Option ManifestEntry :=
  r.entries.find? fun e => e.typeId = id

/-- Whether a type id is registered. -/
def contains (r : Registry) (id : String) : Bool := (r.get? id).isSome

/-- The document that a module belongs to. -/
def owner? (r : Registry) (module : String) : Option ModuleOwner :=
  r.owners.find? fun o => o.module = module

/-- The number of entries. -/
def size (r : Registry) : Nat := r.entries.length

/-- Whether nothing is registered. -/
def isEmpty (r : Registry) : Bool := r.entries.isEmpty

/-- The entries in the order of their type ids, character by character. -/
def sorted (r : Registry) : List ManifestEntry :=
  r.entries.mergeSort fun a b => decide (a.typeId ≤ b.typeId)

/-- The entries of actions, in the order of their type ids. -/
def actions (r : Registry) : List ManifestEntry := r.sorted.filter fun e => e.kind = .action

/-- The entries of markers, in the order of their type ids. -/
def markers (r : Registry) : List ManifestEntry := r.sorted.filter fun e => e.kind = .marker

/-! ### Building -/

/-- Registers an entry whose type id is free. -/
def insert (r : Registry) (e : ManifestEntry) : Registry :=
  { r with entries := r.entries ++ [e] }

/-- Gives a module that is free to a document. -/
def assign (r : Registry) (o : ModuleOwner) : Registry :=
  { r with owners := r.owners ++ [o] }

/-- Registers entries in order. An entry whose type id is taken is reported instead. -/
def addEntries (r : Registry) : List ManifestEntry → Registry × List Diagnostic
  | [] => (r, [])
  | e :: es =>
    match r.get? e.typeId with
    | some first =>
      let (r', others) := r.addEntries es
      (r', (Issue.registeredTypeId e.typeId first.document first.line).diagnostic e.document
        (.ofLine e.line) :: others)
    | none => (r.insert e).addEntries es

/-- Registers the document at a position of the batch. -/
def addDocument (r : Registry) (index : Nat) (c : Compilation) : Registry × List Diagnostic :=
  if c.module = "" then (r, [])
  else
    match r.owner? c.module with
    | some owner =>
      (r, [(Issue.moduleTaken c.document c.module owner.document).diagnostic c.document .start])
    | none => (r.assign ⟨c.module, c.document, index⟩).addEntries c.manifest

/-- Registers documents in order, the first at position `index`. -/
def addBatch (r : Registry) (index : Nat) : List Compilation → Registry × List Diagnostic
  | [] => (r, [])
  | c :: cs =>
    let (r', here) := r.addDocument index c
    let (r'', others) := r'.addBatch (index + 1) cs
    (r'', here ++ others)

/-- The registry of a batch, and what was turned down. -/
def ofBatch (cs : List Compilation) : Registry × List Diagnostic :=
  addBatch {} 0 cs

/-- Whether the document at a position of the batch has its module for itself. -/
def owns (r : Registry) (index : Nat) (c : Compilation) : Bool :=
  (r.owner? c.module).any fun o => o.index = index

/-- The documents of the batch whose files may be written: those that have their module. -/
def writable (r : Registry) (cs : List Compilation) : List Compilation :=
  (cs.zipIdx.filter fun (c, index) => r.owns index c).map Prod.fst

end Registry

end Defsheet

import InventoryFeed.Store.Inventory

/-!
# Histories of insertions

The four ways in which a record comes into the tables, and the tables after several of them. An insertion
that fails leaves the tables as they were.
-/

namespace InventoryFeed

/-- A record that is inserted. -/
inductive Insertion where
  /-- An instance. -/
  | ofInstance (id : String) (doc : Document)
  /-- A holdings record of an instance. -/
  | ofHoldings (id instanceId : String) (doc : Document)
  /-- An item of a holdings record. -/
  | ofItem (id holdingsId : String) (doc : Document)
  /-- An authority. -/
  | ofAuthority (id : String) (doc : Document)
  deriving Repr

namespace Insertion

/-- The kind of the record. -/
def kind : Insertion → RecordKind
  | ofInstance _ _ => .instances
  | ofHoldings _ _ _ => .holdings
  | ofItem _ _ _ => .items
  | ofAuthority _ _ => .authorities

/-- The id of the record. -/
def id : Insertion → String
  | ofInstance id _ => id
  | ofHoldings id _ _ => id
  | ofItem id _ _ => id
  | ofAuthority id _ => id

/-- The id of the record above, if the record belongs to another. -/
def parent : Insertion → Option String
  | ofInstance _ _ => none
  | ofHoldings _ instanceId _ => some instanceId
  | ofItem _ holdingsId _ => some holdingsId
  | ofAuthority _ _ => none

/-- The document that is inserted. -/
def doc : Insertion → Document
  | ofInstance _ doc => doc
  | ofHoldings _ _ doc => doc
  | ofItem _ _ doc => doc
  | ofAuthority _ doc => doc

/-- Insert the record. -/
def run (s : Inventory) : Insertion → Except StoreError Inventory
  | ofInstance id doc => s.insertInstance id doc
  | ofHoldings id instanceId doc => s.insertHoldings id instanceId doc
  | ofItem id holdingsId doc => s.insertItem id holdingsId doc
  | ofAuthority id doc => s.insertAuthority id doc

/-- The tables after an insertion, whether it fails or not. -/
def apply (s : Inventory) (i : Insertion) : Inventory :=
  match i.run s with
  | .ok s => s
  | .error _ => s

/-- The document with which a record was inserted last. -/
def last? (insertions : List Insertion) (kind : RecordKind) (id : String) : Option Document :=
  (insertions.reverse.find? fun i => i.kind = kind ∧ i.id = id).map doc

end Insertion

/-- The tables after several insertions, one after the other. -/
def Inventory.after (s : Inventory) (insertions : List Insertion) : Inventory :=
  insertions.foldl Insertion.apply s

/-- Whether one of several insertions put a record with an id into the table of a kind. -/
def Inventory.Inserted (s : Inventory) (insertions : List Insertion) (kind : RecordKind)
    (id : String) : Prop :=
  ∃ before i, before ++ [i] <+: insertions ∧ i.kind = kind ∧ i.id = id ∧
    (i.run (s.after before)).isOk

end InventoryFeed

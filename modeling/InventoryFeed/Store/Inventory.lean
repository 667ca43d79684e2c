import InventoryFeed.Document
import InventoryFeed.Store.Error

/-!
# The records

Four tables of records: instances, the holdings of instances, the items of holdings, and authorities.
A table is a list in the order of its row numbers, each id once; a record that is inserted again goes
to the end. Holdings and items name the record above them, which must be there, and a record to which
others belong cannot be deleted. The two joined lists carry every instance, with its holdings and
their items or with nothing in their place.
-/

namespace InventoryFeed

/-- A record in its table. -/
structure StoredRecord where
  /-- The row number. -/
  rowid : Nat
  /-- The record's id. -/
  id : String
  /-- The id of the record above, if the record belongs to another. -/
  parent : Option String
  /-- The text of the record's document. -/
  doc : String
  deriving DecidableEq, Repr, Inhabited

/-- A table of records in the order of their row numbers. -/
abbrev RecordTable := List StoredRecord

namespace RecordTable

/-- Whether a record is in a table. -/
def has (id : String) (t : RecordTable) : Bool := t.any fun r => r.id = id

/-- The number of a new row: one more than the greatest. -/
def nextRow (t : RecordTable) : Nat := (t.getLast?.map (·.rowid)).getD 0 + 1

/-- Put a record at the end, in place of one with the same id. -/
def put (id : String) (parent : Option String) (doc : String) (t : RecordTable) : RecordTable :=
  (t.filter fun r => r.id ≠ id) ++ [⟨t.nextRow, id, parent, doc⟩]

/-- The records that belong to another. -/
def of (parent : String) (t : RecordTable) : RecordTable := t.filter fun r => r.parent = some parent

end RecordTable

/-- The tables of records. -/
structure Inventory where
  /-- The bibliographic instances. -/
  instances : RecordTable
  /-- The holdings of instances. -/
  holdings : RecordTable
  /-- The items of holdings. -/
  items : RecordTable
  /-- The authority records. -/
  authorities : RecordTable
  /-- The tables that are gone. -/
  dropped : List RecordKind
  deriving DecidableEq, Repr

/-- An instance with one of its holdings and one of their items. -/
structure JoinedRecord where
  /-- The instance. -/
  record : StoredRecord
  /-- One of its holdings, none if it has none. -/
  holdings : Option StoredRecord
  /-- One of their items, none if there is none. -/
  item : Option StoredRecord
  deriving DecidableEq, Repr

namespace Inventory

/-- The tables without a record. -/
def empty : Inventory := ⟨[], [], [], [], []⟩

/-- The table of a kind. -/
def table (s : Inventory) : RecordKind → RecordTable
  | .instances => s.instances
  | .holdings => s.holdings
  | .items => s.items
  | .authorities => s.authorities

/-- Replace the table of a kind. -/
def withTable (s : Inventory) (kind : RecordKind) (t : RecordTable) : Inventory :=
  match kind with
  | .instances => { s with instances := t }
  | .holdings => { s with holdings := t }
  | .items => { s with items := t }
  | .authorities => { s with authorities := t }

/-- Whether the table of a kind is there. -/
def isThere (s : Inventory) (kind : RecordKind) : Bool := kind ∉ s.dropped

/-- Whether a record of a kind may name the record above it that it names. -/
def parentAllowed (s : Inventory) (kind : RecordKind) (parent : Option String) : Bool :=
  match kind.parent?, parent with
  | none, _ => true
  | some above, some id => s.isThere above && (s.table above).has id
  | some _, none => false

/-- Insert a record, in place of one with the same id, with the text of its document. -/
def insertText (s : Inventory) (kind : RecordKind) (id : String) (parent : Option String)
    (doc : String) : Except StoreError Inventory :=
  if s.isThere kind && s.parentAllowed kind parent then
    .ok (s.withTable kind ((s.table kind).put id parent doc))
  else .error (.insertRecord kind id)

/-- Insert an instance. -/
def insertInstance (s : Inventory) (id : String) (doc : Document) : Except StoreError Inventory :=
  s.insertText .instances id none doc.compact

/-- Insert a holdings record of an instance. -/
def insertHoldings (s : Inventory) (id instanceId : String) (doc : Document) :
    Except StoreError Inventory :=
  s.insertText .holdings id (some instanceId) doc.compact

/-- Insert an item of a holdings record. -/
def insertItem (s : Inventory) (id holdingsId : String) (doc : Document) :
    Except StoreError Inventory :=
  s.insertText .items id (some holdingsId) doc.compact

/-- Insert an authority. -/
def insertAuthority (s : Inventory) (id : String) (doc : Document) :
    Except StoreError Inventory :=
  s.insertText .authorities id none doc.compact

/-- Insert a record only if its id is new. -/
def insertNew (s : Inventory) (kind : RecordKind) (id : String) (parent : Option String)
    (doc : String) : Except StoreError Inventory :=
  if (s.table kind).has id then .error .statement
  else
    match s.insertText kind id parent doc with
    | .ok s => .ok s
    | .error _ => .error .statement

/-- Whether records may be deleted: none of them has a record that belongs to it. -/
def deletionAllowed (s : Inventory) (kind : RecordKind) (gone : StoredRecord → Bool) : Bool :=
  match kind.child? with
  | some below => ((s.table kind).filter gone).all fun r => ((s.table below).of r.id).isEmpty
  | none => true

/-- Delete records. -/
def delete (s : Inventory) (kind : RecordKind) (gone : StoredRecord → Bool) :
    Except StoreError Inventory :=
  if s.isThere kind && s.deletionAllowed kind gone then
    .ok (s.withTable kind ((s.table kind).filter fun r => !gone r))
  else .error .statement

/-- Drop a table, which deletes its records. -/
def drop (s : Inventory) (kind : RecordKind) : Except StoreError Inventory :=
  match s.delete kind fun _ => true with
  | .ok s => .ok { s with dropped := kind :: s.dropped }
  | .error e => .error e

/-- The tables as they are when the database is opened: those that are gone are there again. -/
def restored (s : Inventory) : Inventory := { s with dropped := [] }

/-- The values of a list, or nothing in their place. -/
def orNothing {α : Type} : List α → List (Option α)
  | [] => [none]
  | a :: rest => (a :: rest).map some

/-- Every instance with each of its holdings. -/
def withHoldings (s : Inventory) : List JoinedRecord :=
  s.instances.flatMap fun r =>
    (orNothing (s.holdings.of r.id)).map fun h => ⟨r, h, none⟩

/-- Every instance with each of its holdings and each of their items. -/
def withItems (s : Inventory) : List JoinedRecord :=
  s.withHoldings.flatMap fun joined =>
    (orNothing (joined.holdings.toList.flatMap fun h => s.items.of h.id)).map fun i =>
      { joined with item := i }

end Inventory

end InventoryFeed

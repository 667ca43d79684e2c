import InventoryFeed.Catalog.Basic
import InventoryFeed.Query.Meaning
import InventoryFeed.Routing.Kind
import InventoryFeed.Sql.Evaluate
import InventoryFeed.Sql.Order
import InventoryFeed.Store.Inventory

/-!
# What a search is about

The rows of each level's view, told by what stands in them: an instance, one of its holdings and one of their
items, or nothing where there is none to be joined. A field of a row is the value in the document of its
level. Compared with what the literals stand for, the fields give a predicate a truth value on the row. A
request is answered with the instances of which it has a row that makes its predicate true.
-/

namespace InventoryFeed

open Sql

namespace JoinedRecord

/-- What is joined is one of the records that belong there, or nothing if there are none. -/
def LeftJoined (below : RecordTable) : Option StoredRecord → Prop
  | some r => r ∈ below
  | none => below = []

/-- The rows of a level's view. -/
def InView (s : Inventory) : Level → JoinedRecord → Prop
  | .base, j => j.record ∈ s.instances ∧ j.holdings = none ∧ j.item = none
  | .first, j =>
    j.record ∈ s.instances ∧ LeftJoined (s.holdings.of j.record.id) j.holdings ∧ j.item = none
  | .second, j =>
    j.record ∈ s.instances ∧ LeftJoined (s.holdings.of j.record.id) j.holdings ∧
      LeftJoined (j.holdings.toList.flatMap fun h => s.items.of h.id) j.item

/-- The text of the document of a level, if there is one in the row. -/
def doc? (j : JoinedRecord) : Level → Option String
  | .base => some j.record.doc
  | .first => j.holdings.map (·.doc)
  | .second => j.item.map (·.doc)

/-- The value of a field in a row. -/
def fieldValue (catalog : Catalog) (j : JoinedRecord) (field : FieldRef) : Value :=
  match (catalog.levelOf field.qualifier).bind j.doc? with
  | some doc => (extract? doc ("$." ++ field.path)).getD .null
  | none => .null

/-- The truth value of a predicate on a row. -/
def truthOf (catalog : Catalog) (j : JoinedRecord) (p : Predicate) : Truth :=
  p.truth (fun _ c => compareBy c.op (j.fieldValue catalog c.field) (c.value.comparand c.op)) 0

/-- A row of an instance that makes a predicate true. -/
structure Supports (catalog : Catalog) (s : Inventory) (level : Level) (p : Predicate)
    (record : StoredRecord) (j : JoinedRecord) : Prop where
  row : j.InView s level
  record : j.record = record
  holds : j.truthOf catalog p = some true

end JoinedRecord

/-- The row that an instance is answered with: its id and its own document. -/
def StoredRecord.answered (r : StoredRecord) : Value × Value := (.text r.id, .text r.doc)

/-- What a request is answered with, over the rows of a level's view: each instance that a row supports, once,
in the order of the sort keys, for each of which the extreme value over these rows stands. -/
structure Inventory.Answers (catalog : Catalog) (s : Inventory) (level : Level) (r : Request)
    (records : List StoredRecord) : Prop where
  distinct : (records.map (·.id)).Nodup
  mem : ∀ record, record ∈ records ↔
    ∃ j, JoinedRecord.Supports catalog s level r.predicate record j
  ordered : ∃ key : StoredRecord → SortKey → Value,
    (∀ record ∈ records, ∀ k ∈ r.sort, Value.Extreme k.descending
      (fun v => ∃ j, JoinedRecord.Supports catalog s level r.predicate record j ∧
        j.fieldValue catalog k.field = v) (key record k)) ∧
    records.Pairwise fun a b =>
      Value.compareKeys (r.sort.map (·.descending)) (r.sort.map (key a)) (r.sort.map (key b)) ≠ .gt

end InventoryFeed

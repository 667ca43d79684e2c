import InventoryFeed.Row
import InventoryFeed.Routing
import InventoryFeed.Sql.Evaluate
import InventoryFeed.Store.Basic
import InventoryFeed.Stream.Cursor

/-!
# Reading the store

The tables and the two joined views as relations, and the cursor over the answer of a query. The
cursor reads ahead of whoever pulls: it hands out full batches and a last one that may be shorter. A
row that cannot be read ends it, and the rows of the batch that was begun are lost. Where there is no
room for a batch the reader crashes, and the cursor finds it gone.
-/

namespace InventoryFeed

open Sql

/-- The column of row numbers, by each of its names. -/
def rowidColumns : List RelationColumn := [⟨"rowid", 0⟩, ⟨"oid", 0⟩, ⟨"_rowid_", 0⟩]

namespace StoredRecord

/-- The row number under each of its names. -/
def rowids (r : StoredRecord) : List Value := List.replicate 3 (.integer r.rowid)

/-- The columns of a record in its own table. -/
def values (r : StoredRecord) : List Value :=
  .text r.id :: (r.parent.map .text).toList ++ .text r.doc :: r.rowids

end StoredRecord

namespace RecordKind

/-- The columns of a table of records. -/
def relationColumns (kind : RecordKind) : List RelationColumn :=
  ⟨"id", 0⟩ :: (kind.parentColumn?.map fun name => ⟨name, 0⟩).toList ++ ⟨"jsonb", 0⟩ :: rowidColumns

end RecordKind

namespace JoinedRecord

/-- The text of a record's document, or nothing. -/
def docOf : Option StoredRecord → Value
  | some r => .text r.doc
  | none => .null

/-- The columns of an instance with holdings. -/
def holdingsValues (j : JoinedRecord) : List Value :=
  [.text j.record.id, .text j.record.doc, docOf j.holdings]

/-- The columns of an instance with holdings and items. -/
def itemsValues (j : JoinedRecord) : List Value :=
  [.text j.record.id, .text j.record.doc, docOf j.holdings, docOf j.item]

end JoinedRecord

namespace StoredJob

/-- The columns of a stored job, with its row number. -/
def values (r : StoredJob) (rowid : Nat) : List Value :=
  [.text r.id, .text r.kind, .text r.resource, .text r.topic, .text r.eventType, .text r.status,
    .text r.submitted, r.published, r.cancelRequested] ++ List.replicate 3 (.integer rowid)

end StoredJob

namespace Store

/-- The columns of the view of instances with holdings. -/
def holdingsColumns : List RelationColumn := [⟨"id", 0⟩, ⟨"jsonb", 0⟩, ⟨"ho_jsonb", 1⟩]

/-- The columns of the view of instances with holdings and items. -/
def itemsColumns : List RelationColumn := holdingsColumns ++ [⟨"it_jsonb", 2⟩]

/-- The relation of a view over tables, which must be there. -/
def viewOver (s : Store) (kinds : List RecordKind) (r : Relation) : Except QueryError Relation :=
  match kinds.find? fun kind => !s.inventory.isThere kind with
  | some kind => .error (.noTable ("main." ++ kind.table))
  | none => .ok r

/-- The table or view of a name, in any letter case. -/
def relation (s : Store) (name : String) : Except QueryError Relation :=
  let named (other : String) : Bool := Ascii.sameIgnoringCase name other
  match RecordKind.all.find? fun kind => named kind.table with
  | some kind =>
    if s.inventory.isThere kind then
      .ok ⟨kind.relationColumns, (s.inventory.table kind).map StoredRecord.values⟩
    else .error (.noTable name)
  | none =>
    if named "instance_holding_view" then
      s.viewOver [.instances, .holdings]
        ⟨holdingsColumns, s.inventory.withHoldings.map JoinedRecord.holdingsValues⟩
    else if named "instance_holding_item_view" then
      s.viewOver [.instances, .holdings, .items]
        ⟨itemsColumns, s.inventory.withItems.map JoinedRecord.itemsValues⟩
    else if named "reindex_job" && !s.jobs.dropped then
      .ok ⟨StoredJob.columns.map (⟨·, 0⟩) ++ rowidColumns,
        s.jobs.rows.zipIdx.map fun (r, i) => r.values (i + 1)⟩
    else .error (.noTable name)

end Store

/-- A row as the store answers it: its id and, if it was selected, its document's text. -/
structure RawRow where
  /-- The value of the id. -/
  id : Value
  /-- The value of the document, if it was selected. -/
  doc : Option Value
  deriving Repr

namespace RawRow

/-- Doubles in the wording of an unexpected id. -/
def idLayout : DecimalLayout where
  lowest := some (-4)
  highest := some 15
  wholeFraction := true
  exponentFraction := false
  exponentPlus := false
  exponentWidth := 1

/-- The id of a row: a text, or an integer as text. -/
def idText : Value → Except CursorError String
  | .text s => .ok s
  | .integer n => .ok (toString n)
  | .real x => .error (.read ("unexpected id value Real(" ++ idLayout.write x ++ ")"))
  | .null => .error (.read "unexpected id value Null")

/-- The document of a row: nothing, or a text that is JSON. -/
def document (id : String) : Value → Except CursorError (Option Document)
  | .null => .ok none
  | .text s =>
    match Document.read s with
    | some doc => .ok (some doc)
    | none => .error (.read ("record " ++ id ++ ": not a document"))
  | _ => .error (.read "document is not text")

/-- The row that is read. -/
def decode (r : RawRow) : Except CursorError Row := do
  let id ← idText r.id
  match r.doc with
  | none => pure ⟨id, none⟩
  | some doc => pure ⟨id, ← document id doc⟩

end RawRow

/-- The answers of the cursor over rows: batches of `size` rows, then the failure or what is left.
`shipped` says whether a batch was handed out, `batch` is the one that was begun. -/
def pullRows (size : Nat) (failure : Option QueryError) :
    Bool → List Row → List RawRow → List Pull
  | shipped, batch, [] =>
    match failure with
    | some e =>
      [.failed (if shipped || !batch.isEmpty then .read e.text else .rejected e.text)]
    | none => if batch.isEmpty then [] else [.rows batch.reverse]
  | shipped, batch, raw :: rest =>
    match raw.decode with
    | .error cause => [.failed cause]
    | .ok row =>
      if batch.length + 1 = size then
        .rows (row :: batch).reverse :: pullRows size failure true [] rest
      else pullRows size failure shipped (row :: batch) rest

/-- The answers of the cursor over the rows of a query. -/
def pullsOf (batchSize : Nat) : Except QueryError (Rows RawRow) → List Pull
  | .error e => [.failed (.rejected e.text)]
  | .ok r =>
    if Row.batchLimit < batchSize then [.failed .readerGone]
    else pullRows (max batchSize 1) r.failure false [] r.rows

namespace Store

/-- The answer of a routed query: the ids and documents of the rows of its view. -/
def answer (s : Store) (q : RoutedQuery) : Except QueryError (Rows (Value × Value)) := do
  q.select.run (← s.relation q.select.view) q.params

/-- The cursor over a routed query. -/
def queryCursor (s : Store) (q : RoutedQuery) (batchSize : Nat) : List Pull :=
  pullsOf batchSize do
    let answered ← s.answer q
    pure (answered.map fun (id, doc) => ⟨id, some doc⟩)

/-- The records of a resource's corpus: instances by id, authorities in the order of their rows. -/
def corpusRecords (s : Store) : Resource → List StoredRecord
  | .instances => s.inventory.instances.mergeSort fun a b => compare a.id b.id ≠ .gt
  | .authorities => s.inventory.authorities

/-- The table of a resource's records. -/
def corpusKind : Resource → RecordKind
  | .instances => .instances
  | .authorities => .authorities

/-- The cursor over the corpus of a resource: ids alone, or ids and documents. -/
def corpusCursor (s : Store) (resource : Resource) (batchSize : Nat) : List Pull :=
  pullsOf batchSize
    (if s.inventory.isThere (corpusKind resource) then
      .ok ⟨(s.corpusRecords resource).map fun r =>
        ⟨.text r.id, if resource.publishesRecord then some (.text r.doc) else none⟩, none⟩
    else .error (.noTable resource.table))

end Store

end InventoryFeed

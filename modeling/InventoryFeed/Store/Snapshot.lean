import InventoryFeed.Document
import InventoryFeed.Store.Basic

/-!
# A store as a document

The text in which a database is kept between two runs: an object with one list a table, the rows in
order and each row a list of its columns, and the key of the database. Tables that are gone are
written as if they were there without rows, as they are when the database is opened.
-/

namespace InventoryFeed.Snapshot

/-- The value of a column. -/
def ofValue : Sql.Value → Document
  | .null => .null
  | .integer n => .int n
  | .real x => .real x
  | .text s => .text s

/-- Read the value of a column. -/
def toValue? : Document → Option Sql.Value
  | .null => some .null
  | .int n => some (.integer n)
  | .real x => some (.real x)
  | .text s => some (.text s)
  | _ => none

/-- The columns of a record. -/
def ofRecord (r : StoredRecord) : Document :=
  .array ([.int r.rowid, .text r.id, .text r.doc] ++ (r.parent.map .text).toList)

/-- Read the columns of a record. -/
def toRecord? : Document → Option StoredRecord
  | .array [.int rowid, .text id, .text doc] => some ⟨rowid.toNat, id, none, doc⟩
  | .array [.int rowid, .text id, .text doc, .text parent] =>
    some ⟨rowid.toNat, id, some parent, doc⟩
  | _ => none

/-- The columns of a job. -/
def ofJob (r : StoredJob) : Document :=
  .array ([r.id, r.kind, r.resource, r.topic, r.eventType, r.status, r.submitted].map .text
    ++ [ofValue r.published, ofValue r.cancelRequested])

/-- Read the columns of a job. -/
def toJob? : Document → Option StoredJob
  | .array [.text id, .text kind, .text resource, .text topic, .text eventType, .text status,
      .text submitted, published, cancelRequested] => do
    pure ⟨id, kind, resource, topic, eventType, status, submitted, ← toValue? published,
      ← toValue? cancelRequested⟩
  | _ => none

/-- The member of an object that holds the jobs. -/
def jobsKey : String := "reindex_job"

/-- The member of an object that holds the key. -/
def secretKey : String := "key"

/-- The document of a store and its key. -/
def ofStore (s : Store) (key : Option String) : Document :=
  .object (Keyed.ofList ([(jobsKey, .array (s.jobs.rows.map ofJob)),
    (secretKey, (key.map .text).getD .null)]
    ++ RecordKind.all.map fun kind => (kind.table, .array ((s.inventory.table kind).map ofRecord))))

/-- The rows of a table of a document. -/
def rows? {α : Type} (table : String) (read : Document → Option α) (d : Document) :
    Option (List α) :=
  ((d.get? table).bind (·.items?)).bind (List.mapM read)

/-- Read the document of a store and its key. -/
def toStore? (d : Document) : Option (Store × Option String) := do
  let jobs ← rows? jobsKey toJob? d
  let inventory ← RecordKind.all.foldlM (fun s kind => do
    pure (s.withTable kind (← rows? kind.table toRecord? d))) Inventory.empty
  pure (⟨inventory, ⟨jobs, false⟩⟩, (d.get? secretKey).bind (·.text?))

/-- The text of a store and its key. -/
def write (s : Store) (key : Option String) : String := (ofStore s key).compact ++ "\n"

/-- Read the text of a store and its key. -/
def read (text : String) : Option (Store × Option String) := (Document.read text).bind toStore?

end InventoryFeed.Snapshot

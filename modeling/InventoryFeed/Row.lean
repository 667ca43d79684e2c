import InventoryFeed.Json.Record

/-!
# Rows

What a cursor hands out: the id of a record and, when the query selects it, the record's document.
-/

namespace InventoryFeed

/-- A record on its way from the store to a consumer. -/
structure Row where
  /-- The record's id. -/
  id : String
  /-- The record's document, if it was selected. -/
  doc : Option Document
  deriving Repr, Inhabited

namespace Row

/-- A row without document. -/
def idOnly (id : String) : Row := ⟨id, none⟩

/-- Read a row; a null document counts as none. -/
def ofTree? (room : Nat) (tree : Json.Tree) : Option Row := do
  let record ← tree.record? ["id", "jsonb"] room
  let id ← record.required 0 Json.Tree.text?
  let document := Json.nullable? (Document.ofTree? (room - 1))
  let doc ← if record.positional then record.required 1 document
    else record.defaulted 1 none document
  pure ⟨id, doc⟩

/-- Read a text as a row. -/
def read (text : String) : Option Row := (Json.Tree.read text).bind (ofTree? Json.maxNesting)

/-- The text of a row. -/
def compact (row : Row) : String :=
  String.ofList (Json.writeRecord [
    ("id", Json.writeString row.id),
    ("jsonb", (row.doc.getD .null).write)])

end Row

end InventoryFeed

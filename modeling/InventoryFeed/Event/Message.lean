import InventoryFeed.Names
import InventoryFeed.Json.Record

/-!
# Event messages

What is put on the bus for a record: topic and key, the headers, one of which names the job, and a
payload with the record's id, the event's type, its position within the job and, for authorities,
the record itself.
-/

namespace InventoryFeed

/-- The body of an event. -/
structure EventPayload where
  /-- The record's id. -/
  id : String
  /-- The type of the event. -/
  eventType : String
  /-- The position of the message within its job, from one on. -/
  ts : Nat
  /-- The record, if it is published whole. -/
  record : Option Document
  deriving Repr, Inhabited

/-- A message on the bus. -/
structure EventMessage where
  /-- Where the message goes. -/
  topic : String
  /-- The record's id. -/
  key : String
  /-- The resource that the record belongs to. -/
  resource : Resource
  /-- The headers in key order. -/
  headers : List (String × String)
  /-- The body. -/
  payload : EventPayload
  deriving Repr, Inhabited

namespace EventMessage

/-- The id of the job that a message belongs to, the reindex header being looked at first. -/
def jobId? (m : EventMessage) : Option String :=
  [JobKind.reindex, JobKind.iteration].findSome? fun kind => Keyed.get? kind.header m.headers

open Json

/-- Read the body of an event. -/
def payloadOfTree? (room : Nat) (tree : Tree) : Option EventPayload := do
  let record ← tree.record? ["id", "type", "ts", "new"] room
  let id ← record.required 0 Tree.text?
  let eventType ← record.required 1 Tree.text?
  let ts ← record.required 2 Tree.count?
  let doc ← record.defaulted 3 none (nullable? (Document.ofTree? (room - 1)))
  pure ⟨id, eventType, ts, doc⟩

/-- Read a message. -/
def ofTree? (room : Nat) (tree : Tree) : Option EventMessage := do
  let record ← tree.record? ["topic", "key", "resourceName", "headers", "payload"] room
  let topic ← record.required 0 Tree.text?
  let key ← record.required 1 Tree.text?
  let resource ← record.required 2
    (Tree.oneOf? (room - 1) [Resource.instances, Resource.authorities] Resource.name)
  let headers ← record.required 3 (Tree.textMap? (room - 1))
  let payload ← record.required 4 (payloadOfTree? (room - 1))
  pure ⟨topic, key, resource, headers, payload⟩

/-- Read a text as a message. -/
def read (text : String) : Option EventMessage := (Tree.read text).bind (ofTree? maxNesting)

/-- The text of an event's body, without a record that is not there. -/
def writePayload (p : EventPayload) : List Char :=
  writeRecord ([
    ("id", writeString p.id),
    ("type", writeString p.eventType),
    ("ts", writeInt p.ts)] ++ (p.record.map fun doc => ("new", doc.write)).toList)

/-- The text of a message. -/
def write (m : EventMessage) : List Char :=
  writeRecord [
    ("topic", writeString m.topic),
    ("key", writeString m.key),
    ("resourceName", writeString m.resource.name),
    ("headers", writeRecord (m.headers.map fun (name, value) => (name, writeString value))),
    ("payload", writePayload m.payload)]

/-- The text of a message as a string. -/
def compact (m : EventMessage) : String := String.ofList m.write

end EventMessage

end InventoryFeed

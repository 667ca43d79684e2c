import InventoryFeed.Names
import InventoryFeed.Json.Record

/-!
# Jobs

A job publishes a corpus: a reindex every record of a resource to the resource's topic, an iteration
every instance id to a topic of the caller's. Both share one record, whose text is read and written
here.
-/

namespace InventoryFeed

/-- What the caller of an iteration states. -/
structure IterationParams where
  /-- Where the ids go. -/
  topic : String
  /-- The type of the events, if it is not the usual one. -/
  eventType : Option String
  deriving DecidableEq, Repr

/-- The type of the events, `ITERATE` if the caller names none. -/
def IterationParams.effectiveEventType (p : IterationParams) : String :=
  p.eventType.getD "ITERATE"

/-- A job as it is stored. -/
structure Job where
  /-- The job's id. -/
  id : String
  /-- What the job publishes. -/
  kind : JobKind
  /-- The resource whose corpus is published. -/
  resource : Resource
  /-- The topic of every event. -/
  topic : String
  /-- The type of every event. -/
  eventType : String
  /-- How far the job is in its life. -/
  status : JobStatus
  /-- When the job was submitted. -/
  submitted : String
  /-- How many records were published. -/
  published : Nat
  /-- Whether a cancel was asked for while the job was running. -/
  cancelRequested : Bool
  deriving DecidableEq, Repr, Inhabited

namespace Job

/-- A new reindex of a resource. -/
def reindex (id : String) (resource : Resource) (submitted : String) : Job where
  id := id
  kind := .reindex
  resource := resource
  topic := resource.topic
  eventType := "REINDEX"
  status := .inProgress
  submitted := submitted
  published := 0
  cancelRequested := false

/-- A new iteration over the instance ids. -/
def iteration (id : String) (params : IterationParams) (submitted : String) : Job where
  id := id
  kind := .iteration
  resource := .instances
  topic := params.topic
  eventType := params.effectiveEventType
  status := .inProgress
  submitted := submitted
  published := 0
  cancelRequested := false

end Job

open Json

namespace IterationParams

/-- Read the parameters of an iteration. -/
def ofTree? (room : Nat) (tree : Tree) : Option IterationParams := do
  let record ← tree.record? ["topicName", "eventType"] room
  let topic ← record.required 0 Tree.text?
  let eventType ← record.defaulted 1 none (nullable? Tree.text?)
  pure ⟨topic, eventType⟩

/-- Read a text as the parameters of an iteration. -/
def read (text : String) : Option IterationParams := (Tree.read text).bind (ofTree? maxNesting)

/-- The text of the parameters, without an event type that is not there. -/
def compact (p : IterationParams) : String :=
  String.ofList (writeRecord (("topicName", writeString p.topic)
    :: (p.eventType.map fun eventType => ("eventType", writeString eventType)).toList))

end IterationParams

namespace Job

/-- Read a job, every field of which must be there. -/
def ofTree? (room : Nat) (tree : Tree) : Option Job := do
  let record ← tree.record? ["id", "kind", "resourceName", "topicName", "eventType", "jobStatus",
    "submittedDate", "published", "cancelRequested"] room
  let id ← record.required 0 Tree.text?
  let kind ← record.required 1
    (Tree.oneOf? (room - 1) [JobKind.reindex, JobKind.iteration] JobKind.name)
  let resource ← record.required 2
    (Tree.oneOf? (room - 1) [Resource.instances, Resource.authorities] Resource.name)
  let topic ← record.required 3 Tree.text?
  let eventType ← record.required 4 Tree.text?
  let status ← record.required 5 (Tree.oneOf? (room - 1) JobStatus.all JobStatus.name)
  let submitted ← record.required 6 Tree.text?
  let published ← record.required 7 Tree.count?
  let cancelRequested ← record.required 8 Tree.bool?
  pure ⟨id, kind, resource, topic, eventType, status, submitted, published, cancelRequested⟩

/-- Read a text as a job. -/
def read (text : String) : Option Job := (Tree.read text).bind (ofTree? maxNesting)

/-- The members of a job's text. -/
def members (j : Job) : List (String × List Char) := [
  ("id", writeString j.id),
  ("kind", writeString j.kind.name),
  ("resourceName", writeString j.resource.name),
  ("topicName", writeString j.topic),
  ("eventType", writeString j.eventType),
  ("jobStatus", writeString j.status.name),
  ("submittedDate", writeString j.submitted),
  ("published", writeInt j.published),
  ("cancelRequested", writeBool j.cancelRequested)]

/-- The text of a job. -/
def compact (j : Job) : String := String.ofList (writeRecord j.members)

end Job

end InventoryFeed

import InventoryFeed.Job.Table
import InventoryFeed.Text.Blank

/-!
# Starting and watching jobs

A job is stored before its pass begins. An iteration is refused if its topic or the type of its events
cannot be used. A cancel raises a flag that the pass reads; a job that has ended is left as it is.
-/

namespace InventoryFeed

/-- Why a request about a job is refused. -/
inductive JobError where
  /-- There is no job of this id. -/
  | notFound (id : String)
  /-- The topic of an iteration cannot be used. -/
  | badTopic (topic : String)
  /-- The type of an iteration's events cannot be used. -/
  | badEventType (eventType : String)
  /-- The store failed. -/
  | store (cause : StoreError)
  deriving DecidableEq, Repr

/-- The wording of a refusal. -/
def JobError.message : JobError → String
  | notFound id => "job '" ++ id ++ "' not found"
  | badTopic topic => "invalid iteration job: topic name '" ++ topic ++ "'"
  | badEventType eventType => "invalid iteration job: event type '" ++ eventType ++ "'"
  | store cause => cause.message

/-- The name of a refusal's kind. -/
def JobError.kind : JobError → String
  | notFound _ => "NotFound"
  | badTopic _ => "InvalidParams"
  | badEventType _ => "InvalidParams"
  | store _ => "Store"

namespace IterationParams

/-- The greatest length of a topic's name. -/
def maxTopicLength : Nat := 249

/-- Whether a character may stand in the name of a topic. -/
def isTopicChar (c : Char) : Bool :=
  Ascii.isLetter c || Ascii.isDigit c || c == '.' || c == '_' || c == '-'

/-- Whether a topic can be used. -/
def topicAllowed (topic : String) : Bool :=
  !topic.isEmpty && topic.utf8ByteSize ≤ maxTopicLength && topic.toList.all isTopicChar

/-- Whether a type of events can be used. -/
def eventTypeAllowed (eventType : String) : Bool :=
  !eventType.isEmpty && !eventType.toList.any Text.isBlank

/-- Refuse parameters that cannot be used. -/
def check (p : IterationParams) : Except JobError Unit :=
  if !topicAllowed p.topic then .error (.badTopic p.topic)
  else if !eventTypeAllowed p.effectiveEventType then .error (.badEventType p.effectiveEventType)
  else .ok ()

end IterationParams

namespace JobDesk

/-- Store a new job. -/
def submit (d : JobDesk) (job : Job) : Except JobError JobDesk :=
  match d.table.insert job with
  | .ok table => .ok { d with table }
  | .error e => .error (.store e)

/-- The job of an answer that may be none. -/
def found (id : String) : Except StoreError (Option Job) → Except JobError Job
  | .ok (some job) => .ok job
  | .ok none => .error (.notFound id)
  | .error e => .error (.store e)

/-- The job of an id as it is stored. -/
def get (d : JobDesk) (id : String) : Except JobError Job × JobDesk :=
  let (answer, prepared) := d.prepared.get d.table id
  (found id answer, { d with prepared })

/-- Ask a running job to stop. -/
def cancel (d : JobDesk) (id : String) : Except JobError Job × JobDesk :=
  let (answer, table, prepared) := d.prepared.requestCancel d.table id
  (found id answer, ⟨table, prepared⟩)

/-- All jobs. -/
def list (d : JobDesk) : Except JobError (List Job) :=
  match d.table.list with
  | .ok jobs => .ok jobs
  | .error e => .error (.store e)

end JobDesk

end InventoryFeed

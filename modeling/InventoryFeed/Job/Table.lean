import InventoryFeed.Job.Basic
import InventoryFeed.Sql.Value
import InventoryFeed.Store.Error

/-!
# The table of jobs

Jobs are stored by id. Every change of a stored job is conditional on its being in progress, and a
count only grows, so a late or repeated write cannot move a job backward. A job that has ended never
changes again.
-/

namespace InventoryFeed

/-- A job as its columns hold it. -/
structure StoredJob where
  /-- The job's id. -/
  id : String
  /-- The name of its kind. -/
  kind : String
  /-- The name of its resource. -/
  resource : String
  /-- The topic of its events. -/
  topic : String
  /-- The type of its events. -/
  eventType : String
  /-- The name of its status. -/
  status : String
  /-- When it was submitted. -/
  submitted : String
  /-- How many records were published. -/
  published : Sql.Value
  /-- Whether a cancel was asked for. -/
  cancelRequested : Sql.Value
  deriving DecidableEq, Repr, Inhabited

namespace StoredJob

/-- The names of the columns in order. -/
def columns : List String := ["id", "job_kind", "resource_name", "topic_name", "event_type",
  "job_status", "submitted_date", "published", "cancel_requested"]

/-- The columns that hold a job. -/
def ofJob (j : Job) : StoredJob where
  id := j.id
  kind := j.kind.name
  resource := j.resource.name
  topic := j.topic
  eventType := j.eventType
  status := j.status.name
  submitted := j.submitted
  published := .ofCount j.published
  cancelRequested := .integer (if j.cancelRequested then 1 else 0)

/-- A flag as a column holds it: any integer but zero is true. -/
def readFlag : Sql.Value → Option Bool
  | .integer n => some (n ≠ 0)
  | _ => none

/-- A count as a column holds it; a negative one counts as zero. -/
def readCount : Sql.Value → Option Nat
  | .integer n => some n.toNat
  | _ => none

/-- A name of a vocabulary in a stored job. -/
def readName {α : Type} (id : String) : Except NameError α → Except StoreError α
  | .ok a => .ok a
  | .error cause => .error (.unknownName id cause)

/-- The job that the columns hold. -/
def toJob (r : StoredJob) : Except StoreError Job :=
  match readCount r.published, readFlag r.cancelRequested with
  | some published, some cancelRequested => do
    let kind ← readName r.id (JobKind.read r.kind)
    let resource ← readName r.id (Resource.read r.resource)
    let status ← readName r.id (JobStatus.read r.status)
    pure ⟨r.id, kind, resource, r.topic, r.eventType, status, r.submitted, published,
      cancelRequested⟩
  | _, _ => .error .readJob

/-- Whether the job is in progress. -/
def running (r : StoredJob) : Bool := r.status = JobStatus.inProgress.name

/-- The greater of a stored value and a count. -/
def grown (stored : Sql.Value) (count : Nat) : Sql.Value :=
  if stored.compare (.ofCount count) = .lt then .ofCount count else stored

/-- Whether a job is listed before another: the newest first, then by id. -/
def listedBefore (a b : StoredJob) : Bool :=
  match compare a.submitted b.submitted with
  | .gt => true
  | .lt => false
  | .eq => compare a.id b.id ≠ .gt

end StoredJob

/-- The stored jobs, each id once. -/
structure JobTable where
  /-- The jobs in the order in which they were inserted. -/
  rows : List StoredJob
  /-- Whether the table is gone. -/
  dropped : Bool
  deriving DecidableEq, Repr, Inhabited

namespace JobTable

/-- The table without a job. -/
def empty : JobTable := ⟨[], false⟩

/-- The row of a job. -/
def find? (t : JobTable) (id : String) : Option StoredJob := t.rows.find? fun r => r.id = id

/-- Change the rows of one job while it is in progress; the answer says whether there was one. -/
def updateRunning (t : JobTable) (id : String) (change : StoredJob → StoredJob) :
    Bool × JobTable :=
  let chosen (r : StoredJob) : Bool := r.id = id && r.running
  (t.rows.any chosen, { t with rows := t.rows.map fun r => if chosen r then change r else r })

/-- Store a new job; refused if its id is taken. -/
def insert (t : JobTable) (j : Job) : Except StoreError JobTable :=
  if t.dropped || (t.find? j.id).isSome then .error .insertJob
  else .ok { t with rows := t.rows ++ [.ofJob j] }

/-- The job of an id. -/
def get (t : JobTable) (id : String) : Except StoreError (Option Job) :=
  if t.dropped then .error .prepareLookup
  else
    match t.find? id with
    | none => .ok none
    | some r => r.toJob.map some

/-- All jobs, the newest first, then by id. -/
def list (t : JobTable) : Except StoreError (List Job) :=
  if t.dropped then .error .prepareList
  else (t.rows.mergeSort StoredJob.listedBefore).mapM StoredJob.toJob

/-- Whether a cancel was asked for; false for an id without a job. -/
def cancelRequested (t : JobTable) (id : String) : Except StoreError Bool :=
  if t.dropped then .error .prepareFlag
  else
    match t.find? id with
    | none => .ok false
    | some r =>
      match StoredJob.readFlag r.cancelRequested with
      | some flag => .ok flag
      | none => .error .readFlag

/-- Raise the cancel flag of a job in progress. -/
def raiseCancel (t : JobTable) (id : String) : Except StoreError JobTable :=
  if t.dropped then .error .requestCancel
  else .ok (t.updateRunning id fun r => { r with cancelRequested := .integer 1 }).2

/-- Raise the cancel flag of a job in progress and read the job as it is then stored. -/
def requestCancel (t : JobTable) (id : String) : Except StoreError (Option Job) × JobTable :=
  match t.raiseCancel id with
  | .error e => (.error e, t)
  | .ok t => (t.get id, t)

/-- Store a count of a job in progress; the answer says whether the job was in progress. -/
def recordProgress (t : JobTable) (id : String) (published : Nat) :
    Except StoreError (Bool × JobTable) :=
  if t.dropped then .error .recordProgress
  else .ok (t.updateRunning id fun r => { r with published := StoredJob.grown r.published published })

/-- Move a job in progress to its end; the answer says whether it was in progress. -/
def complete (t : JobTable) (id : String) (status : JobStatus) (published : Nat) :
    Except StoreError (Bool × JobTable) :=
  if !status.isTerminal then .error (.notTerminal status)
  else if t.dropped then .error .completeJob
  else .ok (t.updateRunning id fun r =>
    { r with status := status.name, published := StoredJob.grown r.published published })

end JobTable

/-- The lookups that a caller has prepared. A prepared lookup outlives the table, so that it then
fails when it is run and not when it is prepared. -/
structure PreparedLookups where
  /-- Whether the lookup of a job is prepared. -/
  job : Bool
  /-- Whether the lookup of a cancel flag is prepared. -/
  flag : Bool
  deriving DecidableEq, Repr, Inhabited

namespace PreparedLookups

/-- Before the first lookup. -/
def none : PreparedLookups := ⟨false, false⟩

/-- What a lookup that was prepared before answers. -/
def whenRun {α : Type} (prepared : Bool) : Except StoreError α → Except StoreError α
  | .error .prepareLookup => .error (if prepared then .readJob else .prepareLookup)
  | .error .prepareFlag => .error (if prepared then .readFlag else .prepareFlag)
  | answer => answer

/-- The job of an id. -/
def get (p : PreparedLookups) (t : JobTable) (id : String) :
    Except StoreError (Option Job) × PreparedLookups :=
  (whenRun p.job (t.get id), { p with job := p.job || !t.dropped })

/-- Whether a cancel was asked for. -/
def cancelRequested (p : PreparedLookups) (t : JobTable) (id : String) :
    Except StoreError Bool × PreparedLookups :=
  (whenRun p.flag (t.cancelRequested id), { p with flag := p.flag || !t.dropped })

/-- Raise a cancel flag and read the job. -/
def requestCancel (p : PreparedLookups) (t : JobTable) (id : String) :
    Except StoreError (Option Job) × JobTable × PreparedLookups :=
  let (answer, t) := t.requestCancel id
  (answer, t, { p with job := p.job || !t.dropped })

end PreparedLookups

/-- A call on the table of jobs. -/
inductive JobCall where
  /-- Store a new job. -/
  | insert (job : Job)
  /-- Read the job of an id. -/
  | get (id : String)
  /-- Read all jobs. -/
  | list
  /-- Read a cancel flag. -/
  | cancelRequested (id : String)
  /-- Raise a cancel flag and read the job. -/
  | requestCancel (id : String)
  /-- Store a count. -/
  | recordProgress (id : String) (published : Nat)
  /-- Store an end. -/
  | complete (id : String) (status : JobStatus) (published : Nat)
  deriving Repr

/-- What a call on the table of jobs is answered. -/
inductive JobAnswer where
  /-- It was done. -/
  | done
  /-- The job of an id, if there is one. -/
  | job (found : Option Job)
  /-- Jobs in order. -/
  | jobs (all : List Job)
  /-- A flag. -/
  | flag (value : Bool)
  deriving Repr

/-- The table of jobs as one caller sees it. -/
structure JobDesk where
  /-- The table. -/
  table : JobTable
  /-- The lookups that the caller has prepared. -/
  prepared : PreparedLookups
  deriving Repr

namespace JobDesk

/-- The table without a job before the first lookup. -/
def empty : JobDesk := ⟨.empty, .none⟩

/-- A change of the table that answers a flag. -/
def changed (d : JobDesk) : Except StoreError (Bool × JobTable) →
    Except StoreError JobAnswer × JobDesk
  | .ok (value, table) => (.ok (.flag value), { d with table })
  | .error e => (.error e, d)

/-- Make a call. -/
def call (d : JobDesk) : JobCall → Except StoreError JobAnswer × JobDesk
  | .insert job =>
    match d.table.insert job with
    | .ok table => (.ok .done, { d with table })
    | .error e => (.error e, d)
  | .get id =>
    let (answer, prepared) := d.prepared.get d.table id
    (answer.map .job, { d with prepared })
  | .list => (d.table.list.map .jobs, d)
  | .cancelRequested id =>
    let (answer, prepared) := d.prepared.cancelRequested d.table id
    (answer.map .flag, { d with prepared })
  | .requestCancel id =>
    let (answer, table, prepared) := d.prepared.requestCancel d.table id
    (answer.map .job, ⟨table, prepared⟩)
  | .recordProgress id published => d.changed (d.table.recordProgress id published)
  | .complete id status published => d.changed (d.table.complete id status published)

end JobDesk

end InventoryFeed

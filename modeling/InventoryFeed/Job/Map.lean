import InventoryFeed.Job.Table
import Mathlib.Data.Finmap

/-!
# Jobs by id

What the table of jobs stands for: a finite map from ids to jobs. A call changes the job that it names
while that job is in progress, and is answered from the map. What becomes of one job is also said over
the calls that came after its insertion, without the jobs in between.
-/

namespace InventoryFeed

/-- A count as far as a column holds it. -/
def cappedCount (n : Nat) : Nat := min n Sql.Value.maxInteger

/-- A job with its count as far as a column holds it. -/
def Job.capped (j : Job) : Job := { j with published := cappedCount j.published }

/-- Whether a job is listed before another: the newest first, those of one date by id. -/
def Job.ListedBefore (a b : Job) : Prop :=
  b.submitted < a.submitted ∨ a.submitted = b.submitted ∧ a.id < b.id

/-- Jobs by their ids. -/
abbrev JobMap := Finmap fun _ : String => Job

namespace JobMap

/-- The map without a job. -/
def empty : JobMap := ∅

/-- Whether the job of an id is there and in progress. -/
def isRunning (m : JobMap) (id : String) : Bool := (m.lookup id).any (·.status = .inProgress)

/-- Change the job of an id while it is in progress. -/
def updateRunning (m : JobMap) (id : String) (change : Job → Job) : JobMap :=
  match m.lookup id with
  | some j => if j.status = .inProgress then m.insert id (change j) else m
  | none => m

/-- The map after a call. -/
def call (m : JobMap) : JobCall → JobMap
  | .insert job => if job.id ∈ m then m else m.insert job.id job.capped
  | .requestCancel id => m.updateRunning id fun j => { j with cancelRequested := true }
  | .recordProgress id published =>
    m.updateRunning id fun j => { j with published := max j.published (cappedCount published) }
  | .complete id status published =>
    if status.isTerminal then
      m.updateRunning id fun j =>
        { j with status, published := max j.published (cappedCount published) }
    else m
  | .get _ => m
  | .list => m
  | .cancelRequested _ => m

/-- The map after several calls. -/
def calls (m : JobMap) (all : List JobCall) : JobMap := all.foldl call m

/-- What a call is answered over a map. -/
def Answers (m : JobMap) : JobCall → Except StoreError JobAnswer → Prop
  | .insert job, answer => answer = if job.id ∈ m then .error .insertJob else .ok .done
  | .get id, answer => answer = .ok (.job (m.lookup id))
  | .list, answer => ∃ jobs, answer = .ok (.jobs jobs) ∧ (jobs.map (·.id)).Nodup ∧
    (∀ j, j ∈ jobs ↔ m.lookup j.id = some j) ∧ jobs.Pairwise Job.ListedBefore
  | .cancelRequested id, answer => answer = .ok (.flag ((m.lookup id).any (·.cancelRequested)))
  | .requestCancel id, answer => answer = .ok (.job ((m.call (.requestCancel id)).lookup id))
  | .recordProgress id _, answer => answer = .ok (.flag (m.isRunning id))
  | .complete id status _, answer =>
    answer = if status.isTerminal then .ok (.flag (m.isRunning id)) else .error (.notTerminal status)

end JobMap

/-- The table after several calls. -/
def JobDesk.calls (d : JobDesk) (all : List JobCall) : JobDesk :=
  all.foldl (fun d c => (d.call c).2) d

namespace JobCall

/-- The end that a call stores of the job of an id. -/
def end? (id : String) : JobCall → Option JobStatus
  | complete named status _ => if named = id ∧ status.isTerminal then some status else none
  | _ => none

/-- The count that a call stores of the job of an id. -/
def count? (id : String) : JobCall → Option Nat
  | recordProgress named published => if named = id then some published else none
  | complete named status published =>
    if named = id ∧ status.isTerminal then some published else none
  | _ => none

/-- Whether a call asks for the cancel of the job of an id. -/
def cancels (id : String) : JobCall → Bool
  | requestCancel named => named = id
  | _ => false

/-- The calls that find the job of an id in progress: those up to the first that ends it. -/
def whileRunning (id : String) : List JobCall → List JobCall
  | [] => []
  | c :: rest => c :: if (c.end? id).isSome then [] else whileRunning id rest

end JobCall

namespace Job

/-- A job after calls that find it in progress: the one that ends it gives the status, the greatest of all
counts stands, and any cancel raises the flag. -/
def through (j : Job) (found : List JobCall) : Job :=
  { j with
    status := (found.findSome? (·.end? j.id)).getD j.status
    published := ((found.filterMap (·.count? j.id)).map cappedCount).foldl max
      (cappedCount j.published)
    cancelRequested := j.cancelRequested || found.any (·.cancels j.id) }

/-- A job after the calls that came after its insertion. -/
def since (j : Job) (later : List JobCall) : Job :=
  j.through (if j.status = .inProgress then JobCall.whileRunning j.id later else [])

end Job

end InventoryFeed

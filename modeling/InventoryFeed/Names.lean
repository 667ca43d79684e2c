import InventoryFeed.Text.Ascii

/-!
# The closed vocabularies

Scope levels, resources, kinds of job and job statuses, with the names under which they are written
and read. A level's name is read in any letter case, the names of a resource and of a job kind too;
the name of a status only as it is written.
-/

namespace InventoryFeed

/-- A name that is in none of the vocabularies it was looked up in. -/
inductive NameError where
  /-- No scope level has this name. -/
  | level (text : String)
  /-- No resource has this name. -/
  | resource (text : String)
  /-- No kind of job has this name. -/
  | kind (text : String)
  /-- No job status has this name. -/
  | status (text : String)
  deriving DecidableEq, Repr

/-- The wording of an unknown name. -/
def NameError.message : NameError → String
  | .level text => "unknown scope level: " ++ text
  | .resource text => "unknown resource name: " ++ text
  | .kind text => "unknown job kind: " ++ text
  | .status text => "unknown job status: " ++ text

/-- How deep a field reference reaches into the joined entities. -/
inductive Level where
  /-- The record itself. -/
  | base
  /-- The entities joined to the record. -/
  | first
  /-- The entities joined to those. -/
  | second
  deriving DecidableEq, Repr, Inhabited

namespace Level

/-- The levels from the shallowest to the deepest. -/
def all : List Level := [base, first, second]

/-- The depth of a level. -/
def depth : Level → Nat
  | base => 0
  | first => 1
  | second => 2

/-- The written name of a level. -/
def name : Level → String
  | base => "BASE"
  | first => "JOINED_L1"
  | second => "JOINED_L2"

/-- The deeper of two levels. -/
def max (a b : Level) : Level := if a.depth < b.depth then b else a

/-- The levels that a view of this level carries. -/
def upTo (level : Level) : List Level := all.filter fun l => l.depth ≤ level.depth

/-- Read a level's name in any letter case. -/
def read (text : String) : Except NameError Level :=
  match all.find? fun level => Ascii.sameIgnoringCase level.name text with
  | some level => .ok level
  | none => .error (.level text)

end Level

/-- One value for each scope level. -/
structure PerLevel (α : Type) where
  /-- The value for the record itself. -/
  base : α
  /-- The value for the first join. -/
  first : α
  /-- The value for the second join. -/
  second : α
  deriving DecidableEq, Repr

namespace PerLevel

/-- The value for a level. -/
def get {α : Type} (p : PerLevel α) : Level → α
  | .base => p.base
  | .first => p.first
  | .second => p.second

/-- Replace the value for a level. -/
def set {α : Type} (p : PerLevel α) (level : Level) (a : α) : PerLevel α :=
  match level with
  | .base => { p with base := a }
  | .first => { p with first := a }
  | .second => { p with second := a }

/-- The same value for every level. -/
def replicate {α : Type} (a : α) : PerLevel α := ⟨a, a, a⟩

/-- The values from the shallowest level to the deepest. -/
def toList {α : Type} (p : PerLevel α) : List α := [p.base, p.first, p.second]

@[simp] theorem get_set_self {α : Type} (p : PerLevel α) (level : Level) (a : α) :
    (p.set level a).get level = a := by cases level <;> rfl

theorem get_set_of_ne {α : Type} (p : PerLevel α) {level other : Level} (a : α)
    (h : other ≠ level) : (p.set level a).get other = p.get other := by
  cases level <;> cases other <;> first | rfl | exact absurd rfl h

@[simp] theorem get_replicate {α : Type} (a : α) (level : Level) :
    (replicate a).get level = a := by cases level <;> rfl

end PerLevel

/-- A corpus whose records can be republished. -/
inductive Resource where
  /-- The bibliographic instances. -/
  | instances
  /-- The authority records. -/
  | authorities
  deriving DecidableEq, Repr, Inhabited

namespace Resource

/-- The written name of a resource. -/
def name : Resource → String
  | .instances => "INSTANCE"
  | .authorities => "AUTHORITY"

/-- The table that holds the resource's records. -/
def table : Resource → String
  | .instances => "instance"
  | .authorities => "authority"

/-- The topic to which a reindex of the resource publishes. -/
def topic (r : Resource) : String := "inventory." ++ r.table

/-- Whether a reindex publishes whole records; otherwise it publishes ids only. -/
def publishesRecord : Resource → Bool
  | .instances => false
  | .authorities => true

/-- The query that enumerates the corpus. -/
def corpusQuery (r : Resource) : String :=
  (if r.publishesRecord then "SELECT id, jsonb FROM " else "SELECT id FROM ") ++ r.table

/-- Read a resource's name in any letter case. -/
def read (text : String) : Except NameError Resource :=
  let wanted := Ascii.upper text
  if wanted = "INSTANCE" then .ok .instances
  else if wanted = "AUTHORITY" then .ok .authorities
  else .error (.resource wanted)

end Resource

/-- What a job publishes. -/
inductive JobKind where
  /-- Every record of a resource, to the resource's topic. -/
  | reindex
  /-- Every instance id, to a topic of the caller's. -/
  | iteration
  deriving DecidableEq, Repr, Inhabited

namespace JobKind

/-- The written name of a kind of job. -/
def name : JobKind → String
  | reindex => "REINDEX"
  | iteration => "ITERATION"

/-- The message header that names the job. -/
def header : JobKind → String
  | reindex => "reindex-job-id"
  | iteration => "iteration-job-id"

/-- Read the name of a kind of job in any letter case. -/
def read (text : String) : Except NameError JobKind :=
  let wanted := Ascii.upper text
  if wanted = "REINDEX" then .ok .reindex
  else if wanted = "ITERATION" then .ok .iteration
  else .error (.kind wanted)

end JobKind

/-- The life of a job: one step from in progress to one of three ends. -/
inductive JobStatus where
  /-- The pass is running. -/
  | inProgress
  /-- Every record was published. -/
  | idsPublished
  /-- The pass was cancelled. -/
  | cancelled
  /-- The pass failed. -/
  | failed
  deriving DecidableEq, Repr, Inhabited

namespace JobStatus

/-- The statuses. -/
def all : List JobStatus := [inProgress, idsPublished, cancelled, failed]

/-- The written name of a status. -/
def name : JobStatus → String
  | inProgress => "IN_PROGRESS"
  | idsPublished => "IDS_PUBLISHED"
  | cancelled => "ID_PUBLISHING_CANCELLED"
  | failed => "FAILED"

/-- Whether the job has ended. -/
def isTerminal : JobStatus → Bool
  | inProgress => false
  | _ => true

/-- Read a status as it is written. -/
def read (text : String) : Except NameError JobStatus :=
  match all.find? fun status => status.name = text with
  | some status => .ok status
  | none => .error (.status text)

end JobStatus

end InventoryFeed

import InventoryFeed.Names

/-!
# Failures of the store

Which step of which operation failed. What the database itself says about it is not part of the
wording.
-/

namespace InventoryFeed

/-- The tables that hold records. -/
inductive RecordKind where
  /-- The bibliographic instances. -/
  | instances
  /-- The holdings of instances. -/
  | holdings
  /-- The items of holdings. -/
  | items
  /-- The authority records. -/
  | authorities
  deriving DecidableEq, Repr, Inhabited

namespace RecordKind

/-- The name of the table. -/
def table : RecordKind → String
  | instances => "instance"
  | holdings => "holdings_record"
  | items => "item"
  | authorities => "authority"

/-- What a record of the table is called. -/
def noun : RecordKind → String
  | instances => "instance"
  | holdings => "holdings record"
  | items => "item"
  | authorities => "authority"

/-- The column that names the record above, if the records belong to others. -/
def parentColumn? : RecordKind → Option String
  | holdings => some "instance_id"
  | items => some "holdings_record_id"
  | _ => none

/-- The kind of the record above. -/
def parent? : RecordKind → Option RecordKind
  | holdings => some instances
  | items => some holdings
  | _ => none

/-- The kind of the records that belong to a record. -/
def child? : RecordKind → Option RecordKind
  | instances => some holdings
  | holdings => some items
  | _ => none

/-- The kinds. -/
def all : List RecordKind := [instances, holdings, items, authorities]

end RecordKind

/-- Why an operation on the store fails. -/
inductive StoreError where
  /-- A record was not inserted. -/
  | insertRecord (kind : RecordKind) (id : String)
  /-- A job was not inserted. -/
  | insertJob
  /-- There is no table to look a job up in. -/
  | prepareLookup
  /-- A job's columns cannot be read. -/
  | readJob
  /-- There is no table to list. -/
  | prepareList
  /-- There is no table to look a cancel flag up in. -/
  | prepareFlag
  /-- A cancel flag cannot be read. -/
  | readFlag
  /-- A cancel flag was not raised. -/
  | requestCancel
  /-- A count was not stored. -/
  | recordProgress
  /-- A final status was not stored. -/
  | completeJob
  /-- A job cannot end in this status. -/
  | notTerminal (status : JobStatus)
  /-- A stored job has a name that is in no vocabulary. -/
  | unknownName (job : String) (cause : NameError)
  /-- A statement failed. -/
  | statement
  deriving DecidableEq, Repr

/-- The wording of a failure. -/
def StoreError.message : StoreError → String
  | insertRecord kind id => "insert " ++ kind.noun ++ " " ++ id
  | insertJob => "insert reindex job"
  | prepareLookup => "prepare job lookup"
  | readJob => "read reindex job"
  | prepareList => "prepare job list"
  | prepareFlag => "prepare cancel lookup"
  | readFlag => "read cancel flag"
  | requestCancel => "request cancel"
  | recordProgress => "record reindex progress"
  | completeJob => "complete reindex job"
  | notTerminal status => status.name ++ " is not a terminal job status"
  | unknownName job cause => "job " ++ job ++ ": " ++ cause.message
  | statement => ""

end InventoryFeed

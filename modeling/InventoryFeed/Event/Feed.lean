import InventoryFeed.Event.Publisher

/-!
# Feeds of an event log

A feed is what one sink does for one job from its first row to its end. Feeds follow one another on one log:
each opens the log's file anew or goes on with the handle of the one before it.
-/

namespace InventoryFeed

/-- The body without a record that is null. -/
def EventPayload.withoutNull (p : EventPayload) : EventPayload :=
  match p.record with
  | some .null => { p with record := none }
  | _ => p

/-- The message without a record that is null. -/
def EventMessage.withoutNull (m : EventMessage) : EventMessage :=
  { m with payload := m.payload.withoutNull }

/-- A call before the end of a sink. -/
inductive FeedCall where
  /-- Write a row. -/
  | write (row : Row)
  /-- Wait for room. -/
  | wait
  deriving Repr

/-- The row that a call writes. -/
def FeedCall.row? : FeedCall → Option Row
  | write row => some row
  | wait => none

/-- What one sink does for one job. -/
structure Feed where
  /-- The job that it serves. -/
  job : Job
  /-- The marks of its queue. -/
  marks : Marks
  /-- The pace of its queue. -/
  pace : List Stride
  /-- Its calls from the first on; an end follows them. -/
  calls : List FeedCall
  /-- Whether the file is opened anew for it. -/
  reopens : Bool

namespace Feed

/-- The rows that are written. -/
def rows (f : Feed) : List Row := f.calls.filterMap FeedCall.row?

/-- The handle with which a feed begins. -/
def handle (f : Feed) (log : EventLog) : EventLog := if f.reopens then { text := log.text } else log

/-- Make a call. -/
def call (p : Publisher EventLog) : FeedCall → Id (Publisher EventLog)
  | .write row => do
    let (_, p) ← p.write EventLog.bus row
    pure p
  | .wait => do
    let (_, p) ← p.awaitDrain EventLog.bus
    pure p

/-- Make several calls. -/
def callAll (p : Publisher EventLog) : List FeedCall → Id (Publisher EventLog)
  | [] => pure p
  | first :: rest => do callAll (← call p first) rest

/-- What a feed leaves of the log. -/
def run (f : Feed) (log : EventLog) : Id EventLog := do
  let p ← callAll (.start f.job f.marks f.pace (f.handle log)) f.calls
  let (_, p) ← p.finish EventLog.bus
  pure p.out.consumer

end Feed

/-- The log after several feeds, one after the other. -/
def EventLog.afterFeeds (log : EventLog) : List Feed → EventLog
  | [] => log
  | first :: rest => EventLog.afterFeeds (first.run log).run rest

end InventoryFeed

import InventoryFeed.Job.Process

/-!
# The pass of a job

A pass pumps the corpus into the bus. Before every batch it stores how many records were published, at
most once for each interval, and asks whether a cancel was requested. Whatever ends a pass, messages
that were accepted still go out, and one final status is stored: published if the corpus was written
to its end; else cancelled if a cancel was requested, else failed.
-/

namespace InventoryFeed

/-- How a pass is tuned. -/
structure PassTuning where
  /-- Rows of a batch; zero counts as one. -/
  batchSize : Nat
  /-- The marks of the queue of messages. -/
  marks : Marks
  /-- Rows between two stored counts; zero counts as one. -/
  progressEvery : Nat
  /-- How far the bus gets between the calls of the pass. -/
  pace : List Stride
  deriving Repr

/-- What the opening of a corpus comes to. -/
inductive CorpusOpening where
  /-- The answers of its cursor. -/
  | opened (pulls : List Pull)
  /-- The corpus cannot be opened. -/
  | refused (cause : CursorError)
  /-- The opening crashed. -/
  | crashed (crash : Crash)
  deriving Repr

/-- The status of a pass that failed: a cancel that was requested wins. -/
def failureStatus (cancelRequested : Bool) : JobStatus :=
  if cancelRequested then .cancelled else .failed

/-- The status of a pass by the outcome of its pump. -/
def Outcome.finalStatus (outcome : Outcome) (cancelRequested : Bool) : JobStatus :=
  match outcome with
  | .completed => .idsPublished
  | .cancelled => .cancelled
  | _ => failureStatus cancelRequested

namespace Pass

/-- What is asked before every batch; the state is the count that was stored last. -/
def hook (every : Nat) : Hook Process Nat := fun session stored => do
  let every := max every 1
  let stored ←
    if session.rowsEmitted / every ≤ stored / every then pure stored
    else do
      let ran : Bool ← Process.perform (.recordProgress session.rowsEmitted)
      pure (if ran then session.rowsEmitted else stored)
  let flag : Option Bool ← Process.perform .readCancel
  pure (if flag = some true then .stop else .goOn, stored)

/-- What publishing comes to: the report of the pump if it and the bus ended as they should, and how
many messages were accepted. -/
structure Published where
  /-- The report, none if publishing broke off. -/
  report : Option Report
  /-- How many messages were accepted. -/
  accepted : Nat
  deriving Repr

/-- Whether the pump left it to the pass to end the messages. -/
def leavesOpen : Outcome → Bool
  | .cancelled => true
  | .failedBeforeStart _ => true
  | _ => false

/-- Pump the rows of a corpus into the bus. -/
def pumped (tuning : PassTuning) (job : Job) (pulls : List Pull) :
    Process (PumpResult (Publisher Unit) Nat) :=
  pump (Publisher.sink Process.bus) (hook tuning.progressEvery) pulls
    (Publisher.start job tuning.marks tuning.pace ()) 0

/-- End the messages of a pump as its report says. -/
def settle (result : PumpResult (Publisher Unit) Nat) : Process Published := do
  match result.report with
  | .error _ =>
    let p ← result.sink.release Process.bus
    pure ⟨none, p.accepted⟩
  | .ok report =>
    if leavesOpen report.outcome then do
      let (answer, p) ← result.sink.finish Process.bus
      match answer with
      | .ok () => pure ⟨some report, p.accepted⟩
      | .error _ => pure ⟨none, p.accepted⟩
    else pure ⟨some report, result.sink.accepted⟩

/-- Publish the rows of a corpus. -/
def publish (tuning : PassTuning) (job : Job) (pulls : List Pull) : Process Published := do
  settle (← pumped tuning job pulls)

/-- Store the end of a pass. -/
def conclude (published : Published) : Process Unit := do
  let flag : Option Bool ← Process.perform .readCancel
  let cancelRequested := flag = some true
  match published.report with
  | some report =>
    Process.perform (.complete (report.outcome.finalStatus cancelRequested) report.rowsEmitted)
  | none => Process.perform (.complete (failureStatus cancelRequested) published.accepted)

end Pass

/-- The pass of a job over a corpus. -/
def Job.pass (tuning : PassTuning) (job : Job) (corpus : CorpusOpening) : Process Unit := do
  match corpus with
  | .opened pulls => Pass.conclude (← Pass.publish tuning job pulls)
  | .refused _ => Pass.conclude ⟨none, 0⟩
  | .crashed _ => Pass.conclude ⟨none, 0⟩

end InventoryFeed

import InventoryFeed.Stream.Cursor
import InventoryFeed.Stream.Outbound

/-!
# The pump

Rows go from a cursor to a sink in the order of the cursor, one write each. A saturated sink is
waited for before the next row. Before every batch a hook is asked whether to go on. A failure that
comes while the consumer has seen nothing leaves the sink alone; a later one closes it by force, so
that a part is never taken for the whole.
-/

namespace InventoryFeed

/-- The counts of one run. -/
structure Session where
  /-- How many rows the sink accepted. -/
  rowsEmitted : Nat
  /-- Whether the hook stopped the run. -/
  cancelled : Bool
  /-- Whether the consumer had seen anything after the last write. -/
  headerSent : Bool
  /-- How often the sink was waited for. -/
  drainWaits : Nat
  deriving DecidableEq, Repr, Inhabited

/-- A run that has not begun. -/
def Session.start : Session := ⟨0, false, false, 0⟩

/-- How a run ended. -/
inductive Outcome where
  /-- All rows were written and the sink ended well. -/
  | completed
  /-- The hook stopped the run. -/
  | cancelled
  /-- A failure before the consumer saw anything. -/
  | failedBeforeStart (cause : StreamError)
  /-- A failure after the consumer saw something. -/
  | failedMidStream (cause : StreamError)
  /-- The consumer left. -/
  | disconnected
  deriving DecidableEq, Repr, Inhabited

namespace Outcome

/-- The name of an outcome. -/
def label : Outcome → String
  | completed => "COMPLETED"
  | cancelled => "CANCELLED"
  | failedBeforeStart _ => "FAILED_BEFORE_START"
  | failedMidStream _ => "FAILED_MID_STREAM"
  | disconnected => "DISCONNECTED"

/-- The failure that ended a run. -/
def cause? : Outcome → Option StreamError
  | failedBeforeStart cause => some cause
  | failedMidStream cause => some cause
  | _ => none

end Outcome

/-- What a run answers. -/
structure Report where
  /-- How the run ended. -/
  outcome : Outcome
  /-- How many rows the sink accepted. -/
  rowsEmitted : Nat
  /-- How often the sink was waited for. -/
  drainWaits : Nat
  deriving DecidableEq, Repr, Inhabited

/-- A consumer of rows, with a state of its own. -/
structure Sink (m : Type → Type) (σ : Type) where
  /-- Take one row. -/
  write : Row → σ → m (Except SinkError WriteStatus × σ)
  /-- Wait until there is room again. -/
  awaitDrain : σ → m (Except SinkError WriteStatus × σ)
  /-- Whether the consumer has seen anything. -/
  headerSent : σ → Bool
  /-- End well after the last row. -/
  finish : σ → m (Except SinkError Unit × σ)
  /-- End without a trailer. -/
  forceClose : σ → m σ

/-- Whether a run goes on. -/
inductive Decision where
  /-- The next batch is to come. -/
  | goOn
  /-- The run ends here. -/
  | stop
  deriving DecidableEq, Repr, Inhabited

/-- What is asked before every batch, with a state of its own. -/
abbrev Hook (m : Type → Type) (η : Type) := Session → η → m (Decision × η)

/-- The hook that never stops a run. -/
def Hook.always {m : Type → Type} [Monad m] : Hook m Unit := fun _ _ => pure (.goOn, ())

/-- What a run leaves behind. -/
structure PumpResult (σ η : Type) where
  /-- The report, or the crash that cut the run off. -/
  report : Except Crash Report
  /-- The sink. -/
  sink : σ
  /-- The hook. -/
  hook : η

namespace Pump

variable {m : Type → Type} [Monad m] {σ η : Type} (sink : Sink m σ)

/-- The end of a run by a failure. -/
def fail (cause : StreamError) (session : Session) (s : σ) : m (Outcome × Session × σ) :=
  let session := { session with headerSent := sink.headerSent s }
  if session.headerSent then do
    pure (.failedMidStream cause, session, ← sink.forceClose s)
  else pure (.failedBeforeStart cause, session, s)

/-- The end of a run whose consumer left. -/
def disconnect (session : Session) (s : σ) : m (Option Outcome × Session × σ) := do
  pure (some .disconnected, session, ← sink.forceClose s)

/-- A failure in the middle of a batch. -/
def failInBatch (cause : SinkError) (session : Session) (s : σ) :
    m (Option Outcome × Session × σ) := do
  let (outcome, session, s) ← fail sink (.sink cause) session s
  pure (some outcome, session, s)

/-- Write the rows of a batch; an outcome if the run ends with one of them. -/
def writeBatch : List Row → Session → σ → m (Option Outcome × Session × σ)
  | [], session, s => pure (none, session, s)
  | row :: rest, session, s => do
    let (answer, s) ← sink.write row s
    match answer with
    | .error cause => failInBatch sink cause session s
    | .ok status =>
      let session := { session with headerSent := sink.headerSent s }
      match status with
      | .closed => disconnect sink session s
      | .ready => writeBatch rest { session with rowsEmitted := session.rowsEmitted + 1 } s
      | .saturated =>
        let session := { session with
          rowsEmitted := session.rowsEmitted + 1
          drainWaits := session.drainWaits + 1 }
        let (answer, s) ← sink.awaitDrain s
        match answer with
        | .error cause => failInBatch sink cause session s
        | .ok .closed => disconnect sink session s
        | .ok _ => writeBatch rest session s

/-- The report of a run. -/
def report (outcome : Outcome) (session : Session) : Except Crash Report :=
  .ok ⟨outcome, session.rowsEmitted, session.drainWaits⟩

/-- A run from a session on, over the answers that the cursor has left. -/
def run (hook : Hook m η) : List Pull → Session → σ → η → m (PumpResult σ η)
  | pulls, session, s, h => do
    let (decision, h) ← hook session h
    match decision with
    | .stop => pure ⟨report .cancelled session, s, h⟩
    | .goOn =>
      match pulls with
      | [] =>
        let (answer, s) ← sink.finish s
        match answer with
        | .ok () => pure ⟨report .completed session, s, h⟩
        | .error cause =>
          let (outcome, session, s) ← fail sink (.sink cause) session s
          pure ⟨report outcome session, s, h⟩
      | .crashed crash :: _ => pure ⟨.error crash, s, h⟩
      | .failed cause :: _ =>
        let (outcome, session, s) ← fail sink (.cursor cause) session s
        pure ⟨report outcome session, s, h⟩
      | .rows batch :: rest =>
        let (outcome, session, s) ← writeBatch sink batch session s
        match outcome with
        | some outcome => pure ⟨report outcome session, s, h⟩
        | none => run hook rest session s h

end Pump

/-- Pump every row that the cursor answers into a sink. -/
def pump {m : Type → Type} [Monad m] {σ η : Type} (sink : Sink m σ) (hook : Hook m η)
    (pulls : List Pull) (s : σ) (h : η) : m (PumpResult σ η) :=
  Pump.run sink hook pulls Session.start s h

end InventoryFeed

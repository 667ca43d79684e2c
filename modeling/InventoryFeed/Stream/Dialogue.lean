import InventoryFeed.Stream.Call

/-!
# The dialogue of a run

What a run of the pump says to its hook and to its sink, and what it is answered, as a list of events;
and the form that this list is to have. The hook is asked once before every answer of the cursor. The
rows of a batch are written in their order, and a write that is answered `saturated` is followed by one
wait. The run ends with the first refusal: nothing more is said to a sink whose consumer has seen
nothing, and one call by force to any other. A cursor that has no more rows is followed by one end.
-/

namespace InventoryFeed

/-- One thing that a run says, with its answer. -/
inductive PumpEvent where
  /-- The hook is asked about the counts of the run. -/
  | asked (session : Session) (decision : Decision)
  /-- A call is made on the sink; `headed` is what the sink then says about its head. -/
  | called (call : SinkCall) (answer : SinkAnswer) (headed : Bool)

namespace PumpEvent

/-- The row that was written, if the event is a write. -/
def written? : PumpEvent → Option Row
  | called (.write row) _ _ => some row
  | _ => none

/-- Whether the event is a write that was accepted. -/
def isAccepted : PumpEvent → Bool
  | called (.write _) (.status answer) _ => Script.accepts answer
  | _ => false

/-- Whether the event is a wait. -/
def isWait : PumpEvent → Bool
  | called .awaitDrain _ _ => true
  | _ => false

/-- Whether the event is a write that is answered `saturated`. -/
def isSaturated : PumpEvent → Bool
  | called (.write _) (.status (.ok .saturated)) _ => true
  | _ => false

/-- Whether the event is an end. -/
def isFinish : PumpEvent → Bool
  | called .finish _ _ => true
  | _ => false

/-- Whether the event is an end by force. -/
def isForce : PumpEvent → Bool
  | called .forceClose _ _ => true
  | _ => false

/-- Whether an event may be followed by another, directly or later: nothing comes after an end by
force, and only an end by force after an end. -/
def Precedes (event later : PumpEvent) : Prop :=
  event.isForce = false ∧ (event.isFinish = true → later.isForce = true)

end PumpEvent

namespace Session

/-- The counts of a run after what was said so far: the accepted rows, the waits, and what the sink said
about its head when the last row was written. -/
def after (events : List PumpEvent) : Session where
  rowsEmitted := events.countP PumpEvent.isAccepted
  cancelled := false
  headerSent := events.foldl (fun headed event => match event with
    | .called (.write _) _ now => now
    | _ => headed) false
  drainWaits := events.countP PumpEvent.isWait

end Session

namespace Dialogue

/-- What the sink last said about its head; `headed` before anything was said. -/
def lastHeaded (headed : Bool) (events : List PumpEvent) : Bool :=
  events.foldl (fun headed event => match event with
    | .called _ _ now => now
    | .asked _ _ => headed) headed

/-- The rows that were written, accepted or not. -/
def written (events : List PumpEvent) : List Row := events.filterMap PumpEvent.written?

/-- The waits stand directly after the writes that are answered `saturated` and nowhere else; `due` says
whether the first event is to be a wait. -/
def WaitsFollow : Bool → List PumpEvent → Prop
  | due, [] => due = false
  | due, event :: rest => event.isWait = due ∧ WaitsFollow event.isSaturated rest

/-- How a run ends by a failure, given what the sink says about its head. -/
inductive Breaks (cause : StreamError) : Bool → List PumpEvent → Outcome → Prop
  /-- The consumer has seen nothing, and the sink is left alone. -/
  | unseen : Breaks cause false [] (.failedBeforeStart cause)
  /-- The consumer has seen something, and the sink is closed by force. -/
  | seen (headed : Bool) :
      Breaks cause true [.called .forceClose .ok headed] (.failedMidStream cause)

/-- What is said about a row after which the run goes on. -/
inductive Passes (row : Row) : List PumpEvent → Prop
  /-- There is room for more. -/
  | ready (headed : Bool) : Passes row [.called (.write row) (.status (.ok .ready)) headed]
  /-- The run waits for room once, whether there is room after that or not. -/
  | waited (headed later : Bool) {status : WriteStatus} (hstatus : status ≠ .closed) :
      Passes row [.called (.write row) (.status (.ok .saturated)) headed,
        .called .awaitDrain (.status (.ok status)) later]

/-- What is said about a row with which the run ends. -/
inductive Stops (row : Row) : List PumpEvent → Outcome → Prop
  /-- The consumer has left. -/
  | left (headed later : Bool) :
      Stops row [.called (.write row) (.status (.ok .closed)) headed,
        .called .forceClose .ok later] .disconnected
  /-- The consumer leaves while the run waits. -/
  | leftWaiting (headed later last : Bool) :
      Stops row [.called (.write row) (.status (.ok .saturated)) headed,
        .called .awaitDrain (.status (.ok .closed)) later, .called .forceClose .ok last] .disconnected
  /-- The row is refused. -/
  | refused {cause : SinkError} {headed : Bool} {last : List PumpEvent} {outcome : Outcome}
      (hlast : Breaks (.sink cause) headed last outcome) :
      Stops row (.called (.write row) (.status (.error cause)) headed :: last) outcome
  /-- The wait is answered by a failure. -/
  | refusedWaiting (headed : Bool) {cause : SinkError} {later : Bool} {last : List PumpEvent}
      {outcome : Outcome} (hlast : Breaks (.sink cause) later last outcome) :
      Stops row (.called (.write row) (.status (.ok .saturated)) headed ::
        .called .awaitDrain (.status (.error cause)) later :: last) outcome

/-- What is said about the rows of a batch, and the outcome if the run ends with one of them. -/
inductive Batch : List Row → List PumpEvent → Option Outcome → Prop
  /-- All rows are written. -/
  | done : Batch [] [] none
  /-- The first row is written, and the others follow. -/
  | row {row : Row} {rest : List Row} {first more : List PumpEvent} {outcome : Option Outcome}
      (hfirst : Passes row first) (hmore : Batch rest more outcome) :
      Batch (row :: rest) (first ++ more) outcome
  /-- The run ends with the first row. -/
  | stops {row : Row} {rest : List Row} {events : List PumpEvent} {outcome : Outcome}
      (h : Stops row events outcome) : Batch (row :: rest) events (some outcome)

/-- The question to the hook, if there is one, after what was said so far. -/
def question (hooked : Bool) (before : List PumpEvent) : List PumpEvent :=
  if hooked then [.asked (Session.after before) .goOn] else []

/-- What is said in a run over the answers that a cursor has left, after what was said before, and how the
run ends. `headed` is what the sink says about its head at the beginning. -/
inductive Run (hooked headed : Bool) :
    List PumpEvent → List Pull → List PumpEvent → Except Crash Outcome → Prop
  /-- The hook stops the run. -/
  | stopped {before : List PumpEvent} {pulls : List Pull} (hhooked : hooked = true) :
      Run hooked headed before pulls [.asked (Session.after before) .stop] (.ok .cancelled)
  /-- There are no more rows, and the sink ends well. -/
  | completed {before : List PumpEvent} (now : Bool) :
      Run hooked headed before []
        (question hooked before ++ [.called .finish (.ended (.ok ())) now]) (.ok .completed)
  /-- There are no more rows, and the sink does not end well. -/
  | unfinished {before last : List PumpEvent} {cause : SinkError} {now : Bool} {outcome : Outcome}
      (hlast : Breaks (.sink cause) now last outcome) :
      Run hooked headed before []
        (question hooked before ++ .called .finish (.ended (.error cause)) now :: last) (.ok outcome)
  /-- The cursor answers a failure. -/
  | failed {before last : List PumpEvent} {cause : CursorError} {rest : List Pull}
      {outcome : Outcome} (hlast : Breaks (.cursor cause) (lastHeaded headed before) last outcome) :
      Run hooked headed before (.failed cause :: rest) (question hooked before ++ last) (.ok outcome)
  /-- The cursor crashes, and the run with it. -/
  | crashed {before : List PumpEvent} {crash : Crash} {rest : List Pull} :
      Run hooked headed before (.crashed crash :: rest) (question hooked before) (.error crash)
  /-- The run ends within a batch. -/
  | stops {before events : List PumpEvent} {batch : List Row} {rest : List Pull} {outcome : Outcome}
      (hbatch : Batch batch events (some outcome)) :
      Run hooked headed before (.rows batch :: rest) (question hooked before ++ events) (.ok outcome)
  /-- A batch is written, and the run goes on. -/
  | batch {before events more : List PumpEvent} {batch : List Row} {rest : List Pull}
      {result : Except Crash Outcome} (hbatch : Batch batch events none)
      (hmore : Run hooked headed (before ++ (question hooked before ++ events)) rest more result) :
      Run hooked headed before (.rows batch :: rest) (question hooked before ++ events ++ more) result

end Dialogue

variable {m : Type → Type} [Monad m] {σ η : Type}

/-- The hook of a run that may have none. -/
def Hook.ofOption (hook : Option (Hook m η)) : Hook m η := hook.getD fun _ h => pure (.goOn, h)

/-- A computation that adds to a list of events. -/
abbrev Noted (m : Type → Type) := StateT (List PumpEvent) m

/-- Make a computation and add an event that tells of its answer. -/
def Noted.note {α : Type} (x : m α) (event : α → PumpEvent) : Noted m α := do
  let answer ← x
  modify (· ++ [event answer])
  pure answer

/-- A sink whose calls are noted. -/
def Sink.noted (sink : Sink m σ) : Sink (Noted m) σ where
  write row s := Noted.note (sink.write row s) fun (answer, s) =>
    .called (.write row) (.status answer) (sink.headerSent s)
  awaitDrain s := Noted.note (sink.awaitDrain s) fun (answer, s) =>
    .called .awaitDrain (.status answer) (sink.headerSent s)
  headerSent := sink.headerSent
  finish s := Noted.note (sink.finish s) fun (answer, s) =>
    .called .finish (.ended answer) (sink.headerSent s)
  forceClose s := Noted.note (sink.forceClose s) fun s =>
    .called .forceClose .ok (sink.headerSent s)

/-- A hook whose questions are noted. -/
def Hook.noted (hook : Hook m η) : Hook (Noted m) η := fun session h =>
  Noted.note (hook session h) fun (decision, _) => .asked session decision

end InventoryFeed

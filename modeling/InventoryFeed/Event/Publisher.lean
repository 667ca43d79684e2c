import InventoryFeed.Event.Message
import InventoryFeed.Job.Basic
import InventoryFeed.Stream.Pump

/-!
# Publishing a job's events

Every row that a job's pass writes becomes one message on the bus. Messages carry the topic, the type
and the id of the job and are numbered from one in the order of the writes; a reindex of a resource
that is published whole carries the row's document. The queue counts messages.
-/

namespace InventoryFeed

/-- A bus to which messages are appended, with a state of its own; either step may fail with a
text. -/
structure EventBus (m : Type → Type) (κ : Type) where
  /-- Append a message. -/
  append : EventMessage → κ → m (Option String × κ)
  /-- Push out what is held back. -/
  flush : κ → m (Option String × κ)

namespace EventBus

variable {m : Type → Type} [Monad m] {κ : Type}

/-- The bus as the consumer of messages; a flush that fails is not reported. -/
def consumer (bus : EventBus m κ) : Consumer m κ EventMessage where
  deliver message state := do
    let (failure, state) ← bus.append message state
    match failure with
    | none => pure (.taken, state)
    | some text => pure (.refused (.failed text), state)
  close _ state := do
    let (_, state) ← bus.flush state
    pure state

end EventBus

/-- The messages of a bus that keeps them, and how often it was flushed. -/
structure KeptMessages where
  /-- The messages in the order of their arrival. -/
  messages : List EventMessage
  /-- How often the bus was flushed. -/
  flushes : Nat
  /-- The message that is refused, counted from one, and the text of the refusal. -/
  refusal : Option (Nat × String)
  deriving Repr, Inhabited

namespace KeptMessages

/-- Keep a message, unless it is the one that is refused. -/
def keep (message : EventMessage) (kept : KeptMessages) : Option String × KeptMessages :=
  match kept.refusal with
  | some (position, text) =>
    if position = kept.messages.length + 1 then (some text, kept)
    else (none, { kept with messages := kept.messages ++ [message] })
  | none => (none, { kept with messages := kept.messages ++ [message] })

/-- The bus that keeps every message. -/
def bus {m : Type → Type} [Monad m] : EventBus m KeptMessages where
  append message kept := pure (kept.keep message)
  flush kept := pure (none, { kept with flushes := kept.flushes + 1 })

end KeptMessages

/-- An event log: the messages as JSON, each on a line of its own. Lines are held back until there is
enough to write to the file, and a file on a device without room takes nothing. -/
structure EventLog where
  /-- The text that was written to the file. -/
  text : List Char := []
  /-- The text that is held back. -/
  held : List Char := []
  /-- Whether the device of the file has no room. -/
  full : Bool := false
  deriving Repr, Inhabited

namespace EventLog

/-- How many bytes are held back at most. -/
def capacity : Nat := 8192

/-- How many bytes a text has. -/
def byteCount (text : List Char) : Nat := text.foldl (fun count c => count + c.utf8Size) 0

/-- Write what is held back to the file; the answer says whether there was room for it. -/
def pushOut (log : EventLog) : Bool × EventLog :=
  if log.held.isEmpty then (true, log)
  else if log.full then (false, log)
  else (true, { log with text := log.text ++ log.held, held := [] })

/-- Take a line: what is held back makes way for a line that does not fit beside it, and a line that
does not fit at all is written at once. -/
def takeLine (line : List Char) (log : EventLog) : Bool × EventLog :=
  let (room, log) :=
    if byteCount log.held + byteCount line > capacity then log.pushOut else (true, log)
  if !room then (false, log)
  else if byteCount line < capacity then (true, { log with held := log.held ++ line })
  else if log.full then (false, log)
  else (true, { log with text := log.text ++ line })

/-- The bus that writes a log. -/
def bus {m : Type → Type} [Monad m] : EventBus m EventLog where
  append message log :=
    let (room, log) := log.takeLine (message.write ++ ['\n'])
    pure (if room then none else some "append event", log)
  flush log :=
    let (room, log) := log.pushOut
    pure (if room then none else some "flush event log", log)

end EventLog

/-- The messages of one pass on their way to a bus. -/
structure Publisher (κ : Type) where
  /-- The job that they belong to. -/
  job : Job
  /-- The messages on their way, each of cost one. -/
  out : Outbound κ EventMessage
  /-- How many messages were made. -/
  clock : Nat
  /-- How many messages were accepted. -/
  accepted : Nat
  /-- Whether the pass has ended. -/
  finished : Bool

namespace Publisher

variable {m : Type → Type} [Monad m] {κ : Type}

/-- The messages of a job before the first. -/
def start (job : Job) (marks : Marks) (pace : List Stride) (bus : κ) : Publisher κ :=
  ⟨job, .start marks pace bus, 0, 0, false⟩

/-- Whether a job publishes whole records. -/
def carriesRecord (job : Job) : Bool :=
  job.kind = .reindex && job.resource.publishesRecord

/-- The message of a row, numbered within its job. -/
def message (job : Job) (ts : Nat) (row : Row) : EventMessage where
  topic := job.topic
  key := row.id
  resource := job.resource
  headers := [(job.kind.header, job.id)]
  payload := ⟨row.id, job.eventType, ts, if carriesRecord job then row.doc else none⟩

variable (bus : EventBus m κ)

/-- Write a row. -/
def write (row : Row) (p : Publisher κ) : m (Except SinkError WriteStatus × Publisher κ) :=
  if p.finished then pure (.error .finished, p)
  else do
    let clock := p.clock + 1
    let (answer, out) ← p.out.push bus.consumer (message p.job clock row) 1
    let accepted := match answer with
      | .ok .ready => p.accepted + 1
      | .ok .saturated => p.accepted + 1
      | _ => p.accepted
    pure (answer, { p with out, clock, accepted })

/-- Let the bus take messages until there is room again. -/
def awaitDrain (p : Publisher κ) : m (Except SinkError WriteStatus × Publisher κ) := do
  let (answer, out) ← p.out.awaitDrain bus.consumer
  pure (answer, { p with out })

/-- Deliver everything and end; a second end changes nothing. -/
def finish (p : Publisher κ) : m (Except SinkError Unit × Publisher κ) :=
  if p.finished then pure (.ok (), p)
  else do
    let (answer, out) ← p.out.finish bus.consumer
    pure (answer, { p with out, finished := true })

/-- End without delivering what is queued behind the message in the bus's hands. -/
def forceClose (p : Publisher κ) : m (Publisher κ) := do
  let out ← p.out.abort bus.consumer
  pure { p with out, finished := true }

/-- The messages let go as they are: what is queued is still delivered. -/
def release (p : Publisher κ) : m (Publisher κ) := do
  let out ← p.out.drainAndEnd bus.consumer
  pure { p with out }

/-- Whether a message was made; what is published is never taken back. -/
def headerSent (p : Publisher κ) : Bool := 0 < p.clock

/-- The publisher as a consumer of rows. -/
def sink : Sink m (Publisher κ) where
  write := write bus
  awaitDrain := awaitDrain bus
  headerSent := headerSent
  finish := finish bus
  forceClose := forceClose bus

end Publisher

end InventoryFeed

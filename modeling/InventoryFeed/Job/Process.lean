import InventoryFeed.Event.Publisher
import InventoryFeed.Job.Table

/-!
# The steps of a pass

The pass of a job is known by the steps that others can see: messages appended to the bus and
statements run on the table of jobs. Each step is atomic and is answered; between two steps anything
may happen. A `Process` is the tree of all courses that a pass can take, by the answers it gets.
`Process.run` answers every step from the table and the bus at hand, one after the other.
-/

namespace InventoryFeed

/-- A step of the pass of one job. -/
inductive PassStep where
  /-- Append a message to the bus. -/
  | append (message : EventMessage)
  /-- Push out what the bus holds back. -/
  | flush
  /-- Store how many records were published so far. -/
  | recordProgress (published : Nat)
  /-- Ask whether a cancel was requested. -/
  | readCancel
  /-- Store the job's end. -/
  | complete (status : JobStatus) (published : Nat)
  deriving Repr

/-- What a step is answered: for the bus the text of a failure, if there is one; for a count whether
the statement ran; for the cancel flag the flag, none if it cannot be read. -/
def PassStep.Answer : PassStep → Type
  | append _ => Option String
  | flush => Option String
  | recordProgress _ => Bool
  | readCancel => Option Bool
  | complete _ _ => Unit

/-- The courses of a pass that ends with a value. -/
inductive Process (α : Type) where
  /-- The pass has ended. -/
  | done (value : α)
  /-- The pass waits for the answer to a step. -/
  | step (s : PassStep) (next : s.Answer → Process α)

namespace PassStep

/-- The message that a step appends, if it appends one. -/
def message? : PassStep → Option EventMessage
  | append message => some message
  | _ => none

/-- Whether a step appends a message. -/
def appends (s : PassStep) : Bool := s.message?.isSome

end PassStep

namespace Process

/-- The step at which a pass is, none at its end. -/
def step? {α : Type} : Process α → Option PassStep
  | done _ => none
  | step s _ => some s

/-- Go on with the value at the end of a pass. -/
def bind {α β : Type} (p : Process α) (f : α → Process β) : Process β :=
  match p with
  | done value => f value
  | step s next => step s fun answer => (next answer).bind f

instance : Monad Process where
  pure := done
  bind := bind

/-- The pass that makes one step and ends with the answer. -/
def perform (s : PassStep) : Process s.Answer := step s done

end Process

/-- What passes share: the table of jobs and the bus. -/
structure Surroundings (β : Type) where
  /-- The table of jobs. -/
  jobs : JobTable
  /-- The bus. -/
  bus : β

/-- Answer a step of a job's pass. -/
def PassStep.answer {β : Type} (bus : EventBus Id β) (job : String) (w : Surroundings β) :
    (s : PassStep) → s.Answer × Surroundings β
  | append message =>
    let (failure, state) := (bus.append message w.bus).run
    (failure, { w with bus := state })
  | flush =>
    let (failure, state) := (bus.flush w.bus).run
    (failure, { w with bus := state })
  | recordProgress published =>
    match w.jobs.recordProgress job published with
    | .ok (_, jobs) => (true, { w with jobs })
    | .error _ => (false, w)
  | readCancel =>
    match w.jobs.cancelRequested job with
    | .ok flag => (some flag, w)
    | .error _ => (none, w)
  | complete status published =>
    match w.jobs.complete job status published with
    | .ok (_, jobs) => ((), { w with jobs })
    | .error _ => ((), w)

/-- Run a pass to its end, every step being answered at once. -/
def Process.run {α β : Type} (bus : EventBus Id β) (job : String) :
    Process α → Surroundings β → α × Surroundings β
  | done value, w => (value, w)
  | step s next, w =>
    let (answer, w) := s.answer bus job w
    (next answer).run bus job w

/-- Run a pass until it is at a step at which it is to wait, or to its end; the answer is what is left
of it. -/
def Process.runUntil {α β : Type} (waits : PassStep → Bool) (bus : EventBus Id β) (job : String) :
    Process α → Surroundings β → Process α × Surroundings β
  | done value, w => (done value, w)
  | step s next, w =>
    if waits s then (step s next, w)
    else
      let (answer, w) := s.answer bus job w
      (next answer).runUntil waits bus job w

/-- The bus that a pass appends to. -/
def Process.bus : EventBus Process Unit where
  append message _ := do
    let failure ← Process.perform (.append message)
    pure (failure, ())
  flush _ := do
    let failure ← Process.perform .flush
    pure (failure, ())

end InventoryFeed

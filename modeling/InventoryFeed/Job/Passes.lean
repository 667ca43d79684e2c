import InventoryFeed.Job.Controller
import InventoryFeed.Job.Pass

/-!
# Passes side by side

A controller starts a pass for every job that it stores; afterwards it and the pass meet only in the
stored job. Passes share the table of jobs and the bus. Each makes its steps in its own order, and
between two steps of one there may be any number of steps of the others and requests to cancel: a
list of moves says in which order all of them come.
-/

namespace InventoryFeed

/-- A controller with the passes that it started. -/
structure Passes (β : Type) where
  /-- What the passes share. -/
  shared : Surroundings β
  /-- The lookups that the controller has prepared. -/
  prepared : PreparedLookups
  /-- What is left of the pass of each job. -/
  going : List (String × Process Unit)

/-- What comes next among passes. -/
inductive PassMove where
  /-- The pass of a job makes a step. -/
  | step (job : String)
  /-- A cancel of a job is requested. -/
  | cancel (job : String)
  deriving DecidableEq, Repr

namespace Passes

variable {β : Type}

/-- A controller over an empty table of jobs and a bus. -/
def fresh (bus : β) : Passes β := ⟨⟨.empty, bus⟩, .none, []⟩

/-- The table of jobs as the controller sees it. -/
def desk (p : Passes β) : JobDesk := ⟨p.shared.jobs, p.prepared⟩

/-- The controller after a look at its table of jobs. -/
def withDesk (p : Passes β) (d : JobDesk) : Passes β :=
  { p with shared := { p.shared with jobs := d.table }, prepared := d.prepared }

/-- What is left of the pass of a job. -/
def left? (p : Passes β) (job : String) : Option (Process Unit) :=
  (p.going.find? fun entry => entry.1 = job).map (·.2)

/-- Replace what is left of the pass of a job. -/
def withLeft (p : Passes β) (job : String) (rest : Process Unit) : Passes β :=
  { p with going := p.going.map fun entry => if entry.1 = job then (job, rest) else entry }

/-- The step at which the pass of a job is, none if it has ended. -/
def step? (p : Passes β) (job : String) : Option PassStep := (p.left? job).bind (·.step?)

/-- Store a new job and start its pass. -/
def launch (tuning : PassTuning) (corpus : CorpusOpening) (job : Job) (p : Passes β) :
    Except JobError (Passes β) := do
  let d ← p.desk.submit job
  pure { p.withDesk d with going := p.going ++ [(job.id, job.pass tuning corpus)] }

/-- The next step of the pass of a job. -/
def advance (bus : EventBus Id β) (job : String) (p : Passes β) : Passes β :=
  match p.left? job with
  | some (.step s next) =>
    let (answer, shared) := s.answer bus job p.shared
    { p with shared }.withLeft job (next answer)
  | _ => p

/-- Let the pass of a job run until it is at a step at which it is to wait, or to its end. -/
def runUntil (waits : PassStep → Bool) (bus : EventBus Id β) (job : String) (p : Passes β) :
    Passes β :=
  match p.left? job with
  | some rest =>
    let (rest, shared) := rest.runUntil waits bus job p.shared
    { p with shared }.withLeft job rest
  | none => p

/-- A request to cancel a job. -/
def requestCancel (job : String) (p : Passes β) : Passes β := p.withDesk (p.desk.cancel job).2

/-- Make a move. -/
def move (bus : EventBus Id β) (p : Passes β) : PassMove → Passes β
  | .step job => p.advance bus job
  | .cancel job => p.requestCancel job

/-- Make moves one after the other. -/
def moves (bus : EventBus Id β) (all : List PassMove) (p : Passes β) : Passes β :=
  all.foldl (move bus) p

end Passes

end InventoryFeed

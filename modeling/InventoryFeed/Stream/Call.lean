import InventoryFeed.Stream.Pump

/-!
# Calls

The calls on a sink and on a queue as values, so that one can speak of every sequence of them, and a
sink and a consumer that keep a record of what they are told and answer as it was laid down.
-/

namespace InventoryFeed

/-- A call on a sink. -/
inductive SinkCall where
  /-- Write a row. -/
  | write (row : Row)
  /-- Wait for room. -/
  | awaitDrain
  /-- End well. -/
  | finish
  /-- End by force. -/
  | forceClose
  deriving Repr

/-- What a sink answers to a call. -/
inductive SinkAnswer where
  /-- The answer to a write or a wait. -/
  | status (answer : Except SinkError WriteStatus)
  /-- The answer to an end. -/
  | ended (answer : Except SinkError Unit)

/-- The answer that says nothing. -/
def SinkAnswer.ok : SinkAnswer := .ended (.ok ())

/-- Make a call on a sink. -/
def Sink.call {m : Type → Type} [Monad m] {σ : Type} (sink : Sink m σ) (s : σ) :
    SinkCall → m (SinkAnswer × σ)
  | .write row => do
    let (answer, s) ← sink.write row s
    pure (.status answer, s)
  | .awaitDrain => do
    let (answer, s) ← sink.awaitDrain s
    pure (.status answer, s)
  | .finish => do
    let (answer, s) ← sink.finish s
    pure (.ended answer, s)
  | .forceClose => do
    let s ← sink.forceClose s
    pure (.ok, s)

/-- A call on a queue. -/
inductive QueueCall (α : Type) where
  /-- Put an item at the end. -/
  | push (item : α) (cost : Nat)
  /-- Let the consumer take some items. -/
  | deliver (count : Nat)
  /-- Wait for room. -/
  | awaitDrain
  /-- End well. -/
  | finish
  /-- End by force. -/
  | abort
  deriving Repr

/-- Make a call on a queue. -/
def Outbound.call {m : Type → Type} [Monad m] {κ α : Type} (c : Consumer m κ α)
    (q : Outbound κ α) : QueueCall α → m (SinkAnswer × Outbound κ α)
  | .push item cost => do
    let (answer, q) ← q.push c item cost
    pure (.status answer, q)
  | .deliver count => do
    let q ← q.deliver c count
    pure (.ok, q)
  | .awaitDrain => do
    let (answer, q) ← q.awaitDrain c
    pure (.status answer, q)
  | .finish => do
    let (answer, q) ← q.finish c
    pure (.ended answer, q)
  | .abort => do
    let q ← q.abort c
    pure (.ok, q)

/-- A consumer that keeps what it takes. -/
structure Recorder (α : Type) where
  /-- The items in the order in which they were taken. -/
  items : List α
  /-- What each end of delivery was told. -/
  ends : List Bool
  /-- How often an item was offered. -/
  offered : Nat
  /-- The offer that goes wrong, counted from one, and how. -/
  fault : Option (Nat × Receipt)
  deriving Repr

namespace Recorder

variable {α : Type}

/-- A consumer before its first item. -/
def fresh (fault : Option (Nat × Receipt)) : Recorder α := ⟨[], [], 0, fault⟩

/-- Take an item, unless it is the one that goes wrong. -/
def take (item : α) (r : Recorder α) : Receipt × Recorder α :=
  let r := { r with offered := r.offered + 1 }
  let receipt := match r.fault with
    | some (position, receipt) => if position = r.offered then receipt else .taken
    | none => .taken
  (receipt, if receipt = .taken then { r with items := r.items ++ [item] } else r)

/-- The steps of the consumer. -/
def consumer {m : Type → Type} [Monad m] : Consumer m (Recorder α) α where
  deliver item r := pure (r.take item)
  close aborted r := pure { r with ends := r.ends ++ [aborted] }

end Recorder

/-- What a scripted sink says about its head. -/
inductive HeaderRule where
  /-- It was always sent. -/
  | always
  /-- It is never sent. -/
  | never
  /-- It is sent with the first row that is accepted. -/
  | onceAccepted
  deriving DecidableEq, Repr

/-- A sink whose answers are laid down beforehand, and the calls it got. -/
structure Script where
  /-- The answers to the writes to come; a write without one is accepted. -/
  writes : List (Except SinkError WriteStatus)
  /-- The answers to the waits to come; a wait without one ends well. -/
  drains : List (Except SinkError WriteStatus)
  /-- The answer to the end. -/
  ending : Except SinkError Unit
  /-- What it says about its head. -/
  header : HeaderRule
  /-- Whether a row was accepted. -/
  accepted : Bool
  /-- The calls so far. -/
  calls : List SinkCall

namespace Script

/-- Whether an answer accepts a row. -/
def accepts : Except SinkError WriteStatus → Bool
  | .ok .closed => false
  | .ok _ => true
  | .error _ => false

theorem accepts_iff {answer : Except SinkError WriteStatus} :
    accepts answer = true ↔ answer = .ok .ready ∨ answer = .ok .saturated := by
  rcases answer with _ | _ | _ | _ <;> simp [accepts]

/-- Note a call. -/
def note (call : SinkCall) (s : Script) : Script := { s with calls := s.calls ++ [call] }

/-- The scripted sink. -/
def sink {m : Type → Type} [Monad m] : Sink m Script where
  write row s :=
    let answer := s.writes.head?.getD (.ok .ready)
    pure (answer,
      { s.note (.write row) with
        writes := s.writes.tail, accepted := s.accepted || accepts answer })
  awaitDrain s :=
    pure (s.drains.head?.getD (.ok .ready), { s.note .awaitDrain with drains := s.drains.tail })
  headerSent s := match s.header with
    | .always => true
    | .never => false
    | .onceAccepted => s.accepted
  finish s := pure (s.ending, s.note .finish)
  forceClose s := pure (s.note .forceClose)

end Script

/-- A hook that keeps what it is shown and stops a run by its counts. -/
structure Watch where
  /-- It stops when it is asked more often than this. -/
  stopAfter : Option Nat
  /-- It stops when so many rows were accepted. -/
  stopAt : Option Nat
  /-- What it was shown. -/
  seen : List Session
  deriving Repr

namespace Watch

/-- Whether the bounds stop a run. -/
def reached (w : Watch) (session : Session) : Bool :=
  (w.stopAfter.map fun n => decide (n < w.seen.length)) = some true
    || (w.stopAt.map fun n => decide (n ≤ session.rowsEmitted)) = some true

/-- The watching hook. -/
def hook {m : Type → Type} [Monad m] : Hook m Watch := fun session w =>
  let w := { w with seen := w.seen ++ [session] }
  pure (if w.reached session then .stop else .goOn, w)

end Watch

end InventoryFeed

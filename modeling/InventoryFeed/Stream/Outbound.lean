import InventoryFeed.Stream.Error
import InventoryFeed.Stream.Marks

/-!
# The outbound queue

Items wait in a queue, each with a cost, until the consumer takes them from the front. A producer is
told when the pending cost has passed the high mark, and then waits until it is down to the low one.
The consumer works at its own pace: before each call of the producer it has taken some items, as many
as the queue's `pace` says, and a waiting call contains as many more of its steps as it needs. A
fault of the consumer ends delivery and drops what is still queued.
-/

namespace InventoryFeed

/-- How a sink answers a row or a wait. -/
inductive WriteStatus where
  /-- Accepted, and there is room for more. -/
  | ready
  /-- Accepted, and the producer is to wait. -/
  | saturated
  /-- The consumer is gone. -/
  | closed
  deriving DecidableEq, Repr, Inhabited

/-- Why delivery ended. -/
inductive Fault where
  /-- The consumer left; there is no one to report to. -/
  | gone
  /-- The consumer refused an item. -/
  | failed (message : String)
  deriving DecidableEq, Repr, Inhabited

/-- What became of an item at the consumer. -/
inductive Receipt where
  /-- It was taken. -/
  | taken
  /-- It was not, and nothing more will be. -/
  | refused (fault : Fault)
  /-- The consumer crashed over it. -/
  | crashed
  deriving DecidableEq, Repr

/-- The far side of a queue, with a state of its own. -/
structure Consumer (m : Type → Type) (κ α : Type) where
  /-- Take one item. -/
  deliver : α → κ → m (Receipt × κ)
  /-- The end of delivery, told whether the producer cut it off. -/
  close : Bool → κ → m κ

/-- What a consumer has done between two calls of the producer. -/
structure Stride where
  /-- How many items it took and was done with. -/
  taken : Nat
  /-- Whether it then held the next one. -/
  holds : Bool
  deriving DecidableEq, Repr

/-- The stride of a consumer that holds an item and is done with none. -/
def Stride.still : Stride := ⟨0, true⟩

/-- A queue of items on their way to a consumer. -/
structure Outbound (κ α : Type) where
  /-- The marks of the pending cost. -/
  marks : Marks
  /-- The state of the consumer. -/
  consumer : κ
  /-- The accepted items that are not delivered, with their costs. -/
  queue : List (α × Nat)
  /-- The cost accepted and not yet given back: the bytes of the frames that are held, or the number of the
  messages. A sum of 64 bits would wrap around only when more is held than an address space has bytes, so
  it is a natural number. -/
  pending : Nat
  /-- Why delivery ended, if it did. -/
  fault : Option Fault
  /-- Whether the consumer crashed. -/
  crashed : Bool
  /-- Whether the producer ended the queue. -/
  ended : Bool
  /-- The strides of the consumer before the calls to come; it stands still when they are used up. -/
  pace : List Stride
  deriving Repr

namespace Outbound

variable {m : Type → Type} {κ α : Type}

/-- An empty queue before a consumer. -/
def start (marks : Marks) (pace : List Stride) (consumer : κ) : Outbound κ α :=
  ⟨marks, consumer, [], 0, none, false, false, pace⟩

/-- The text of a crash of the consumer. -/
def crashText : String := "delivery thread panicked"

/-- The answer that a fault forces, if there is one. -/
def faultAnswer (q : Outbound κ α) : Option (Except SinkError WriteStatus) :=
  match q.fault with
  | none => none
  | some .gone => some (.ok .closed)
  | some (.failed message) => some (.error (.delivery message))

/-- Put an item at the end of the queue; refused after a fault, a crash or the end. -/
def enqueue (item : α) (cost : Nat) (q : Outbound κ α) :
    Except SinkError WriteStatus × Outbound κ α :=
  match q.faultAnswer with
  | some answer => (answer, q)
  | none =>
    if q.ended then (.error .finished, q)
    else if q.crashed then (.ok .closed, q)
    else
      let pending := q.pending + cost
      let status := if q.marks.high < pending then .saturated else .ready
      (.ok status, { q with queue := q.queue ++ [(item, cost)], pending })

variable [Monad m] (c : Consumer m κ α)

/-- The consumer's step: it takes the item at the front. -/
def deliverNext (q : Outbound κ α) : m (Outbound κ α) :=
  match q.queue with
  | [] => pure q
  | (item, cost) :: rest => do
    let (receipt, consumer) ← c.deliver item q.consumer
    match receipt with
    | .taken => pure { q with consumer, queue := rest, pending := q.pending - cost }
    | .refused fault => pure { q with consumer, queue := [], pending := 0, fault := some fault }
    | .crashed => pure { q with consumer, queue := [], crashed := true }

/-- Several steps of the consumer. -/
def deliver : Nat → Outbound κ α → m (Outbound κ α)
  | 0, q => pure q
  | count + 1, q => do deliver count (← deliverNext c q)

/-- The consumer's stride before a call of the producer; the answer says whether the consumer then
holds the item at the front. -/
def advance (q : Outbound κ α) : m (Bool × Outbound κ α) :=
  match q.pace with
  | [] => pure (Stride.still.holds, q)
  | stride :: pace => do
    let q ← deliver c stride.taken { q with pace }
    pure (stride.holds, q)

/-- Put an item at the end of the queue. -/
def push (item : α) (cost : Nat) (q : Outbound κ α) :
    m (Except SinkError WriteStatus × Outbound κ α) := do
  let (_, q) ← advance c q
  pure (q.enqueue item cost)

/-- The cost of several items. -/
def totalCost : List (α × Nat) → Nat
  | [] => 0
  | (_, cost) :: rest => cost + totalCost rest

/-- How many items at the front are to go until the pending cost is at most `low`. -/
def stepsTo (low : Nat) : Nat → List (α × Nat) → Nat
  | _, [] => 0
  | pending, (_, cost) :: rest => if pending ≤ low then 0 else 1 + stepsTo low (pending - cost) rest

/-- Wait until the pending cost is down to the low mark or delivery has ended. -/
def awaitDrain (q : Outbound κ α) : m (Except SinkError WriteStatus × Outbound κ α) := do
  let (_, q) ← advance c q
  let q ← deliver c (stepsTo q.marks.low q.pending q.queue) q
  pure (q.faultAnswer.getD (.ok .ready), q)

/-- End the queue: the consumer is told once, and a crash of it becomes a fault. -/
def endWith (aborted : Bool) (q : Outbound κ α) : m (Outbound κ α) :=
  if q.ended then pure q
  else if q.crashed then
    pure { q with ended := true, fault := some (q.fault.getD (.failed crashText)) }
  else do
    let consumer ← c.close aborted q.consumer
    pure { q with ended := true, consumer }

/-- Deliver everything that is queued, then end the queue. -/
def drainAndEnd (q : Outbound κ α) : m (Outbound κ α) := do
  endWith c false (← deliver c q.queue.length q)

/-- Accept no more, deliver everything and end; a consumer that refused an item is an error, one that
left is not. -/
def finish (q : Outbound κ α) : m (Except SinkError Unit × Outbound κ α) := do
  let q ← drainAndEnd c q
  match q.fault with
  | some (.failed message) => pure (.error (.delivery message), q)
  | _ => pure (.ok (), q)

/-- Drop what is queued, apart from an item that the consumer holds, and end. -/
def abort (q : Outbound κ α) : m (Outbound κ α) := do
  let (holds, q) ← advance c q
  let q ← deliver c (if holds then 1 else 0) q
  endWith c true { q with queue := [], pending := q.pending - totalCost q.queue }

end Outbound

end InventoryFeed

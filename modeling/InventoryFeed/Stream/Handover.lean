import InventoryFeed.Stream.Call

/-!
# Handing items over

What passes between a queue and its consumer, and all that can be done with a queue, letting it go
included. A watched queue shows at every moment which items it has accepted, how it was ended first
and what was handed over so far; watching it changes nothing of what it does.
-/

namespace InventoryFeed

/-- What passes between a queue and its consumer. -/
inductive Handover (α : Type) where
  /-- An item is offered, and this becomes of it. -/
  | offered (item : α) (receipt : Receipt)
  /-- Delivery has ended; the consumer is told whether the producer cut it off. -/
  | closed (aborted : Bool)
  deriving Repr

namespace Handover

variable {α : Type}

/-- The item that was taken, if one was. -/
def taken? : Handover α → Option α
  | offered item .taken => some item
  | _ => none

/-- The fault with which an item was refused, if one was. -/
def refusal? : Handover α → Option Fault
  | offered _ (.refused fault) => some fault
  | _ => none

/-- The offer that was made, if one was. -/
def offer? : Handover α → Option (α × Receipt)
  | offered item receipt => some (item, receipt)
  | closed _ => none

/-- Offers as they are handed over. -/
def ofOffers (offers : List (α × Receipt)) : List (Handover α) :=
  offers.map fun offer => .offered offer.1 offer.2

/-- The offers of a record, in their order. -/
def offers (record : List (Handover α)) : List (α × Receipt) := record.filterMap offer?

/-- The items of a record that were taken, in their order. -/
def taken (record : List (Handover α)) : List α := record.filterMap taken?

end Handover

variable {κ α : Type}

/-- A consumer that keeps a record of what is handed over. -/
def Consumer.watched {m : Type → Type} [Monad m] (c : Consumer m κ α) :
    Consumer m (κ × List (Handover α)) α where
  deliver item s := do
    let (receipt, k) ← c.deliver item s.1
    pure (receipt, (k, s.2 ++ [.offered item receipt]))
  close aborted s := do
    let k ← c.close aborted s.1
    pure (k, s.2 ++ [.closed aborted])

/-- What can be done with a queue. -/
inductive QueueUse (α : Type) where
  /-- A call is made on it. -/
  | call (what : QueueCall α)
  /-- It is let go. -/
  | drop
  deriving Repr

namespace QueueUse

/-- The item that a use adds to a queue, by its answer. -/
def accepted : QueueUse α → SinkAnswer → List (α × Nat)
  | call (.push item cost), .status answer => if Script.accepts answer then [(item, cost)] else []
  | _, _ => []

/-- Whether a use ends a queue, and then whether it cuts delivery off. -/
def ending? : QueueUse α → Option Bool
  | call .finish => some false
  | call .abort => some true
  | drop => some false
  | _ => none

end QueueUse

namespace Outbound

/-- What a use of a queue comes to. -/
def use (c : Consumer Id κ α) (q : Outbound κ α) : QueueUse α → SinkAnswer × Outbound κ α
  | .call what => (q.call c what).run
  | .drop => (.ok, (q.drainAndEnd c).run)

/-- Uses one after the other. -/
def uses (c : Consumer Id κ α) (all : List (QueueUse α)) (q : Outbound κ α) : Outbound κ α :=
  all.foldl (fun q u => (q.use c u).2) q

/-- The queue after each of several steps of the consumer. -/
def deliveries (c : Consumer Id κ α) : Nat → Outbound κ α → List (Outbound κ α)
  | 0, _ => []
  | count + 1, q =>
    let q' := (q.deliverNext c).run
    q' :: deliveries c count q'

/-- The queue after each step of the stride before a call. -/
def strideDeliveries (c : Consumer Id κ α) (q : Outbound κ α) : List (Outbound κ α) :=
  match q.pace with
  | [] => []
  | stride :: pace => deliveries c stride.taken { q with pace }

/-- The queue after each step of the consumer in the course of a call. -/
def passing (c : Consumer Id κ α) (q : Outbound κ α) : QueueCall α → List (Outbound κ α)
  | .push _ _ => strideDeliveries c q
  | .deliver count => deliveries c count q
  | .awaitDrain =>
    let q' := (q.advance c).run.2
    strideDeliveries c q ++ deliveries c (stepsTo q'.marks.low q'.pending q'.queue) q'
  | .finish => deliveries c q.queue.length q
  | .abort =>
    let (holds, q') := (q.advance c).run
    strideDeliveries c q ++ deliveries c (if holds then 1 else 0) q'

/-- An end by force behind the stride before it: of what is queued only an item that the consumer holds
is still delivered. -/
def cutOff {m : Type → Type} [Monad m] (c : Consumer m κ α) (holds : Bool) (q : Outbound κ α) :
    m (Outbound κ α) := do
  let q ← deliver c (if holds then 1 else 0) q
  endWith c true { q with queue := [], pending := q.pending - totalCost q.queue }

/-- A queue without the record that its consumer keeps. -/
def unwatched (q : Outbound (κ × List (Handover α)) α) : Outbound κ α :=
  ⟨q.marks, q.consumer.1, q.queue, q.pending, q.fault, q.crashed, q.ended, q.pace⟩

end Outbound

/-- A queue that is watched. -/
structure Watched (κ α : Type) where
  /-- The items that were accepted, with their costs. -/
  accepted : List (α × Nat)
  /-- Whether it was ended, and then whether the first end cut delivery off. -/
  ending : Option Bool
  /-- The queue, the consumer keeping a record. -/
  queue : Outbound (κ × List (Handover α)) α

namespace Watched

/-- An empty queue before a consumer to which nothing was handed over. -/
def start (marks : Marks) (pace : List Stride) (consumer : κ) : Watched κ α :=
  ⟨[], none, .start marks pace (consumer, [])⟩

/-- What was handed over. -/
def record (w : Watched κ α) : List (Handover α) := w.queue.consumer.2

/-- The queue after a use. -/
def use (c : Consumer Id κ α) (w : Watched κ α) (u : QueueUse α) : Watched κ α :=
  let (answer, queue) := w.queue.use c.watched u
  ⟨w.accepted ++ u.accepted answer, w.ending.or u.ending?, queue⟩

/-- The queue after uses. -/
def uses (c : Consumer Id κ α) (all : List (QueueUse α)) (w : Watched κ α) : Watched κ α :=
  all.foldl (use c) w

/-- The moments of a use: after each step of the consumer and at the end. -/
def moments (c : Consumer Id κ α) (w : Watched κ α) (u : QueueUse α) : List (Watched κ α) :=
  let call := match u with
    | .call what => what
    | .drop => .finish
  (w.queue.passing c.watched call).map (fun queue => { w with queue }) ++ [w.use c u]

end Watched

end InventoryFeed

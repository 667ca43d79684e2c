import InventoryFeed.Stream.Handshake
import InventoryFeed.Stream.Outbound

/-!
# Whole calls and atomic steps

The queue answers whole calls, and the handshake takes atomic steps of two parties. To compare them, a
producer makes whole calls on a queue in the order in which a producer of the handshake makes them: it
waits exactly after a push that was answered saturated, and stops when it is told of a fault. A queue
between two calls shows both parties at rest, and both parties in the middle of their steps show the
queue that their steps have come to: a push counts from the moment at which its cost is added to the
pending sum, and a delivery from the moment at which it is taken off.
-/

namespace InventoryFeed

variable {κ α : Type}

namespace ProducerPhase

/-- Where the answer of a queue leaves the producer. -/
def after : Except SinkError WriteStatus → ProducerPhase
  | .ok .ready => free
  | .ok .saturated => waiting
  | .ok .closed => stopped
  | .error _ => stopped

/-- Where the producer is as far as whole calls go: a push is answered when its cost is added, and a
wait when the pending sum is found low enough. -/
def betweenCalls (marks : Marks) : ProducerPhase → ProducerPhase
  | free | adding _ | clearing => free
  | sending _ sum | sent sum => if marks.high < sum then waiting else free
  | waiting | comparing | asleep => waiting
  | stopped => stopped

/-- The cost of the item that the producer has added to the pending sum and not sent. -/
def unsentCosts : ProducerPhase → List Nat
  | sending cost _ => [cost]
  | _ => []

end ProducerPhase

/-- The cost of the item that the consumer has taken and not given back. -/
def ConsumerPhase.heldCosts : ConsumerPhase → List Nat
  | holding cost | refusing cost | releasing cost => [cost]
  | idle | released _ | waking => []

namespace Outbound

/-- How far a producer gets with a queue by whole calls, and how they leave it. The consumer takes items
whenever it will. -/
inductive Turns (c : Consumer Id κ α) (first : Outbound κ α) :
    ProducerPhase → Outbound κ α → Prop
  /-- No call was made. -/
  | start : Turns c first .free first
  /-- A producer that is free pushes an item. -/
  | push {q : Outbound κ α} (item : α) (cost : Nat) (h : Turns c first .free q) :
      Turns c first (.after (q.push c item cost).run.1) (q.push c item cost).run.2
  /-- A producer that was told to wait waits. -/
  | awaitDrain {q : Outbound κ α} (h : Turns c first .waiting q) :
      Turns c first (.after (q.awaitDrain c).run.1) (q.awaitDrain c).run.2
  /-- The consumer takes items. -/
  | deliver {phase : ProducerPhase} {q : Outbound κ α} (count : Nat) (h : Turns c first phase q) :
      Turns c first phase (q.deliver c count).run

/-- Both parties while the consumer of a queue waits for an item. -/
def parties (q : Outbound κ α) (flag token : Bool) (producer : ProducerPhase) : Handshake :=
  ⟨q.marks, q.queue.map Prod.snd, q.pending, flag, token, q.fault.isSome, producer, .idle⟩

end Outbound

/-- A consumer that takes every item. -/
def Consumer.willing : Consumer Id Unit Unit where
  deliver := fun _ _ => pure (.taken, ())
  close := fun _ _ => pure ()

namespace Handshake

/-- The costs that are pending: the one that the consumer has in its hands, those that are queued, and
the one that the producer has not sent. -/
def costs (h : Handshake) : List Nat :=
  h.consumer.heldCosts ++ h.queue ++ h.producer.unsentCosts

/-- The queue that both parties have come to in the middle of their steps, as long as no fault is set. -/
def outbound (h : Handshake) : Outbound Unit Unit where
  marks := h.marks
  consumer := ()
  queue := h.costs.map fun cost => ((), cost)
  pending := h.pending
  fault := none
  crashed := false
  ended := false
  pace := []

end Handshake

end InventoryFeed

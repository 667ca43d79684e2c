import InventoryFeed.Event.Publisher
import InventoryFeed.Stream.Call

/-!
# The course of a publisher

All that is done with a publisher from its start on, with a record of the calls and of what they are
answered, and a bus that can be watched: a watched bus shows the messages that it has taken.
-/

namespace InventoryFeed

/-- A bus that keeps the messages which it has taken, those that are not answered by a failure. -/
def EventBus.watched {m : Type → Type} [Monad m] {κ : Type} (bus : EventBus m κ) :
    EventBus m (κ × List EventMessage) where
  append message s := do
    let (failure, k) ← bus.append message s.1
    pure (failure, (k, if failure = none then s.2 ++ [message] else s.2))
  flush s := do
    let (failure, k) ← bus.flush s.1
    pure (failure, (k, s.2))

/-- Whether a call ends a sink. -/
def SinkCall.isEnd : SinkCall → Bool
  | finish => true
  | forceClose => true
  | _ => false

/-- What is done with a publisher. -/
inductive PublisherUse where
  /-- A call is made on it. -/
  | call (what : SinkCall)
  /-- The bus is let take some messages. -/
  | deliver (count : Nat)
  deriving Repr

/-- A publisher with the calls that were made on it and their answers. -/
structure PublisherCourse (κ : Type) where
  /-- The calls with their answers. -/
  record : List (SinkCall × SinkAnswer)
  /-- The publisher. -/
  publisher : Publisher κ

namespace PublisherCourse

variable {κ : Type}

/-- The publisher of a job before the first call. -/
def start (job : Job) (marks : Marks) (pace : List Stride) (bus : κ) : PublisherCourse κ :=
  ⟨[], .start job marks pace bus⟩

/-- The course after one more thing is done. -/
def use (bus : EventBus Id κ) (c : PublisherCourse κ) : PublisherUse → PublisherCourse κ
  | .call what =>
    let (answer, publisher) := ((Publisher.sink bus).call c.publisher what).run
    ⟨c.record ++ [(what, answer)], publisher⟩
  | .deliver count =>
    let out := (c.publisher.out.deliver bus.consumer count).run
    { c with publisher := { c.publisher with out } }

/-- The course after several things are done. -/
def uses (bus : EventBus Id κ) (all : List PublisherUse) (c : PublisherCourse κ) :
    PublisherCourse κ :=
  all.foldl (use bus) c

/-- The first call that ended the publisher, with its answer. -/
def firstEnd? (c : PublisherCourse κ) : Option (SinkCall × SinkAnswer) :=
  c.record.find? fun entry => entry.1.isEnd

end PublisherCourse

end InventoryFeed

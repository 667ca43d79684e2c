import InventoryFeed.Stream.Dialogue
import InventoryFeed.Stream.Handover

/-!
# The backlog of a sink

A sink may hand its rows on through a queue. Each call on the sink then makes some calls on the queue,
and what the sink holds for its consumer at a moment is what is pending in the queue. Along what is said
to such a sink in a run, the backlog is to stay within the marks of the queue.
-/

namespace InventoryFeed

variable {κ α σ : Type}

namespace Outbound

/-- The cost of the item that stands last in the queue, the one that was pushed last; zero if nothing
is queued. -/
def lastCost (q : Outbound κ α) : Nat := (q.queue.getLast?.map (·.2)).getD 0

/-- The queue after calls. -/
def calls (c : Consumer Id κ α) (all : List (QueueCall α)) (q : Outbound κ α) : Outbound κ α :=
  all.foldl (fun q what => (q.call c what).run.2) q

/-- The moments of calls: the queue after each step of the consumer and after each call. -/
def course (c : Consumer Id κ α) : Outbound κ α → List (QueueCall α) → List (Outbound κ α)
  | _, [] => []
  | q, what :: rest =>
    let q' := (q.call c what).run.2
    q.passing c what ++ q' :: course c q' rest

/-- At no moment of some calls is more pending than the high mark and the item pushed last. -/
def CourseWithin (c : Consumer Id κ α) (marks : Marks) (q : Outbound κ α)
    (all : List (QueueCall α)) : Prop :=
  ∀ q' ∈ q.course c all, q'.pending ≤ marks.high + q'.lastCost

/-- The calls that a write makes on a queue, with its answer. -/
inductive WriteCalls (c : Consumer Id κ α) (q : Outbound κ α) :
    Except SinkError WriteStatus → List (QueueCall α) → Prop
  /-- The row is refused by the sink itself. -/
  | refused (cause : SinkError) : WriteCalls c q (.error cause) []
  /-- The row is pushed, and the answer is that of the queue. -/
  | pushed (item : α) (cost : Nat) :
      WriteCalls c q (q.push c item cost).run.1 [.push item cost]

/-- The calls that an end makes on a queue. -/
inductive EndCalls (c : Consumer Id κ α) (q : Outbound κ α) : List (QueueCall α) → Prop
  /-- It was ended before. -/
  | ended : EndCalls c q []
  /-- The queue is ended. -/
  | finish : EndCalls c q [.finish]
  /-- A last item is refused. -/
  | refused {item : α} {cost : Nat} {cause : SinkError}
      (hpush : (q.push c item cost).run.1 = .error cause) : EndCalls c q [.push item cost]
  /-- A last item is pushed before the queue is ended. -/
  | pushed (item : α) (cost : Nat) : EndCalls c q [.push item cost, .finish]

end Outbound

/-- A consumer that never crashes. -/
def Consumer.Steady (c : Consumer Id κ α) : Prop := ∀ item k, (c.deliver item k).run.1 ≠ .crashed

/-- A sink that hands its rows on through a queue, with the calls that it makes on the queue. -/
structure QueuedSink (σ κ α : Type) where
  /-- The sink. -/
  sink : Sink Id σ
  /-- The consumer of the queue. -/
  consumer : Consumer Id κ α
  /-- The queue. -/
  out : σ → Outbound κ α
  /-- The calls that a call on the sink makes on the queue. -/
  made : σ → SinkCall → List (QueueCall α)
  /-- They leave the queue as the call on the sink leaves it. -/
  left : ∀ s call, out (sink.call s call).run.2 = (out s).calls consumer (made s call)
  /-- A write pushes at most one item. -/
  write : ∀ s row,
    (out s).WriteCalls consumer (sink.write row s).run.1 (made s (.write row))
  /-- A wait is a wait for the queue. -/
  awaitDrain : ∀ s, made s .awaitDrain = [.awaitDrain]
  /-- An end pushes at most one item, and leaves nothing pending behind an item that was accepted. -/
  finish : ∀ s, (out s).EndCalls consumer (made s .finish)
  /-- An end by force is one of the queue. -/
  forceClose : ∀ s, made s .forceClose = [.abort]
  /-- The consumer never crashes. -/
  steady : consumer.Steady

/-- What was said was said to a sink in this state and answered by it, and it is left in that state. -/
def Sink.Answers (sink : Sink Id σ) : σ → List PumpEvent → σ → Prop
  | s, [], s' => s' = s
  | s, .asked _ _ :: rest, s' => Sink.Answers sink s rest s'
  | s, .called call answer _ :: rest, s' =>
    (sink.call s call).run.1 = answer ∧ Sink.Answers sink (sink.call s call).run.2 rest s'

/-- Along what is said to a sink, the pending cost of its queue is at every moment at most the high mark
and the cost of the item pushed last; where a write is answered `ready` it is at most the high mark, and
where a wait is, at most the low one. -/
def QueuedSink.WithinMarks (S : QueuedSink σ κ α) (marks : Marks) : σ → List PumpEvent → Prop
  | _, [] => True
  | s, .asked _ _ :: rest => S.WithinMarks marks s rest
  | s, .called call answer _ :: rest =>
    let s' := (S.sink.call s call).run.2
    (S.out s).CourseWithin S.consumer marks (S.made s call) ∧
      (∀ row, call = .write row → answer = .status (.ok .ready) → (S.out s').pending ≤ marks.high) ∧
      (call = .awaitDrain → answer = .status (.ok .ready) → (S.out s').pending ≤ marks.low) ∧
      S.WithinMarks marks s' rest

/-- What a run of the pump says to a sink, noted on the way, is answered by the sink and leaves it as the
run does, and along it the backlog stays within the marks. -/
def QueuedSink.RunWithin {η : Type} (S : QueuedSink σ κ α) (marks : Marks) (hook : Option (Hook Id η))
    (pulls : List Pull) (s : σ) (h : η) : Prop :=
  let (result, said) :=
    ((pump S.sink.noted (Hook.ofOption (hook.map Hook.noted)) pulls s h).run []).run
  result = (pump S.sink (Hook.ofOption hook) pulls s h).run ∧
    S.sink.Answers s said result.sink ∧ S.WithinMarks marks s said

end InventoryFeed

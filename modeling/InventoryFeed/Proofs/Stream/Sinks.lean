import InventoryFeed.Event.Publisher
import InventoryFeed.Http.Response
import InventoryFeed.Proofs.Stream.Backlog

/-!
# The backlogs of the two sinks

A response queues frames and a publisher queues messages. Each hands its rows on through its queue and
through nothing else, so a run of the pump keeps the backlog of either within its marks, however many
rows there are and however slow the consumer is.
-/

namespace InventoryFeed

namespace Http

/-- A connection takes a frame or is gone. -/
theorem Connection.steady : Connection.consumer.Steady := by
  intro frame c
  change (c.receive frame).1 ≠ .crashed
  unfold receive
  split
  · split <;> exact nofun
  · exact nofun

namespace Response

/-- The push of a part of the body as a frame, whose cost is its length. -/
def pushOf (r : Response) (body : List UInt8) (last : Bool) : QueueCall (List UInt8) :=
  let frame := frame r.framing (!r.headerSent) last body
  .push frame frame.length

/-- The calls that a call on a response makes on its queue. -/
def made (r : Response) : SinkCall → List (QueueCall (List UInt8))
  | .write row => if r.finished then [] else [r.pushOf (elementBody (r.elements = 0) row) false]
  | .awaitDrain => [.awaitDrain]
  | .finish =>
    if r.finished then []
    else
      let body := closingBody (r.elements = 0)
      match (r.sendBody body true).1 with
      | .error _ => [r.pushOf body true]
      | .ok _ => [r.pushOf body true, .finish]
  | .forceClose => [.abort]

variable {r : Response}

/-- A part of the body is sent by one push. -/
theorem sendBody_run (body : List UInt8) (last : Bool) :
    (r.sendBody body last).2.out = r.out.calls Connection.consumer [r.pushOf body last] := rfl

/-- A write makes one push on the queue and answers as it does, or none. -/
theorem write_calls (r : Response) (row : Row) :
    (r.write row).2.out = r.out.calls Connection.consumer (r.made (.write row)) ∧
      r.out.WriteCalls Connection.consumer (r.write row).1 (r.made (.write row)) := by
  unfold write made
  split
  · exact ⟨rfl, .refused _⟩
  · have hout := sendBody_run (r := r) (elementBody (r.elements = 0) row) false
    have hpushed : r.out.WriteCalls Connection.consumer
        (r.sendBody (elementBody (r.elements = 0) row) false).1
        [r.pushOf (elementBody (r.elements = 0) row) false] := .pushed _ _
    rcases hsent : r.sendBody (elementBody (r.elements = 0) row) false with ⟨_ | _ | _ | _, later⟩ <;>
      rw [hsent] at hout hpushed <;> exact ⟨hout, hpushed⟩

/-- An end makes one push on the queue and ends it if the last frame is accepted, or does nothing. -/
theorem finish_calls (r : Response) :
    r.finish.2.out = r.out.calls Connection.consumer (r.made .finish) ∧
      r.out.EndCalls Connection.consumer (r.made .finish) := by
  unfold finish made
  split
  · exact ⟨rfl, .ended⟩
  · have hout := sendBody_run (r := r) (closingBody (r.elements = 0)) true
    dsimp only
    rcases hsent : r.sendBody (closingBody (r.elements = 0)) true with ⟨cause | status, later⟩
    · rw [hsent] at hout
      exact ⟨hout, .refused (congrArg Prod.fst hsent)⟩
    · rw [hsent] at hout
      refine ⟨?_, .pushed _ _⟩
      have hended : later.deliverAll.2.out = (later.out.finish Connection.consumer).run.2 := rfl
      rw [hended, hout]
      rfl

/-- A response with its queue of frames. -/
def queuedSink : QueuedSink Response Connection (List UInt8) where
  sink := sink
  consumer := Connection.consumer
  out := out
  made := made
  left r call := by
    cases call with
    | write row => exact (write_calls r row).1
    | awaitDrain => rfl
    | finish => exact (finish_calls r).1
    | forceClose => rfl
  write r row := (write_calls r row).2
  awaitDrain _ := rfl
  finish r := (finish_calls r).2
  forceClose _ := rfl
  steady := Connection.steady

end Response

end Http

/-- A bus takes a message or refuses it. -/
theorem EventBus.steady {κ : Type} (bus : EventBus Id κ) : bus.consumer.Steady := by
  intro message state
  simp only [EventBus.consumer, Id.run_bind]
  rcases (bus.append message state).run with ⟨_ | text, later⟩ <;> exact nofun

namespace Publisher

variable {κ : Type} (bus : EventBus Id κ)

/-- The calls that a call on a publisher makes on its queue. -/
def made (p : Publisher κ) : SinkCall → List (QueueCall EventMessage)
  | .write row => if p.finished then [] else [.push (message p.job (p.clock + 1) row) 1]
  | .awaitDrain => [.awaitDrain]
  | .finish => if p.finished then [] else [.finish]
  | .forceClose => [.abort]

/-- A write makes one push on the queue and answers as it does, or none. -/
theorem write_calls (p : Publisher κ) (row : Row) :
    (p.write bus row).run.2.out = p.out.calls bus.consumer (p.made (.write row)) ∧
      p.out.WriteCalls bus.consumer (p.write bus row).run.1 (p.made (.write row)) := by
  unfold write made
  split
  · exact ⟨rfl, .refused _⟩
  · exact ⟨rfl, .pushed _ _⟩

/-- An end ends the queue, or does nothing. -/
theorem finish_calls (p : Publisher κ) :
    (p.finish bus).run.2.out = p.out.calls bus.consumer (p.made .finish) ∧
      p.out.EndCalls bus.consumer (p.made .finish) := by
  unfold finish made
  split
  · exact ⟨rfl, .ended⟩
  · exact ⟨rfl, .finish⟩

/-- A publisher with its queue of messages. -/
def queuedSink : QueuedSink (Publisher κ) κ EventMessage where
  sink := sink bus
  consumer := bus.consumer
  out := out
  made := made
  left p call := by
    cases call with
    | write row => exact (write_calls bus p row).1
    | awaitDrain => rfl
    | finish => exact (finish_calls bus p).1
    | forceClose => rfl
  write p row := (write_calls bus p row).2
  awaitDrain _ := rfl
  finish p := (finish_calls bus p).2
  forceClose _ := rfl
  steady := bus.steady

end Publisher

/-- What a slow consumer has still to take is bounded by the marks and one item, in every run of the pump
into a response and in every run into a publisher: at each moment the pending cost is at most the high
mark and the cost of the item pushed last; a write is answered `ready` only if it left no more than the
high mark, a wait only if it left no more than the low one. -/
theorem backlog_within_marks (marks : Marks) (pace : List Stride) {η : Type}
    (hook : Option (Hook Id η)) (h : η) (pulls : List Pull) :
    (∀ framing departure, Http.Response.queuedSink.RunWithin marks hook pulls
      (.start framing marks pace departure) h) ∧
    ∀ {κ : Type} (bus : EventBus Id κ) (job : Job) (state : κ),
      (Publisher.queuedSink bus).RunWithin marks hook pulls (.start job marks pace state) h :=
  ⟨fun _ _ => Http.Response.queuedSink.runWithin hook pulls h (Outbound.start_within marks pace _),
    fun bus _ _ => (Publisher.queuedSink bus).runWithin hook pulls h
      (Outbound.start_within marks pace _)⟩

end InventoryFeed

import InventoryFeed.Stream.Turns
import InventoryFeed.Proofs.Stream.Handshake
import InventoryFeed.Proofs.Stream.Backlog

/-!
# Atomic steps are whole calls

Whatever the producer and the consumer do, step by step, comes to whole calls on a queue as long as no
fault is set: each step is a push, a delivery, the end of a wait, or none of these. So what is known of
the queue holds of every order of the steps. The calls of a run of the pump on the queue of its sink are
such calls too, up to the end.
-/

namespace InventoryFeed

open ProducerPhase (after betweenCalls)

variable {κ α : Type}

namespace Outbound

variable {c : Consumer Id κ α} {q : Outbound κ α}

/-- Without a pace an item is put at the end of the queue as it is. -/
theorem push_of_pace_nil (item : α) (cost : Nat) (hpace : q.pace = []) :
    (q.push c item cost).run = q.enqueue item cost := by
  rw [push, advance, hpace]
  rfl

/-- Without a pace a wait for a queue that is down to the low mark ends at once. -/
theorem awaitDrain_of_pace_nil (hpace : q.pace = []) (hlow : q.pending ≤ q.marks.low) :
    (q.awaitDrain c).run = (q.faultAnswer.getD (.ok .ready), q) := by
  have hsteps : stepsTo q.marks.low q.pending q.queue = 0 := by
    rcases q.queue with _ | ⟨entry, rest⟩
    · rfl
    · exact if_pos hlow
  have hadvance : (q.advance c).run = (true, q) := by
    rw [advance, hpace]
    rfl
  rw [awaitDrain_run, hadvance]
  simp only [hsteps]
  rfl

end Outbound

namespace Handshake

/-- Whole calls lead to the queue that the parties have come to, and to where the producer is. -/
def Turned (marks : Marks) (h : Handshake) : Prop :=
  Outbound.Turns .willing (start marks).outbound (betweenCalls h.marks h.producer) h.outbound

variable {marks : Marks} {h h' : Handshake}

/-- A step that comes to nothing as far as whole calls go. -/
theorem Turned.still (ht : h.Turned marks) (houtbound : h'.outbound = h.outbound)
    (hphase : betweenCalls h'.marks h'.producer = betweenCalls h.marks h.producer) :
    h'.Turned marks := by
  rw [Turned, houtbound, hphase]
  exact ht

/-- A step of the producer comes to a push, to the end of a wait, or to nothing. -/
theorem Turned.produce (ht : h.Turned marks) (hfault : h.fault = false) (cost : Nat) :
    (h.produce cost).Turned marks := by
  obtain ⟨m, queue, pending, flag, token, fault, producer, consumer⟩ := h
  dsimp only at hfault
  subst hfault
  cases producer with
  | free => exact ht.still rfl rfl
  | adding cost =>
    have hpush := ht.push () cost
    rw [Outbound.push_of_pace_nil () cost rfl,
      Outbound.enqueue_of_open () cost ⟨rfl, rfl, rfl⟩] at hpush
    have hphase : betweenCalls m (.sending cost (pending + cost)) =
        after (.ok (if m.high < pending + cost then .saturated else .ready)) := by
      simp only [betweenCalls]
      split <;> rfl
    rw [Turned, Handshake.produce, hphase]
    simpa [outbound, costs, ProducerPhase.unsentCosts] using hpush
  | sending cost sum =>
    refine ht.still ?_ rfl
    simp [Handshake.produce, outbound, costs, ProducerPhase.unsentCosts]
  | sent sum =>
    simp only [Handshake.produce]
    split
    · rename_i hhigh
      exact ht.still rfl (if_pos hhigh).symm
    · rename_i hroom
      exact ht.still rfl (if_neg hroom).symm
  | waiting => exact ht.still rfl rfl
  | comparing =>
    simp only [Handshake.produce]
    split
    · rename_i hlow
      have hwait := ht.awaitDrain
      rw [Outbound.awaitDrain_of_pace_nil rfl hlow] at hwait
      exact hwait
    · exact ht.still rfl rfl
  | clearing => exact ht.still rfl rfl
  | asleep =>
    simp only [Handshake.produce]
    split
    · exact ht.still rfl rfl
    · exact ht
  | stopped => exact ht

/-- A step of the consumer that refuses nothing comes to a delivery or to nothing. -/
theorem Turned.consume (ht : h.Turned marks) {refused : Bool}
    (hfault : (h.consume refused).fault = false) : (h.consume refused).Turned marks := by
  have hmoved : (h.move (.consume refused)).fault = false := hfault
  have hnone : h.fault = false := fault_of_move hmoved
  obtain ⟨m, queue, pending, flag, token, fault, producer, consumer⟩ := h
  dsimp only at hnone
  subst hnone
  cases consumer with
  | idle =>
    cases queue with
    | nil => exact ht
    | cons cost rest => exact ht.still rfl rfl
  | holding cost =>
    cases refused with
    | true => cases hfault
    | false => exact ht.still rfl rfl
  | refusing cost => exact ht.still rfl rfl
  | releasing cost => exact Outbound.Turns.deliver 1 ht
  | released sum =>
    simp only [Handshake.consume]
    split
    · exact ht.still rfl rfl
    · exact ht.still rfl rfl
  | waking => exact ht.still rfl rfl

/-- Whatever order the parties take their steps in, without a fault they come to whole calls. -/
theorem turned_moves (marks : Marks) (all : List HandshakeMove)
    (hfault : ((start marks).moves all).fault = false) : ((start marks).moves all).Turned marks := by
  suffices hlater : ∀ h : Handshake, h.Turned marks → (h.moves all).fault = false →
      (h.moves all).Turned marks from hlater _ .start hfault
  clear hfault
  induction all with
  | nil => exact fun h ht _ => ht
  | cons move rest ih =>
    intro h ht hfault
    have hmoved : (h.move move).fault = false := fault_of_moves rest hfault
    refine ih (h.move move) ?_ hfault
    cases move with
    | produce cost => exact ht.produce (fault_of_move hmoved) cost
    | consume refused => exact ht.consume hmoved

end Handshake

namespace Outbound

variable {c : Consumer Id κ α} {q : Outbound κ α} {producer : ProducerPhase}

/-- A wait is due where the producer waits. -/
theorem isDue_eq (answer : Except SinkError WriteStatus) :
    isDue answer = decide (after answer = .waiting) := by
  rcases answer with _ | _ | _ | _ <;> rfl

/-- No wait is due after a wait. -/
theorem isDue_awaitDrain (c : Consumer Id κ α) (q : Outbound κ α) :
    isDue (q.awaitDrain c).run.1 = false := by
  rw [awaitDrain_run]
  dsimp only [faultAnswer]
  split <;> rfl

/-- By whole calls the backlog stays within the marks. -/
theorem Turns.within {marks : Marks} {pace : List Stride} {k : κ} (hc : c.Steady)
    (ht : Turns c (Outbound.start marks pace k) producer q) :
    q.Within marks (decide (producer = .waiting)) := by
  induction ht with
  | start => exact start_within marks pace k
  | push item cost ht ih =>
    rw [← isDue_eq]
    exact push_within hc item cost ih
  | @awaitDrain q ht ih =>
    rw [← isDue_eq, isDue_awaitDrain]
    exact (awaitDrain_within hc ih).1
  | deliver count ht ih => exact ih.drains (deliver_drains hc count ih.balanced)

end Outbound

theorem Consumer.willing_steady : Consumer.willing.Steady := fun _ _ => nofun

/-- In whatever order the parties take their steps, no more is pending than the high mark and the cost
added last, as long as no fault is set; and no more than the high mark where the producer is not to
wait. -/
theorem Handshake.pending_moves_le (marks : Marks) (all : List HandshakeMove)
    (hfault : ((start marks).moves all).fault = false) :
    let h := (start marks).moves all
    h.pending ≤ marks.high + h.costs.getLast?.getD 0 ∧
      (betweenCalls h.marks h.producer = .free → h.pending ≤ marks.high) := by
  intro h
  have hwithin := (turned_moves marks all hfault).within Consumer.willing_steady
  have hlast : h.outbound.lastCost = h.costs.getLast?.getD 0 := by
    simp [Outbound.lastCost, outbound, Function.comp_def]
  refine ⟨hlast ▸ hwithin.le_high, fun hfree => ?_⟩
  have hbound := hwithin.pending_le
  rw [hfree] at hbound
  exact hbound

namespace QueuedSink

open Outbound (Turns)

variable {σ : Type} (S : QueuedSink σ κ α) {first : Outbound κ α} {s s' : σ} {row : Row}
  {batch : List Row} {events more : List PumpEvent}

/-- What is said to a sink comes to whole calls on its queue, up to an end. -/
def TurnsToEnd (first : Outbound κ α) (s : σ) (events : List PumpEvent) : Prop :=
  ∃ said ends s' phase, events = said ++ ends ∧
    (∀ event ∈ ends, event.isFinish = true ∨ event.isForce = true) ∧
    S.sink.Answers s said s' ∧ Turns S.consumer first phase (S.out s')

/-- A write is a push, if it is not refused by the sink itself. -/
theorem turns_write (row : Row) (ht : Turns S.consumer first .free (S.out s)) :
    ∃ phase, Turns S.consumer first phase (S.out (S.sink.write row s).run.2) ∧
      ∀ status, (S.sink.write row s).run.1 = .ok status → phase = after (.ok status) := by
  have hleft : S.out (S.sink.write row s).run.2 = _ := S.left s (.write row)
  have hcalls := S.write s row
  generalize hanswer : (S.sink.write row s).run.1 = answer at hcalls
  generalize S.made s (.write row) = made at hleft hcalls
  cases hcalls with
  | refused cause => exact ⟨.free, hleft ▸ ht, nofun⟩
  | pushed item cost => exact ⟨_, hleft ▸ ht.push item cost, fun _ h => congrArg after h⟩

section

variable (hwait : ∀ s, (S.sink.awaitDrain s).run.1 = ((S.out s).awaitDrain S.consumer).run.1)

include hwait

/-- A wait is one for the queue. -/
theorem turns_awaitDrain (ht : Turns S.consumer first .waiting (S.out s)) :
    Turns S.consumer first (after (S.sink.awaitDrain s).run.1) (S.out (S.sink.awaitDrain s).run.2) := by
  have hleft : S.out (S.sink.awaitDrain s).run.2 = _ := S.left s .awaitDrain
  rw [hwait, hleft, S.awaitDrain s]
  exact ht.awaitDrain

/-- A row after which the run goes on leaves the producer free. -/
theorem turns_passes (hpasses : Dialogue.Passes row events)
    (ht : Turns S.consumer first .free (S.out s)) (hanswers : S.sink.Answers s events s') :
    Turns S.consumer first .free (S.out s') := by
  obtain ⟨phase, hwritten, hphase⟩ := S.turns_write row ht
  cases hpasses with
  | ready headed =>
    obtain ⟨hready, rfl⟩ := hanswers
    rw [hphase .ready (SinkAnswer.status.inj hready)] at hwritten
    exact hwritten
  | @waited headed later status hstatus =>
    obtain ⟨hsaturated, hwaited, rfl⟩ := hanswers
    rw [hphase .saturated (SinkAnswer.status.inj hsaturated)] at hwritten
    have hdrained := S.turns_awaitDrain hwait hwritten
    have hanswer : (S.sink.awaitDrain (S.sink.write row s).run.2).run.1 = .ok status :=
      SinkAnswer.status.inj hwaited
    have hdue : Outbound.isDue (.ok status) = false := by
      rw [← hanswer, hwait]
      exact Outbound.isDue_awaitDrain _ _
    rw [hanswer] at hdrained
    cases status with
    | ready => exact hdrained
    | saturated => cases hdue
    | closed => exact absurd rfl hstatus

end

/-- What follows a failure is an end, if anything. -/
theorem turnsToEnd_of_breaks (events : List PumpEvent) {cause : StreamError} {headed : Bool}
    {outcome : Outcome} {phase : ProducerPhase} (hbreaks : Dialogue.Breaks cause headed more outcome)
    (ht : Turns S.consumer first phase (S.out s')) (hanswers : S.sink.Answers s events s') :
    S.TurnsToEnd first s (events ++ more) := by
  refine ⟨events, more, s', phase, rfl, ?_, hanswers, ht⟩
  cases hbreaks with
  | unseen => exact nofun
  | seen headed => simp [PumpEvent.isForce]

/-- What was said and answered in two parts was said and answered as a whole. -/
theorem answers_append {final : σ} : S.sink.Answers s (events ++ more) final ↔
    ∃ s', S.sink.Answers s events s' ∧ S.sink.Answers s' more final := by
  induction events generalizing s with
  | nil => exact ⟨fun h => ⟨s, rfl, h⟩, fun ⟨_, hs, h⟩ => hs ▸ h⟩
  | cons event rest ih =>
    cases event with
    | asked session decision => exact ih (s := s)
    | called call answer headed =>
      simp only [List.cons_append, Sink.Answers, ih, and_assoc, exists_and_left]

/-- A question leaves the sink as it is. -/
theorem answers_after_question {final : σ} (hooked : Bool) (before : List PumpEvent) :
    S.sink.Answers s (Dialogue.question hooked before ++ more) final ↔
      S.sink.Answers s more final := by
  cases hooked <;> rfl

theorem turnsToEnd_append (hanswers : S.sink.Answers s events s')
    (hmore : S.TurnsToEnd first s' more) : S.TurnsToEnd first s (events ++ more) := by
  obtain ⟨said, ends, last, phase, rfl, hends, hsaid, ht⟩ := hmore
  refine ⟨events ++ said, ends, last, phase, (List.append_assoc ..).symm, hends, ?_, ht⟩
  exact S.answers_append.mpr ⟨s', hanswers, hsaid⟩

section

variable (hwait : ∀ s, (S.sink.awaitDrain s).run.1 = ((S.out s).awaitDrain S.consumer).run.1)
  {final : σ}

include hwait

/-- A row with which the run ends. -/
theorem turnsToEnd_of_stops {outcome : Outcome} (hstops : Dialogue.Stops row events outcome)
    (ht : Turns S.consumer first .free (S.out s)) (hanswers : S.sink.Answers s events final) :
    S.TurnsToEnd first s events := by
  obtain ⟨phase, hwritten, hphase⟩ := S.turns_write row ht
  have hwaited (hsaturated : SinkAnswer.status (S.sink.write row s).run.1 =
      .status (.ok .saturated)) := by
    rw [hphase .saturated (SinkAnswer.status.inj hsaturated)] at hwritten
    exact S.turns_awaitDrain hwait hwritten
  cases hstops with
  | left headed later =>
    exact ⟨[_], [_], _, _, rfl, by simp [PumpEvent.isForce], ⟨hanswers.1, rfl⟩, hwritten⟩
  | leftWaiting headed later last =>
    obtain ⟨hsaturated, hclosed, -⟩ := hanswers
    exact ⟨[_, _], [_], _, _, rfl, by simp [PumpEvent.isForce], ⟨hsaturated, hclosed, rfl⟩,
      hwaited hsaturated⟩
  | refused hlast =>
    exact S.turnsToEnd_of_breaks [_] hlast hwritten ⟨hanswers.1, rfl⟩
  | refusedWaiting headed hlast =>
    obtain ⟨hsaturated, hrefused, -⟩ := hanswers
    exact S.turnsToEnd_of_breaks [_, _] hlast (hwaited hsaturated)
      ⟨hsaturated, hrefused, rfl⟩

/-- The rows of a batch. -/
theorem turns_batch {ended : Option Outcome} (hbatch : Dialogue.Batch batch events ended)
    (ht : Turns S.consumer first .free (S.out s)) (hanswers : S.sink.Answers s events final) :
    (ended = none → Turns S.consumer first .free (S.out final)) ∧
      (ended ≠ none → S.TurnsToEnd first s events) := by
  induction hbatch generalizing s with
  | done =>
    obtain rfl : final = s := hanswers
    exact ⟨fun _ => ht, fun h => absurd rfl h⟩
  | row hfirst hmore ih =>
    obtain ⟨s₁, hanswers₁, hanswers₂⟩ := S.answers_append.mp hanswers
    have ht₁ := S.turns_passes hwait hfirst ht hanswers₁
    obtain ⟨hnone, hsome⟩ := ih ht₁ hanswers₂
    exact ⟨hnone, fun h => S.turnsToEnd_append hanswers₁ (hsome h)⟩
  | stops hstops => exact ⟨nofun, fun _ => S.turnsToEnd_of_stops hwait hstops ht hanswers⟩

/-- What is said in a run. -/
theorem turns_run {hooked headed : Bool} {before : List PumpEvent} {pulls : List Pull}
    {result : Except Crash Outcome} (hrun : Dialogue.Run hooked headed before pulls events result)
    (ht : Turns S.consumer first .free (S.out s)) (hanswers : S.sink.Answers s events final) :
    S.TurnsToEnd first s events := by
  have hasked (before : List PumpEvent) (s : σ) :
      S.sink.Answers s (Dialogue.question hooked before) s := by
    cases hooked <;> rfl
  have hquestion {before more : List PumpEvent} {s : σ} (hmore : S.TurnsToEnd first s more) :
      S.TurnsToEnd first s (Dialogue.question hooked before ++ more) :=
    S.turnsToEnd_append (hasked before s) hmore
  induction hrun generalizing s with
  | stopped => exact ⟨[_], [], s, _, rfl, by simp, rfl, ht⟩
  | completed now => exact hquestion ⟨[], [_], s, _, rfl, by simp [PumpEvent.isFinish], rfl, ht⟩
  | unfinished hlast =>
    refine hquestion ⟨[], _, s, _, rfl, ?_, rfl, ht⟩
    cases hlast with
    | unseen => simp [PumpEvent.isFinish]
    | seen headed => simp [PumpEvent.isFinish, PumpEvent.isForce]
  | failed hlast => exact S.turnsToEnd_of_breaks _ hlast ht (hasked _ _)
  | crashed =>
    rw [← List.append_nil (Dialogue.question _ _)]
    exact hquestion ⟨[], [], s, _, rfl, by simp, rfl, ht⟩
  | stops hbatch =>
    have hwritten := (S.answers_after_question _ _).mp hanswers
    exact hquestion ((S.turns_batch hwait hbatch ht hwritten).2 (Option.some_ne_none _))
  | batch hbatch hmore ih =>
    obtain ⟨s₁, hfirst, hlater⟩ := S.answers_append.mp hanswers
    have hwritten := (S.answers_after_question _ _).mp hfirst
    have ht₁ := (S.turns_batch hwait hbatch ht hwritten).1 rfl
    exact S.turnsToEnd_append hfirst (ih ht₁ hlater)

end

end QueuedSink

end InventoryFeed

import InventoryFeed.Proofs.Stream.Account

/-!
# Queues before consumers that keep more

A consumer may keep more than another and answer as it does: what the other one keeps is then shown by
a function of its state. Nothing that is done with a queue hangs on what is kept beside that, so a
queue before the one consumer shows the queue before the other at every moment. A watched consumer,
which keeps a record beside its state, is one of these.
-/

namespace InventoryFeed

variable {κ κ' α : Type}

/-- A consumer shows another by its state: both answer the same, and go on to states of which the one
shows the other. -/
structure Consumer.Shows (shown : κ' → κ) (c' : Consumer Id κ' α) (c : Consumer Id κ α) : Prop where
  /-- They make the same of an item. -/
  deliver : ∀ item k, (c'.deliver item k).run.1 = (c.deliver item (shown k)).run.1 ∧
    shown (c'.deliver item k).run.2 = (c.deliver item (shown k)).run.2
  /-- They make the same of the end of delivery. -/
  close : ∀ aborted k, shown (c'.close aborted k).run = (c.close aborted (shown k)).run

/-- A watched consumer shows the consumer itself. -/
theorem Consumer.watched_shows (c : Consumer Id κ α) : c.watched.Shows Prod.fst c where
  deliver := fun _ _ => ⟨rfl, rfl⟩
  close := fun _ _ => rfl

namespace Outbound

/-- A queue before the consumer that is shown. -/
def through (shown : κ' → κ) (q : Outbound κ' α) : Outbound κ α :=
  ⟨q.marks, shown q.consumer, q.queue, q.pending, q.fault, q.crashed, q.ended, q.pace⟩

variable {shown : κ' → κ} {c' : Consumer Id κ' α} {c : Consumer Id κ α} (hc : c'.Shows shown c)
  (q : Outbound κ' α)

include hc

theorem through_deliverNext :
    (q.deliverNext c').run.through shown = ((q.through shown).deliverNext c).run := by
  rcases hq : q.queue with _ | ⟨⟨item, cost⟩, rest⟩
  · have hsame : q.deliverNext c' = pure q := by rw [deliverNext, hq]
    have hsame' : (q.through shown).deliverNext c = pure (q.through shown) := by
      rw [deliverNext, show (q.through shown).queue = [] from hq]
    rw [hsame, hsame']
    rfl
  · obtain ⟨hreceipt, hstate⟩ := hc.deliver item q.consumer
    simp only [deliverNext, through, hq, Id.run_bind, ← hreceipt, ← hstate]
    rcases (c'.deliver item q.consumer).run with ⟨_ | _ | _, k⟩ <;> rfl

theorem through_deliver (count : Nat) :
    (q.deliver c' count).run.through shown = ((q.through shown).deliver c count).run := by
  induction count generalizing q with
  | zero => rfl
  | succ count ih =>
    rw [deliver, deliver, Id.run_bind, Id.run_bind, ih, through_deliverNext hc]

theorem through_advance :
    (q.advance c').run.1 = ((q.through shown).advance c).run.1 ∧
      (q.advance c').run.2.through shown = ((q.through shown).advance c).run.2 := by
  rcases hpace : q.pace with _ | ⟨stride, pace⟩
  · simp [advance, through, hpace]
  · have hdeliver := through_deliver hc { q with pace } stride.taken
    simp only [advance, hpace, show (q.through shown).pace = stride :: pace from hpace, Id.run_bind,
      Id.run_pure, true_and]
    exact hdeliver

theorem through_endWith (aborted : Bool) :
    (q.endWith c' aborted).run.through shown = ((q.through shown).endWith c aborted).run := by
  cases hended : q.ended <;> cases hcrashed : q.crashed <;>
    simp [endWith, through, hended, hcrashed, hc.close]

theorem through_drainAndEnd :
    (q.drainAndEnd c').run.through shown = ((q.through shown).drainAndEnd c).run := by
  rw [drainAndEnd, drainAndEnd, Id.run_bind, Id.run_bind, through_endWith hc, through_deliver hc]
  rfl

theorem through_push (item : α) (cost : Nat) :
    (q.push c' item cost).run.1 = ((q.through shown).push c item cost).run.1 ∧
      (q.push c' item cost).run.2.through shown = ((q.through shown).push c item cost).run.2 := by
  have henqueue (q : Outbound κ' α) :
      (q.enqueue item cost).1 = ((q.through shown).enqueue item cost).1 ∧
        (q.enqueue item cost).2.through shown = ((q.through shown).enqueue item cost).2 := by
    have hanswer : (q.through shown).faultAnswer = q.faultAnswer := rfl
    rw [enqueue, enqueue, hanswer]
    rcases q.faultAnswer with _ | answer
    · cases hended : q.ended <;> cases hcrashed : q.crashed <;> simp [through, hended, hcrashed]
    · exact ⟨rfl, rfl⟩
  have hqueue := henqueue (q.advance c').run.2
  rw [(through_advance hc q).2] at hqueue
  exact hqueue

theorem through_awaitDrain :
    (q.awaitDrain c').run.1 = ((q.through shown).awaitDrain c).run.1 ∧
      (q.awaitDrain c').run.2.through shown = ((q.through shown).awaitDrain c).run.2 := by
  let q₁ := (q.advance c').run.2
  have hdeliver := through_deliver hc q₁ (stepsTo q₁.marks.low q₁.pending q₁.queue)
  rw [awaitDrain_run, awaitDrain_run, ← (through_advance hc q).2]
  exact ⟨congrArg (fun q' => q'.faultAnswer.getD (.ok .ready)) hdeliver, hdeliver⟩

theorem through_finish :
    (q.finish c').run.1 = ((q.through shown).finish c).run.1 ∧
      (q.finish c').run.2.through shown = ((q.through shown).finish c).run.2 := by
  rw [finish_run, finish_run, ← through_drainAndEnd hc]
  exact ⟨rfl, rfl⟩

theorem through_abort :
    (q.abort c').run.through shown = ((q.through shown).abort c).run := by
  have hcutOff (holds : Bool) (q : Outbound κ' α) :
      (q.cutOff c' holds).run.through shown = ((q.through shown).cutOff c holds).run := by
    rw [cutOff, cutOff, Id.run_bind, Id.run_bind, through_endWith hc, ← through_deliver hc]
    rfl
  obtain ⟨hholds, hadvance⟩ := through_advance hc q
  rw [abort_run, abort_run, hcutOff, hadvance, hholds]

/-- Whatever is done with a queue comes to the same with the queue that it shows. -/
theorem through_use (u : QueueUse α) :
    (q.use c' u).1 = ((q.through shown).use c u).1 ∧
      (q.use c' u).2.through shown = ((q.through shown).use c u).2 := by
  cases u with
  | drop => exact ⟨rfl, through_drainAndEnd hc q⟩
  | call what =>
    cases what with
    | push item cost => exact (through_push hc q item cost).imp_left (congrArg SinkAnswer.status)
    | deliver count => exact ⟨rfl, through_deliver hc q count⟩
    | awaitDrain => exact (through_awaitDrain hc q).imp_left (congrArg SinkAnswer.status)
    | finish => exact (through_finish hc q).imp_left (congrArg SinkAnswer.ended)
    | abort => exact ⟨rfl, through_abort hc q⟩

end Outbound

end InventoryFeed

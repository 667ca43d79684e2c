import InventoryFeed.Proofs.Stream.Sinks
import InventoryFeed.Proofs.Stream.Turns
import Mathlib.Logic.Relation

/-!
# Whole calls are atomic steps

What is done with a queue by whole calls is done by the producer and the consumer in some order of their
steps: each delivery is some steps of the consumer, each push and each end of a wait some steps of the
producer. In such an order the consumer is never overtaken, and so the producer is never left asleep.
-/

namespace InventoryFeed

open ProducerPhase (after)

variable {κ α : Type}

namespace Handshake

variable {h h' : Handshake}

/-- One comes from one moment to another without the consumer being overtaken on the way. -/
def Leads : Handshake → Handshake → Prop :=
  Relation.ReflTransGen fun h h' => h.overtaken = false ∧ ∃ move, h.move move = h'

/-- What leads from one moment to another can be listed. -/
theorem Leads.exists_moves (hleads : h.Leads h') (hnot : h'.overtaken = false) :
    ∃ all, h.moves all = h' ∧
      ∀ before, before <+: all → (h.moves before).overtaken = false := by
  induction hleads using Relation.ReflTransGen.head_induction_on with
  | refl =>
    refine ⟨[], rfl, fun before hbefore => ?_⟩
    rw [List.prefix_nil.mp hbefore]
    exact hnot
  | @head h _ hstep _ ih =>
    obtain ⟨hfirst, move, rfl⟩ := hstep
    obtain ⟨all, hmoves, hnever⟩ := ih
    refine ⟨move :: all, hmoves, fun before hbefore => ?_⟩
    rcases List.prefix_cons_iff.mp hbefore with rfl | ⟨later, rfl, hlater⟩
    · exact hfirst
    · exact hnever later hlater

/-- The consumer is overtaken only by a producer that has sent an item. -/
theorem overtaken_eq_false_of_producer (hsent : ∀ sum, h.producer ≠ .sent sum) :
    h.overtaken = false := by
  unfold overtaken
  split
  · rename_i sum hproducer
    exact absurd hproducer (hsent sum)
  · rfl

/-- And only when it is about to take down the flag. -/
theorem overtaken_eq_false_of_consumer (hidle : h.consumer = .idle) : h.overtaken = false := by
  unfold overtaken
  split
  · simp [hidle, ConsumerPhase.wakes]
  · rfl

theorem producer_consume (refused : Bool) : (h.consume refused).producer = h.producer := by
  unfold Handshake.consume
  split
  · split <;> rfl
  · split <;> rfl
  · rfl
  · rfl
  · split <;> rfl
  · rfl

/-- The consumer goes on by itself. -/
theorem leads_consume (hsent : ∀ sum, h.producer ≠ .sent sum) (turns : List Bool) :
    h.Leads (h.moves (turns.map .consume)) := by
  induction turns generalizing h with
  | nil => exact .refl
  | cons refused rest ih =>
    have hstep := overtaken_eq_false_of_producer hsent
    refine .head ⟨hstep, .consume refused, rfl⟩ (ih fun sum => ?_)
    exact (producer_consume refused).trans_ne (hsent sum)

theorem consumer_produce (cost : Nat) : (h.produce cost).consumer = h.consumer := by
  unfold Handshake.produce
  split
  all_goals first
    | rfl
    | split <;> rfl

/-- The producer goes on by itself. -/
theorem leads_produce (hidle : h.consumer = .idle) (turns : List Nat) :
    h.Leads (h.moves (turns.map .produce)) := by
  induction turns generalizing h with
  | nil => exact .refl
  | cons cost rest ih =>
    have hstep := overtaken_eq_false_of_consumer hidle
    exact .head ⟨hstep, .produce cost, rfl⟩ (ih ((consumer_produce cost).trans hidle))

section

variable {m : Marks} {queue rest : List Nat} {pending cost : Nat} {flag token fault : Bool}
  {producer : ProducerPhase}

/-- The producer pushes an item. -/
theorem leads_pushed :
    ∃ flag', Leads ⟨m, queue, pending, flag, token, false, .free, .idle⟩
      ⟨m, queue ++ [cost], pending + cost, flag', token, false,
        if m.high < pending + cost then .waiting else .free, .idle⟩ := by
  have hpushed := leads_produce (h := ⟨m, queue, pending, flag, token, false, .free, .idle⟩) rfl
    [cost, cost, cost, cost]
  by_cases hhigh : m.high < pending + cost
  · refine ⟨true, ?_⟩
    simpa [moves, move, Handshake.produce, hhigh] using hpushed
  · refine ⟨flag, ?_⟩
    simpa [moves, move, Handshake.produce, hhigh] using hpushed

/-- The producer waits no longer. -/
theorem leads_waited (hlow : pending ≤ m.low) :
    Leads ⟨m, queue, pending, flag, token, false, .waiting, .idle⟩
      ⟨m, queue, pending, false, token, false, .free, .idle⟩ := by
  have hwaited := leads_produce (h := ⟨m, queue, pending, flag, token, false, .waiting, .idle⟩) rfl
    [0, 0, 0]
  simpa [moves, move, Handshake.produce, hlow] using hwaited

/-- The producer is told of a fault. -/
theorem leads_stopped (hproducer : producer = .free ∨ producer = .waiting) :
    Leads ⟨m, queue, pending, flag, token, true, producer, .idle⟩
      ⟨m, queue, pending, flag, token, true, .stopped, .idle⟩ := by
  have hstopped := leads_produce (h := ⟨m, queue, pending, flag, token, true, producer, .idle⟩) rfl [0]
  rcases hproducer with rfl | rfl
  · exact hstopped
  · exact hstopped

variable (hsent : ∀ sum, producer ≠ .sent sum)

include hsent

/-- The consumer gives back a cost, and wakes the producer if it is to. -/
theorem leads_release :
    ∃ flag' token', Leads ⟨m, queue, pending, flag, token, fault, producer, .releasing cost⟩
      ⟨m, queue, pending - cost, flag', token', fault, producer, .idle⟩ := by
  have hleads := leads_consume
    (h := ⟨m, queue, pending, flag, token, fault, producer, .releasing cost⟩) hsent
  by_cases hwakes : pending - cost ≤ m.low ∧ flag = true
  · have hwaking := hleads [false, false, false]
    simp only [moves, List.map_cons, List.map_nil, List.foldl_cons, List.foldl_nil, move,
      Handshake.consume, if_pos hwakes] at hwaking
    exact ⟨false, true, hwaking⟩
  · have hstill := hleads [false, false]
    simp only [moves, List.map_cons, List.map_nil, List.foldl_cons, List.foldl_nil, move,
      Handshake.consume, if_neg hwakes] at hstill
    exact ⟨flag, token, hstill⟩

/-- The consumer takes an item and is done with it. -/
theorem leads_taken :
    ∃ flag' token', Leads ⟨m, cost :: rest, pending, flag, token, fault, producer, .idle⟩
      ⟨m, rest, pending - cost, flag', token', fault, producer, .idle⟩ := by
  have hleads := leads_consume (h := ⟨m, cost :: rest, pending, flag, token, fault, producer, .idle⟩)
    hsent
  have htaken : Leads ⟨m, cost :: rest, pending, flag, token, fault, producer, .idle⟩
      ⟨m, rest, pending, flag, token, fault, producer, .releasing cost⟩ := by
    cases fault with
    | true => exact hleads [false]
    | false => exact hleads [false, false]
  obtain ⟨flag', token', hrelease⟩ := leads_release hsent
  exact ⟨flag', token', htaken.trans hrelease⟩

/-- The consumer takes all that is queued. -/
theorem leads_drained :
    ∃ flag' token', Leads ⟨m, queue, pending, flag, token, fault, producer, .idle⟩
      ⟨m, [], pending - total queue, flag', token', fault, producer, .idle⟩ := by
  induction queue generalizing pending flag token with
  | nil => exact ⟨flag, token, .refl⟩
  | cons cost rest ih =>
    obtain ⟨flag₁, token₁, htaken⟩ := leads_taken hsent
    obtain ⟨flag₂, token₂, hrest⟩ := ih
    refine ⟨flag₂, token₂, htaken.trans ?_⟩
    rwa [total, ← Nat.sub_sub]

/-- The consumer refuses an item, which sets the fault, and takes all that is queued behind it. -/
theorem leads_refused :
    ∃ flag' token', Leads ⟨m, cost :: rest, pending, flag, token, false, producer, .idle⟩
      ⟨m, [], pending - total (cost :: rest), flag', token', true, producer, .idle⟩ := by
  have hrefused : Leads ⟨m, cost :: rest, pending, flag, token, false, producer, .idle⟩
      ⟨m, rest, pending, flag, true, true, producer, .releasing cost⟩ :=
    leads_consume hsent [false, true, false]
  obtain ⟨flag₁, token₁, hrelease⟩ := leads_release hsent
  obtain ⟨flag₂, token₂, hdrained⟩ := leads_drained hsent
  refine ⟨flag₂, token₂, hrefused.trans (hrelease.trans ?_)⟩
  rwa [total, ← Nat.sub_sub]

end

end Handshake

namespace Outbound

open Handshake (Leads total)

variable {c : Consumer Id κ α} {q : Outbound κ α} {flag token : Bool} {producer : ProducerPhase}

/-- The cost of what is queued. -/
theorem total_map_snd (queue : List (α × Nat)) : total (queue.map Prod.snd) = totalCost queue := by
  induction queue with
  | nil => rfl
  | cons entry rest ih => exact congrArg (entry.2 + ·) ih

/-- A queue that was not ended, and on which nothing is queued behind a fault. -/
structure Running (q : Outbound κ α) : Prop where
  /-- The pending cost is that of what is queued, and the consumer has not crashed. -/
  balanced : q.Balanced
  /-- It was not ended. -/
  ended_eq : q.ended = false
  /-- A fault dropped what was queued. -/
  queue_of_fault : q.fault.isSome = true → q.queue = []

theorem Running.fault_eq_none {item : α × Nat} {rest : List (α × Nat)} (hq : q.Running)
    (hqueue : q.queue = item :: rest) : q.fault.isSome = false := by
  refine Bool.eq_false_iff.mpr fun hfault => ?_
  rw [hq.queue_of_fault hfault] at hqueue
  cases hqueue

theorem Running.withPace (hq : q.Running) (pace : List Stride) :
    ({ q with pace } : Outbound κ α).Running :=
  ⟨⟨hq.balanced.crashed_eq, hq.balanced.pending_eq⟩, hq.ended_eq, hq.queue_of_fault⟩

section

variable (hc : c.Steady) (hsent : ∀ sum, producer ≠ .sent sum)

include hc hsent

/-- A delivery is some steps of the consumer. -/
theorem deliverNext_leads (hq : q.Running) (flag token : Bool) :
    (q.deliverNext c).run.Running ∧
      ∃ flag' token', (q.parties flag token producer).Leads
        ((q.deliverNext c).run.parties flag' token' producer) := by
  have hdrains := deliverNext_drains hc hq.balanced
  rcases hqueue : q.queue with _ | ⟨⟨item, cost⟩, rest⟩
  · rw [deliverNext, hqueue]
    exact ⟨hq, flag, token, .refl⟩
  · have hopen := hq.fault_eq_none hqueue
    rw [parties, hqueue]
    obtain ⟨k, hnext | ⟨fault, hnext⟩⟩ := deliverNext_cases hc hqueue
    · rw [hnext] at hdrains ⊢
      refine ⟨⟨hdrains.balanced, hq.ended_eq, fun hfault => ?_⟩, Handshake.leads_taken hsent⟩
      exact absurd (hopen.symm.trans hfault) Bool.false_ne_true
    · have hzero : q.pending - total (cost :: rest.map Prod.snd) = 0 := by
        rw [hq.balanced.pending_eq, hqueue, totalCost, total, total_map_snd, Nat.sub_self]
      rw [hnext] at hdrains ⊢
      rw [hopen]
      obtain ⟨flag', token', hrefused⟩ := Handshake.leads_refused hsent
      rw [hzero] at hrefused
      exact ⟨⟨hdrains.balanced, hq.ended_eq, fun _ => rfl⟩, flag', token', hrefused⟩

/-- So are several. -/
theorem deliver_leads (count : Nat) (hq : q.Running) (flag token : Bool) :
    (q.deliver c count).run.Running ∧
      ∃ flag' token', (q.parties flag token producer).Leads
        ((q.deliver c count).run.parties flag' token' producer) := by
  induction count generalizing q flag token with
  | zero => exact ⟨hq, flag, token, .refl⟩
  | succ count ih =>
    obtain ⟨hq₁, flag₁, token₁, hnext⟩ := deliverNext_leads hc hsent hq flag token
    obtain ⟨hq₂, flag₂, token₂, hrest⟩ := ih hq₁ flag₁ token₁
    exact ⟨hq₂, flag₂, token₂, hnext.trans hrest⟩

/-- So is the stride before a call. -/
theorem advance_leads (hq : q.Running) (flag token : Bool) :
    (q.advance c).run.2.Running ∧
      ∃ flag' token', (q.parties flag token producer).Leads
        ((q.advance c).run.2.parties flag' token' producer) := by
  unfold advance
  split
  · exact ⟨hq, flag, token, .refl⟩
  · rename_i stride pace _
    exact deliver_leads hc hsent stride.taken (hq.withPace pace) flag token

end

/-- A queue on which a fault is set accepts nothing, and tells the producer to stop. -/
theorem faultAnswer_of_isSome (hfault : q.fault.isSome = true) :
    ∃ answer, q.faultAnswer = some answer ∧ after answer = .stopped := by
  rcases hf : q.fault with _ | _ | message
  · rw [hf] at hfault
    cases hfault
  · exact ⟨.ok .closed, by rw [faultAnswer, hf], rfl⟩
  · exact ⟨.error (.delivery message), by rw [faultAnswer, hf], rfl⟩

/-- A push is some steps of the producer. -/
theorem enqueue_leads (item : α) (cost : Nat) (hq : q.Running) (flag token : Bool) :
    (q.enqueue item cost).2.Running ∧ ∃ flag', (q.parties flag token .free).Leads
      ((q.enqueue item cost).2.parties flag' token (after (q.enqueue item cost).1)) := by
  cases hfault : q.fault.isSome with
  | true =>
    obtain ⟨answer, hanswer, hafter⟩ := faultAnswer_of_isSome hfault
    have hrefused : q.enqueue item cost = (answer, q) := by rw [enqueue, hanswer]
    simp only [hrefused, hafter, parties, hfault]
    exact ⟨hq, flag, Handshake.leads_stopped (.inl rfl)⟩
  | false =>
    have hnone : q.fault = none := Option.isNone_iff_eq_none.mp (by simpa using hfault)
    have hopen : q.Open := ⟨hnone, hq.ended_eq, hq.balanced.crashed_eq⟩
    simp only [enqueue_of_open item cost hopen, parties, hfault, List.map_append, List.map_cons,
      List.map_nil]
    refine ⟨⟨⟨hq.balanced.crashed_eq, ?_⟩, hq.ended_eq, ?_⟩, ?_⟩
    · exact (congrArg (· + cost) hq.balanced.pending_eq).trans (totalCost_concat ..).symm
    · intro hsome
      exact absurd (hfault.symm.trans hsome) Bool.false_ne_true
    · have hphase : after (.ok (if q.marks.high < q.pending + cost then .saturated else .ready)) =
          if q.marks.high < q.pending + cost then .waiting else .free := by
        split <;> rfl
      simp only [hphase]
      exact Handshake.leads_pushed

/-- The end of a wait is some steps of the producer. -/
theorem waited_leads (hlow : q.pending ≤ q.marks.low) (flag token : Bool) :
    ∃ flag', (q.parties flag token .waiting).Leads
      (q.parties flag' token (after (q.faultAnswer.getD (.ok .ready)))) := by
  cases hfault : q.fault.isSome with
  | true =>
    obtain ⟨answer, hanswer, hafter⟩ := faultAnswer_of_isSome hfault
    simp only [hanswer, Option.getD_some, hafter, parties, hfault]
    exact ⟨flag, Handshake.leads_stopped (.inr rfl)⟩
  | false =>
    have hnone : q.fault = none := Option.isNone_iff_eq_none.mp (by simpa using hfault)
    simp only [faultAnswer, hnone, parties, Option.isSome_none]
    exact ⟨false, Handshake.leads_waited hlow⟩

/-- Whatever is done with a queue by whole calls is done by the two parties in some order of their
steps, in which the consumer is never overtaken. -/
theorem Turns.leads {marks : Marks} {pace : List Stride} {k : κ} (hc : c.Steady)
    (ht : Turns c (Outbound.start marks pace k) producer q) :
    q.Running ∧ (∀ sum, producer ≠ .sent sum) ∧
      ∃ flag token, (Handshake.start marks).Leads (q.parties flag token producer) := by
  have hafter (answer : Except SinkError WriteStatus) (sum : Nat) : after answer ≠ .sent sum := by
    rcases answer with _ | _ | _ | _ <;> nofun
  induction ht with
  | start => exact ⟨⟨⟨rfl, rfl⟩, rfl, nofun⟩, nofun, false, false, .refl⟩
  | @push q item cost ht ih =>
    obtain ⟨hq, hsent, flag, token, hleads⟩ := ih
    obtain ⟨hq₁, flag₁, token₁, hadvance⟩ := advance_leads hc hsent hq flag token
    obtain ⟨hq₂, flag₂, hpush⟩ := enqueue_leads item cost hq₁ flag₁ token₁
    exact ⟨hq₂, hafter _, flag₂, token₁, hleads.trans (hadvance.trans hpush)⟩
  | @awaitDrain q ht ih =>
    obtain ⟨hq, hsent, flag, token, hleads⟩ := ih
    have hlow := awaitDrain_le hc hq.balanced
    rw [← (awaitDrain_drains hc hq.balanced).marks_eq] at hlow
    obtain ⟨hq₁, flag₁, token₁, hadvance⟩ := advance_leads hc hsent hq flag token
    obtain ⟨hq₂, flag₂, token₂, hdeliver⟩ := deliver_leads hc hsent _ hq₁ flag₁ token₁
    obtain ⟨flag₃, hwaited⟩ := waited_leads hlow flag₂ token₂
    exact ⟨hq₂, hafter _, flag₃, token₂,
      hleads.trans (hadvance.trans (hdeliver.trans hwaited))⟩
  | @deliver phase q count ht ih =>
    obtain ⟨hq, hsent, flag, token, hleads⟩ := ih
    obtain ⟨hq₁, flag₁, token₁, hdeliver⟩ := deliver_leads hc hsent count hq flag token
    exact ⟨hq₁, hsent, flag₁, token₁, hleads.trans hdeliver⟩

end Outbound

/-- Some order of the steps of the parties leads from their start to this moment, and at no moment of it
is the consumer overtaken or the producer left asleep. -/
def Handshake.Led (marks : Marks) (h : Handshake) : Prop :=
  ∃ all, (start marks).moves all = h ∧ ∀ before, before <+: all →
    ((start marks).moves before).overtaken = false ∧ ¬((start marks).moves before).Deserted

/-- Whole calls lead to moments of this kind. -/
theorem Outbound.Turns.led {c : Consumer Id κ α} {marks : Marks} {pace : List Stride} {k : κ}
    {producer : ProducerPhase} {q : Outbound κ α} (hc : c.Steady)
    (ht : Turns c (Outbound.start marks pace k) producer q) :
    ∃ flag token, (q.parties flag token producer).Led marks := by
  obtain ⟨-, -, flag, token, hleads⟩ := ht.leads hc
  obtain ⟨all, hmoves, hnever⟩ := hleads.exists_moves
    (Handshake.overtaken_eq_false_of_consumer rfl)
  refine ⟨flag, token, all, hmoves, fun before hbefore => ⟨hnever before hbefore, ?_⟩⟩
  exact Handshake.not_deserted_of_never_overtaken marks fun earlier hearlier =>
    hnever earlier (hearlier.trans hbefore)

/-- What is said in a run of the pump to a sink, up to an end, is done on its queue by the two parties in
some order of their steps, in which the producer is never left asleep. -/
def QueuedSink.RunByParties {σ η : Type} (S : QueuedSink σ κ α) (marks : Marks)
    (hook : Option (Hook Id η)) (pulls : List Pull) (s : σ) (h : η) : Prop :=
  let (_, events) :=
    ((pump S.sink.noted (Hook.ofOption (hook.map Hook.noted)) pulls s h).run []).run
  ∃ said ends s', events = said ++ ends ∧
    (∀ event ∈ ends, event.isFinish = true ∨ event.isForce = true) ∧ S.sink.Answers s said s' ∧
      ∃ flag token producer, ((S.out s').parties flag token producer).Led marks

/-- This is so if a wait is answered as the queue answers it. -/
theorem QueuedSink.runByParties {σ η : Type} (S : QueuedSink σ κ α)
    (hwait : ∀ s, (S.sink.awaitDrain s).run.1 = ((S.out s).awaitDrain S.consumer).run.1)
    {marks : Marks} {pace : List Stride} {k : κ} (hook : Option (Hook Id η)) (pulls : List Pull)
    {s : σ} (h : η) (hstart : S.out s = Outbound.start marks pace k) :
    S.RunByParties marks hook pulls s h := by
  obtain ⟨⟨result, hrun⟩, hanswers⟩ := run_said S.sink hook pulls s h
  have hfree : Outbound.Turns S.consumer (Outbound.start marks pace k) .free (S.out s) :=
    hstart ▸ .start
  obtain ⟨said, ends, s', phase, hsaid, hends, hsaidAnswers, ht⟩ :=
    S.turns_run hwait hrun hfree hanswers
  obtain ⟨flag, token, hled⟩ := ht.led S.steady
  exact ⟨said, ends, s', hsaid, hends, hsaidAnswers, flag, token, phase, hled⟩

/-- A run of the pump into a response and one into a publisher are runs of the two parties. -/
theorem run_by_parties (marks : Marks) (pace : List Stride) {η : Type} (hook : Option (Hook Id η))
    (h : η) (pulls : List Pull) :
    (∀ framing departure, Http.Response.queuedSink.RunByParties marks hook pulls
      (.start framing marks pace departure) h) ∧
    ∀ {κ : Type} (bus : EventBus Id κ) (job : Job) (state : κ),
      (Publisher.queuedSink bus).RunByParties marks hook pulls (.start job marks pace state) h :=
  ⟨fun _ _ => Http.Response.queuedSink.runByParties (fun _ => rfl) hook pulls h rfl,
    fun bus _ _ => (Publisher.queuedSink bus).runByParties (fun _ => rfl) hook pulls h rfl⟩

end InventoryFeed

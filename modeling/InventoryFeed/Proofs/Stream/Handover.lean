import InventoryFeed.Proofs.Stream.Watching

/-!
# What a queue hands over along all uses

Watching a queue changes nothing of what it does. Since every use keeps the account, the account holds
at every moment, whatever was done with the queue before; and a queue that is closed stays as it is.
-/

namespace InventoryFeed

variable {κ α : Type}

/-- Watching changes nothing of what a use comes to. -/
theorem Outbound.unwatched_use (c : Consumer Id κ α) (q : Outbound (κ × List (Handover α)) α)
    (u : QueueUse α) :
    (q.use c.watched u).1 = (q.unwatched.use c u).1 ∧
      (q.use c.watched u).2.unwatched = (q.unwatched.use c u).2 :=
  through_use c.watched_shows q u

namespace Watched

variable {w : Watched κ α} {c : Consumer Id κ α}

/-- A watched queue accounts for what it accepted. -/
def Accounted (w : Watched κ α) : Prop := w.queue.Accounted w.accepted w.ending

/-- Every use keeps the account. -/
theorem Accounted.use (h : w.Accounted) (u : QueueUse α) : (w.use c u).Accounted := by
  have hnothing {queue : Outbound (κ × List (Handover α)) α} {ending : Option Bool}
      (h' : queue.Accounted w.accepted ending) : queue.Accounted (w.accepted ++ []) ending := by
    rwa [List.append_nil]
  have hopen {queue : Outbound (κ × List (Handover α)) α} {accepted : List (α × Nat)}
      (h' : queue.Accounted accepted w.ending) :
      queue.Accounted accepted (w.ending.or none) := by
    rwa [Option.or_none]
  cases u with
  | drop => exact hnothing (Outbound.drainAndEnd_accounted (c := c) (g := ()) h _ () rfl)
  | call what =>
    cases what with
    | push item cost =>
      exact hopen (Outbound.push_accounted (c := c) (g := ()) item cost h _ () rfl)
    | deliver count =>
      exact hnothing (hopen (Outbound.deliver_accounted (c := c) (g := ()) count h _ () rfl).1)
    | awaitDrain =>
      exact hnothing (hopen (Outbound.awaitDrain_accounted (c := c) (g := ()) h _ () rfl))
    | finish =>
      have hended := Outbound.drainAndEnd_accounted (c := c) (g := ()) h _ () rfl
      have hfinish : (w.use c (.call .finish)).queue = (w.queue.finish c.watched).run.2 := rfl
      rw [Outbound.finish_run] at hfinish
      change (w.use c (.call .finish)).queue.Accounted _ _
      rw [hfinish]
      exact hnothing hended
    | abort =>
      have hstride := (Outbound.advance_accounted (c := c) (g := ()) h _ () rfl).1
      exact hnothing (Outbound.cutOff_accounted (c := c) (g := ()) _ hstride _ () rfl).1

/-- So do all of them together. -/
theorem Accounted.uses (h : w.Accounted) (all : List (QueueUse α)) : (w.uses c all).Accounted := by
  induction all generalizing w with
  | nil => exact h
  | cons u rest ih => exact ih (h.use u)

/-- What is known of a watched queue at every moment. -/
structure Kept (w : Watched κ α) : Prop where
  /-- The items that were taken are the first of those that were accepted, in their order. -/
  order : Handover.taken w.record <+: w.accepted.map Prod.fst
  /-- The accepted items, in their order, are those that were taken, those that were lost and those
  that are queued; none is lost unless the consumer failed, left or crashed or was cut off. -/
  account : ∃ taken lost, w.accepted = taken ++ (lost ++ w.queue.queue) ∧
    Handover.taken w.record = taken.map Prod.fst ∧
    (w.queue.fault = none → w.queue.crashed = false → w.ending ≠ some true → lost = [])
  /-- The pending cost is that of what is queued. -/
  pending_eq : w.queue.crashed = false → w.queue.pending = Outbound.totalCost w.queue.queue
  /-- Nothing is queued or pending once the queue was ended. -/
  at_end : w.ending.isSome → w.queue.queue = [] ∧ (w.queue.crashed = false → w.queue.pending = 0)
  /-- The consumer is told of the end once, behind all offers, and how the first end was meant, unless
  it crashed. -/
  closed_once : w.record = Handover.ofOffers (Handover.offers w.record) ++
    if w.queue.crashed then [] else w.ending.toList.map Handover.closed
  /-- Nothing is offered behind an item that was not taken. -/
  stopped : ∀ offer ∈ (Handover.offers w.record).dropLast, offer.2 = .taken
  /-- The fault is the one with which an item was refused. -/
  fault_eq : w.queue.crashed = false → w.queue.fault = w.record.findSome? Handover.refusal?

/-- A queue that accounts for what it accepted is known to be so. -/
theorem Accounted.kept (h : w.Accounted) : w.Kept := by
  obtain ⟨cut, taken, lost, stop, h, hcut⟩ := h
  let first : List (α × Receipt) := taken.map fun entry => (entry.1, .taken)
  have hfirst : ∀ offer ∈ first, offer.2 = .taken := by
    intro offer ho
    obtain ⟨entry, -, rfl⟩ := List.mem_map.mp ho
    rfl
  have hrecord : w.record = Handover.ofOffers (first ++ stop.toList) ++
      if w.queue.crashed then [] else w.ending.toList.map .closed := h.record_eq
  have hoffers : Handover.offers w.record = first ++ stop.toList := by
    rw [hrecord, Handover.offers_append, Handover.offers_ofOffers]
    split
    · exact List.append_nil _
    · rw [Handover.offers_closed, List.append_nil]
  have htaken : Handover.taken w.record = taken.map Prod.fst := h.taken_record
  refine ⟨?_, ⟨taken, lost, h.accepted_eq, htaken, fun hfault hcrashed hending => ?_⟩, h.pending_eq,
    fun hended => ⟨h.queue_of_ending hended, fun hcrashed => ?_⟩, ?_, ?_, fun hcrashed => ?_⟩
  · rw [htaken, h.accepted_eq, List.map_append]
    exact List.prefix_append _ _
  · exact h.lost_eq_nil hcut (h.stop_eq_none hfault hcrashed) hending
  · rw [h.pending_eq hcrashed, h.queue_of_ending hended]
    rfl
  · rw [hoffers]
    exact hrecord
  · rw [hoffers]
    intro offer ho
    refine hfirst offer ?_
    rcases stop with _ | last
    · exact List.dropLast_subset _ (by simpa using ho)
    · simpa using ho
  · have hnone : first.findSome? (fun offer => offer.2.fault?) = none := by
      refine List.findSome?_eq_none_iff.mpr fun offer ho => ?_
      rw [hfirst offer ho]
      rfl
    have hfault := h.fault_eq
    rw [hcrashed, if_neg nofun] at hrecord hfault
    rw [hfault, hrecord, List.findSome?_append, Handover.refusal?_closed,
      Handover.refusal?_ofOffers, List.findSome?_append, hnone]
    rcases stop with _ | offer
    · rfl
    · simp

/-- A watched queue is known to be so at every moment of a use. -/
theorem Accounted.moments (h : w.Accounted) (u : QueueUse α) :
    ∀ w' ∈ w.moments c u, w'.Kept := by
  intro w' hw'
  rcases List.mem_append.mp hw' with hpassing | hlast
  · obtain ⟨queue, hqueue, rfl⟩ := List.mem_map.mp hpassing
    exact Accounted.kept (w := { w with queue }) (Outbound.passing_accounted h _ queue hqueue)
  · obtain rfl := List.mem_singleton.mp hlast
    exact (h.use u).kept

/-- A queue that accepts nothing any more offers nothing either. -/
theorem Accounted.rest (h : w.Accounted) (ho : ¬w.queue.Open) (later : List (QueueUse α)) :
    (w.uses c later).accepted = w.accepted ∧
      Handover.offers (w.uses c later).record = Handover.offers w.record := by
  have hrest : w.queue.AtRest := ⟨h.queue_eq_nil ho, ho⟩
  clear h ho
  induction later generalizing w with
  | nil => exact ⟨rfl, rfl⟩
  | cons u rest ih =>
    obtain ⟨⟨hnext, hoffers⟩, haccepted⟩ := hrest.use (c := c) u
    obtain ⟨hrestAccepted, hrestOffers⟩ := ih (w := w.use c u) hnext
    refine ⟨hrestAccepted.trans ?_, hrestOffers.trans hoffers⟩
    exact (congrArg (w.accepted ++ ·) haccepted).trans (List.append_nil _)

/-- Watching changes nothing of what uses come to. -/
theorem unwatched_uses (all : List (QueueUse α)) :
    (w.uses c all).queue.unwatched = w.queue.unwatched.uses c all := by
  induction all generalizing w with
  | nil => rfl
  | cons u rest ih =>
    have hrest := ih (w := w.use c u)
    have hfirst : (w.use c u).queue.unwatched = (w.queue.unwatched.use c u).2 :=
      (Outbound.unwatched_use c w.queue u).2
    rw [hfirst] at hrest
    exact hrest

/-- A queue that is ended without a fault, and was not cut off before, has delivered all that it
accepted. -/
theorem Accounted.whole (h : w.Accounted) (hending : w.ending ≠ some true)
    (hfault : (w.queue.drainAndEnd c.watched).run.fault = none) :
    Handover.taken (w.queue.drainAndEnd c.watched).run.consumer.2 = w.accepted.map Prod.fst := by
  obtain ⟨cut, taken, lost, stop, hended, hcut⟩ :=
    Outbound.drainAndEnd_accounted (c := c) (g := ()) h _ () rfl
  have hsome : (w.ending.or (some false)).isSome := by cases w.ending <;> rfl
  have hnot : w.ending.or (some false) ≠ some true := by
    rcases hw : w.ending with _ | b
    · simp
    · simpa [hw] using hending
  have hstop := hended.stop_eq_none hfault (hended.crashed_eq_false hfault hsome)
  have haccepted := hended.accepted_eq
  rw [hended.lost_eq_nil hcut hstop hnot, hended.queue_of_ending hsome, List.append_nil,
    List.append_nil] at haccepted
  rw [haccepted]
  exact hended.taken_record

/-- Whatever is done with a queue, whatever its consumer makes of the items, and however many of them it
takes before each call: at every moment the items that it took are the first of those that were
accepted, in their order, and the pending cost is that of the items that are still queued; a queue that
a fault, a crash or an end has closed accepts and offers nothing any more; a queue that is ended or let
go without a fault and without having been cut off has delivered all that it accepted, and the end is
answered by an error if and only if the consumer refused an item; an end by force delivers at most the
item that the consumer holds; and the consumer is told of the end once, behind its last item. -/
theorem handed_over (c : Consumer Id κ α) (marks : Marks) (pace : List Stride) (consumer : κ)
    (all : List (QueueUse α)) :
    let w := (start marks pace consumer).uses c all
    let drained := (w.queue.drainAndEnd c.watched).run
    let finished := (w.queue.finish c.watched).run
    let stride := (w.queue.advance c.watched).run
    (w.Kept ∧ ∀ u, ∀ w' ∈ w.moments c u, w'.Kept) ∧
      (¬w.queue.Open → ∀ later, (w.uses c later).accepted = w.accepted ∧
        Handover.offers (w.uses c later).record = Handover.offers w.record) ∧
      (finished.2 = drained ∧
        (∀ text, finished.1 = .error (.delivery text) ↔ drained.fault = some (.failed text)) ∧
        (finished.1 = .ok () ↔ drained.fault = none ∨ drained.fault = some .gone) ∧
        (drained.fault = none → w.ending ≠ some true →
          Handover.taken drained.consumer.2 = w.accepted.map Prod.fst)) ∧
      (∃ more, Handover.offers (w.queue.abort c.watched).run.consumer.2 =
          Handover.offers stride.2.consumer.2 ++ more ∧
        more.map Prod.fst <+: stride.2.queue.map Prod.fst ∧
        more.length ≤ if stride.1 then 1 else 0) ∧
      w.queue.unwatched = (Outbound.start marks pace consumer).uses c all ∧
      ∀ u, (w.queue.use c.watched u).1 = (w.queue.unwatched.use c u).1 := by
  intro w drained finished stride
  have hstart : (start marks pace consumer : Watched κ α).Accounted :=
    Outbound.start_accounted marks pace consumer
  have h : w.Accounted := hstart.uses all
  have hfinished : finished = (Outbound.endAnswer drained.fault, drained) :=
    Outbound.finish_run c.watched w.queue
  have hstride : stride.2.Accounted w.accepted w.ending :=
    (Outbound.advance_accounted (c := c) (g := ()) h _ () rfl).1
  refine ⟨⟨h.kept, fun u => h.moments u⟩, h.rest, ⟨congrArg Prod.snd hfinished, ?_, ?_, ?_⟩, ?_,
    unwatched_uses all, fun u => (Outbound.unwatched_use c w.queue u).1⟩
  · intro text
    rw [hfinished]
    rcases drained.fault with _ | _ | message <;> simp [Outbound.endAnswer]
  · rw [hfinished]
    rcases drained.fault with _ | _ | message <;> simp [Outbound.endAnswer]
  · exact fun hfault hending => h.whole hending hfault
  · exact (Outbound.cutOff_accounted (c := c) (g := ()) stride.1 hstride _ () rfl).2

end Watched

end InventoryFeed

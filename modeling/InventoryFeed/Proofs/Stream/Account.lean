import InventoryFeed.Proofs.Stream.Outbound
import InventoryFeed.Stream.Handover

/-!
# The account of a queue

The items that a queue accepted fall into those that were taken, those that were lost with a fault, a
crash or a cut, and those that are still queued, in this order. The record of the consumer is made up of
the offers of the first, of the offer at which delivery stopped if it did, and of one end. Each
operation keeps this account and the pending cost that goes with it.
-/

namespace InventoryFeed

variable {m : Type → Type} [Monad m] {γ : Type} [Historied m γ] {κ α : Type}

/-- The fault of a receipt, if it is one. -/
def Receipt.fault? : Receipt → Option Fault
  | refused fault => some fault
  | _ => none

namespace Handover

@[simp] theorem offers_append (r r' : List (Handover α)) : offers (r ++ r') = offers r ++ offers r' :=
  List.filterMap_append

@[simp] theorem taken_append (r r' : List (Handover α)) : taken (r ++ r') = taken r ++ taken r' :=
  List.filterMap_append

theorem ofOffers_append (o o' : List (α × Receipt)) :
    ofOffers (o ++ o') = ofOffers o ++ ofOffers o' :=
  List.map_append

@[simp] theorem offers_ofOffers (o : List (α × Receipt)) : offers (ofOffers o) = o := by
  rw [offers, ofOffers, List.filterMap_map]
  exact List.filterMap_some

@[simp] theorem offers_closed (ends : List Bool) :
    offers (ends.map closed : List (Handover α)) = [] := by
  rw [offers, List.filterMap_map]
  exact List.filterMap_eq_nil_iff.mpr fun _ _ => rfl

theorem taken_ofOffers (o : List (α × Receipt)) :
    taken (ofOffers o) = (o.filter fun offer => offer.2 = .taken).map Prod.fst := by
  induction o with
  | nil => rfl
  | cons offer rest ih =>
    rcases offer with ⟨item, _ | _ | _⟩
    · exact congrArg (item :: ·) ih
    · exact ih
    · exact ih

theorem taken_closed (ends : List Bool) : taken (ends.map closed : List (Handover α)) = [] := by
  rw [taken, List.filterMap_map]
  exact List.filterMap_eq_nil_iff.mpr fun _ _ => rfl

theorem refusal?_ofOffers (o : List (α × Receipt)) :
    (ofOffers o).findSome? refusal? = o.findSome? fun offer => offer.2.fault? := by
  rw [ofOffers, List.findSome?_map]
  refine congrArg (List.findSome? · o) (funext ?_)
  rintro ⟨item, _ | _ | _⟩ <;> rfl

theorem refusal?_closed (ends : List Bool) :
    (ends.map closed : List (Handover α)).findSome? refusal? = none := by
  rw [List.findSome?_map]
  exact List.findSome?_eq_none_iff.mpr fun _ _ => rfl

end Handover

/-- Whatever a consumer does, its record shows the offer and the receipt. -/
theorem Consumer.watched_deliver (c : Consumer m κ α) (item : α) (s : κ × List (Handover α)) (g : γ) :
    Ensures (c.watched.deliver item s) g fun r _ => r.2.2 = s.2 ++ [.offered item r.1] := by
  have hany : Ensures (c.deliver item s.1) g fun _ _ => True := fun _ _ _ => trivial
  refine hany.bind ?_
  rintro ⟨receipt, k⟩ g' -
  exact .pure rfl

/-- And the end of delivery. -/
theorem Consumer.watched_close (c : Consumer m κ α) (aborted : Bool) (s : κ × List (Handover α))
    (g : γ) : Ensures (c.watched.close aborted s) g fun s' _ => s'.2 = s.2 ++ [.closed aborted] := by
  have hany : Ensures (c.close aborted s.1) g fun _ _ => True := fun _ _ _ => trivial
  refine hany.bind ?_
  rintro k g' -
  exact .pure rfl

namespace Outbound

/-- How a watched queue accounts for what it accepted, however it was ended; `cut` says that items
were dropped by force. -/
structure Accounts (accepted : List (α × Nat)) (ending : Option Bool) (cut : Bool)
    (taken lost : List (α × Nat)) (stop : Option (α × Receipt))
    (q : Outbound (κ × List (Handover α)) α) : Prop where
  /-- What was accepted was taken or lost or is queued. -/
  accepted_eq : accepted = taken ++ (lost ++ q.queue)
  /-- Items were offered until one was not taken, and the end comes last. -/
  record_eq : q.consumer.2 =
    Handover.ofOffers (taken.map (fun entry => (entry.1, .taken)) ++ stop.toList) ++
      if q.crashed then [] else ending.toList.map Handover.closed
  /-- The item that was not taken is the first that was lost. -/
  stop_lost : ∀ offer, stop = some offer →
    offer.2 ≠ .taken ∧ (lost.map Prod.fst).head? = some offer.1
  /-- Nothing is lost otherwise unless it was dropped. -/
  lost_of : lost ≠ [] → stop.isSome ∨ cut = true
  /-- The consumer crashed over the item at which delivery stopped. -/
  crashed_iff : q.crashed = true ↔ ∃ item, stop = some (item, .crashed)
  /-- The fault is the one with which that item was refused; a crash becomes one at the end. -/
  fault_eq : q.fault =
    if q.crashed then if q.ended then some (.failed crashText) else none
    else stop.bind (·.2.fault?)
  /-- Nothing is queued once delivery stopped. -/
  queue_of_stop : stop.isSome → q.queue = []
  /-- Nor once the queue was ended. -/
  queue_of_ending : ending.isSome → q.queue = []
  /-- The queue knows that it was ended. -/
  ended_eq : q.ended = ending.isSome
  /-- What is pending is the cost of what is queued. -/
  pending_eq : q.crashed = false → q.pending = totalCost q.queue

/-- A watched queue accounts for what it accepted; only a cut drops items. -/
def Accounted (accepted : List (α × Nat)) (ending : Option Bool)
    (q : Outbound (κ × List (Handover α)) α) : Prop :=
  ∃ cut taken lost stop, q.Accounts accepted ending cut taken lost stop ∧
    (cut = true → ending = some true)

/-- What was offered between two states of a queue: at most so many items, from the front, and what is
queued comes behind them. -/
def Offered (count : Nat) (q q' : Outbound (κ × List (Handover α)) α) : Prop :=
  ∃ more, q'.consumer.2 = q.consumer.2 ++ Handover.ofOffers more ∧
    more.map Prod.fst ++ q'.queue.map Prod.fst <+: q.queue.map Prod.fst ∧
    more.length ≤ count ∧ q'.queue.length ≤ q.queue.length - count

variable {c : Consumer m κ α} {accepted taken lost : List (α × Nat)} {ending : Option Bool}
  {cut : Bool} {stop : Option (α × Receipt)} {q q' q'' : Outbound (κ × List (Handover α)) α} {g : γ}

/-- A queue before its first item accounts for nothing. -/
theorem start_accounted (marks : Marks) (pace : List Stride) (k : κ) :
    (start marks pace (k, []) : Outbound (κ × List (Handover α)) α).Accounted [] none := by
  refine ⟨false, [], [], none, ⟨rfl, rfl, ?_, ?_, ?_, rfl, fun _ => rfl, fun _ => rfl, rfl,
    fun _ => rfl⟩, ?_⟩
  · intro offer h
    cases h
  · exact fun h => absurd rfl h
  · constructor
    · intro h
      cases h
    · rintro ⟨item, h⟩
      cases h
  · intro h
    cases h

/-- Without a fault or a crash delivery has not stopped. -/
theorem Accounts.stop_eq_none (h : q.Accounts accepted ending cut taken lost stop)
    (hfault : q.fault = none) (hcrashed : q.crashed = false) : stop = none := by
  rcases hs : stop with _ | ⟨item, receipt⟩
  · rfl
  · have hnot := (h.stop_lost _ hs).1
    have heq := h.fault_eq
    cases receipt with
    | taken => exact absurd rfl hnot
    | refused fault => simp [hs, hcrashed, hfault, Receipt.fault?] at heq
    | crashed => exact absurd (h.crashed_iff.mpr ⟨item, hs⟩) (by simp [hcrashed])

/-- Unless delivery stopped or was cut off, nothing is lost. -/
theorem Accounts.lost_eq_nil (h : q.Accounts accepted ending cut taken lost stop)
    (hcut : cut = true → ending = some true) (hstop : stop = none) (hending : ending ≠ some true) :
    lost = [] := by
  by_contra hne
  rcases h.lost_of hne with hs | hc
  · simp [hstop] at hs
  · exact hending (hcut hc)

/-- Once a queue was ended, a crash shows as a fault. -/
theorem Accounts.crashed_eq_false (h : q.Accounts accepted ending cut taken lost stop)
    (hfault : q.fault = none) (hending : ending.isSome) : q.crashed = false := by
  refine Bool.eq_false_iff.mpr fun hcrashed => ?_
  have heq := h.fault_eq
  rw [hfault, if_pos hcrashed, h.ended_eq, if_pos hending] at heq
  cases heq

/-- The record shows the items that were taken. -/
theorem Accounts.taken_record (h : q.Accounts accepted ending cut taken lost stop) :
    Handover.taken q.consumer.2 = taken.map Prod.fst := by
  have hends : Handover.taken
      (if q.crashed then [] else ending.toList.map Handover.closed : List (Handover α)) = [] := by
    split
    · rfl
    · exact Handover.taken_closed _
  have hstop : stop.toList.filter (fun offer => offer.2 = .taken) = [] := by
    rcases hs : stop with _ | offer
    · rfl
    · simp [(h.stop_lost offer hs).1]
  have hall : ∀ offer ∈ taken.map (fun entry => (entry.1, Receipt.taken)),
      decide (offer.2 = .taken) = true := by
    intro offer ho
    obtain ⟨entry, -, rfl⟩ := List.mem_map.mp ho
    rfl
  rw [h.record_eq, Handover.taken_append, hends, List.append_nil, Handover.taken_ofOffers,
    List.filter_append, hstop, List.append_nil, List.filter_eq_self.mpr hall, List.map_map]
  rfl

/-- While something is queued, delivery has neither stopped nor ended, and nothing is lost. -/
theorem Accounts.of_queue (h : q.Accounts accepted ending cut taken lost stop) (hq : q.queue ≠ [])
    (hcut : cut = true → ending = some true) :
    stop = none ∧ ending = none ∧ lost = [] ∧ q.crashed = false ∧ q.fault = none := by
  have hstop : stop = none := Option.not_isSome_iff_eq_none.mp fun hs => hq (h.queue_of_stop hs)
  have hending : ending = none :=
    Option.not_isSome_iff_eq_none.mp fun hs => hq (h.queue_of_ending hs)
  subst hstop hending
  have hlost := h.lost_eq_nil hcut rfl (by simp)
  have hcrashed : q.crashed = false := by
    refine Bool.eq_false_iff.mpr fun hc => ?_
    obtain ⟨item, hitem⟩ := h.crashed_iff.mp hc
    cases hitem
  exact ⟨rfl, rfl, hlost, hcrashed, by rw [h.fault_eq, hcrashed]; rfl⟩

theorem Offered.refl (q : Outbound (κ × List (Handover α)) α) : q.Offered 0 q :=
  ⟨[], (List.append_nil _).symm, List.prefix_rfl, Nat.le_refl _, Nat.le_refl _⟩

theorem Offered.trans {n n' : Nat} (h : q.Offered n q') (h' : q'.Offered n' q'') :
    q.Offered (n + n') q'' := by
  obtain ⟨more, hrecord, hitems, hlength, hqueue⟩ := h
  obtain ⟨more', hrecord', hitems', hlength', hqueue'⟩ := h'
  refine ⟨more ++ more', ?_, ?_, ?_, by omega⟩
  · rw [hrecord', hrecord, Handover.ofOffers_append, List.append_assoc]
  · rw [List.map_append, List.append_assoc]
    exact ((List.prefix_append_right_inj _).mpr hitems').trans hitems
  · rw [List.length_append]
    omega

/-- An item that is not taken is lost with all that is queued behind it. -/
theorem Accounts.halt (q' : Outbound (κ × List (Handover α)) α) (receipt : Receipt) {item : α}
    {cost : Nat} {rest : List (α × Nat)} (h : q.Accounts accepted none cut taken [] none)
    (hq : q.queue = (item, cost) :: rest)
    (hcrashed : q.crashed = false) (hreceipt : receipt ≠ .taken)
    (hrecord : q'.consumer.2 = q.consumer.2 ++ [.offered item receipt]) (hqueue : q'.queue = [])
    (hended : q'.ended = q.ended) (hfault : q'.fault = receipt.fault?)
    (hcrashed' : q'.crashed = decide (receipt = .crashed))
    (hpending : q'.crashed = false → q'.pending = 0) :
    q'.Accounts accepted none cut taken ((item, cost) :: rest) (some (item, receipt)) where
  accepted_eq := by rw [h.accepted_eq, hq, hqueue, List.nil_append, List.append_nil]
  record_eq := by
    rw [hrecord, h.record_eq, Handover.ofOffers_append, Handover.ofOffers_append]
    simp [hcrashed, Handover.ofOffers]
  stop_lost := by
    rintro offer ⟨⟩
    exact ⟨hreceipt, rfl⟩
  lost_of := fun _ => .inl rfl
  crashed_iff := by simp [hcrashed']
  fault_eq := by
    rw [hfault, hcrashed', hended, h.ended_eq]
    cases receipt <;> rfl
  queue_of_stop := fun _ => hqueue
  queue_of_ending := fun _ => hqueue
  ended_eq := hended.trans h.ended_eq
  pending_eq := fun hc => (hpending hc).trans (congrArg totalCost hqueue).symm

/-- An item that is taken moves from the queue to those that were taken. -/
theorem Accounts.take {item : α} {cost : Nat} {rest : List (α × Nat)}
    {s : κ × List (Handover α)} (h : q.Accounts accepted none cut taken [] none)
    (hq : q.queue = (item, cost) :: rest) (hcrashed : q.crashed = false)
    (hs : s.2 = q.consumer.2 ++ [.offered item .taken]) :
    ({ q with consumer := s, queue := rest, pending := q.pending - cost } :
      Outbound (κ × List (Handover α)) α).Accounts accepted none cut (taken ++ [(item, cost)]) []
        none where
  accepted_eq := by rw [h.accepted_eq, hq, List.append_assoc]; rfl
  record_eq := by
    rw [hs, h.record_eq]
    simp [hcrashed, Handover.ofOffers]
  stop_lost := h.stop_lost
  lost_of := h.lost_of
  crashed_iff := h.crashed_iff
  fault_eq := h.fault_eq
  queue_of_stop := fun hs => absurd hs (by simp)
  queue_of_ending := fun hs => absurd hs (by simp)
  ended_eq := h.ended_eq
  pending_eq := by
    intro hc
    have hpending := h.pending_eq hc
    rw [hq, totalCost] at hpending
    exact (congrArg (· - cost) hpending).trans (Nat.add_sub_cancel_left ..)

/-- The consumer's step keeps the account, and offers the item at the front. -/
theorem deliverNext_accounted (h : q.Accounted accepted ending) :
    Ensures (q.deliverNext c.watched) g fun q' _ =>
      q'.Accounted accepted ending ∧ q.Offered 1 q' := by
  unfold deliverNext
  split
  · rename_i hq
    exact .pure ⟨h, [], (List.append_nil _).symm, List.prefix_rfl, by simp, by simp [hq]⟩
  · rename_i item cost rest hq
    obtain ⟨cut, taken, lost, stop, h, hcut⟩ := h
    obtain ⟨rfl, rfl, rfl, hcrashed, hfault⟩ := h.of_queue (by simp [hq]) hcut
    refine (c.watched_deliver item q.consumer g).bind ?_
    rintro ⟨receipt, s⟩ g' hs
    dsimp only at hs ⊢
    cases receipt with
    | taken =>
      exact .pure ⟨⟨cut, _, _, _, h.take hq hcrashed hs, hcut⟩, [(item, .taken)], hs,
        by simp [hq], by simp, by simp [hq]⟩
    | refused fault =>
      have hhalt := Accounts.halt
        { q with consumer := s, queue := [], pending := 0, fault := some fault } (.refused fault) h
        hq hcrashed (by simp) hs rfl rfl rfl hcrashed fun _ => rfl
      exact .pure ⟨⟨cut, _, _, _, hhalt, hcut⟩, [(item, .refused fault)], hs, by simp [hq],
        by simp, by simp⟩
    | crashed =>
      have hhalt := Accounts.halt { q with consumer := s, queue := [], crashed := true } .crashed h
        hq hcrashed (by simp) hs rfl rfl hfault rfl fun hc => absurd hc (by simp)
      exact .pure ⟨⟨cut, _, _, _, hhalt, hcut⟩, [(item, .crashed)], hs, by simp [hq], by simp,
        by simp⟩

/-- So do several of its steps. -/
theorem deliver_accounted (count : Nat) (h : q.Accounted accepted ending) :
    Ensures (q.deliver c.watched count) g fun q' _ =>
      q'.Accounted accepted ending ∧ q.Offered count q' := by
  induction count generalizing q g with
  | zero => exact .pure ⟨h, .refl q⟩
  | succ count ih =>
    refine (deliverNext_accounted h).bind ?_
    rintro q₁ g₁ ⟨h₁, hoffered₁⟩
    refine (ih h₁).mono ?_
    rintro q₂ g₂ ⟨h₂, hoffered₂⟩
    exact ⟨h₂, Nat.add_comm 1 count ▸ hoffered₁.trans hoffered₂⟩

/-- What is left of the pace does not matter for the account. -/
theorem Accounted.withPace (h : q.Accounted accepted ending) (pace : List Stride) :
    ({ q with pace } : Outbound (κ × List (Handover α)) α).Accounted accepted ending := by
  obtain ⟨cut, taken, lost, stop, h, hcut⟩ := h
  exact ⟨cut, taken, lost, stop, ⟨h.accepted_eq, h.record_eq, h.stop_lost, h.lost_of, h.crashed_iff,
    h.fault_eq, h.queue_of_stop, h.queue_of_ending, h.ended_eq, h.pending_eq⟩, hcut⟩

/-- So does the stride before a call. -/
theorem advance_accounted (h : q.Accounted accepted ending) :
    Ensures (q.advance c.watched) g fun r _ =>
      r.2.Accounted accepted ending ∧ ∃ count, q.Offered count r.2 := by
  unfold advance
  split
  · exact .pure ⟨h, 0, .refl q⟩
  · rename_i stride pace _
    refine (deliver_accounted stride.taken (h.withPace pace)).bind ?_
    rintro q₁ g₁ ⟨h₁, hoffered⟩
    exact .pure ⟨h₁, stride.taken, hoffered⟩

/-- While a queue is open, delivery has neither stopped nor ended, and nothing is lost. -/
theorem Accounts.of_open (h : q.Accounts accepted ending cut taken lost stop) (ho : q.Open)
    (hcut : cut = true → ending = some true) : stop = none ∧ ending = none ∧ lost = [] := by
  obtain ⟨hfault, hended, hcrashed⟩ := ho
  have hending : ending = none := by simpa [h.ended_eq] using hended
  have hstop := h.stop_eq_none hfault hcrashed
  exact ⟨hstop, hending, h.lost_eq_nil hcut hstop (by simp [hending])⟩

theorem totalCost_concat (queue : List (α × Nat)) (item : α) (cost : Nat) :
    totalCost (queue ++ [(item, cost)]) = totalCost queue + cost := by
  induction queue with
  | nil => simp [totalCost]
  | cons entry rest ih =>
    rw [List.cons_append, totalCost, totalCost, ih]
    exact (Nat.add_assoc ..).symm

/-- An item that was put at the end of the queue is accounted for with those before it. -/
theorem enqueue_accounted (item : α) (cost : Nat) (h : q.Accounted accepted ending) :
    (q.enqueue item cost).2.Accounted
        (accepted ++ if Script.accepts (q.enqueue item cost).1 then [(item, cost)] else []) ending ∧
      (q.enqueue item cost).2.consumer = q.consumer := by
  by_cases ho : q.Open
  · obtain ⟨cut, taken, lost, stop, h, hcut⟩ := h
    obtain ⟨rfl, rfl, rfl⟩ := h.of_open ho hcut
    have haccepts : Script.accepts (q.enqueue item cost).1 = true := by
      rw [enqueue_of_open item cost ho]
      split <;> rfl
    rw [haccepts, if_pos rfl, enqueue_of_open item cost ho]
    refine ⟨⟨cut, taken, [], none, ⟨?_, h.record_eq, h.stop_lost, h.lost_of, h.crashed_iff,
      h.fault_eq, fun hs => absurd hs (by simp), fun hs => absurd hs (by simp), h.ended_eq, ?_⟩,
      hcut⟩, rfl⟩
    · rw [h.accepted_eq, List.append_assoc]
      rfl
    · intro hcrashed
      exact (congrArg (· + cost) (h.pending_eq hcrashed)).trans (totalCost_concat ..).symm
  · obtain ⟨haccepts, hq⟩ := enqueue_of_not_open item cost ho
    rw [haccepts, hq]
    exact ⟨(List.append_nil accepted).symm ▸ h, rfl⟩

/-- What a call accepted is accounted for. -/
theorem push_accounted (item : α) (cost : Nat) (h : q.Accounted accepted ending) :
    Ensures (q.push c.watched item cost) g fun r _ =>
      r.2.Accounted (accepted ++ if Script.accepts r.1 then [(item, cost)] else []) ending := by
  refine (advance_accounted h).bind ?_
  rintro ⟨holds, q₁⟩ g₁ ⟨h₁, -⟩
  exact .pure (enqueue_accounted item cost h₁).1

/-- A wait accepts nothing. -/
theorem awaitDrain_accounted (h : q.Accounted accepted ending) :
    Ensures (q.awaitDrain c.watched) g fun r _ => r.2.Accounted accepted ending := by
  refine (advance_accounted h).bind ?_
  rintro ⟨holds, q₁⟩ g₁ ⟨h₁, -⟩
  refine (deliver_accounted _ h₁).bind ?_
  rintro q₂ g₂ ⟨h₂, -⟩
  exact .pure h₂

/-- An end of a queue in which nothing is left tells the consumer, once. -/
theorem endWith_accounts (aborted : Bool) (h : q.Accounts accepted ending cut taken lost stop)
    (hq : q.queue = []) :
    Ensures (q.endWith c.watched aborted) g fun q' _ =>
      q'.Accounts accepted (ending.or (some aborted)) cut taken lost stop ∧
        Handover.offers q'.consumer.2 = Handover.offers q.consumer.2 := by
  unfold endWith
  have hended := h.ended_eq
  split
  · rename_i he
    obtain ⟨b, rfl⟩ := Option.isSome_iff_exists.mp (hended ▸ he)
    exact .pure ⟨h, rfl⟩
  · rename_i he
    obtain rfl : ending = none := by simpa [hended] using he
    split
    · rename_i hcrashed
      have hnone : q.fault = none := by
        rw [h.fault_eq, if_pos hcrashed, if_neg he]
      refine .pure ⟨⟨h.accepted_eq, ?_, h.stop_lost, h.lost_of, h.crashed_iff, ?_, h.queue_of_stop,
        fun _ => hq, rfl, h.pending_eq⟩, rfl⟩
      · simpa [hcrashed] using h.record_eq
      · simp [hcrashed, hnone]
    · rename_i hcrashed
      refine (c.watched_close aborted q.consumer g).bind ?_
      rintro s g' hs
      have hfault := h.fault_eq
      rw [if_neg hcrashed] at hfault
      refine .pure ⟨⟨h.accepted_eq, ?_, h.stop_lost, h.lost_of, h.crashed_iff, ?_, h.queue_of_stop,
        fun _ => hq, rfl, h.pending_eq⟩, ?_⟩
      · have hrecord := h.record_eq
        simp only [hcrashed, Option.toList_none, List.map_nil, ite_self, List.append_nil] at hrecord
        simp [hs, hrecord, hcrashed]
      · simp [hcrashed, hfault]
      · have hclosed : Handover.offers [(.closed aborted : Handover α)] = [] := rfl
        rw [hs, Handover.offers_append, hclosed, List.append_nil]

/-- A queue that was drained and ended has nothing left to account for but its end. -/
theorem drainAndEnd_accounted (h : q.Accounted accepted ending) :
    Ensures (q.drainAndEnd c.watched) g fun q' _ =>
      q'.Accounted accepted (ending.or (some false)) := by
  refine (deliver_accounted _ h).bind ?_
  rintro q₁ g₁ ⟨⟨cut, taken, lost, stop, h₁, hcut⟩, more, -, -, -, hlength⟩
  have hempty : q₁.queue = [] := List.eq_nil_of_length_eq_zero (by omega)
  refine (endWith_accounts false h₁ hempty).mono ?_
  rintro q₂ g₂ ⟨h₂, -⟩
  exact ⟨cut, taken, lost, stop, h₂, fun hc => by rw [hcut hc]; rfl⟩

/-- Items that are dropped are lost. -/
theorem Accounts.discard (h : q.Accounts accepted ending cut taken lost stop) :
    ({ q with queue := [], pending := q.pending - totalCost q.queue } :
      Outbound (κ × List (Handover α)) α).Accounts accepted ending (cut || !q.queue.isEmpty) taken
        (lost ++ q.queue) stop where
  accepted_eq := by rw [h.accepted_eq, List.append_nil]
  record_eq := h.record_eq
  stop_lost := by
    intro offer hs
    rw [h.queue_of_stop (by simp [hs]), List.append_nil]
    exact h.stop_lost offer hs
  lost_of := by
    intro hne
    rcases hq : q.queue with _ | ⟨entry, rest⟩
    · rw [hq, List.append_nil] at hne
      simpa using h.lost_of hne
    · simp
  crashed_iff := h.crashed_iff
  fault_eq := h.fault_eq
  queue_of_stop := fun _ => rfl
  queue_of_ending := fun _ => rfl
  ended_eq := h.ended_eq
  pending_eq := by
    intro hcrashed
    exact (congrArg (· - totalCost q.queue) (h.pending_eq hcrashed)).trans (Nat.sub_self _)

/-- A queue that is cut off has offered no more than the item that its consumer held. -/
theorem cutOff_accounted (holds : Bool) (h : q.Accounted accepted ending) :
    Ensures (q.cutOff c.watched holds) g fun q' _ =>
      q'.Accounted accepted (ending.or (some true)) ∧ ∃ more,
        Handover.offers q'.consumer.2 = Handover.offers q.consumer.2 ++ more ∧
        more.map Prod.fst <+: q.queue.map Prod.fst ∧ more.length ≤ if holds then 1 else 0 := by
  refine (deliver_accounted _ h).bind ?_
  rintro q₁ g₁ ⟨⟨cut, taken, lost, stop, h₁, hcut⟩, more, hrecord, hitems, hlength, -⟩
  refine (endWith_accounts true h₁.discard rfl).mono ?_
  rintro q₂ g₂ ⟨h₂, hoffers⟩
  refine ⟨⟨_, _, _, _, h₂, fun hc => ?_⟩, more, ?_, (List.prefix_append _ _).trans hitems, hlength⟩
  · rcases hending : ending with _ | b
    · rfl
    · -- Nothing was queued any more, so whatever was cut off was cut off before.
      have hempty : q₁.queue = [] := h₁.queue_of_ending (by simp [hending])
      rw [hempty] at hc
      rw [← hending, hcut (by simpa using hc)]
      rfl
  · rw [hoffers]
    exact (congrArg Handover.offers hrecord).trans (by rw [Handover.offers_append]; simp)

/-- Where delivery has stopped or ended nothing is queued. -/
theorem Accounted.queue_eq_nil (h : q.Accounted accepted ending) (ho : ¬q.Open) : q.queue = [] := by
  obtain ⟨cut, taken, lost, stop, h, hcut⟩ := h
  by_contra hq
  obtain ⟨rfl, rfl, -, hcrashed, hfault⟩ := h.of_queue hq hcut
  exact ho ⟨hfault, h.ended_eq, hcrashed⟩

section Passing

variable {c : Consumer Id κ α}

/-- The account is kept at every step of the consumer. -/
theorem deliveries_accounted (count : Nat) (h : q.Accounted accepted ending) :
    ∀ q' ∈ q.deliveries c.watched count, q'.Accounted accepted ending := by
  induction count generalizing q with
  | zero => simp [deliveries]
  | succ count ih =>
    have hnext : (q.deliverNext c.watched).run.Accounted accepted ending :=
      (deliverNext_accounted (c := c) (g := ()) h _ () rfl).1
    intro q' hq'
    rcases List.mem_cons.mp hq' with rfl | hrest
    · exact hnext
    · exact ih hnext q' hrest

theorem strideDeliveries_accounted (h : q.Accounted accepted ending) :
    ∀ q' ∈ q.strideDeliveries c.watched, q'.Accounted accepted ending := by
  unfold strideDeliveries
  split
  · simp
  · exact deliveries_accounted _ (h.withPace _)

/-- The account is kept in the course of a call. -/
theorem passing_accounted (h : q.Accounted accepted ending) (what : QueueCall α) :
    ∀ q' ∈ q.passing c.watched what, q'.Accounted accepted ending := by
  have hadvanced : (q.advance c.watched).run.2.Accounted accepted ending :=
    (advance_accounted (c := c) (g := ()) h _ () rfl).1
  cases what with
  | push item cost => exact strideDeliveries_accounted h
  | deliver count => exact deliveries_accounted count h
  | awaitDrain =>
    exact fun q' hq' => (List.mem_append.mp hq').elim (strideDeliveries_accounted h q')
      (deliveries_accounted _ hadvanced q')
  | finish => exact deliveries_accounted _ h
  | abort =>
    exact fun q' hq' => (List.mem_append.mp hq').elim (strideDeliveries_accounted h q')
      (deliveries_accounted _ hadvanced q')

end Passing

/-- A queue at rest: nothing is queued, and nothing will be accepted. -/
def AtRest (q : Outbound (κ × List (Handover α)) α) : Prop := q.queue = [] ∧ ¬q.Open

/-- A queue rests behind another: nothing was offered in between. -/
def Rests (q q' : Outbound (κ × List (Handover α)) α) : Prop :=
  q'.AtRest ∧ Handover.offers q'.consumer.2 = Handover.offers q.consumer.2

/-- The consumer of a queue at rest has nothing to do. -/
theorem AtRest.deliver (h : q.AtRest) (count : Nat) :
    Ensures (q.deliver c.watched count) g fun q' _ => q.Rests q' := by
  induction count generalizing g with
  | zero => exact .pure ⟨h, rfl⟩
  | succ count ih =>
    have hnext : Ensures (q.deliverNext c.watched) g fun q' _ => q' = q := by
      rw [deliverNext, h.1]
      exact .pure rfl
    refine hnext.bind ?_
    rintro _ g' rfl
    exact ih

/-- Nor has it before a call. -/
theorem AtRest.advance (h : q.AtRest) :
    Ensures (q.advance c.watched) g fun r _ => q.Rests r.2 := by
  unfold Outbound.advance
  split
  · exact .pure ⟨h, rfl⟩
  · rename_i stride pace _
    have hpaced : ({ q with pace } : Outbound (κ × List (Handover α)) α).AtRest := h
    refine (hpaced.deliver stride.taken).bind ?_
    rintro q₁ g₁ h₁
    exact .pure h₁

/-- It accepts nothing. -/
theorem AtRest.push (h : q.AtRest) (item : α) (cost : Nat) :
    Ensures (q.push c.watched item cost) g fun r _ =>
      q.Rests r.2 ∧ Script.accepts r.1 = false := by
  refine h.advance.bind ?_
  rintro ⟨holds, q₁⟩ g₁ ⟨h₁, hoffers⟩
  obtain ⟨haccepts, hsame⟩ := enqueue_of_not_open item cost h₁.2
  refine .pure ⟨?_, haccepts⟩
  rw [hsame]
  exact ⟨h₁, hoffers⟩

/-- A wait for it leaves it at rest. -/
theorem AtRest.awaitDrain (h : q.AtRest) :
    Ensures (q.awaitDrain c.watched) g fun r _ => q.Rests r.2 := by
  refine h.advance.bind ?_
  rintro ⟨holds, q₁⟩ g₁ ⟨h₁, hoffers₁⟩
  refine (h₁.deliver _).bind ?_
  rintro q₂ g₂ ⟨h₂, hoffers₂⟩
  exact .pure ⟨h₂, hoffers₂.trans hoffers₁⟩

/-- So does an end. -/
theorem AtRest.endWith (h : q.AtRest) (aborted : Bool) :
    Ensures (q.endWith c.watched aborted) g fun q' _ => q.Rests q' := by
  unfold Outbound.endWith
  split
  · exact .pure ⟨h, rfl⟩
  · split
    · exact .pure ⟨⟨h.1, fun ho => Bool.noConfusion ho.2.1⟩, rfl⟩
    · refine (c.watched_close aborted q.consumer g).bind ?_
      rintro s g' hs
      refine .pure ⟨⟨h.1, fun ho => Bool.noConfusion ho.2.1⟩, ?_⟩
      rw [hs, Handover.offers_append]
      exact List.append_nil _

/-- So does letting it go. -/
theorem AtRest.drainAndEnd (h : q.AtRest) :
    Ensures (q.drainAndEnd c.watched) g fun q' _ => q.Rests q' := by
  refine (h.deliver _).bind ?_
  rintro q₁ g₁ ⟨h₁, hoffers₁⟩
  refine (h₁.endWith false).mono ?_
  rintro q₂ g₂ ⟨h₂, hoffers₂⟩
  exact ⟨h₂, hoffers₂.trans hoffers₁⟩

/-- So does an end by force. -/
theorem AtRest.abort (h : q.AtRest) :
    Ensures (q.abort c.watched) g fun q' _ => q.Rests q' := by
  refine h.advance.bind ?_
  rintro ⟨holds, q₁⟩ g₁ ⟨h₁, hoffers₁⟩
  refine (h₁.deliver _).bind ?_
  rintro q₂ g₂ ⟨h₂, hoffers₂⟩
  have hdropped : ({ q₂ with queue := [], pending := q₂.pending - totalCost q₂.queue } :
      Outbound (κ × List (Handover α)) α).AtRest := ⟨rfl, h₂.2⟩
  refine (hdropped.endWith true).mono ?_
  rintro q₃ g₃ ⟨h₃, hoffers₃⟩
  exact ⟨h₃, hoffers₃.trans (hoffers₂.trans hoffers₁)⟩

/-- The answer to an end: an item that was refused is an error, a consumer that left is not. -/
def endAnswer : Option Fault → Except SinkError Unit
  | some (.failed message) => .error (.delivery message)
  | _ => .ok ()

/-- A call to end a queue leaves it as letting it go does, and answers by the fault. -/
theorem finish_run (c : Consumer Id κ α) (q : Outbound κ α) :
    (q.finish c).run = (endAnswer (q.drainAndEnd c).run.fault, (q.drainAndEnd c).run) := by
  rcases hfault : (q.drainAndEnd c).run.fault with _ | _ | message <;>
    simp [finish, endAnswer, hfault]

/-- A wait is a stride and the steps that it then takes to the low mark. -/
theorem awaitDrain_run (c : Consumer Id κ α) (q : Outbound κ α) :
    (q.awaitDrain c).run =
      let q₁ := (q.advance c).run.2
      let q₂ := (q₁.deliver c (stepsTo q₁.marks.low q₁.pending q₁.queue)).run
      (q₂.faultAnswer.getD (.ok .ready), q₂) := rfl

/-- An end by force is a stride and what it leaves to be cut off. -/
theorem abort_run (c : Consumer Id κ α) (q : Outbound κ α) :
    (q.abort c).run = ((q.advance c).run.2.cutOff c (q.advance c).run.1).run := rfl

/-- Every step of the consumer takes one item at least. -/
theorem length_deliver_le (c : Consumer Id κ α) (q : Outbound κ α) (count : Nat) :
    (q.deliver c count).run.queue.length ≤ q.queue.length - count := by
  induction count generalizing q with
  | zero => exact Nat.le_refl _
  | succ count ih =>
    have hnext : (q.deliverNext c).run.queue.length ≤ q.queue.length - 1 := by
      rcases hq : q.queue with _ | ⟨⟨item, cost⟩, rest⟩
      · simp [deliverNext, hq]
      · simp only [deliverNext, hq, Id.run_bind]
        rcases (c.deliver item q.consumer).run with ⟨_ | _ | _, k⟩ <;> simp
    have hlater := ih (q.deliverNext c).run
    rw [deliver, Id.run_bind]
    omega

theorem endWith_queue (c : Consumer Id κ α) (q : Outbound κ α) (aborted : Bool) :
    (q.endWith c aborted).run.queue = q.queue := by
  unfold endWith
  split
  · rfl
  · split <;> rfl

/-- Nothing is queued behind an end. -/
theorem drainAndEnd_queue (c : Consumer Id κ α) (q : Outbound κ α) :
    (q.drainAndEnd c).run.queue = [] := by
  have hlength := length_deliver_le c q q.queue.length
  rw [Nat.sub_self, Nat.le_zero] at hlength
  rw [drainAndEnd, Id.run_bind]
  exact (endWith_queue c _ false).trans (List.eq_nil_of_length_eq_zero hlength)

/-- Nor behind one by force. -/
theorem abort_queue (c : Consumer Id κ α) (q : Outbound κ α) : (q.abort c).run.queue = [] := by
  rw [abort_run, cutOff, Id.run_bind]
  exact endWith_queue c _ true

/-- A use leaves a queue at rest, offers nothing and is not accepted. -/
theorem AtRest.use {c : Consumer Id κ α} (h : q.AtRest) (u : QueueUse α) :
    q.Rests (q.use c.watched u).2 ∧ u.accepted (q.use c.watched u).1 = [] := by
  cases u with
  | drop => exact ⟨h.drainAndEnd (c := c) (g := ()) _ () rfl, rfl⟩
  | call what =>
    cases what with
    | push item cost =>
      obtain ⟨hrests, haccepts⟩ := h.push (c := c) (g := ()) item cost _ () rfl
      refine ⟨hrests, ?_⟩
      change (if Script.accepts (q.push c.watched item cost).run.1 then _ else _) = []
      exact (congrArg (fun b => if b = true then [(item, cost)] else []) haccepts).trans rfl
    | deliver count => exact ⟨h.deliver (c := c) (g := ()) count _ () rfl, rfl⟩
    | awaitDrain => exact ⟨h.awaitDrain (c := c) (g := ()) _ () rfl, rfl⟩
    | finish =>
      refine ⟨?_, rfl⟩
      change q.Rests (q.finish c.watched).run.2
      rw [finish_run]
      exact h.drainAndEnd (c := c) (g := ()) _ () rfl
    | abort => exact ⟨h.abort (c := c) (g := ()) _ () rfl, rfl⟩

end Outbound

end InventoryFeed

import InventoryFeed.Stream.Call
import InventoryFeed.Proofs.History

/-!
# What a queue delivers

Items that a queue accepted are delivered in their order and at most once. While nothing went wrong
and nothing was cut off, what was delivered together with what is still queued is exactly what was
accepted, so a queue that ended well has delivered everything. Each operation keeps this, whatever
the monad and the consumer are, as long as it is known which items the consumer has taken.
-/

namespace InventoryFeed

variable {m : Type → Type} [Monad m] {γ : Type} [Historied m γ] {κ α δ : Type}

/-- What is known of a consumer: the items that it has taken, as its state and the history show them,
what it may answer, and a side of the history that it leaves alone. -/
structure Consumer.Logs (c : Consumer m κ α) (log : κ → γ → List α) (side : γ → δ)
    (may : Receipt → Prop) : Prop where
  /-- An item is logged if it was taken. -/
  deliver : ∀ item k g, Ensures (c.deliver item k) g fun r g' =>
    may r.1 ∧ log r.2 g' = (if r.1 = .taken then log k g ++ [item] else log k g) ∧ side g' = side g
  /-- The end of delivery logs nothing. -/
  close : ∀ aborted k g, Ensures (c.close aborted k) g fun k' g' =>
    log k' g' = log k g ∧ side g' = side g

namespace Outbound

/-- Nothing keeps a queue from accepting an item. -/
def Open (q : Outbound κ α) : Prop := q.fault = none ∧ q.ended = false ∧ q.crashed = false

/-- A queue accounts for what it accepted; `cut` says that the producer cut it off. -/
structure Sound (may : Receipt → Prop) (cut : Prop) (accepted delivered : List α)
    (q : Outbound κ α) : Prop where
  /-- Nothing is delivered out of order, twice, or without being accepted. -/
  order : delivered ++ q.queue.map Prod.fst <+: accepted
  /-- Nothing is lost unless something went wrong or the queue was cut off. -/
  whole : q.fault = none → q.crashed = false → ¬cut → delivered ++ q.queue.map Prod.fst = accepted
  /-- Only a queue that was ended is cut off. -/
  ended_of_cut : cut → q.ended = true
  /-- A fault is one that the consumer may answer. -/
  fault_may : q.crashed = false → ∀ f, q.fault = some f → may (.refused f)
  /-- A crash is one too. -/
  crash_may : q.crashed = true → may .crashed

variable {c : Consumer m κ α} {log : κ → γ → List α} {side : γ → δ} {may : Receipt → Prop}
  {cut : Prop} {accepted : List α} {q : Outbound κ α} {g : γ}

/-- A queue before its first item accounts for nothing. -/
theorem start_sound (marks : Marks) (pace : List Stride) (k : κ) :
    (start marks pace k : Outbound κ α).Sound may False [] [] where
  order := List.prefix_rfl
  whole := fun _ _ _ => rfl
  ended_of_cut := False.elim
  fault_may := fun _ _ h => nomatch h
  crash_may := fun h => nomatch h

/-- The consumer's step moves the item at the front from the queue to what was delivered. -/
theorem deliverNext_sound (hc : c.Logs log side may)
    (h : q.Sound may cut accepted (log q.consumer g)) :
    Ensures (q.deliverNext c) g fun q' g' =>
      q'.Sound may cut accepted (log q'.consumer g') ∧ side g' = side g ∧
        q'.ended = q.ended ∧ (q'.Open → q.Open) ∧ q'.queue.length ≤ q.queue.length - 1 := by
  unfold deliverNext
  split
  · rename_i hq
    exact .pure ⟨h, rfl, rfl, id, by simp [hq]⟩
  · rename_i item cost rest hq
    have hsplit : log q.consumer g ++ q.queue.map Prod.fst =
        (log q.consumer g ++ [item]) ++ rest.map Prod.fst := by simp [hq]
    have horder := h.order
    have hwhole := h.whole
    rw [hsplit] at horder hwhole
    refine (hc.deliver item q.consumer g).bind ?_
    rintro ⟨receipt, k⟩ g' ⟨hmay, hlog, hside⟩
    -- A refused or crashed item is lost with all that is queued behind it.
    have hlost (hr : receipt ≠ .taken) : log k g' <+: accepted := by
      rw [hlog, if_neg hr]
      exact (List.prefix_append _ _).trans h.order
    cases receipt with
    | taken =>
      simp only [ite_true] at hlog
      refine .pure ⟨⟨?_, ?_, h.ended_of_cut, h.fault_may, h.crash_may⟩, hside, rfl, id,
        by simp [hq]⟩
      · simpa only [hlog] using horder
      · simpa only [hlog] using hwhole
    | refused f =>
      refine .pure ⟨⟨by simpa using hlost nofun, nofun, h.ended_of_cut, ?_, h.crash_may⟩,
        hside, rfl, nofun, by simp⟩
      rintro - f' ⟨⟩
      exact hmay
    | crashed =>
      exact .pure ⟨⟨by simpa using hlost nofun, nofun, h.ended_of_cut, nofun, fun _ => hmay⟩,
        hside, rfl, nofun, by simp⟩

/-- So do several of its steps. -/
theorem deliver_sound (hc : c.Logs log side may) (count : Nat)
    (h : q.Sound may cut accepted (log q.consumer g)) :
    Ensures (q.deliver c count) g fun q' g' =>
      q'.Sound may cut accepted (log q'.consumer g') ∧ side g' = side g ∧
        q'.ended = q.ended ∧ (q'.Open → q.Open) ∧ q'.queue.length ≤ q.queue.length - count := by
  induction count generalizing q g with
  | zero => exact .pure ⟨h, rfl, rfl, id, Nat.le_refl _⟩
  | succ count ih =>
    refine (deliverNext_sound hc h).bind ?_
    rintro q₁ g₁ ⟨h₁, hside₁, hended₁, hopen₁, hlength₁⟩
    refine (ih h₁).mono ?_
    rintro q₂ g₂ ⟨h₂, hside₂, hended₂, hopen₂, hlength₂⟩
    exact ⟨h₂, hside₂.trans hside₁, hended₂.trans hended₁, hopen₁ ∘ hopen₂, by omega⟩

/-- So does the stride before a call of the producer. -/
theorem advance_sound (hc : c.Logs log side may)
    (h : q.Sound may cut accepted (log q.consumer g)) :
    Ensures (q.advance c) g fun r g' =>
      r.2.Sound may cut accepted (log r.2.consumer g') ∧ side g' = side g ∧
        r.2.ended = q.ended ∧ (r.2.Open → q.Open) := by
  unfold advance
  split
  · exact .pure ⟨h, rfl, rfl, id⟩
  · rename_i stride pace _
    have hpaced : ({ q with pace } : Outbound κ α).Sound may cut accepted (log q.consumer g) :=
      ⟨h.order, h.whole, h.ended_of_cut, h.fault_may, h.crash_may⟩
    refine (deliver_sound hc stride.taken hpaced).bind ?_
    rintro q₁ g₁ ⟨h₁, hside₁, hended₁, hopen₁, -⟩
    exact .pure ⟨h₁, hside₁, hended₁, hopen₁⟩

/-- An open queue accepts an item and says whether the high mark is passed. -/
theorem enqueue_of_open (item : α) (cost : Nat) (h : q.Open) :
    q.enqueue item cost =
      (.ok (if q.marks.high < q.pending + cost then .saturated else .ready),
        { q with queue := q.queue ++ [(item, cost)], pending := q.pending + cost }) := by
  obtain ⟨hf, he, hc⟩ := h
  simp [enqueue, faultAnswer, hf, he, hc]

/-- Any other queue refuses it and stays as it is. -/
theorem enqueue_of_not_open (item : α) (cost : Nat) (h : ¬q.Open) :
    Script.accepts (q.enqueue item cost).1 = false ∧ (q.enqueue item cost).2 = q := by
  rcases hf : q.fault with _ | ⟨_ | _⟩
  · simp only [Open, hf, true_and, not_and] at h
    cases he : q.ended with
    | true => simp [enqueue, faultAnswer, hf, he, Script.accepts]
    | false => simp [enqueue, faultAnswer, hf, he, h he, Script.accepts]
  · simp [enqueue, faultAnswer, hf, Script.accepts]
  · simp [enqueue, faultAnswer, hf, Script.accepts]

/-- An item that was put at the end of the queue is accounted for with those before it. -/
theorem enqueue_sound {delivered : List α} (item : α) (cost : Nat)
    (h : q.Sound may cut accepted delivered) :
    (q.enqueue item cost).2.Sound may cut
        (if Script.accepts (q.enqueue item cost).1 then accepted ++ [item] else accepted) delivered ∧
      (q.enqueue item cost).2.consumer = q.consumer ∧
      ((q.enqueue item cost).2.Open ↔ q.Open) ∧
      (Script.accepts (q.enqueue item cost).1 = true ↔ q.Open) := by
  by_cases ho : q.Open
  · have haccepts : Script.accepts (q.enqueue item cost).1 = true := by
      rw [enqueue_of_open item cost ho]
      split <;> rfl
    simp only [haccepts, ite_true]
    rw [enqueue_of_open item cost ho]
    obtain ⟨hf, he, hc⟩ := ho
    have hcut : ¬cut := fun hcut => by simp [h.ended_of_cut hcut] at he
    have hsplit : delivered ++ (q.queue ++ [(item, cost)]).map Prod.fst = accepted ++ [item] := by
      rw [List.map_append, ← List.append_assoc, h.whole hf hc hcut]
      rfl
    exact ⟨⟨hsplit ▸ List.prefix_rfl, fun _ _ _ => hsplit, h.ended_of_cut, h.fault_may,
      h.crash_may⟩, rfl, Iff.rfl, by simp [Open, hf, he, hc]⟩
  · obtain ⟨haccepts, hq⟩ := enqueue_of_not_open item cost ho
    rw [haccepts, hq]
    exact ⟨h, rfl, Iff.rfl, by simp [ho]⟩

/-- What a call accepted is accounted for, and it is accepted exactly if the queue is open then. -/
theorem push_sound (hc : c.Logs log side may) (item : α) (cost : Nat)
    (h : q.Sound may cut accepted (log q.consumer g)) :
    Ensures (q.push c item cost) g fun r g' =>
      r.2.Sound may cut (if Script.accepts r.1 then accepted ++ [item] else accepted)
          (log r.2.consumer g') ∧
        side g' = side g ∧ (r.2.Open → q.Open) ∧ (Script.accepts r.1 = true ↔ r.2.Open) := by
  refine (advance_sound hc h).bind ?_
  rintro ⟨holds, q₁⟩ g₁ ⟨h₁, hside, -, hopen⟩
  obtain ⟨hsound, hconsumer, hkept, haccepts⟩ := enqueue_sound item cost h₁
  refine .pure ⟨?_, hside, hopen ∘ hkept.mp, haccepts.trans hkept.symm⟩
  simpa only [hconsumer] using hsound

/-- A wait accepts nothing. -/
theorem awaitDrain_sound (hc : c.Logs log side may)
    (h : q.Sound may cut accepted (log q.consumer g)) :
    Ensures (q.awaitDrain c) g fun r g' =>
      r.2.Sound may cut accepted (log r.2.consumer g') ∧ side g' = side g ∧
        (r.2.Open → q.Open) := by
  refine (advance_sound hc h).bind ?_
  rintro ⟨holds, q₁⟩ g₁ ⟨h₁, hside₁, -, hopen₁⟩
  refine (deliver_sound hc _ h₁).bind ?_
  rintro q₂ g₂ ⟨h₂, hside₂, -, hopen₂, -⟩
  exact .pure ⟨h₂, hside₂.trans hside₁, hopen₁ ∘ hopen₂⟩

/-- An end delivers nothing and leaves the queue ended. -/
theorem endWith_sound (hc : c.Logs log side may) (aborted : Bool)
    (h : q.Sound may cut accepted (log q.consumer g)) :
    Ensures (q.endWith c aborted) g fun q' g' =>
      q'.Sound may cut accepted (log q'.consumer g') ∧ side g' = side g ∧
        q'.ended = true ∧ q'.queue = q.queue := by
  unfold endWith
  split
  · rename_i hended
    exact .pure ⟨h, rfl, hended, rfl⟩
  split
  · rename_i hcrashed
    refine .pure ⟨⟨h.order, nofun, fun _ => rfl, ?_, h.crash_may⟩, rfl, rfl, rfl⟩
    intro hnot
    simp [hcrashed] at hnot
  · refine (hc.close aborted q.consumer g).bind ?_
    rintro k g₁ ⟨hlog, hside⟩
    refine .pure ⟨?_, hside, rfl, rfl⟩
    rw [hlog]
    exact ⟨h.order, h.whole, fun _ => rfl, h.fault_may, h.crash_may⟩

/-- A queue that was drained and ended has nothing left to deliver. -/
theorem drainAndEnd_sound (hc : c.Logs log side may)
    (h : q.Sound may cut accepted (log q.consumer g)) :
    Ensures (q.drainAndEnd c) g fun q' g' =>
      q'.Sound may cut accepted (log q'.consumer g') ∧ side g' = side g ∧
        q'.ended = true ∧ q'.queue = [] := by
  refine (deliver_sound hc _ h).bind ?_
  rintro q₁ g₁ ⟨h₁, hside₁, -, -, hlength⟩
  refine (endWith_sound hc false h₁).mono ?_
  rintro q₂ g₂ ⟨h₂, hside₂, hended, hqueue⟩
  refine ⟨h₂, hside₂.trans hside₁, hended, ?_⟩
  rw [hqueue]
  exact List.eq_nil_of_length_eq_zero (by omega)

/-- A queue that ended well has delivered all that it accepted, if its consumer reports every item
that it does not take and was not cut off before. -/
theorem finish_sound (hc : c.Logs log side may)
    (h : q.Sound may cut accepted (log q.consumer g)) :
    Ensures (q.finish c) g fun r g' =>
      r.2.Sound may cut accepted (log r.2.consumer g') ∧ side g' = side g ∧ r.2.ended = true ∧
        (r.1 = .ok () → ¬may (.refused .gone) → ¬may .crashed → ¬cut →
          log r.2.consumer g' = accepted) := by
  refine (drainAndEnd_sound hc h).bind ?_
  rintro q₁ g₁ ⟨h₁, hside, hended, hqueue⟩
  rcases hf : q₁.fault with _ | f
  · refine .pure ⟨h₁, hside, hended, fun _ _ hcrash hcut => ?_⟩
    have hcrashed : q₁.crashed = false := by
      cases hq : q₁.crashed with
      | false => rfl
      | true => exact absurd (h₁.crash_may hq) hcrash
    simpa [hqueue] using h₁.whole hf hcrashed hcut
  · cases f with
    | failed message => exact .pure ⟨h₁, hside, hended, nofun⟩
    | gone =>
      refine .pure ⟨h₁, hside, hended, fun _ hgone hcrash _ => ?_⟩
      cases hq : q₁.crashed with
      | false => exact absurd (h₁.fault_may hq _ hf) hgone
      | true => exact absurd (h₁.crash_may hq) hcrash

/-- A queue that is cut off has delivered the first of what it accepted. -/
theorem abort_sound (hc : c.Logs log side may)
    (h : q.Sound may cut accepted (log q.consumer g)) :
    Ensures (q.abort c) g fun q' g' =>
      q'.Sound may True accepted (log q'.consumer g') ∧ side g' = side g ∧ q'.ended = true := by
  refine (advance_sound hc h).bind ?_
  rintro ⟨holds, q₁⟩ g₁ ⟨h₁, hside₁, -, -⟩
  refine (deliver_sound hc _ h₁).bind ?_
  rintro q₂ g₂ ⟨h₂, hside₂, -, -, -⟩
  -- Once the queue is dropped, what was delivered is all that is left to account for.
  have hdropped : ({ q₂ with
      queue := [], pending := q₂.pending - totalCost q₂.queue } : Outbound κ α).Sound
        may False (log q₂.consumer g₂) (log q₂.consumer g₂) :=
    ⟨by simp, by simp, False.elim, h₂.fault_may, h₂.crash_may⟩
  refine (endWith_sound hc true hdropped).mono ?_
  rintro q₃ g₃ ⟨h₃, hside₃, hended, hqueue⟩
  have hprefix : log q₃.consumer g₃ <+: accepted := by
    have horder := h₃.order
    rw [hqueue] at horder
    simp only [List.map_nil, List.append_nil] at horder
    exact horder.trans ((List.prefix_append _ _).trans h₂.order)
  exact ⟨⟨by simpa [hqueue] using hprefix, fun _ _ hcut => absurd trivial hcut, fun _ => hended,
    h₃.fault_may, h₃.crash_may⟩, hside₃.trans (hside₂.trans hside₁), hended⟩

end Outbound

end InventoryFeed

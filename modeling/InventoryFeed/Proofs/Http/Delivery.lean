import InventoryFeed.Http.Response
import InventoryFeed.Proofs.Stream.Outbound

/-!
# What reaches the peer

The bytes that arrived at the peer of a connection and those that are still queued are together the first
of all bytes that were put into the queue, and all of them as long as the peer is there and the queue is
not ended. It does not matter whether the frame at which the peer left had arrived.
-/

namespace InventoryFeed.Http

/-- A queue before a connection. -/
abbrev Line := Outbound Connection (List UInt8)

namespace Line

/-- The bytes that arrived and those that are still queued. -/
def bytes (q : Line) : List UInt8 := q.consumer.received ++ q.queue.flatMap Prod.fst

/-- A queue that accounts for the bytes put into it. -/
structure Carries (departure : Option Departure) (made : List UInt8) (q : Line) : Prop where
  departs : q.consumer.departure = departure
  /-- No byte arrives out of order, twice, or without having been put into the queue. -/
  order : q.bytes <+: made
  /-- No byte is lost while the peer is there and the queue is not ended. -/
  whole : q.fault = none → q.ended = false → q.bytes = made
  /-- Nothing goes wrong but that the peer leaves. -/
  gone : ∀ fault, q.fault = some fault → fault = .gone ∧ departure ≠ none
  uncrashed : q.crashed = false

variable {departure : Option Departure} {made : List UInt8} {q : Line}

/-- Once the queue is ended, more may be taken to have been put into it. -/
theorem Carries.extend {more : List UInt8} (h : Carries departure made q) (hended : q.ended = true)
    (hmore : made <+: more) : Carries departure more q :=
  ⟨h.departs, h.order.trans hmore, fun _ hopen => by simp [hended] at hopen, h.gone, h.uncrashed⟩

theorem start_carries (marks : Marks) (pace : List Stride) (departure : Option Departure) :
    Carries departure [] (.start marks pace (.fresh departure)) where
  departs := rfl
  order := List.prefix_rfl
  whole := fun _ _ => rfl
  gone := nofun
  uncrashed := rfl

theorem receive_arrives (frame : List UInt8) (c : Connection) :
    (c.receive frame).2.departure = c.departure ∧
      ((c.receive frame).1 = .taken ∧ (c.receive frame).2.received = c.received ++ frame ∨
        (c.receive frame).1 = .refused .gone ∧ c.departure ≠ none ∧
          ((c.receive frame).2.received = c.received ∨
            (c.receive frame).2.received = c.received ++ frame)) := by
  unfold Connection.receive
  split
  · rename_i departure hdeparture
    split
    · refine ⟨?_, .inr ⟨rfl, by simp [hdeparture], ?_⟩⟩
      · dsimp only
        split <;> rfl
      · dsimp only
        split
        · exact .inr rfl
        · exact .inl rfl
    · exact ⟨rfl, .inl ⟨rfl, rfl⟩⟩
  · exact ⟨rfl, .inl ⟨rfl, rfl⟩⟩

/-- What becomes of a frame: it arrives, or the peer is found to have left, before or after it arrived. -/
theorem deliver_arrives (frame : List UInt8) (c : Connection) :
    Ensures (Connection.consumer.deliver frame c) () fun r _ => r.2.departure = c.departure ∧
      (r.1 = .taken ∧ r.2.received = c.received ++ frame ∨
        r.1 = .refused .gone ∧ c.departure ≠ none ∧
          (r.2.received = c.received ∨ r.2.received = c.received ++ frame)) := by
  rintro r - ⟨⟩
  exact receive_arrives frame c

theorem deliverNext_carries (h : Carries departure made q) :
    Ensures (q.deliverNext Connection.consumer) () fun q' _ =>
      Carries departure made q' ∧ q'.ended = q.ended ∧ (q'.fault = none → q.fault = none) ∧
        q'.queue.length ≤ q.queue.length - 1 := by
  unfold Outbound.deliverNext
  split
  · rename_i hq
    exact .pure ⟨h, rfl, id, by simp [hq]⟩
  · -- The first queued frame: whether it arrives or not, the bytes before it and it come first of all.
    rename_i frame cost rest hq
    have hbytes : q.bytes = q.consumer.received ++ frame ++ rest.flatMap Prod.fst := by
      simp [bytes, hq]
    have hfront : q.consumer.received ++ frame <+: made :=
      (List.prefix_append _ _).trans (hbytes ▸ h.order)
    refine (deliver_arrives frame q.consumer).bind ?_
    rintro ⟨receipt, c⟩ ⟨⟩ ⟨hdeparture, ⟨rfl, hreceived⟩ | ⟨rfl, hleaves, hreceived⟩⟩
    · have hsame : Line.bytes { q with
          consumer := c, queue := rest, pending := q.pending - cost } = q.bytes := by
        rw [hbytes, bytes, hreceived]
      refine .pure ⟨⟨hdeparture.trans h.departs, hsame ▸ h.order, hsame ▸ h.whole, h.gone,
        h.uncrashed⟩, rfl, id, by simp [hq]⟩
    · have hleft : c.received <+: made := by
        rcases hreceived with hreceived | hreceived
        · exact hreceived ▸ (List.prefix_append _ _).trans hfront
        · exact hreceived ▸ hfront
      refine .pure ⟨⟨hdeparture.trans h.departs, by simpa [bytes] using hleft, nofun, ?_,
        h.uncrashed⟩, rfl, nofun, by simp⟩
      rintro fault ⟨⟩
      exact ⟨rfl, h.departs ▸ hleaves⟩

theorem deliver_carries (count : Nat) (h : Carries departure made q) :
    Ensures (q.deliver Connection.consumer count) () fun q' _ =>
      Carries departure made q' ∧ q'.ended = q.ended ∧ (q'.fault = none → q.fault = none) ∧
        q'.queue.length ≤ q.queue.length - count := by
  induction count generalizing q with
  | zero => exact .pure ⟨h, rfl, id, Nat.le_refl _⟩
  | succ count ih =>
    refine (deliverNext_carries h).bind ?_
    rintro q₁ ⟨⟩ ⟨h₁, hended₁, hfault₁, hlength₁⟩
    refine (ih h₁).mono ?_
    rintro q₂ ⟨⟩ ⟨h₂, hended₂, hfault₂, hlength₂⟩
    exact ⟨h₂, hended₂.trans hended₁, hfault₁ ∘ hfault₂, by omega⟩

theorem advance_carries (h : Carries departure made q) :
    Ensures (q.advance Connection.consumer) () fun r _ =>
      Carries departure made r.2 ∧ r.2.ended = q.ended ∧ (r.2.fault = none → q.fault = none) ∧
        r.2.queue.length ≤ q.queue.length := by
  unfold Outbound.advance
  split
  · exact .pure ⟨h, rfl, id, Nat.le_refl _⟩
  · rename_i stride pace _
    have hpaced : Carries departure made { q with pace } :=
      ⟨h.departs, h.order, h.whole, h.gone, h.uncrashed⟩
    refine (deliver_carries stride.taken hpaced).bind ?_
    rintro q₁ ⟨⟩ ⟨h₁, hended₁, hfault₁, hlength₁⟩
    exact .pure ⟨h₁, hended₁, hfault₁, Nat.le_trans hlength₁ (Nat.sub_le _ _)⟩

/-- A queue accepts a frame exactly if the peer is there and the queue is not ended. -/
theorem push_carries (frame : List UInt8) (h : Carries departure made q) :
    Ensures (q.push Connection.consumer frame frame.length) () fun r _ =>
      r.2.ended = q.ended ∧ (r.2.fault = none → q.fault = none) ∧
        (Script.accepts r.1 = true ∧ r.2.fault = none ∧ r.2.ended = false ∧
            Carries departure (made ++ frame) r.2 ∨
          Script.accepts r.1 = false ∧ (r.2.fault ≠ none ∨ r.2.ended = true) ∧
            Carries departure made r.2 ∧ (r.2.ended = false → r.1 = .ok .closed)) := by
  refine (advance_carries h).bind ?_
  rintro ⟨holds, q₁⟩ ⟨⟩ ⟨h₁, hended₁, hfault₁, -⟩
  refine .pure ?_
  by_cases hopen : q₁.Open
  · obtain ⟨hfault, hended, -⟩ := id hopen
    rw [Outbound.enqueue_of_open frame frame.length hopen]
    refine ⟨hended₁, hfault₁, .inl ⟨?_, hfault, hended, ?_⟩⟩
    · dsimp only
      split <;> rfl
    have hbytes : Line.bytes { q₁ with
        queue := q₁.queue ++ [(frame, frame.length)], pending := q₁.pending + frame.length } =
        made ++ frame := by
      rw [← h₁.whole hfault hended]
      simp [bytes]
    exact ⟨h₁.departs, hbytes ▸ List.prefix_rfl, fun _ _ => hbytes, h₁.gone, h₁.uncrashed⟩
  · -- Refused: the peer is gone, which is answered with `closed`, or the queue is ended.
    have hshut : q₁.fault ≠ none ∨ q₁.ended = true := by
      have huncrashed : q₁.crashed = false := h₁.uncrashed
      simpa [Outbound.Open, huncrashed, imp_iff_not_or] using hopen
    obtain ⟨hrefused, hsame⟩ := Outbound.enqueue_of_not_open frame frame.length hopen
    rw [hsame]
    refine ⟨hended₁, hfault₁, .inr ⟨hrefused, hshut, h₁, fun hended => ?_⟩⟩
    have hfault : q₁.fault ≠ none := hshut.resolve_right (by simp [hended])
    obtain ⟨fault, hsome⟩ := Option.ne_none_iff_exists'.mp hfault
    obtain ⟨rfl, -⟩ := h₁.gone fault hsome
    simp [Outbound.enqueue, Outbound.faultAnswer, hsome]

theorem awaitDrain_carries (h : Carries departure made q) :
    Ensures (q.awaitDrain Connection.consumer) () fun r _ =>
      Carries departure made r.2 ∧ r.2.ended = q.ended ∧ (r.2.fault = none → q.fault = none) ∧
        r.1 = if r.2.fault = none then .ok .ready else .ok .closed := by
  refine (advance_carries h).bind ?_
  rintro ⟨holds, q₁⟩ ⟨⟩ ⟨h₁, hended₁, hfault₁, -⟩
  refine (deliver_carries _ h₁).bind ?_
  rintro q₂ ⟨⟩ ⟨h₂, hended₂, hfault₂, -⟩
  refine .pure ⟨h₂, hended₂.trans hended₁, hfault₁ ∘ hfault₂, ?_⟩
  cases hfault : q₂.fault with
  | none => simp [Outbound.faultAnswer, hfault]
  | some fault =>
    obtain ⟨rfl, -⟩ := h₂.gone fault hfault
    simp [Outbound.faultAnswer, hfault]

/-- An end puts nothing into the queue and takes nothing out of it. -/
theorem endWith_carries (aborted : Bool) (h : Carries departure made q) :
    Ensures (q.endWith Connection.consumer aborted) () fun q' _ =>
      Carries departure made q' ∧ q'.ended = true ∧ q'.queue = q.queue ∧
        q'.consumer.received = q.consumer.received := by
  unfold Outbound.endWith
  split
  · rename_i hended
    exact .pure ⟨h, hended, rfl, rfl⟩
  split
  · rename_i hcrashed
    exact absurd h.uncrashed (by simp [hcrashed])
  · have hclose : Ensures (Connection.consumer.close aborted q.consumer) () fun c _ =>
        c.departure = q.consumer.departure ∧ c.received = q.consumer.received := by
      rintro c - ⟨⟩
      cases aborted <;> exact ⟨rfl, rfl⟩
    refine hclose.bind ?_
    rintro c ⟨⟩ ⟨hdeparture, hreceived⟩
    have hbytes : Line.bytes { q with ended := true, consumer := c } = q.bytes := by
      rw [bytes, hreceived, bytes]
    exact .pure ⟨⟨hdeparture.trans h.departs, hbytes ▸ h.order, nofun, h.gone, h.uncrashed⟩, rfl,
      rfl, hreceived⟩

/-- A queue that ends well has delivered everything if the peer is still there. -/
theorem finish_carries (h : Carries departure made q) :
    Ensures (q.finish Connection.consumer) () fun r _ =>
      Carries departure made r.2 ∧ r.2.ended = true ∧ r.1 = .ok () ∧
        (departure = none → q.ended = false → r.2.consumer.received = made) := by
  have hdrained : Ensures (q.drainAndEnd Connection.consumer) () fun q' _ =>
      Carries departure made q' ∧ q'.ended = true ∧
        (departure = none → q.ended = false → q'.consumer.received = made) := by
    refine (deliver_carries q.queue.length h).bind ?_
    rintro q₁ ⟨⟩ ⟨h₁, hended₁, -, hlength⟩
    refine (endWith_carries false h₁).mono ?_
    rintro q₂ ⟨⟩ ⟨h₂, hended₂, -, hreceived⟩
    refine ⟨h₂, hended₂, fun hstays hopen => ?_⟩
    have hfault : q₁.fault = none := by
      cases hq : q₁.fault with
      | none => rfl
      | some fault => exact absurd hstays (h₁.gone fault hq).2
    have hempty : q₁.queue = [] := List.eq_nil_of_length_eq_zero (by omega)
    have hwhole := h₁.whole hfault (hended₁.trans hopen)
    rwa [bytes, hempty, List.flatMap_nil, List.append_nil, ← hreceived] at hwhole
  refine hdrained.bind ?_
  rintro q₁ ⟨⟩ ⟨h₁, hended, hwhole⟩
  split
  · rename_i message hfault
    cases (h₁.gone _ hfault).1
  · exact .pure ⟨h₁, hended, rfl, hwhole⟩

/-- A queue that is cut off has delivered no more than the first of what was put into it. -/
theorem abort_carries (h : Carries departure made q) :
    Ensures (q.abort Connection.consumer) () fun q' _ =>
      Carries departure made q' ∧ q'.ended = true := by
  refine (advance_carries h).bind ?_
  rintro ⟨holds, q₁⟩ ⟨⟩ ⟨h₁, -⟩
  refine (deliver_carries _ h₁).bind ?_
  rintro q₂ ⟨⟩ ⟨h₂, -, -, -⟩
  have hfront : q₂.consumer.received <+: made := (List.prefix_append _ _).trans h₂.order
  -- Once the queue is dropped, what arrived is all that is left to account for.
  have hdropped : Carries departure q₂.consumer.received { q₂ with
      queue := [], pending := q₂.pending - Outbound.totalCost q₂.queue } :=
    ⟨h₂.departs, by simp [bytes], fun _ _ => by simp [bytes], h₂.gone, h₂.uncrashed⟩
  refine (endWith_carries true hdropped).mono ?_
  rintro q₃ ⟨⟩ ⟨h₃, hended₃, -⟩
  exact ⟨h₃.extend hended₃ hfront, hended₃⟩

/-- A queue that was not ended tells its connection to drop when it is cut off. -/
theorem abort_forceClosed (h : Carries departure made q) (hopen : q.ended = false) :
    Ensures (q.abort Connection.consumer) () fun q' _ => q'.consumer.forceClosed = true := by
  refine (advance_carries h).bind ?_
  rintro ⟨holds, q₁⟩ ⟨⟩ ⟨h₁, hended₁, -⟩
  refine (deliver_carries _ h₁).bind ?_
  rintro q₂ ⟨⟩ ⟨h₂, hended₂, -⟩
  have hrunning : q₂.ended = false := hended₂.trans (hended₁.trans hopen)
  have huncrashed : q₂.crashed = false := h₂.uncrashed
  rw [Outbound.endWith, if_neg (by simp [hrunning]), if_neg (by simp [huncrashed])]
  rintro q₃ ⟨⟩ rfl
  rfl

end Line

end InventoryFeed.Http

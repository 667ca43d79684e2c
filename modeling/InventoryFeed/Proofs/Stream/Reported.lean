import InventoryFeed.Proofs.Stream.Outbound

/-!
# What a queue reports

A consumer may refuse an item in the course of any call on the queue, also in one that is about another
item. As long as the consumer is not gone for good without a word, no refusal is passed over in silence:
after each call the queue has a fault exactly if an item was refused so far, a push and a wait are
answered well exactly if none was, and so is the end.
-/

namespace InventoryFeed

variable {m : Type → Type} [Monad m] {γ : Type} [Historied m γ] {κ α : Type}

/-- What a consumer tells of its deliveries: the history is fine as long as every item was taken, and
an item that is not taken is refused with a text. -/
structure Consumer.Tells (c : Consumer m κ α) (fine : γ → Prop) : Prop where
  /-- A delivery keeps the history fine if the item is taken. -/
  deliver : ∀ item k g, Ensures (c.deliver item k) g fun r g' =>
    (fine g' ↔ fine g ∧ r.1 = .taken) ∧ r.1 ≠ .refused .gone ∧ r.1 ≠ .crashed
  /-- The end of delivery changes nothing of that. -/
  close : ∀ aborted k g, Ensures (c.close aborted k) g fun _ g' => fine g' ↔ fine g

namespace Outbound

/-- A queue tells what its consumer told: it has a fault if an item was refused, and only then. -/
structure Tells (fine : γ → Prop) (q : Outbound κ α) (g : γ) : Prop where
  /-- The consumer did not crash. -/
  crashed : q.crashed = false
  /-- It did not leave. -/
  here : q.fault ≠ some .gone
  /-- A fault is that of a refused item. -/
  fault : q.fault = none ↔ fine g

variable {c : Consumer m κ α} {fine : γ → Prop} {q : Outbound κ α} {g : γ}

/-- An open queue tells that the history is fine. -/
theorem Open.tells (h : q.Open) (hfine : fine g) : q.Tells fine g where
  crashed := h.2.2
  here := by simp [h.1]
  fault := ⟨fun _ => hfine, fun _ => h.1⟩

/-- A queue that was not ended is open as long as the history is fine. -/
theorem Tells.open_iff (h : q.Tells fine g) (hended : q.ended = false) : q.Open ↔ fine g :=
  ⟨fun ho => h.fault.mp ho.1, fun hfine => ⟨h.fault.mpr hfine, hended, h.crashed⟩⟩

/-- The answer that a fault forces is none exactly if the history is fine. -/
theorem Tells.accepts_faultAnswer (h : q.Tells fine g) :
    Script.accepts (q.faultAnswer.getD (.ok .ready)) = true ↔ fine g := by
  rw [← h.fault]
  rcases hf : q.fault with _ | ⟨_ | _⟩
  · simp [faultAnswer, hf, Script.accepts]
  · exact absurd hf h.here
  · simp [faultAnswer, hf, Script.accepts]

/-- The consumer's step tells of the item at the front. -/
theorem deliverNext_tells (hc : c.Tells fine) (h : q.Tells fine g) :
    Ensures (q.deliverNext c) g fun q' g' => q'.Tells fine g' ∧ q'.ended = q.ended := by
  unfold deliverNext
  split
  · exact .pure ⟨h, rfl⟩
  · rename_i item cost rest _
    refine (hc.deliver item q.consumer g).bind ?_
    rintro ⟨receipt, k⟩ g' ⟨hfine, hgone, hcrashed⟩
    cases receipt with
    | taken =>
      refine .pure ⟨⟨h.crashed, h.here, ?_⟩, rfl⟩
      rw [hfine, ← h.fault]
      simp
    | refused f =>
      refine .pure ⟨⟨h.crashed, ?_, ?_⟩, rfl⟩
      · exact fun hf => hgone (congrArg Receipt.refused (Option.some.inj hf))
      · rw [hfine]
        simp
    | crashed => exact absurd rfl hcrashed

/-- So do several of its steps. -/
theorem deliver_tells (hc : c.Tells fine) (count : Nat) (h : q.Tells fine g) :
    Ensures (q.deliver c count) g fun q' g' => q'.Tells fine g' ∧ q'.ended = q.ended := by
  induction count generalizing q g with
  | zero => exact .pure ⟨h, rfl⟩
  | succ count ih =>
    refine (deliverNext_tells hc h).bind ?_
    rintro q₁ g₁ ⟨h₁, hended₁⟩
    refine (ih h₁).mono ?_
    rintro q₂ g₂ ⟨h₂, hended₂⟩
    exact ⟨h₂, hended₂.trans hended₁⟩

/-- So does the stride before a call of the producer. -/
theorem advance_tells (hc : c.Tells fine) (h : q.Tells fine g) :
    Ensures (q.advance c) g fun r g' => r.2.Tells fine g' ∧ r.2.ended = q.ended := by
  unfold advance
  split
  · exact .pure ⟨h, rfl⟩
  · rename_i stride pace _
    have hpaced : ({ q with pace } : Outbound κ α).Tells fine g := ⟨h.crashed, h.here, h.fault⟩
    exact (deliver_tells hc stride.taken hpaced).bind fun q₁ g₁ h₁ => .pure h₁

/-- An item is accepted exactly if none was refused by then. -/
theorem push_tells (hc : c.Tells fine) (item : α) (cost : Nat) (h : q.Tells fine g)
    (hended : q.ended = false) :
    Ensures (q.push c item cost) g fun r g' =>
      r.2.Tells fine g' ∧ r.2.ended = false ∧ (Script.accepts r.1 = true ↔ fine g') := by
  refine (advance_tells hc h).bind ?_
  rintro ⟨holds, q₁⟩ g₁ ⟨h₁, hended₁⟩
  have hopen := h₁.open_iff (hended₁.trans hended)
  by_cases hfine : fine g₁
  · have ho := hopen.mpr hfine
    refine .pure ?_
    rw [enqueue_of_open item cost ho]
    refine ⟨⟨h₁.crashed, h₁.here, h₁.fault⟩, hended₁.trans hended, fun _ => hfine, fun _ => ?_⟩
    split <;> rfl
  · obtain ⟨hrefused, hsame⟩ := enqueue_of_not_open item cost (hfine ∘ hopen.mp)
    refine .pure ⟨?_, ?_, ?_⟩
    · rw [hsame]
      exact h₁
    · rw [hsame]
      exact hended₁.trans hended
    · simp [hrefused, hfine]

/-- A wait is answered well exactly if no item was refused by its end. -/
theorem awaitDrain_tells (hc : c.Tells fine) (h : q.Tells fine g) :
    Ensures (q.awaitDrain c) g fun r g' =>
      r.2.Tells fine g' ∧ r.2.ended = q.ended ∧ (Script.accepts r.1 = true ↔ fine g') := by
  refine (advance_tells hc h).bind ?_
  rintro ⟨holds, q₁⟩ g₁ ⟨h₁, hended₁⟩
  refine (deliver_tells hc _ h₁).bind ?_
  rintro q₂ g₂ ⟨h₂, hended₂⟩
  exact .pure ⟨h₂, hended₂.trans hended₁, h₂.accepts_faultAnswer⟩

/-- An end delivers nothing. -/
theorem endWith_tells (hc : c.Tells fine) (aborted : Bool) (h : q.Tells fine g) :
    Ensures (q.endWith c aborted) g fun q' g' => q'.Tells fine g' := by
  unfold endWith
  split
  · exact .pure h
  split
  · rename_i hcrashed
    exact absurd (hcrashed.symm.trans h.crashed) nofun
  · refine (hc.close aborted q.consumer g).bind fun k g₁ hfine => .pure ?_
    exact ⟨h.crashed, h.here, h.fault.trans hfine.symm⟩

/-- What is left is delivered before the end. -/
theorem drainAndEnd_tells (hc : c.Tells fine) (h : q.Tells fine g) :
    Ensures (q.drainAndEnd c) g fun q' g' => q'.Tells fine g' :=
  (deliver_tells hc _ h).bind fun _ _ h₁ => endWith_tells hc false h₁.1

/-- A queue ends well exactly if no item was refused by its end. -/
theorem finish_tells (hc : c.Tells fine) (h : q.Tells fine g) :
    Ensures (q.finish c) g fun r g' => r.1.isOk = true ↔ fine g' := by
  refine (drainAndEnd_tells hc h).bind ?_
  intro q₂ g₂ h₂
  have hfault := h₂.fault
  rcases hf : q₂.fault with _ | ⟨_ | message⟩
  · exact .pure ⟨fun _ => hfault.mp hf, fun _ => rfl⟩
  · exact absurd hf h₂.here
  · exact .pure ⟨nofun, fun hfine => absurd (hf.symm.trans (hfault.mpr hfine)) nofun⟩

end Outbound

end InventoryFeed

import InventoryFeed.Proofs.Stream.Outbound

/-!
# A queue before a consumer that takes everything

If a consumer takes every item, a queue stays open until its end, and at its end the consumer has taken what
the queue accepted, whatever the marks and the pace are. What the consumer has taken is told by a relation: its
state need not be enough to tell it.
-/

namespace InventoryFeed

variable {m : Type → Type} [Monad m] {γ : Type} [Historied m γ] {κ α : Type}

/-- What is known of a consumer that takes every item: what holds of its state and of the history after some
items, and after the end that follows them. -/
structure Consumer.Takes (c : Consumer m κ α) (kept ended : List α → κ → γ → Prop) : Prop where
  /-- An item is taken behind those before it. -/
  deliver : ∀ item items k g, kept items k g → Ensures (c.deliver item k) g fun r g' =>
    r.1 = .taken ∧ kept (items ++ [item]) r.2 g'
  /-- An end that does not cut delivery off follows. -/
  close : ∀ items k g, kept items k g → Ensures (c.close false k) g (ended items)

namespace Outbound

/-- A queue from which nothing was lost: the consumer has taken what is accepted and no longer queued. -/
def Holds (kept : List α → κ → γ → Prop) (accepted : List α) (q : Outbound κ α) (g : γ) : Prop :=
  q.Open ∧ ∃ taken, kept taken q.consumer g ∧ taken ++ q.queue.map Prod.fst = accepted

variable {c : Consumer m κ α} {kept ended : List α → κ → γ → Prop} {accepted : List α}
  {q : Outbound κ α} {g : γ}

theorem start_holds (marks : Marks) (pace : List Stride) {k : κ} (h : kept [] k g) :
    (start marks pace k : Outbound κ α).Holds kept [] g :=
  ⟨⟨rfl, rfl, rfl⟩, [], h, rfl⟩

/-- The consumer's step takes the item at the front. -/
theorem deliverNext_holds (hc : c.Takes kept ended) (h : q.Holds kept accepted g) :
    Ensures (q.deliverNext c) g fun q' g' =>
      q'.Holds kept accepted g' ∧ q'.queue.length = q.queue.length - 1 := by
  obtain ⟨hopen, taken, hkept, haccepted⟩ := h
  unfold deliverNext
  split
  · rename_i hq
    exact .pure ⟨⟨hopen, taken, hkept, haccepted⟩, by simp [hq]⟩
  · rename_i item cost rest hq
    refine (hc.deliver item taken q.consumer g hkept).bind ?_
    rintro ⟨receipt, k⟩ g' ⟨htaken, hkept'⟩
    obtain rfl : receipt = .taken := htaken
    refine .pure ⟨⟨hopen, taken ++ [item], hkept', ?_⟩, by simp [hq]⟩
    rw [← haccepted, hq, List.append_assoc]
    rfl

/-- So do several of its steps, until none is left. -/
theorem deliver_holds (hc : c.Takes kept ended) (count : Nat) (h : q.Holds kept accepted g) :
    Ensures (q.deliver c count) g fun q' g' =>
      q'.Holds kept accepted g' ∧ q'.queue.length = q.queue.length - count := by
  induction count generalizing q g with
  | zero => exact .pure ⟨h, rfl⟩
  | succ count ih =>
    refine (deliverNext_holds hc h).bind ?_
    rintro q₁ g₁ ⟨h₁, hlength₁⟩
    refine (ih h₁).mono ?_
    rintro q₂ g₂ ⟨h₂, hlength₂⟩
    exact ⟨h₂, by omega⟩

/-- So does the stride before a call of the producer. -/
theorem advance_holds (hc : c.Takes kept ended) (h : q.Holds kept accepted g) :
    Ensures (q.advance c) g fun r g' => r.2.Holds kept accepted g' := by
  unfold advance
  split
  · exact .pure h
  · rename_i stride pace _
    have hpaced : ({ q with pace } : Outbound κ α).Holds kept accepted g := h
    refine (deliver_holds hc stride.taken hpaced).bind ?_
    rintro q₁ g₁ ⟨h₁, -⟩
    exact .pure h₁

/-- An item that is put at the end of the queue is accepted behind those before it. -/
theorem push_holds (hc : c.Takes kept ended) (item : α) (cost : Nat) (h : q.Holds kept accepted g) :
    Ensures (q.push c item cost) g fun r g' => r.2.Holds kept (accepted ++ [item]) g' := by
  refine (advance_holds hc h).bind ?_
  rintro ⟨holds, q₁⟩ g₁ ⟨hopen, taken, hkept, haccepted⟩
  have haccepts := enqueue_of_open item cost hopen
  refine .pure ?_
  rw [haccepts]
  refine ⟨hopen, taken, hkept, ?_⟩
  rw [List.map_append, ← List.append_assoc, haccepted]
  rfl

/-- A wait accepts nothing. -/
theorem awaitDrain_holds (hc : c.Takes kept ended) (h : q.Holds kept accepted g) :
    Ensures (q.awaitDrain c) g fun r g' => r.2.Holds kept accepted g' := by
  refine (advance_holds hc h).bind ?_
  rintro ⟨holds, q₁⟩ g₁ h₁
  refine (deliver_holds hc _ h₁).bind ?_
  rintro q₂ g₂ ⟨h₂, -⟩
  exact .pure h₂

/-- At its end, the consumer has taken what the queue accepted. -/
theorem finish_holds (hc : c.Takes kept ended) (h : q.Holds kept accepted g) :
    Ensures (q.finish c) g fun r g' => r.1 = .ok () ∧ ended accepted r.2.consumer g' := by
  have hend : Ensures (q.drainAndEnd c) g fun q' g' =>
      q'.fault = none ∧ ended accepted q'.consumer g' := by
    refine (deliver_holds hc q.queue.length h).bind ?_
    rintro q₁ g₁ ⟨⟨⟨hfault, hended, hcrashed⟩, taken, hkept, haccepted⟩, hlength⟩
    have hempty : q₁.queue = [] := List.eq_nil_of_length_eq_zero (by omega)
    rw [hempty, List.map_nil, List.append_nil] at haccepted
    subst haccepted
    rw [endWith, if_neg (by simp [hended]), if_neg (by simp [hcrashed])]
    refine (hc.close taken q₁.consumer g₁ hkept).bind ?_
    rintro k g₂ hdone
    exact .pure ⟨hfault, hdone⟩
  refine hend.bind ?_
  rintro q₁ g₁ ⟨hfault, hdone⟩
  rw [hfault]
  exact .pure ⟨rfl, hdone⟩

end Outbound

end InventoryFeed

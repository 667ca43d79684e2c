import Mathlib.Tactic.Common

/-!
# Computations with a history

A queue, a pump and a pass are programs over a monad of which they know nothing. What can be said of
them is said over any monad whose computations leave a history behind: a computation that is begun at
one history can end with a value at another. `Ensures` is the judgment that every such end is as
stated, and has a rule for each construct of a program.
-/

namespace InventoryFeed

/-- A monad whose computations leave a history behind. -/
class Historied (m : Type → Type) [Monad m] (γ : outParam Type) where
  /-- Begun at a history, a computation can end with a value at another history. -/
  Ends {α : Type} : m α → γ → α → γ → Prop
  /-- A value alone adds nothing to the history. -/
  ends_pure {α : Type} {a b : α} {g g' : γ} : Ends (pure a) g b g' ↔ b = a ∧ g' = g
  /-- What follows goes on from the value and the history that came before. -/
  ends_bind {α β : Type} {x : m α} {f : α → m β} {b : β} {g g' : γ} :
    Ends (x >>= f) g b g' ↔ ∃ a h, Ends x g a h ∧ Ends (f a) h b g'

variable {m : Type → Type} [Monad m] {γ : Type} [Historied m γ] {α β : Type}

/-- Every end of a computation that is begun at a history is as stated. -/
def Ensures (x : m α) (g : γ) (post : α → γ → Prop) : Prop :=
  ∀ a g', Historied.Ends x g a g' → post a g'

namespace Ensures

variable {x : m α} {f : α → m β} {g : γ} {post other : α → γ → Prop} {after : β → γ → Prop}

/-- A value alone ends at once. -/
theorem pure {a : α} (h : post a g) : Ensures (Pure.pure a : m α) g post := by
  intro b g' ends
  obtain ⟨rfl, rfl⟩ := Historied.ends_pure.mp ends
  exact h

/-- What holds before the second part of a program is where its own judgment begins. -/
theorem bind (first : Ensures x g post) (next : ∀ a g', post a g' → Ensures (f a) g' after) :
    Ensures (x >>= f) g after := by
  intro b g' ends
  obtain ⟨a, h, begun, ended⟩ := Historied.ends_bind.mp ends
  exact next a h (first a h begun) b g' ended

/-- A judgment says whatever follows from what it says. -/
theorem mono (h : Ensures x g post) (imp : ∀ a g', post a g' → other a g') :
    Ensures x g other :=
  fun a g' ends => imp a g' (h a g' ends)

/-- Two judgments of one computation hold together. -/
theorem and (h : Ensures x g post) (h' : Ensures x g other) :
    Ensures x g fun a g' => post a g' ∧ other a g' :=
  fun a g' ends => ⟨h a g' ends, h' a g' ends⟩

end Ensures

/-- A value of its own has no history. -/
instance idHistoried : Historied Id Unit where
  Ends x _ a _ := x = a
  ends_pure := by
    rintro α a b ⟨⟩ ⟨⟩
    exact ⟨fun h => ⟨h.symm, rfl⟩, fun h => h.1.symm⟩
  ends_bind := by
    rintro α β x f b ⟨⟩ ⟨⟩
    exact ⟨fun h => ⟨x, (), rfl, h⟩, fun ⟨_, _, hx, hf⟩ => hx ▸ hf⟩

/-- A computation with a state leaves the state behind with the history below it. -/
instance stateHistoried {ω : Type} : Historied (StateT ω m) (γ × ω) where
  Ends x g a g' := Historied.Ends (x.run g.2) g.1 (a, g'.2) g'.1
  ends_pure := by
    rintro α a b ⟨g, s⟩ ⟨g', s'⟩
    rw [StateT.run_pure, Historied.ends_pure]
    simp only [Prod.mk.injEq]
    tauto
  ends_bind := by
    rintro α β x f b ⟨g, s⟩ ⟨g', s'⟩
    rw [StateT.run_bind, Historied.ends_bind]
    constructor
    · rintro ⟨⟨a, t⟩, h, hx, hf⟩
      exact ⟨a, (h, t), hx, hf⟩
    · rintro ⟨a, ⟨h, t⟩, hx, hf⟩
      exact ⟨(a, t), h, hx, hf⟩

section

variable {ω : Type} {x : m α} {g : γ} {state : ω} {post : α → γ → Prop}

/-- A computation below leaves the state as it is. -/
theorem Ensures.lift (h : Ensures x g post) :
    Ensures (liftM x : StateT ω m α) (g, state) fun a g' => post a g'.1 ∧ g'.2 = state := by
  rintro a ⟨g', state'⟩ ends
  have hends : Historied.Ends (x >>= fun a => Pure.pure (a, state)) g (a, state') g' := ends
  obtain ⟨b, h', begun, ended⟩ := Historied.ends_bind.mp hends
  obtain ⟨heq, rfl⟩ := Historied.ends_pure.mp ended
  obtain ⟨rfl, rfl⟩ := Prod.mk.inj heq
  exact ⟨h a g' begun, rfl⟩

/-- A change of the state leaves the history below as it is. -/
theorem Ensures.modified (change : ω → ω) :
    Ensures (modify change : StateT ω m Unit) (g, state) fun _ g' => g' = (g, change state) := by
  rintro u ⟨g', state'⟩ ends
  have hends : Historied.Ends (Pure.pure ((), change state)) g (u, state') g' := ends
  obtain ⟨heq, rfl⟩ := Historied.ends_pure.mp hends
  exact congrArg (g', ·) (Prod.mk.inj heq).2

end

end InventoryFeed

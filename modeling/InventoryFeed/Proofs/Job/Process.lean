import InventoryFeed.Job.Process
import InventoryFeed.Proofs.History

/-!
# What a process went through

A process is the tree of all courses that a pass can take. A course is a list of happenings, each a
step with the answer that it got, and it leads a process to at most one value. Processes are thereby
computations with a history, the list of what happened so far.
-/

namespace InventoryFeed

/-- A step that was made and the answer that it got. -/
structure Happening where
  /-- The step. -/
  step : PassStep
  /-- What it was answered. -/
  answer : step.Answer

namespace Process

variable {α β : Type}

/-- Answered in this way, a process ends with this value. -/
inductive Follows : Process α → List Happening → α → Prop
  | done (a : α) : Follows (done a) [] a
  | step {s : PassStep} {next : s.Answer → Process α} {answer : s.Answer} {t : List Happening}
      {a : α} : Follows (next answer) t a → Follows (step s next) (⟨s, answer⟩ :: t) a

@[simp] theorem follows_done {a b : α} {t : List Happening} :
    Follows (done a) t b ↔ b = a ∧ t = [] := by
  constructor
  · rintro ⟨⟩
    exact ⟨rfl, rfl⟩
  · rintro ⟨rfl, rfl⟩
    exact .done b

theorem follows_step {s : PassStep} {next : s.Answer → Process α} {t : List Happening} {a : α} :
    Follows (step s next) t a ↔
      ∃ answer rest, t = ⟨s, answer⟩ :: rest ∧ Follows (next answer) rest a := by
  constructor
  · rintro ⟨⟩
    exact ⟨_, _, rfl, ‹_›⟩
  · rintro ⟨answer, rest, rfl, h⟩
    exact .step h

/-- A course of two processes one after the other is a course of the first and one of the second. -/
theorem follows_bind {p : Process α} {f : α → Process β} {t : List Happening} {b : β} :
    (p.bind f).Follows t b ↔ ∃ t₁ t₂ a, t = t₁ ++ t₂ ∧ p.Follows t₁ a ∧ (f a).Follows t₂ b := by
  induction p generalizing t with
  | done a => simp [bind]
  | step s next ih =>
    simp only [bind, follows_step, ih]
    constructor
    · rintro ⟨answer, _, rfl, t₁, t₂, a, rfl, h₁, h₂⟩
      exact ⟨⟨s, answer⟩ :: t₁, t₂, a, rfl, ⟨answer, t₁, rfl, h₁⟩, h₂⟩
    · rintro ⟨_, t₂, a, rfl, ⟨answer, t₁, rfl, h₁⟩, h₂⟩
      exact ⟨answer, t₁ ++ t₂, rfl, t₁, t₂, a, rfl, h₁, h₂⟩

/-- Behind a course of the first of two processes, what is left of a course of both is one of the
second. -/
theorem Follows.rest {p : Process α} {f : α → Process β} {t t' : List Happening} {a : α} {b : β}
    (h : p.Follows t a) (hall : (p.bind f).Follows (t ++ t') b) : (f a).Follows t' b := by
  induction h with
  | done a => exact hall
  | step _ ih =>
    obtain ⟨answer, rest, heq, hrest⟩ := follows_step.mp hall
    cases heq
    exact ih hrest

/-- Nothing is added by ending with the value that was there. -/
theorem bind_done (p : Process α) : p.bind done = p := by
  induction p with
  | done a => rfl
  | step s next ih => exact congrArg (step s) (funext ih)

/-- Three processes one after the other are the same course however they are grouped. -/
theorem bind_bind {γ : Type} (p : Process α) (f : α → Process β) (g : β → Process γ) :
    (p.bind f).bind g = p.bind fun a => (f a).bind g := by
  induction p with
  | done a => rfl
  | step s next ih => exact congrArg (step s) (funext ih)

instance : LawfulMonad Process := .mk' Process bind_done (fun _ _ => rfl) bind_bind

/-- A value that was changed at the end comes from the same course. -/
theorem follows_map {p : Process α} {f : α → β} {t : List Happening} {b : β} :
    (f <$> p).Follows t b ↔ ∃ a, p.Follows t a ∧ f a = b := by
  change (p.bind fun a => done (f a)).Follows t b ↔ _
  rw [follows_bind]
  constructor
  · rintro ⟨t₁, t₂, a, rfl, h, hb⟩
    obtain ⟨rfl, rfl⟩ := follows_done.mp hb
    exact ⟨a, by simpa using h, rfl⟩
  · rintro ⟨a, h, rfl⟩
    exact ⟨t, [], a, (List.append_nil t).symm, h, .done _⟩

instance : Historied Process (List Happening) where
  Ends p g a g' := ∃ t, g' = g ++ t ∧ p.Follows t a
  ends_pure := by
    intro α a b g g'
    constructor
    · rintro ⟨t, rfl, h⟩
      obtain ⟨rfl, rfl⟩ := follows_done.mp h
      exact ⟨rfl, List.append_nil g⟩
    · rintro ⟨rfl, rfl⟩
      exact ⟨[], (List.append_nil g').symm, .done b⟩
  ends_bind := by
    intro α β p f b g g'
    constructor
    · rintro ⟨t, rfl, h⟩
      obtain ⟨t₁, t₂, a, rfl, h₁, h₂⟩ := follows_bind.mp h
      exact ⟨a, g ++ t₁, ⟨t₁, rfl, h₁⟩, t₂, (List.append_assoc g t₁ t₂).symm, h₂⟩
    · rintro ⟨a, _, ⟨t₁, rfl, h₁⟩, t₂, rfl, h₂⟩
      exact ⟨t₁ ++ t₂, List.append_assoc g t₁ t₂, follows_bind.mpr ⟨t₁, t₂, a, rfl, h₁, h₂⟩⟩

instance (s : PassStep) : Nonempty s.Answer := by
  cases s with
  | append message => exact ⟨(none : Option String)⟩
  | flush => exact ⟨(none : Option String)⟩
  | recordProgress published => exact ⟨false⟩
  | readCancel => exact ⟨(none : Option Bool)⟩
  | complete status published => exact ⟨()⟩

/-- Every process can be answered to its end. -/
theorem exists_follows {α : Type} (p : Process α) : ∃ t a, p.Follows t a := by
  induction p with
  | done a => exact ⟨[], a, .done a⟩
  | step s next ih =>
    obtain ⟨answer⟩ : Nonempty s.Answer := inferInstance
    obtain ⟨t, a, h⟩ := ih answer
    exact ⟨_, a, .step h⟩

/-- A single step ends with any of its answers, and its happening is what it adds. -/
theorem ensures_perform (s : PassStep) (g : List Happening) :
    Ensures (perform s) g fun answer g' => g' = g ++ [⟨s, answer⟩] := by
  rintro a _ ⟨t, rfl, ends⟩
  obtain ⟨answer, rest, rfl, ended⟩ := follows_step.mp ends
  obtain ⟨rfl, rfl⟩ := follows_done.mp ended
  rfl

/-- What comes after a step goes on from each of its answers. -/
theorem ensures_perform_bind {s : PassStep} {f : s.Answer → Process α} {g : List Happening}
    {post : α → List Happening → Prop}
    (h : ∀ answer, Ensures (f answer) (g ++ [⟨s, answer⟩]) post) :
    Ensures (perform s >>= f) g post := by
  refine (ensures_perform s g).bind ?_
  rintro answer _ rfl
  exact h answer

/-- What happened is never taken back. -/
theorem ensures_extends (p : Process α) (g : List Happening) : Ensures p g fun _ g' => g <+: g' := by
  rintro a _ ⟨t, rfl, -⟩
  exact List.prefix_append g t

/-- What is ensured from the beginning holds of every course to the end. -/
theorem Follows.ensured {p : Process α} {t : List Happening} {a : α}
    {post : α → List Happening → Prop} (h : p.Follows t a) (ensures : Ensures p [] post) : post a t :=
  ensures a t ⟨t, rfl, h⟩

end Process

end InventoryFeed

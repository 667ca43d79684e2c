import Mathlib.Tactic.Common

/-!
# Traversals that may fail

A computation that may fail goes on as long as its steps succeed. A traversal succeeds if every item does, with
the results of the items in their order, and otherwise fails with the error of the first item that fails.
-/

namespace InventoryFeed

variable {ε α β : Type}

theorem bind_eq_ok {x : Except ε α} {f : α → Except ε β} {b : β} :
    (x >>= f) = .ok b ↔ ∃ a, x = .ok a ∧ f a = .ok b := by
  cases x <;> simp [bind, Except.bind]

theorem eq_ok_of_toOption {x : Except ε α} {a : α} (h : x.toOption = some a) : x = .ok a := by
  cases x with
  | error e => cases h
  | ok b => exact congrArg Except.ok (Option.some.inj h)

theorem foldlM_keeps {step : β → α → Except ε β} (keeps : β → Prop) {items : List α}
    (hstep : ∀ b a b', keeps b → step b a = .ok b' → keeps b') {b b' : β} (hb : keeps b)
    (h : items.foldlM step b = .ok b') : keeps b' := by
  induction items generalizing b with
  | nil =>
    cases h
    exact hb
  | cons a rest ih =>
    rw [List.foldlM_cons, bind_eq_ok] at h
    obtain ⟨next, hfirst, hrest⟩ := h
    exact ih (hstep b a next hb hfirst) hrest

/-- A traversal that succeeds goes on behind its first item. -/
theorem mapM_cons_eq_ok {f : α → Except ε β} {first : α} {rest : List α} {results : List β} :
    (first :: rest).mapM f = .ok results ↔
      ∃ b more, f first = .ok b ∧ rest.mapM f = .ok more ∧ results = b :: more := by
  rw [List.mapM_cons, bind_eq_ok]
  constructor
  · rintro ⟨b, hb, h⟩
    obtain ⟨more, hmore, h⟩ := bind_eq_ok.mp h
    cases h
    exact ⟨b, more, hb, hmore, rfl⟩
  · rintro ⟨b, more, hb, hmore, rfl⟩
    exact ⟨b, hb, bind_eq_ok.mpr ⟨more, hmore, rfl⟩⟩

theorem mem_of_mapM {f : α → Except ε β} {items : List α} {results : List β}
    (h : items.mapM f = .ok results) : ∀ a ∈ items, ∃ b ∈ results, f a = .ok b := by
  induction items generalizing results with
  | nil => exact fun a ha => absurd ha List.not_mem_nil
  | cons first rest ih =>
    obtain ⟨b, more, hb, hmore, rfl⟩ := mapM_cons_eq_ok.mp h
    refine List.forall_mem_cons.mpr ⟨⟨b, .head _, hb⟩, fun a ha => ?_⟩
    obtain ⟨c, hc, hac⟩ := ih hmore a ha
    exact ⟨c, .tail _ hc, hac⟩

theorem exists_of_mapM {f : α → Except ε β} {items : List α} {results : List β}
    (h : items.mapM f = .ok results) : ∀ b ∈ results, ∃ a ∈ items, f a = .ok b := by
  induction items generalizing results with
  | nil =>
    cases h
    exact fun b hb => absurd hb List.not_mem_nil
  | cons first rest ih =>
    obtain ⟨b, more, hb, hmore, rfl⟩ := mapM_cons_eq_ok.mp h
    refine List.forall_mem_cons.mpr ⟨⟨first, .head _, hb⟩, fun c hc => ?_⟩
    obtain ⟨a, ha, hac⟩ := ih hmore c hc
    exact ⟨a, .tail _ ha, hac⟩

theorem mapM_eq_ok {f : α → Except ε β} {g : α → β} {items : List α}
    (h : ∀ a ∈ items, f a = .ok (g a)) : items.mapM f = .ok (items.map g) := by
  induction items with
  | nil => rfl
  | cons a rest ih =>
    obtain ⟨ha, hrest⟩ := List.forall_mem_cons.mp h
    rw [List.mapM_cons, ha, ih hrest]
    rfl

/-- A traversal that fails does so at its first item, or behind it if the first item succeeds. -/
theorem mapM_cons_eq_error {f : α → Except ε β} {first : α} {rest : List α} {e : ε} :
    (first :: rest).mapM f = .error e ↔
      f first = .error e ∨ (∃ b, f first = .ok b) ∧ rest.mapM f = .error e := by
  rw [List.mapM_cons]
  cases hfirst : f first with
  | error failure => simp [bind, Except.bind]
  | ok b => cases hrest : rest.mapM f <;> simp [bind, Except.bind, pure, Except.pure]

/-- A traversal fails with the error of the first item that fails. -/
theorem mapM_eq_error {f : α → Except ε β} {items : List α} {e : ε} :
    items.mapM f = .error e ↔ ∃ early item late, items = early ++ item :: late ∧
      (∀ a ∈ early, ∃ b, f a = .ok b) ∧ f item = .error e := by
  induction items with
  | nil =>
    constructor
    · intro h
      cases h
    · rintro ⟨early, item, late, hitems, -⟩
      exact absurd hitems.symm (List.append_ne_nil_of_right_ne_nil early (List.cons_ne_nil item late))
  | cons first rest ih =>
    rw [mapM_cons_eq_error, ih]
    constructor
    · rintro (hfirst | ⟨hfirst, early, item, late, rfl, hearly, hitem⟩)
      · exact ⟨[], first, rest, rfl, List.forall_mem_nil _, hfirst⟩
      · exact ⟨first :: early, item, late, rfl, List.forall_mem_cons.mpr ⟨hfirst, hearly⟩, hitem⟩
    · rintro ⟨early, item, late, hitems, hearly, hitem⟩
      cases early with
      | nil =>
        cases hitems
        exact .inl hitem
      | cons other early =>
        cases hitems
        obtain ⟨hfirst, hrest⟩ := List.forall_mem_cons.mp hearly
        exact .inr ⟨hfirst, early, item, late, rfl, hrest, hitem⟩

/-- A traversal fails exactly if some item does. -/
theorem exists_mapM_eq_error {f : α → Except ε β} {items : List α} :
    (∃ e, items.mapM f = .error e) ↔ ∃ a ∈ items, ∃ e, f a = .error e := by
  constructor
  · rintro ⟨e, h⟩
    obtain ⟨early, item, late, rfl, -, hitem⟩ := mapM_eq_error.mp h
    exact ⟨item, List.mem_append_right early (.head late), e, hitem⟩
  · rintro ⟨a, ha, e, he⟩
    cases hitems : items.mapM f with
    | error failure => exact ⟨failure, rfl⟩
    | ok results =>
      obtain ⟨b, -, hb⟩ := mem_of_mapM hitems a ha
      rw [he] at hb
      cases hb

end InventoryFeed

import InventoryFeed.Proofs.Routing.Route
import InventoryFeed.Routing.Refusal

/-!
# When a request is refused

A request is refused for the first of its field references that cannot be routed, in the order of the
predicate and then of the sort keys. Every other request is routed to the view of the deepest level of its
references. That view has a column for each of them, so that no reference that was resolved once fails when
the text is written.
-/

namespace InventoryFeed

namespace Ascii

theorem not_wordChar_point : ¬ WordChar '.' := by
  rw [← isWord_iff]
  decide

end Ascii

theorem intercalate_cons_head {α : Type} (sep first : List α) (a : α) (rest : List (List α)) :
    sep.intercalate ((a :: first) :: rest) = a :: sep.intercalate (first :: rest) := by
  cases rest <;> simp [List.intercalate_cons_cons]

namespace FieldRef

/-- Characters that make up the rest of a path: steps with points between them, of which the first may be
empty when a step has begun. -/
def PathFrom (begun : Bool) (cs : List Char) : Prop :=
  ∃ first rest, cs = ['.'].intercalate (first :: rest) ∧ (begun = true ∨ first ≠ []) ∧
    (∀ c ∈ first, Ascii.WordChar c) ∧ ∀ step ∈ rest, step ≠ [] ∧ ∀ c ∈ step, Ascii.WordChar c

variable {begun : Bool} {c : Char} {cs : List Char}

/-- Nothing is left of a path whose last step has begun. -/
theorem pathFrom_nil : PathFrom begun [] ↔ begun = true := by
  constructor
  · rintro ⟨first, rest, hcs, hbegun, -, -⟩
    cases rest with
    | nil =>
      rw [List.intercalate_singleton] at hcs
      exact hbegun.resolve_right (not_not.mpr hcs.symm)
    | cons step rest => simp [List.intercalate_cons_cons] at hcs
  · intro hbegun
    exact ⟨[], [], rfl, .inl hbegun, List.forall_mem_nil _, List.forall_mem_nil _⟩

/-- A point ends a step that has begun, and another step follows. -/
theorem pathFrom_point : PathFrom begun ('.' :: cs) ↔ begun = true ∧ PathFrom false cs := by
  constructor
  · rintro ⟨first, rest, hcs, hbegun, hchars, hrest⟩
    cases first with
    | cons d first =>
      rw [intercalate_cons_head] at hcs
      cases hcs
      exact absurd (hchars '.' (.head _)) Ascii.not_wordChar_point
    | nil =>
      cases rest with
      | nil => cases hcs
      | cons step rest =>
        obtain ⟨⟨hstep, hstepChars⟩, hrest⟩ := List.forall_mem_cons.mp hrest
        rw [List.intercalate_cons_cons] at hcs
        cases hcs
        exact ⟨hbegun.resolve_right (not_not.mpr rfl), step, rest, rfl, .inr hstep, hstepChars, hrest⟩
  · rintro ⟨hbegun, first, rest, rfl, hfirst, hchars, hrest⟩
    have hnonempty : first ≠ [] := hfirst.resolve_left Bool.false_ne_true
    exact ⟨[], first :: rest, by simp [List.intercalate_cons_cons], .inl hbegun, List.forall_mem_nil _,
      List.forall_mem_cons.mpr ⟨⟨hnonempty, hchars⟩, hrest⟩⟩

/-- Any other character belongs to a step. -/
theorem pathFrom_cons (hpoint : c ≠ '.') :
    PathFrom begun (c :: cs) ↔ Ascii.WordChar c ∧ PathFrom true cs := by
  constructor
  · rintro ⟨first, rest, hcs, -, hchars, hrest⟩
    cases first with
    | nil =>
      -- The text would begin with a point, or be empty.
      cases rest with
      | nil => cases hcs
      | cons step rest =>
        rw [List.intercalate_cons_cons] at hcs
        cases hcs
        exact absurd rfl hpoint
    | cons d first =>
      rw [intercalate_cons_head] at hcs
      cases hcs
      obtain ⟨hc, hchars⟩ := List.forall_mem_cons.mp hchars
      exact ⟨hc, first, rest, rfl, .inl rfl, hchars, hrest⟩
  · rintro ⟨hc, first, rest, rfl, -, hchars, hrest⟩
    exact ⟨c :: first, rest, (intercalate_cons_head ['.'] first c rest).symm,
      .inr (List.cons_ne_nil c first), List.forall_mem_cons.mpr ⟨hc, hchars⟩, hrest⟩

/-- The check of a path finds what makes up the rest of one. -/
theorem isPathFrom_iff : isPathFrom begun cs = true ↔ PathFrom begun cs := by
  induction cs generalizing begun with
  | nil => rw [isPathFrom, pathFrom_nil]
  | cons c cs ih =>
    rw [isPathFrom]
    by_cases hpoint : c = '.'
    · subst hpoint
      rw [if_pos rfl, Bool.and_eq_true, ih, pathFrom_point]
    · rw [if_neg hpoint, Bool.and_eq_true, Ascii.isWord_iff, ih, pathFrom_cons hpoint]

theorem hasPath_iff {field : FieldRef} : isPath field.path = true ↔ field.HasPath := by
  rw [isPath, isPathFrom_iff, HasPath]
  constructor
  · rintro ⟨first, rest, hpath, hfirst, hchars, hrest⟩
    exact ⟨first :: rest, List.cons_ne_nil first rest, List.forall_mem_cons.mpr
      ⟨⟨hfirst.resolve_left Bool.false_ne_true, hchars⟩, hrest⟩, hpath⟩
  · rintro ⟨steps, hsteps, hstep, hpath⟩
    obtain ⟨first, rest, rfl⟩ := List.exists_cons_of_ne_nil hsteps
    obtain ⟨⟨hfirst, hchars⟩, hrest⟩ := List.forall_mem_cons.mp hstep
    exact ⟨first, rest, hpath, .inr hfirst, hchars, hrest⟩

variable {catalog : Catalog}

/-- A qualifier has no level exactly if it is not in the table; a reference without one has a level. -/
theorem levelOf_eq_none {qualifier : Option String} : catalog.levelOf qualifier = none ↔
    ∃ q, qualifier = some q ∧ q ∉ catalog.qualifiers.map (·.1) := by
  cases qualifier with
  | none => simp [Catalog.levelOf]
  | some q =>
    simp only [Catalog.levelOf, Keyed.get?, Option.map_eq_none_iff, List.find?_eq_none,
      decide_eq_true_eq, Option.some.injEq, List.mem_map, not_exists, not_and]
    constructor
    · intro h
      exact ⟨q, rfl, h⟩
    · rintro ⟨_, rfl, h⟩
      exact h

/-- The errors of a reference are the reasons to refuse it. -/
theorem level_eq_error {field : FieldRef} {e : RoutingError} :
    field.level catalog = .error e ↔ field.Refused catalog e := by
  unfold FieldRef.level
  constructor
  · intro h
    split at h
    · rename_i hpath
      split at h
      · cases h
      · rename_i hlevel
        obtain ⟨q, hq, hunknown⟩ := levelOf_eq_none.mp hlevel
        cases h
        rw [hq]
        exact .qualifier (hasPath_iff.mp hpath) hq hunknown
    · rename_i hpath
      cases h
      exact .path (hasPath_iff.not.mp hpath)
  · intro h
    cases h with
    | path hpath => rw [if_neg (hasPath_iff.not.mpr hpath)]
    | qualifier hpath hq hunknown =>
      rw [if_pos (hasPath_iff.mpr hpath), levelOf_eq_none.mpr ⟨_, hq, hunknown⟩, hq]
      rfl

/-- A reference has a level exactly if there is no reason to refuse it. -/
theorem exists_level_iff {field : FieldRef} :
    (∃ level, field.level catalog = .ok level) ↔ ∀ e, ¬ field.Refused catalog e := by
  simp only [← level_eq_error]
  cases field.level catalog <;> simp

/-- There is a reason to refuse a reference if its path is bad or its qualifier is unknown. -/
theorem exists_refused_iff {field : FieldRef} : (∃ e, field.Refused catalog e) ↔
    ¬ field.HasPath ∨ ∃ q, field.qualifier = some q ∧ q ∉ catalog.qualifiers.map (·.1) := by
  constructor
  · rintro ⟨e, hrefused⟩
    cases hrefused with
    | path hpath => exact .inl hpath
    | qualifier hpath hq hunknown => exact .inr ⟨_, hq, hunknown⟩
  · intro h
    by_cases hpath : field.HasPath
    · obtain ⟨q, hq, hunknown⟩ := h.resolve_left (not_not.mpr hpath)
      exact ⟨_, .qualifier hpath hq hunknown⟩
    · exact ⟨_, .path hpath⟩

end FieldRef

namespace Request

theorem max_eq_or (a b : Level) : a.max b = a ∨ a.max b = b := by
  cases a <;> cases b <;> decide

/-- The deepest of some levels is one of them. -/
theorem deepest_mem {levels : List Level} (h : levels ≠ []) : deepest levels ∈ levels := by
  have hfrom : ∀ (rest : List Level) (start : Level),
      rest.foldl Level.max start = start ∨ rest.foldl Level.max start ∈ rest := by
    intro rest
    induction rest with
    | nil => exact fun _ => .inl rfl
    | cons next rest ih =>
      intro start
      rw [List.foldl_cons]
      rcases ih (start.max next) with heq | hmem
      · rw [heq]
        rcases max_eq_or start next with hstart | hnext
        · exact .inl hstart
        · rw [hnext]
          exact .inr (.head _)
      · exact .inr (.tail _ hmem)
  obtain ⟨head, rest, rfl⟩ := List.exists_cons_of_ne_nil h
  -- The record's own level is the least, so the fold starts with the first level as well.
  have hstart : Level.base.max head = head := by cases head <;> decide
  rw [deepest, List.foldl_cons, hstart]
  rcases hfrom rest head with heq | hmem
  · rw [heq]
    exact .head _
  · exact .tail _ hmem

/-- Routing fails exactly if some reference does: whatever follows the levels succeeds. -/
theorem route_eq_error {catalog : Catalog} (hcatalog : catalog.Accepted) {r : Request} {e : RoutingError} :
    r.route catalog = .error e ↔ r.levels catalog = .error e := by
  cases hlevels : r.levels catalog with
  | error failure =>
    rw [route, hlevels]
    constructor
    · intro h
      cases h
      rfl
    · intro h
      cases h
      rfl
  | ok levels =>
    obtain ⟨q, hq⟩ := exists_route_of_levels hcatalog hlevels
    rw [hq]
    constructor
    · intro h
      cases h
    · intro h
      cases h

/-- The first reference that is refused decides the error. -/
theorem route_eq_error_iff {catalog : Catalog} (hcatalog : catalog.Accepted) {r : Request}
    {e : RoutingError} : r.route catalog = .error e ↔ ∃ early field late,
      r.fields = early ++ field :: late ∧ (∀ other ∈ early, ∀ e, ¬ other.Refused catalog e) ∧
        field.Refused catalog e := by
  rw [route_eq_error hcatalog, levels, mapM_eq_error]
  simp only [FieldRef.exists_level_iff, FieldRef.level_eq_error]

/-- The level of a routed request is the greatest of its references' levels. -/
theorem level_of_route {catalog : Catalog} {r : Request} {q : RoutedQuery} (h : r.RoutedAs catalog q) :
    (r.fields = [] ∧ q.level = .base ∨
        ∃ field ∈ r.fields, catalog.levelOf field.qualifier = some q.level) ∧
      ∀ field ∈ r.fields, ∃ level, catalog.levelOf field.qualifier = some level ∧
        level.depth ≤ q.level.depth := by
  obtain ⟨levels, hlevels, hlevel⟩ := h.level
  rw [hlevel]
  constructor
  · by_cases hnone : levels = []
    · subst hnone
      left
      refine ⟨List.eq_nil_iff_forall_not_mem.mpr ?_, rfl⟩
      intro field hfield
      obtain ⟨level, hmem, -⟩ := mem_of_mapM hlevels field hfield
      exact List.not_mem_nil hmem
    · right
      obtain ⟨field, hfield, hdeepest⟩ := exists_of_mapM hlevels _ (deepest_mem hnone)
      exact ⟨field, hfield, Routing.levelOf_of_level hdeepest⟩
  · intro field hfield
    obtain ⟨level, hmem, hresolved⟩ := mem_of_mapM hlevels field hfield
    exact ⟨level, Routing.levelOf_of_level hresolved, depth_le_deepest hmem⟩

/-- A request is refused exactly if some reference of its predicate or of a sort key has a bad path or a
qualifier that the catalog does not know. The first such reference decides the error, by its path before
its qualifier. Otherwise the request goes to the view of the greatest level of its references, the record's
own when there is none, and each reference has a column there: once the levels are found, neither the
condition nor the document nor the order fails for want of one. -/
theorem route_resolves {catalog : Catalog} (hcatalog : catalog.Accepted) (r : Request) :
    ((∃ e, r.route catalog = .error e) ↔ ∃ field ∈ r.predicate.fields ++ r.sort.map (·.field),
      ¬ field.HasPath ∨ ∃ q, field.qualifier = some q ∧ q ∉ catalog.qualifiers.map (·.1)) ∧
    (∀ e, r.route catalog = .error e ↔ ∃ early field late,
      r.predicate.fields ++ r.sort.map (·.field) = early ++ field :: late ∧
        (∀ other ∈ early, ∀ e, ¬ other.Refused catalog e) ∧ field.Refused catalog e) ∧
    (∀ q, r.route catalog = .ok q →
      (r.fields = [] ∧ q.level = .base ∨
        ∃ field ∈ r.fields, catalog.levelOf field.qualifier = some q.level) ∧
      (∀ field ∈ r.fields, ∃ level column, catalog.levelOf field.qualifier = some level ∧
        level.depth ≤ q.level.depth ∧ (catalog.views.get q.level).columns.get level = some column) ∧
      q.view = (catalog.views.get q.level).name ∧ (catalog.views.get q.level).level = q.level) ∧
    ∀ levels, r.levels catalog = .ok levels → ∃ v, v = catalog.views.get (deepest levels) ∧
      (∀ field ∈ r.fields, ∃ column, Routing.columnOfField catalog v field = .ok column) ∧
      (∃ column, Routing.columnOf v .base = .ok column) ∧
      (∀ n, ∃ made, Routing.condition catalog v n r.predicate = .ok made) ∧
      ∀ n, ∃ made, Routing.orderTerms catalog v n r.sort = .ok made := by
  refine ⟨?_, fun e => route_eq_error_iff hcatalog, ?_, ?_⟩
  · simp only [route_eq_error hcatalog, levels, exists_mapM_eq_error, FieldRef.level_eq_error,
      FieldRef.exists_refused_iff]
    rfl
  · intro q hq
    have hrouted := routedAs_of_route hcatalog hq
    obtain ⟨hlevel, hfields⟩ := level_of_route hrouted
    refine ⟨hlevel, ?_, hrouted.view, hcatalog.checked.place q.level⟩
    intro field hfield
    obtain ⟨level, hknown, hdepth⟩ := hfields field hfield
    obtain ⟨level', column, hknown', hcolumn, -⟩ := column_of_field hrouted hfield
    cases hknown.symm.trans hknown'
    exact ⟨level, column, hknown, hdepth, hcolumn⟩
  · intro levels hlevels
    exact ⟨_, rfl, fun field hfield => exists_columnOfField hcatalog hlevels hfield,
      exists_columnOf hcatalog (Nat.zero_le _), exists_made hcatalog hlevels,
      exists_order hcatalog hlevels⟩

/-- A path with a hyphen in it is refused before the unknown qualifier on it, and before the sort key behind
it; the reference ahead of it is known. -/
theorem route_resolves_hyphen :
    (Request.mk (.conj [.compare ⟨some "item", "barcode"⟩ .eq (.text "7"),
      .neg (.compare ⟨some "loan", "due-date"⟩ .like (.text "2*"))]) [⟨⟨some "loan", "id"⟩, true⟩]
      none 0).route Catalog.inventory = .error (.invalidField "loan.due-date") := by
  refine ((route_resolves .bundled _).2.1 _).mpr ⟨[⟨some "item", "barcode"⟩], ⟨some "loan", "due-date"⟩,
    [⟨some "loan", "id"⟩], rfl, ?_, .path ?_⟩
  · intro other hother
    cases List.mem_singleton.mp hother
    exact FieldRef.exists_level_iff.mp ⟨.second, rfl⟩
  · rw [← FieldRef.hasPath_iff]
    decide

end Request

end InventoryFeed

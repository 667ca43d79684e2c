import InventoryFeed.Proofs.Routing.Condition
import InventoryFeed.Proofs.Sql.Tokens

/-!
# What routing makes of a request

A routed request is a query over the view of the deepest level that the request's fields reach. Its
condition is that of the predicate, its order has a term for each sort key, and its values are bound in
the order of the placeholders: for the comparisons, for the sort keys, for the page.
-/

namespace InventoryFeed

namespace Predicate

mutual

/-- The field references of a predicate are those of its comparisons. -/
theorem fields_eq (p : Predicate) : p.fields = p.comparisons.map (·.field) := by
  cases p with
  | all => rfl
  | compare field op value => rfl
  | conj children => exact fieldsOfAll_eq children
  | disj children => exact fieldsOfAll_eq children
  | neg child => exact fields_eq child

theorem fieldsOfAll_eq (ps : List Predicate) :
    fieldsOfAll ps = (comparisonsOfAll ps).map (·.field) := by
  match ps with
  | [] => rfl
  | child :: rest =>
    rw [fieldsOfAll, comparisonsOfAll, List.map_append, fields_eq child, fieldsOfAll_eq rest]

end

end Predicate

namespace Routing

variable {catalog : Catalog} {v : View}

/-- The term that stands for the sort key with number `i`, its path being placeholder `n + i`. -/
def orderTerm (column : FieldRef → Sql.Column) (n i : Nat) (key : SortKey) : Sql.OrderTerm :=
  ⟨column key.field, n + i, key.descending⟩

/-- Each sort key becomes a term over its own column. -/
theorem orderTerms_eq_ok {n : Nat} {sort : List SortKey} {terms : List Sql.OrderTerm}
    {params : List Sql.Value} (h : orderTerms catalog v n sort = .ok (terms, params)) :
    terms = sort.mapIdx (orderTerm (column catalog v) n) ∧
      params = sort.map (fun key => pathValue key.field.path) ∧
      ∀ key ∈ sort, column? catalog v key.field = some (column catalog v key.field) := by
  induction sort generalizing n terms params with
  | nil =>
    cases h
    exact ⟨rfl, rfl, nofun⟩
  | cons key rest ih =>
    rw [orderTerms, bind_eq_ok] at h
    obtain ⟨c, hc, h⟩ := h
    rw [bind_eq_ok] at h
    obtain ⟨⟨more, moreParams⟩, hmore, h⟩ := h
    cases h
    obtain ⟨hterms, hparams, hcolumns⟩ := ih hmore
    have hcolumn := column?_of_columnOfField hc
    have hself : column catalog v key.field = c := by rw [column, hcolumn, Option.getD_some]
    refine ⟨?_, congrArg (_ :: ·) hparams, ?_⟩
    · have hnext : orderTerm (column catalog v) (n + 1) =
          fun i => orderTerm (column catalog v) n (i + 1) := by
        funext i other
        rw [orderTerm, orderTerm, Nat.add_assoc, Nat.add_comm 1]
      rw [hterms, List.mapIdx_cons, hnext, orderTerm, hself, Nat.add_zero]
    · rintro other (_ | ⟨_, hother⟩)
      · rw [hself, hcolumn]
      · exact hcolumns other hother

theorem plain_of_column? (hv : v.Checked) {field : FieldRef} {c : Sql.Column}
    (h : column? catalog v field = some c) : c.Plain := by
  simp only [column?, Option.bind_eq_bind, Option.bind_eq_some_iff, Option.pure_def,
    Option.some.injEq] at h
  obtain ⟨level, -, name, hname, rfl⟩ := h
  exact ⟨hv.name, hv.column level name hname⟩

end Routing

open Routing

/-- A routed request and the query that it became. -/
structure Request.RoutedAs (catalog : Catalog) (r : Request) (q : RoutedQuery) : Prop where
  level : ∃ levels, r.levels catalog = .ok levels ∧ q.level = Request.deepest levels
  view : q.view = (catalog.views.get q.level).name
  id : q.select.id = ⟨q.view, catalog.idColumn⟩
  doc : ∃ name, (catalog.views.get q.level).columns.get .base = some name ∧
    q.select.doc = ⟨q.view, name⟩
  grouped : q.select.grouped = decide (Level.base.depth < q.level.depth)
  made : Routing.condition catalog (catalog.views.get q.level) 1 r.predicate =
    .ok (q.select.condition, bound r.predicate.comparisons)
  condition : Routed catalog (catalog.views.get q.level) 0 r.predicate q.select.condition
    (bound r.predicate.comparisons)
  order : q.select.order = r.sort.mapIdx
    (orderTerm (column catalog (catalog.views.get q.level)) (2 * r.predicate.comparisons.length + 1))
  orderColumn : ∀ key ∈ r.sort, column? catalog (catalog.views.get q.level) key.field =
    some (column catalog (catalog.views.get q.level) key.field)
  page : q.select.page = (page (2 * r.predicate.comparisons.length + r.sort.length + 1) r).1
  params : q.params = bound r.predicate.comparisons ++
    r.sort.map (fun key => pathValue key.field.path) ++
    (Routing.page (2 * r.predicate.comparisons.length + r.sort.length + 1) r).2

theorem routedAs_of_route {catalog : Catalog} (hcatalog : catalog.Accepted) {r : Request}
    {q : RoutedQuery} (h : r.route catalog = .ok q) : r.RoutedAs catalog q := by
  obtain ⟨levels, c, params, doc, order, orderParams, hlevels, hcondition, hdoc, horder, rfl⟩ :=
    route_eq_ok.mp h
  have hrouted : Routed catalog (catalog.views.get (Request.deepest levels)) 0 r.predicate c params :=
    routed_of_condition (hcatalog.checked.view _) hcondition
  obtain rfl := hrouted.bound.params
  obtain ⟨rfl, rfl, hcolumns⟩ := orderTerms_eq_ok horder
  have hstart : 1 + (bound r.predicate.comparisons).length =
      2 * r.predicate.comparisons.length + 1 := by
    rw [length_bound]
    omega
  have hpage : 1 + (bound r.predicate.comparisons).length +
      (r.sort.map fun key => pathValue key.field.path).length =
      2 * r.predicate.comparisons.length + r.sort.length + 1 := by
    rw [length_bound, List.length_map]
    omega
  exact {
    level := ⟨levels, hlevels, rfl⟩
    view := rfl
    id := rfl
    doc := columns_of_columnOf hdoc
    grouped := rfl
    made := hcondition
    condition := hrouted
    order := by
      rw [hstart]
      rfl
    orderColumn := hcolumns
    page := by rw [assembled, hpage]
    params := by rw [assembled, hpage] }

theorem Request.RoutedAs.writable {catalog : Catalog} (hcatalog : catalog.Accepted) {r : Request}
    {q : RoutedQuery} (h : r.RoutedAs catalog q) : q.select.Writable where
  view := by
    have hview := h.view
    rw [RoutedQuery.view] at hview
    rw [hview]
    exact (hcatalog.checked.view q.level).name
  id := by
    rw [h.id, h.view]
    exact ⟨(hcatalog.checked.view q.level).name, hcatalog.checked.idColumn⟩
  doc := by
    obtain ⟨name, hname, hdoc⟩ := h.doc
    rw [hdoc, h.view]
    exact ⟨(hcatalog.checked.view q.level).name, (hcatalog.checked.view q.level).column _ _ hname⟩
  condition := h.condition.writable
  order := by
    intro term hterm
    rw [h.order, List.mem_mapIdx] at hterm
    obtain ⟨i, hi, rfl⟩ := hterm
    exact plain_of_column? (hcatalog.checked.view q.level) (h.orderColumn _ (List.getElem_mem hi))

theorem column_of_field {catalog : Catalog} {r : Request} {q : RoutedQuery}
    (h : r.RoutedAs catalog q) {field : FieldRef} (hfield : field ∈ r.fields) :
    ∃ level name, catalog.levelOf field.qualifier = some level ∧
      (catalog.views.get q.level).columns.get level = some name ∧
        column catalog (catalog.views.get q.level) field = ⟨q.view, name⟩ := by
  have hcolumn : column? catalog (catalog.views.get q.level) field =
      some (column catalog (catalog.views.get q.level) field) := by
    rw [Request.fields, r.predicate.fields_eq] at hfield
    rcases List.mem_append.mp hfield with hfield | hfield
    · obtain ⟨c, hc, rfl⟩ := List.mem_map.mp hfield
      exact h.condition.bound.column c hc
    · obtain ⟨key, hkey, rfl⟩ := List.mem_map.mp hfield
      exact h.orderColumn key hkey
  simp only [column?, Option.bind_eq_bind, Option.bind_eq_some_iff, Option.pure_def,
    Option.some.injEq] at hcolumn
  obtain ⟨level, hlevel, name, hname, hc⟩ := hcolumn
  exact ⟨level, name, hlevel, hname, h.view ▸ hc.symm⟩

namespace Routing

variable {catalog : Catalog} {v : View}

mutual

/-- A predicate whose fields have columns has a condition. -/
theorem exists_condition (p : Predicate) (n : Nat)
    (h : ∀ field ∈ p.fields, ∃ c, columnOfField catalog v field = .ok c) :
    ∃ made, condition catalog v n p = .ok made := by
  cases p with
  | all => exact ⟨_, rfl⟩
  | compare field op literal =>
    obtain ⟨c, hc⟩ := h field (.head _)
    rw [condition, hc]
    exact ⟨_, rfl⟩
  | conj children =>
    match children with
    | [] => exact ⟨_, rfl⟩
    | child :: rest =>
      obtain ⟨made, hmade⟩ := exists_conditions (child :: rest) n h
      rw [condition, hmade]
      exact ⟨_, rfl⟩
  | disj children =>
    match children with
    | [] => exact ⟨_, rfl⟩
    | child :: rest =>
      obtain ⟨made, hmade⟩ := exists_conditions (child :: rest) n h
      rw [condition, hmade]
      exact ⟨_, rfl⟩
  | neg child =>
    obtain ⟨made, hmade⟩ := exists_condition child n h
    rw [condition, hmade]
    exact ⟨_, rfl⟩

theorem exists_conditions (ps : List Predicate) (n : Nat)
    (h : ∀ field ∈ Predicate.fieldsOfAll ps, ∃ c, columnOfField catalog v field = .ok c) :
    ∃ made, conditions catalog v n ps = .ok made := by
  match ps with
  | [] => exact ⟨_, rfl⟩
  | child :: rest =>
    obtain ⟨hchild, hrest⟩ := List.forall_mem_append.mp h
    obtain ⟨first, hfirst⟩ := exists_condition child n hchild
    obtain ⟨others, hothers⟩ := exists_conditions rest (n + first.2.length) hrest
    rw [conditions, hfirst]
    change ∃ made, (conditions catalog v (n + first.2.length) rest >>= _) = .ok made
    rw [hothers]
    exact ⟨_, rfl⟩

end

theorem exists_orderTerms (sort : List SortKey) (n : Nat)
    (h : ∀ key ∈ sort, ∃ c, columnOfField catalog v key.field = .ok c) :
    ∃ made, orderTerms catalog v n sort = .ok made := by
  induction sort generalizing n with
  | nil => exact ⟨_, rfl⟩
  | cons key rest ih =>
    obtain ⟨⟨c, hc⟩, hrest⟩ := List.forall_mem_cons.mp h
    obtain ⟨more, hmore⟩ := ih (n + 1) hrest
    rw [orderTerms, hc]
    change ∃ made, (orderTerms catalog v (n + 1) rest >>= _) = .ok made
    rw [hmore]
    exact ⟨_, rfl⟩

end Routing

namespace Request

theorem depth_le_deepest {levels : List Level} {level : Level} (h : level ∈ levels) :
    level.depth ≤ (deepest levels).depth := by
  have hmax : ∀ a b : Level, a.depth ≤ (a.max b).depth ∧ b.depth ≤ (a.max b).depth := by
    intro a b
    cases a <;> cases b <;> decide
  suffices hfrom : ∀ start : Level, start.depth ≤ (levels.foldl Level.max start).depth ∧
      ∀ level ∈ levels, level.depth ≤ (levels.foldl Level.max start).depth from (hfrom .base).2 level h
  clear h
  induction levels with
  | nil => exact fun start => ⟨Nat.le_refl _, fun _ h => absurd h List.not_mem_nil⟩
  | cons next rest ih =>
    intro start
    obtain ⟨hstart, hrest⟩ := ih (start.max next)
    exact ⟨(hmax start next).1.trans hstart,
      List.forall_mem_cons.mpr ⟨(hmax start next).2.trans hstart, hrest⟩⟩

section Writing

variable {catalog : Catalog} {r : Request} {levels : List Level}

/-- The view of a level has a column for each level up to it. -/
theorem exists_columnOf (hcatalog : catalog.Accepted) {level carried : Level}
    (h : carried.depth ≤ level.depth) :
    ∃ c, Routing.columnOf (catalog.views.get level) carried = .ok c := by
  rw [← hcatalog.checked.place level] at h
  obtain ⟨name, hname⟩ := Option.isSome_iff_exists.mp
    ((hcatalog.checked.view level).carries carried h)
  rw [Routing.columnOf, hname]
  exact ⟨_, rfl⟩

/-- Once the fields have levels, each of them has a column in the view of the deepest one. -/
theorem exists_columnOfField (hcatalog : catalog.Accepted) (h : r.levels catalog = .ok levels)
    {field : FieldRef} (hfield : field ∈ r.fields) :
    ∃ c, Routing.columnOfField catalog (catalog.views.get (deepest levels)) field = .ok c := by
  obtain ⟨level, hmem, hlevel⟩ := mem_of_mapM h field hfield
  rw [Routing.columnOfField, hlevel]
  exact exists_columnOf hcatalog (depth_le_deepest hmem)

/-- Once the fields have levels, the condition is written, from whichever number on. -/
theorem exists_made (hcatalog : catalog.Accepted) (h : r.levels catalog = .ok levels) (n : Nat) :
    ∃ made, Routing.condition catalog (catalog.views.get (deepest levels)) n r.predicate = .ok made :=
  Routing.exists_condition r.predicate n fun _ hfield =>
    exists_columnOfField hcatalog h (List.mem_append_left _ hfield)

/-- Once the fields have levels, the order is written, from whichever number on. -/
theorem exists_order (hcatalog : catalog.Accepted) (h : r.levels catalog = .ok levels) (n : Nat) :
    ∃ made, Routing.orderTerms catalog (catalog.views.get (deepest levels)) n r.sort = .ok made :=
  Routing.exists_orderTerms r.sort n fun _ hkey =>
    exists_columnOfField hcatalog h (List.mem_append_right _ (List.mem_map_of_mem hkey))

/-- A request whose fields have levels is routed. -/
theorem exists_route_of_levels (hcatalog : catalog.Accepted) (h : r.levels catalog = .ok levels) :
    ∃ q, r.route catalog = .ok q := by
  obtain ⟨⟨c, params⟩, hmade⟩ := exists_made hcatalog h 1
  obtain ⟨doc, hdoc⟩ : ∃ doc, Routing.columnOf (catalog.views.get (deepest levels)) .base = .ok doc :=
    exists_columnOf hcatalog (Nat.zero_le _)
  obtain ⟨⟨order, orderParams⟩, horder⟩ := exists_order hcatalog h (1 + params.length)
  exact ⟨_, route_eq_ok.mpr ⟨levels, c, params, doc, order, orderParams, h, hmade, hdoc, horder, rfl⟩⟩

end Writing

end Request

end InventoryFeed

import InventoryFeed.Proofs.Catalog.Accepted
import InventoryFeed.Proofs.Sql.Reading
import InventoryFeed.Query.Meaning
import InventoryFeed.Routing
import InventoryFeed.Routing.Kind

/-!
# The condition of a routed request

The comparisons of a predicate become tests, the one with number `k` against the placeholders `2 * k + 1`
for its path and `2 * k + 2` for what its literal stands for. Read as SQL, the text of the condition has
the truth value of the predicate, whatever truth values the tests have.
-/

namespace InventoryFeed

/-- A literal is bound as what it stands for. -/
theorem Literal.operand_eq_comparand (op : CompareOp) (literal : Literal) :
    literal.operand op = literal.comparand op := by
  rcases literal with (_ | _) | n | x | s <;> cases op <;> rfl

namespace Comparison

/-- The test that stands for the comparison with number `k`. -/
def test (column : FieldRef → Sql.Column) (k : Nat) (c : Comparison) : Sql.Test :=
  ⟨column c.field, 2 * k + 1, c.op, 2 * k + 2⟩

/-- The values that are bound for a comparison. -/
def bound (c : Comparison) : List Sql.Value := [.text ("$." ++ c.field.path), c.value.comparand c.op]

end Comparison

namespace Routing

/-- The values that are bound for several comparisons. -/
def bound (comparisons : List Comparison) : List Sql.Value := comparisons.flatMap Comparison.bound

theorem length_bound (comparisons : List Comparison) :
    (bound comparisons).length = 2 * comparisons.length := by
  induction comparisons with
  | nil => rfl
  | cons first rest ih =>
    have hcons : bound (first :: rest) = first.bound ++ bound rest := rfl
    rw [hcons, List.length_append, ih]
    simp only [Comparison.bound, List.length_cons, List.length_nil]
    omega

/-- The column that a reference means in a view; none if its qualifier is unknown or its level is not
carried. -/
def column? (catalog : Catalog) (v : View) (field : FieldRef) : Option Sql.Column := do
  let level ← catalog.levelOf field.qualifier
  let name ← v.columns.get level
  pure ⟨v.name, name⟩

def column (catalog : Catalog) (v : View) (field : FieldRef) : Sql.Column :=
  (column? catalog v field).getD ⟨v.name, ""⟩

theorem levelOf_of_level {catalog : Catalog} {field : FieldRef} {level : Level}
    (h : field.level catalog = .ok level) : catalog.levelOf field.qualifier = some level := by
  unfold FieldRef.level at h
  split at h
  · split at h
    · cases h
      assumption
    · cases h
  · cases h

theorem columns_of_columnOf {v : View} {level : Level} {c : Sql.Column}
    (h : columnOf v level = .ok c) : ∃ name, v.columns.get level = some name ∧ c = ⟨v.name, name⟩ := by
  unfold columnOf at h
  split at h
  · rename_i name hname
    cases h
    exact ⟨name, hname, rfl⟩
  · cases h

theorem column?_of_columnOfField {catalog : Catalog} {v : View} {field : FieldRef} {c : Sql.Column}
    (h : columnOfField catalog v field = .ok c) : column? catalog v field = some c := by
  rw [columnOfField, bind_eq_ok] at h
  obtain ⟨level, hlevel, hcolumn⟩ := h
  obtain ⟨name, hname, rfl⟩ := columns_of_columnOf hcolumn
  simp [column?, levelOf_of_level hlevel, hname]

/-- What routing makes of comparisons: each has its column, and their values are bound in order. -/
structure Bound (catalog : Catalog) (v : View) (comparisons : List Comparison)
    (params : List Sql.Value) : Prop where
  column : ∀ c ∈ comparisons, column? catalog v c.field = some (column catalog v c.field)
  params : params = bound comparisons

theorem Bound.append {catalog : Catalog} {v : View} {first rest : List Comparison}
    {params more : List Sql.Value} (hfirst : Bound catalog v first params)
    (hrest : Bound catalog v rest more) : Bound catalog v (first ++ rest) (params ++ more) where
  column := by
    intro c hc
    rcases List.mem_append.mp hc with hc | hc
    · exact hfirst.column c hc
    · exact hrest.column c hc
  params := by rw [hfirst.params, hrest.params, bound, bound, bound, List.flatMap_append]

variable {catalog : Catalog} {v : View}

/-- What routing makes of a predicate: a condition that can be written, the values of its comparisons in
order, and the truth value of the predicate. -/
structure Routed (catalog : Catalog) (v : View) (k : Nat) (p : Predicate) (c : Sql.Condition)
    (params : List Sql.Value) : Prop where
  writable : c.Writable
  bound : Bound catalog v p.comparisons params
  truth : ∀ value : Sql.Test → Truth,
    c.truth value = p.truth (fun k c => value (c.test (column catalog v) k)) k
  tests : c.tests = p.comparisons.mapIdx fun i comparison =>
    comparison.test (column catalog v) (i + k)

/-- What routing makes of several predicates. -/
structure EachRouted (catalog : Catalog) (v : View) (k : Nat) (ps : List Predicate)
    (cs : List Sql.Condition) (params : List Sql.Value) : Prop where
  length : cs.length = ps.length
  writable : Sql.Condition.EachWritable cs
  bound : Bound catalog v (Predicate.comparisonsOfAll ps) params
  truth : ∀ value : Sql.Test → Truth, Sql.Condition.truthOfEach value cs =
    Predicate.truthOfEach (fun k c => value (c.test (column catalog v) k)) k ps
  tests : Sql.Condition.testsOfEach cs = (Predicate.comparisonsOfAll ps).mapIdx fun i comparison =>
    comparison.test (column catalog v) (i + k)

theorem EachRouted.ne_nil {k : Nat} {p : Predicate} {ps : List Predicate} {cs : List Sql.Condition}
    {params : List Sql.Value} (h : EachRouted catalog v k (p :: ps) cs params) : cs ≠ [] := by
  rintro rfl
  exact absurd h.length nofun

/-- A comparison that is routed is a test of its own column and placeholders. -/
theorem routed_compare (hv : v.Checked) {k : Nat} {field : FieldRef} {op : CompareOp}
    {literal : Literal} {c : Sql.Column} (h : columnOfField catalog v field = .ok c) :
    Routed catalog v k (.compare field op literal) (.test c (2 * k + 1) op (2 * k + 1 + 1))
      [pathValue field.path, literal.operand op] := by
  have hcolumn : column? catalog v field = some c := column?_of_columnOfField h
  have hself : column catalog v field = c := by rw [column, hcolumn, Option.getD_some]
  have hbound : [pathValue field.path, literal.operand op] = bound [⟨field, op, literal⟩] := by
    rw [literal.operand_eq_comparand op]
    rfl
  refine ⟨?_, ⟨?_, hbound⟩, fun value => ?_, ?_⟩
  · -- A column of a checked view is an identifier.
    obtain ⟨level, -, name, hname, hc⟩ : ∃ level, catalog.levelOf field.qualifier = some level ∧
        ∃ name, v.columns.get level = some name ∧ ⟨v.name, name⟩ = c := by
      simpa [column?, Option.bind_eq_some_iff] using hcolumn
    rw [← hc]
    exact ⟨hv.name, hv.column level name hname⟩
  · rintro comparison (_ | ⟨_, ⟨⟩⟩)
    rw [hself]
    exact hcolumn
  · rw [Sql.Condition.truth, Predicate.truth, Comparison.test, hself]
  · simp [Sql.Condition.tests, Predicate.comparisons, Comparison.test, hself]

mutual

/-- A predicate that is routed is routed well. The induction is on the predicate; what it carries along is
the number of its first comparison. -/
theorem routed_of_condition (hv : v.Checked) {k : Nat} {p : Predicate} {c : Sql.Condition}
    {params : List Sql.Value} (h : condition catalog v (2 * k + 1) p = .ok (c, params)) :
    Routed catalog v k p c params := by
  have hnone : Bound catalog v [] [] := ⟨nofun, rfl⟩
  cases p with
  | all =>
    cases h
    exact ⟨trivial, hnone, fun _ => rfl, rfl⟩
  | compare field op literal =>
    rw [condition, bind_eq_ok] at h
    obtain ⟨column, hcolumn, h⟩ := h
    cases h
    exact routed_compare hv hcolumn
  | conj children =>
    match children with
    | [] =>
      cases h
      exact ⟨trivial, hnone, fun _ => rfl, rfl⟩
    | child :: rest =>
      rw [condition, bind_eq_ok] at h
      obtain ⟨⟨cs, more⟩, hchildren, h⟩ := h
      cases h
      have heach := routed_of_conditions hv hchildren
      exact ⟨⟨heach.ne_nil, heach.writable⟩, heach.bound,
        fun value => congrArg Truth.all (heach.truth value), heach.tests⟩
  | disj children =>
    match children with
    | [] =>
      cases h
      exact ⟨trivial, hnone, fun _ => rfl, rfl⟩
    | child :: rest =>
      rw [condition, bind_eq_ok] at h
      obtain ⟨⟨cs, more⟩, hchildren, h⟩ := h
      cases h
      have heach := routed_of_conditions hv hchildren
      exact ⟨⟨heach.ne_nil, heach.writable⟩, heach.bound,
        fun value => congrArg Truth.any (heach.truth value), heach.tests⟩
  | neg child =>
    rw [condition, bind_eq_ok] at h
    obtain ⟨⟨inner, more⟩, hchild, h⟩ := h
    cases h
    have hinner := routed_of_condition hv hchild
    exact ⟨hinner.writable, hinner.bound, fun value => congrArg Truth.neg (hinner.truth value),
      hinner.tests⟩

theorem routed_of_conditions (hv : v.Checked) {k : Nat} {ps : List Predicate}
    {cs : List Sql.Condition} {params : List Sql.Value}
    (h : conditions catalog v (2 * k + 1) ps = .ok (cs, params)) :
    EachRouted catalog v k ps cs params := by
  match ps with
  | [] =>
    cases h
    exact ⟨rfl, trivial, ⟨nofun, rfl⟩, fun _ => rfl, rfl⟩
  | child :: rest =>
    rw [conditions, bind_eq_ok] at h
    obtain ⟨⟨first, params₁⟩, hfirst, h⟩ := h
    rw [bind_eq_ok] at h
    obtain ⟨⟨others, params₂⟩, hothers, h⟩ := h
    cases h
    have hchild := routed_of_condition hv hfirst
    -- The values bound so far say with which number the next comparison begins.
    have hnext : 2 * k + 1 + params₁.length = 2 * (k + child.comparisons.length) + 1 := by
      rw [hchild.bound.params, length_bound]
      omega
    rw [hnext] at hothers
    have hrest := routed_of_conditions hv hothers
    refine ⟨?_, ⟨hchild.writable, hrest.writable⟩, hchild.bound.append hrest.bound, fun value => ?_,
      ?_⟩
    · rw [List.length_cons, List.length_cons, hrest.length]
    · rw [Sql.Condition.truthOfEach, Predicate.truthOfEach, hchild.truth, hrest.truth]
    · rw [Sql.Condition.testsOfEach, hchild.tests, hrest.tests, Predicate.comparisonsOfAll,
        List.mapIdx_append]
      simp only [Nat.add_comm k, Nat.add_assoc]

end

/-- The query that is put together once the level, the columns and the terms of a request are known. -/
def assembled (catalog : Catalog) (r : Request) (level : Level) (condition : Sql.Condition)
    (params : List Sql.Value) (doc : Sql.Column) (order : List Sql.OrderTerm)
    (orderParams : List Sql.Value) : RoutedQuery where
  level
  select := {
    view := (catalog.views.get level).name
    id := ⟨(catalog.views.get level).name, catalog.idColumn⟩
    doc, condition, order
    page := (page (1 + params.length + orderParams.length) r).1
    grouped := Level.base.depth < level.depth }
  params := params ++ orderParams ++ (page (1 + params.length + orderParams.length) r).2

/-- A request is routed exactly if its references have levels and the view of the deepest one has the columns
that its condition, its document and its order need. -/
theorem route_eq_ok {r : Request} {q : RoutedQuery} : r.route catalog = .ok q ↔
    ∃ levels c params doc order orderParams, r.levels catalog = .ok levels ∧
      condition catalog (catalog.views.get (Request.deepest levels)) 1 r.predicate = .ok (c, params) ∧
      columnOf (catalog.views.get (Request.deepest levels)) .base = .ok doc ∧
      orderTerms catalog (catalog.views.get (Request.deepest levels)) (1 + params.length) r.sort =
        .ok (order, orderParams) ∧
      q = assembled catalog r (Request.deepest levels) c params doc order orderParams := by
  rw [Request.route, bind_eq_ok]
  constructor
  · rintro ⟨levels, hlevels, h⟩
    obtain ⟨⟨c, params⟩, hcondition, h⟩ := bind_eq_ok.mp h
    obtain ⟨doc, hdoc, h⟩ := bind_eq_ok.mp h
    obtain ⟨⟨order, orderParams⟩, horder, h⟩ := bind_eq_ok.mp h
    cases h
    exact ⟨levels, c, params, doc, order, orderParams, hlevels, hcondition, hdoc, horder, rfl⟩
  · rintro ⟨levels, c, params, doc, order, orderParams, hlevels, hcondition, hdoc, horder, rfl⟩
    refine ⟨levels, hlevels, bind_eq_ok.mpr ⟨(c, params), hcondition, ?_⟩⟩
    exact bind_eq_ok.mpr ⟨doc, hdoc, bind_eq_ok.mpr ⟨(order, orderParams), horder, rfl⟩⟩

/-- The condition of a routed request is that of its predicate in the view of its level. -/
theorem routed_of_route (hcatalog : catalog.Accepted) {r : Request} {q : RoutedQuery}
    (h : r.route catalog = .ok q) :
    q.view = (catalog.views.get q.level).name ∧ ∃ params,
      Routed catalog (catalog.views.get q.level) 0 r.predicate q.select.condition params ∧
        params <+: q.params := by
  obtain ⟨levels, c, params, doc, order, orderParams, -, hcondition, -, -, rfl⟩ := route_eq_ok.mp h
  -- The document and the order are bound behind the condition.
  refine ⟨rfl, params, routed_of_condition (hcatalog.checked.view _) hcondition, ?_⟩
  rw [assembled, List.append_assoc]
  exact List.prefix_append _ _

end Routing

/-- Read as SQL, the condition of a routed request has the truth value of the request's predicate,
whatever truth values the tests have: the comparison with number `k` stands for the test of its own
column by its own operator against the placeholders `2 * k + 1` and `2 * k + 2`, to which its own path
and what its literal stands for are bound. -/
theorem whereText_truth {catalog : Catalog} (hcatalog : catalog.Accepted) {r : Request}
    {q : RoutedQuery} (h : r.route catalog = .ok q) :
    ∃ column : FieldRef → Sql.Column,
      (∀ comparison ∈ r.predicate.comparisons, ∃ level name,
        catalog.levelOf comparison.field.qualifier = some level ∧
          (catalog.views.get q.level).columns.get level = some name ∧
          column comparison.field = ⟨q.view, name⟩) ∧
      (∃ formula, Sql.Formula.read q.whereText = some formula ∧ ∀ value : Sql.Test → Truth,
        formula.truth value = r.predicate.truth (fun k c => value (c.test column k)) 0) ∧
      r.predicate.comparisons.flatMap Comparison.bound <+: q.params := by
  obtain ⟨hview, params, hrouted, hparams⟩ := Routing.routed_of_route hcatalog h
  refine ⟨Routing.column catalog (catalog.views.get q.level), ?_, ⟨q.select.condition.formula, ?_, ?_⟩,
    ?_⟩
  · intro comparison hmem
    have hcolumn := hrouted.bound.column comparison hmem
    simp only [Routing.column?, Option.bind_eq_bind, Option.bind_eq_some_iff, Option.pure_def,
      Option.some.injEq] at hcolumn
    obtain ⟨level, hlevel, name, hname, hc⟩ := hcolumn
    exact ⟨level, name, hlevel, hname, hview ▸ hc.symm⟩
  · exact Sql.Formula.read_render hrouted.writable
  · intro value
    rw [Sql.Condition.truth_formula value hrouted.writable, hrouted.truth]
  · rw [hrouted.bound.params] at hparams
    exact hparams

/-- A negated disjunction over two levels, one of its comparisons true and the other neither true nor
false, is false as a text too. -/
theorem whereText_truth_nested : ∃ q,
    (Request.ofPredicate (.neg (.disj [.compare ⟨some "item", "barcode"⟩ .like (.text "7*"),
      .conj [.compare ⟨none, "title"⟩ .ne (.int 3), .conj []]]))).route Catalog.inventory = .ok q ∧
    ∃ formula, Sql.Formula.read q.whereText = some formula ∧
      formula.truth (fun t => if t.path = 1 then some true else none) = some false := by
  refine ⟨_, rfl, ?_⟩
  obtain ⟨column, -, ⟨formula, hread, htruth⟩, -⟩ := whereText_truth .bundled
    (r := Request.ofPredicate (.neg (.disj [.compare ⟨some "item", "barcode"⟩ .like (.text "7*"),
      .conj [.compare ⟨none, "title"⟩ .ne (.int 3), .conj []]]))) rfl
  exact ⟨formula, hread, htruth _⟩

end InventoryFeed

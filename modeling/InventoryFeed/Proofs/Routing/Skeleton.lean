import InventoryFeed.Proofs.Routing.Route
import InventoryFeed.Query.Skeleton

/-!
# The text of a query and the skeleton of its request

The text of a routed query is a function of the skeleton of its request: no literal, pattern, path,
qualifier or number of rows that a caller chooses has any influence on it. Two requests with the same
skeleton have the same text, though not the same values.
-/

namespace InventoryFeed

namespace Routing

/-- The column that a field at a level means in a view. -/
def columnAt (v : View) (level : Option Level) : Sql.Column := ⟨v.name, (level.bind v.columns.get).getD ""⟩

theorem column_eq_columnAt (catalog : Catalog) (v : View) (field : FieldRef) :
    column catalog v field = columnAt v (catalog.levelOf field.qualifier) := by
  unfold column column? columnAt
  cases catalog.levelOf field.qualifier with
  | none => rfl
  | some level =>
    cases hname : v.columns.get level <;> simp [hname]

end Routing

namespace Skeleton

open Routing

mutual

/-- The levels of a skeleton's fields from left to right. -/
def levels : Skeleton → List (Option Level)
  | all => []
  | compare level _ => [level]
  | conj children => levelsOfAll children
  | disj children => levelsOfAll children
  | neg child => child.levels

def levelsOfAll : List Skeleton → List (Option Level)
  | [] => []
  | child :: rest => child.levels ++ levelsOfAll rest

end

mutual

/-- The condition of a skeleton in a view, its comparisons numbered from `k` on. -/
def condition (v : View) (k : Nat) : Skeleton → Sql.Condition
  | all => .constant true
  | compare level op => .test (columnAt v level) (2 * k + 1) op (2 * k + 2)
  | conj [] => .constant true
  | conj (child :: rest) => .conj (conditions v k (child :: rest))
  | disj [] => .constant false
  | disj (child :: rest) => .disj (conditions v k (child :: rest))
  | neg child => .neg (child.condition v k)

def conditions (v : View) (k : Nat) : List Skeleton → List Sql.Condition
  | [] => []
  | child :: rest => child.condition v k :: conditions v (k + child.levels.length) rest

end

end Skeleton

namespace Predicate

mutual

theorem levels_skeleton (catalog : Catalog) (p : Predicate) :
    (p.skeleton catalog).levels = p.comparisons.map fun c => catalog.levelOf c.field.qualifier := by
  cases p with
  | all => rfl
  | compare field op value => rfl
  | conj children => exact levelsOfAll_skeletons catalog children
  | disj children => exact levelsOfAll_skeletons catalog children
  | neg child => exact levels_skeleton catalog child

theorem levelsOfAll_skeletons (catalog : Catalog) (ps : List Predicate) :
    Skeleton.levelsOfAll (skeletons catalog ps) =
      (comparisonsOfAll ps).map fun c => catalog.levelOf c.field.qualifier := by
  match ps with
  | [] => rfl
  | child :: rest =>
    rw [skeletons, Skeleton.levelsOfAll, comparisonsOfAll, List.map_append,
      levels_skeleton catalog child, levelsOfAll_skeletons catalog rest]

end

end Predicate

namespace Routing

variable {catalog : Catalog} {v : View}

mutual

/-- The condition of a routed predicate is that of its skeleton. -/
theorem condition_eq_skeleton {k : Nat} {p : Predicate} {c : Sql.Condition} {params : List Sql.Value}
    (h : condition catalog v (2 * k + 1) p = .ok (c, params)) :
    c = (p.skeleton catalog).condition v k ∧
      params.length = 2 * (p.skeleton catalog).levels.length := by
  cases p with
  | all =>
    cases h
    exact ⟨rfl, rfl⟩
  | compare field op literal =>
    rw [condition, bind_eq_ok] at h
    obtain ⟨column, hcolumn, h⟩ := h
    cases h
    have hself := column?_of_columnOfField hcolumn
    have hat := column_eq_columnAt catalog v field
    rw [Routing.column, hself, Option.getD_some] at hat
    exact ⟨by rw [hat]; rfl, rfl⟩
  | conj children =>
    match children with
    | [] =>
      cases h
      exact ⟨rfl, rfl⟩
    | child :: rest =>
      rw [condition, bind_eq_ok] at h
      obtain ⟨⟨cs, more⟩, hchildren, h⟩ := h
      cases h
      obtain ⟨hcs, hlength⟩ := conditions_eq_skeletons hchildren
      exact ⟨congrArg Sql.Condition.conj hcs, hlength⟩
  | disj children =>
    match children with
    | [] =>
      cases h
      exact ⟨rfl, rfl⟩
    | child :: rest =>
      rw [condition, bind_eq_ok] at h
      obtain ⟨⟨cs, more⟩, hchildren, h⟩ := h
      cases h
      obtain ⟨hcs, hlength⟩ := conditions_eq_skeletons hchildren
      exact ⟨congrArg Sql.Condition.disj hcs, hlength⟩
  | neg child =>
    rw [condition, bind_eq_ok] at h
    obtain ⟨⟨inner, more⟩, hchild, h⟩ := h
    cases h
    obtain ⟨hinner, hlength⟩ := condition_eq_skeleton hchild
    exact ⟨congrArg Sql.Condition.neg hinner, hlength⟩

theorem conditions_eq_skeletons {k : Nat} {ps : List Predicate} {cs : List Sql.Condition}
    {params : List Sql.Value} (h : conditions catalog v (2 * k + 1) ps = .ok (cs, params)) :
    cs = Skeleton.conditions v k (Predicate.skeletons catalog ps) ∧
      params.length = 2 * (Skeleton.levelsOfAll (Predicate.skeletons catalog ps)).length := by
  match ps with
  | [] =>
    cases h
    exact ⟨rfl, rfl⟩
  | child :: rest =>
    rw [conditions, bind_eq_ok] at h
    obtain ⟨⟨first, params₁⟩, hfirst, h⟩ := h
    rw [bind_eq_ok] at h
    obtain ⟨⟨others, params₂⟩, hothers, h⟩ := h
    cases h
    obtain ⟨rfl, hlength₁⟩ := condition_eq_skeleton hfirst
    have hnext : 2 * k + 1 + params₁.length = 2 * (k + (child.skeleton catalog).levels.length) + 1 := by
      omega
    rw [hnext] at hothers
    obtain ⟨rfl, hlength₂⟩ := conditions_eq_skeletons hothers
    refine ⟨rfl, ?_⟩
    rw [Predicate.skeletons, Skeleton.levelsOfAll, List.length_append, List.length_append]
    omega

end

/-- The levels that routing finds are those that the catalog has for the fields. -/
theorem levels_of_mapM {fields : List FieldRef} {levels : List Level}
    (h : fields.mapM (FieldRef.level catalog) = .ok levels) :
    levels.map some = fields.map fun field => catalog.levelOf field.qualifier := by
  induction fields generalizing levels with
  | nil =>
    cases h
    rfl
  | cons field rest ih =>
    obtain ⟨level, more, hlevel, hmore, rfl⟩ := mapM_cons_eq_ok.mp h
    rw [List.map_cons, List.map_cons, ih hmore, levelOf_of_level hlevel]

end Routing

open Routing

namespace RequestSkeleton

/-- The levels of the fields of a request, the predicate's before those of the sort keys. -/
def levels (s : RequestSkeleton) : List (Option Level) := s.predicate.levels ++ s.sort.map (·.1)

/-- The query of a skeleton. -/
def select (catalog : Catalog) (s : RequestSkeleton) : Sql.Select :=
  let level := Request.deepest (s.levels.filterMap id)
  let v := catalog.views.get level
  let n := 2 * s.predicate.levels.length + 1
  { view := v.name
    id := ⟨v.name, catalog.idColumn⟩
    doc := columnAt v (some .base)
    condition := s.predicate.condition v 0
    grouped := Level.base.depth < level.depth
    order := s.sort.mapIdx fun i key => ⟨columnAt v key.1, n + i, key.2⟩
    page := if s.paged then some ⟨n + s.sort.length, n + s.sort.length + 1⟩ else none }

end RequestSkeleton

theorem Request.levels_skeleton (catalog : Catalog) (r : Request) :
    (r.skeleton catalog).levels = r.fields.map fun field => catalog.levelOf field.qualifier := by
  rw [RequestSkeleton.levels, skeleton, Predicate.levels_skeleton, fields, Predicate.fields_eq,
    List.map_append, List.map_map, List.map_map, List.map_map]
  rfl

/-- The query of a routed request is that of the request's skeleton. -/
theorem select_eq_skeleton {catalog : Catalog} {r : Request} {q : RoutedQuery}
    (h : r.RoutedAs catalog q) : q.select = (r.skeleton catalog).select catalog := by
  obtain ⟨levels, hlevels, hlevel⟩ := h.level
  have hfilter : (r.skeleton catalog).levels.filterMap id = levels := by
    rw [Request.levels_skeleton, ← levels_of_mapM hlevels, List.filterMap_map]
    simp
  have hcount : (r.skeleton catalog).predicate.levels.length = r.predicate.comparisons.length := by
    rw [Request.skeleton, Predicate.levels_skeleton, List.length_map]
  obtain ⟨name, hname, hdoc⟩ := h.doc
  have hview := h.view
  have hid := h.id
  rw [hview] at hid hdoc
  rw [RequestSkeleton.select, hfilter, ← hlevel, hcount]
  change Sql.Select.mk q.select.view q.select.id q.select.doc q.select.condition q.select.grouped
    q.select.order q.select.page = _
  rw [Sql.Select.mk.injEq]
  refine ⟨hview, hid, ?_, (condition_eq_skeleton (k := 0) h.made).1, h.grouped, ?_, ?_⟩
  · rw [hdoc, columnAt, Option.bind_some, hname, Option.getD_some]
  · rw [h.order, Request.skeleton]
    refine List.ext_getElem (by simp) fun i _ _ => ?_
    simp [orderTerm, column_eq_columnAt]
  · have hnext : 2 * r.predicate.comparisons.length + 1 + r.sort.length =
        2 * r.predicate.comparisons.length + r.sort.length + 1 := by omega
    rw [h.page, page, Request.paged, Request.skeleton, List.length_map, hnext]
    split <;> rfl

/-- Two requests with the same skeleton are routed to the same view with the same condition and the same
text, whatever their literals, patterns, paths, qualifiers, limits and offsets are. -/
theorem text_eq_of_skeleton_eq {catalog : Catalog} (hcatalog : catalog.Accepted)
    {r s : Request} {q₁ q₂ : RoutedQuery} (h₁ : r.route catalog = .ok q₁)
    (h₂ : s.route catalog = .ok q₂) (hskeleton : r.skeleton catalog = s.skeleton catalog) :
    q₁.view = q₂.view ∧ q₁.whereText = q₂.whereText ∧ q₁.text = q₂.text := by
  have hselect : q₁.select = q₂.select := by
    rw [select_eq_skeleton (routedAs_of_route hcatalog h₁),
      select_eq_skeleton (routedAs_of_route hcatalog h₂), hskeleton]
  rw [RoutedQuery.view, RoutedQuery.whereText, RoutedQuery.text, hselect]
  exact ⟨rfl, rfl, rfl⟩

/-- A harmless search and one made of quotes, comments and keywords, with other qualifiers and another page. -/
theorem text_eq_of_skeleton_eq_hostile : ∃ q₁ q₂,
    (Request.mk (.disj [.compare ⟨some "item", "barcode"⟩ .eq (.text "111"),
      .neg (.compare ⟨none, "title"⟩ .like (.text "moby*"))])
      [⟨⟨some "holdingsRecords", "callNumber"⟩, false⟩] (some 10) 0).route Catalog.inventory = .ok q₁ ∧
    (Request.mk (.disj [.compare ⟨some "holdingsRecords.items", "SELECT.id"⟩ .eq
        (.text "x'; DROP TABLE instance; --"),
      .neg (.compare ⟨none, "LIMIT"⟩ .like (.int (-7)))])
      [⟨⟨some "holdingsRecords", "a.b.c"⟩, false⟩] none 3).route Catalog.inventory = .ok q₂ ∧
    q₁.text = q₂.text ∧ q₁.params ≠ q₂.params := by
  refine ⟨_, _, rfl, rfl, ?_, by decide⟩
  exact (text_eq_of_skeleton_eq .bundled
    (r := Request.mk (.disj [.compare ⟨some "item", "barcode"⟩ .eq (.text "111"),
      .neg (.compare ⟨none, "title"⟩ .like (.text "moby*"))])
      [⟨⟨some "holdingsRecords", "callNumber"⟩, false⟩] (some 10) 0)
    (s := Request.mk (.disj [.compare ⟨some "holdingsRecords.items", "SELECT.id"⟩ .eq
        (.text "x'; DROP TABLE instance; --"),
      .neg (.compare ⟨none, "LIMIT"⟩ .like (.int (-7)))])
      [⟨⟨some "holdingsRecords", "a.b.c"⟩, false⟩] none 3) rfl rfl rfl).2.2

end InventoryFeed

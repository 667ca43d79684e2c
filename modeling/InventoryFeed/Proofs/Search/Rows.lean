import InventoryFeed.Proofs.Routing.Route
import InventoryFeed.Proofs.Sql.Grouping
import InventoryFeed.Proofs.Store.View

/-!
# A routed query on the rows of its view

The placeholders of a routed query are bound to the paths and operands of its request, and the columns of its
view hold the documents of the levels. So on each row a test has the truth value of its comparison, the
condition that of the predicate, and a term of the order the value of the field of its sort key.
-/

namespace InventoryFeed

open Sql Routing

namespace Predicate

variable {f g : Nat → Comparison → Truth}

mutual

/-- The truth value of a predicate depends on those of its comparisons only. -/
theorem truth_congr (p : Predicate) {k : Nat}
    (h : ∀ (i : Nat) (c : Comparison), p.comparisons[i]? = some c → f (k + i) c = g (k + i) c) :
    p.truth f k = p.truth g k := by
  cases p with
  | all => rfl
  | compare field op value => exact h 0 _ rfl
  | conj children => exact congrArg Truth.all (truthOfEach_congr children h)
  | disj children => exact congrArg Truth.any (truthOfEach_congr children h)
  | neg child => exact congrArg Truth.neg (truth_congr child h)

theorem truthOfEach_congr (ps : List Predicate) {k : Nat}
    (h : ∀ (i : Nat) (c : Comparison), (comparisonsOfAll ps)[i]? = some c → f (k + i) c = g (k + i) c) :
    truthOfEach f k ps = truthOfEach g k ps := by
  match ps with
  | [] => rfl
  | child :: rest =>
    rw [truthOfEach, truthOfEach, truth_congr child, truthOfEach_congr rest]
    · intro i c hc
      rw [Nat.add_assoc]
      refine h _ c ?_
      rw [comparisonsOfAll, List.getElem?_append_right (Nat.le_add_right _ _), Nat.add_sub_cancel_left]
      exact hc
    · intro i c hc
      refine h i c ?_
      rw [comparisonsOfAll]
      rw [List.getElem?_append_left (List.getElem?_eq_some_iff.mp hc).1]
      exact hc

end

end Predicate

namespace Routing

end Routing

namespace Sql.Condition

mutual

/-- The columns that a condition looks into are those of its tests. -/
theorem columns_eq_tests (c : Condition) : c.columns = c.tests.map (·.column) := by
  cases c with
  | constant value => rfl
  | test column path op operand => rfl
  | conj children => exact columnsOfAll_eq_tests children
  | disj children => exact columnsOfAll_eq_tests children
  | neg child => exact columns_eq_tests child

theorem columnsOfAll_eq_tests (cs : List Condition) :
    columnsOfAll cs = (testsOfEach cs).map (·.column) := by
  match cs with
  | [] => rfl
  | child :: rest =>
    rw [columnsOfAll, testsOfEach, List.map_append, columns_eq_tests child, columnsOfAll_eq_tests rest]

end

end Sql.Condition

namespace JoinedRecord

/-- Every document of a row is JSON. -/
def Legible (j : JoinedRecord) : Prop :=
  ∀ level, ∀ doc ∈ j.doc? level, ∃ tree, Json.Tree.read doc = some tree

variable {j : JoinedRecord} {sc : Scope} {row : List Value} {column : Column} {level : Level}

theorem extracted_of_value (hj : j.Legible) (hvalue : sc.relation.value row column = j.docValue level)
    (n : Nat) :
    sc.extracted row column n = .ok (match j.doc? level, (sc.param n).text? with
      | some doc, some path => (extract? doc path).getD .null
      | _, _ => .null) := by
  rw [Scope.extracted, hvalue, docValue]
  cases hdoc : j.doc? level with
  | none => rfl
  | some doc =>
    obtain ⟨tree, htree⟩ := hj level doc hdoc
    cases hpath : (sc.param n).text? with
    | none => rfl
    | some path =>
      have hextract : extract? doc path = some ((extract? doc path).getD .null) := by
        rw [extract?, htree, Option.map_some, Option.getD_some]
      dsimp only [Value.text?]
      rw [hextract]
      rfl

theorem readable_of_value (hj : j.Legible) (hvalue : sc.relation.value row column = j.docValue level) :
    sc.Readable row column := by
  intro n
  rw [Scope.valueAt, extracted_of_value hj hvalue]

end JoinedRecord

/-- What the values of a routed query are looked up in. -/
def Store.scope (s : Store) (q : RoutedQuery) : Scope := ⟨s.view q.level, q.params⟩

theorem Predicate.field_of_comparison {p : Predicate} {k : Nat} {c : Comparison}
    (h : p.comparisons[k]? = some c) : c.field ∈ p.fields := by
  rw [p.fields_eq]
  exact List.mem_map_of_mem (List.mem_of_getElem? h)

theorem Request.field_of_comparison {r : Request} {k : Nat} {c : Comparison}
    (h : r.predicate.comparisons[k]? = some c) : c.field ∈ r.fields :=
  List.mem_append_left _ (Predicate.field_of_comparison h)

namespace Request.RoutedAs

variable {r : Request} {q : RoutedQuery} (h : r.RoutedAs Catalog.inventory q) (s : Store)
include h

/-- The column of a field holds the documents of the field's level. -/
theorem value_field {field : FieldRef} (hfield : field ∈ r.fields) (j : JoinedRecord) :
    ∃ level, Catalog.inventory.levelOf field.qualifier = some level ∧
      (s.scope q).relation.value (j.values q.level)
        (column Catalog.inventory (Catalog.inventory.views.get q.level) field) = j.docValue level := by
  obtain ⟨level, name, hlevel, hname, hcolumn⟩ := column_of_field h hfield
  refine ⟨level, hlevel, ?_⟩
  rw [hcolumn]
  exact Store.value_view j _ hname

/-- A routed query looks into readable columns only. -/
theorem readable {j : JoinedRecord} (hj : j.Legible) :
    (∀ column ∈ q.select.condition.columns, (s.scope q).Readable (j.values q.level) column) ∧
      ∀ term ∈ q.select.order, (s.scope q).Readable (j.values q.level) term.column := by
  constructor
  · intro c hc
    rw [q.select.condition.columns_eq_tests, h.condition.tests] at hc
    obtain ⟨t, ht, rfl⟩ := List.mem_map.mp hc
    obtain ⟨i, hi, rfl⟩ := List.mem_mapIdx.mp ht
    obtain ⟨level, -, hvalue⟩ :=
      h.value_field s (field_of_comparison (List.getElem?_eq_getElem hi)) j
    exact JoinedRecord.readable_of_value hj hvalue
  · intro term hterm
    rw [h.order] at hterm
    obtain ⟨i, hi, rfl⟩ := List.mem_mapIdx.mp hterm
    have hfield : r.sort[i].field ∈ r.fields :=
      List.mem_append_right _ (List.mem_map_of_mem (List.getElem_mem hi))
    obtain ⟨level, -, hvalue⟩ := h.value_field s hfield j
    exact JoinedRecord.readable_of_value hj hvalue

end Request.RoutedAs

end InventoryFeed

import InventoryFeed.Proofs.Json.RoundTrip
import InventoryFeed.Proofs.Search.Rows
import InventoryFeed.Proofs.Store.Cursor
import Mathlib.Data.List.Perm.Basic

/-!
# What a search answers

A routed query without a page answers each instance of which a row of its view makes the predicate true,
once, with its own document and in the order of the sort keys.
-/

namespace InventoryFeed

open Sql Routing

/-- The rows of a record among others. -/
def JoinedRecord.alike (rows : List JoinedRecord) (record : StoredRecord) : List JoinedRecord :=
  rows.filter fun j => j.record.id = record.id

/-- The value that a record is sorted by: of its rows that pass, the one that comes first. -/
def JoinedRecord.sortValue (passing : List JoinedRecord) (record : StoredRecord) (key : SortKey) :
    Value :=
  Value.best key.descending
    ((alike passing record).map fun j => j.fieldValue Catalog.inventory key.field)

theorem Sql.Value.Extreme.congr {descending : Bool} {among among' : Value → Prop} {v : Value}
    (h : Extreme descending among v) (hcongr : ∀ w, among w ↔ among' w) :
    Extreme descending among' v :=
  ⟨(hcongr v).mp h.mem, fun w hw => h.first w ((hcongr w).mpr hw)⟩

namespace Request.RoutedAs

variable {r : Request} {q : RoutedQuery} (h : r.RoutedAs Catalog.inventory q) (s : Store)
include h

/-- The columns that a routed query names are there. -/
theorem columns_known : q.select.columns.find? (fun column =>
    ((s.view q.level).position? column.name).isNone) = none := by
  have hfields : ∀ field ∈ r.fields, ((s.view q.level).position?
      (column Catalog.inventory (Catalog.inventory.views.get q.level) field).name).isNone = false := by
    intro field hfield
    obtain ⟨level, name, -, hname, hcolumn⟩ := column_of_field h hfield
    rw [hcolumn, Store.position_view hname]
    rfl
  refine List.find?_eq_none.mpr fun c hc => Bool.eq_false_iff.mp ?_
  rw [Select.columns] at hc
  rcases List.mem_cons.mp hc with rfl | hc
  · rw [h.id, show Catalog.inventory.idColumn = "id" from rfl, Store.position_id]
    rfl
  rcases List.mem_cons.mp hc with rfl | hc
  · obtain ⟨name, hname, hdoc⟩ := h.doc
    rw [hdoc, Store.position_view hname]
    rfl
  rcases List.mem_append.mp hc with hc | hc
  · rw [q.select.condition.columns_eq_tests, h.condition.tests] at hc
    obtain ⟨t, ht, rfl⟩ := List.mem_map.mp hc
    obtain ⟨i, hi, rfl⟩ := List.mem_mapIdx.mp ht
    exact hfields _ (field_of_comparison (List.getElem?_eq_getElem hi))
  · rw [h.order] at hc
    obtain ⟨term, hterm, rfl⟩ := List.mem_map.mp hc
    obtain ⟨i, hi, rfl⟩ := List.mem_mapIdx.mp hterm
    exact hfields _ (List.mem_append_right _ (List.mem_map_of_mem (List.getElem_mem hi)))

/-- Without a page all rows are answered, each with its id and its document. -/
theorem run_eq (hpaged : r.paged = false) {answered : List (List Value)}
    (hanswered : q.select.answered (s.scope q) = ⟨answered, none⟩) :
    q.select.run (s.view q.level) q.params = .ok ⟨answered.map fun row =>
      ((s.view q.level).value row q.select.id, (s.view q.level).value row q.select.doc), none⟩ := by
  have hpage : q.select.page = none := by
    rw [h.page, Routing.page, hpaged]
    rfl
  rw [Select.run, h.columns_known s]
  dsimp only
  rw [Select.bounds, hpage]
  change Except.ok ((Rows.page none 0 (q.select.answered (s.scope q))).map _) = _
  rw [hanswered]
  rfl

end Request.RoutedAs

namespace Inventory

variable {written : Document → Prop} {s : Inventory}

/-- An id names one instance. -/
theorem Kept.record_eq (h : s.Kept written) {a b : StoredRecord} (ha : a ∈ s.instances)
    (hb : b ∈ s.instances) (hid : a.id = b.id) : a = b :=
  List.inj_on_of_nodup_map (h.ids .instances) ha hb hid

end Inventory

section

variable {written : Document → Prop} {s : Store} (hkept : s.inventory.Kept written) {r : Request}
  {q : RoutedQuery} (h : r.RoutedAs Catalog.inventory q)
include hkept h

end

end InventoryFeed

import InventoryFeed.Proofs.Store.Insertion
import InventoryFeed.Store.Meaning
import InventoryFeed.Store.Query

/-!
# The rows of the views

The relation that a level's view is has a row for each way to join, and the columns that the catalog names
hold the documents of the levels. A row of a deeper view, cut off, is one of a shallower view, and each row
of the shallower view comes from one of the deeper.
-/

namespace InventoryFeed

open Sql

namespace Inventory

/-- The joined records of a level's view. -/
def rowsOf (s : Inventory) : Level → List JoinedRecord
  | .base => s.instances.map fun r => ⟨r, none, none⟩
  | .first => s.withHoldings
  | .second => s.withItems

end Inventory

namespace JoinedRecord

/-- A row without the records of deeper levels. -/
def cut (j : JoinedRecord) : Level → JoinedRecord
  | .base => ⟨j.record, none, none⟩
  | .first => ⟨j.record, j.holdings, none⟩
  | .second => j

theorem exists_leftJoined (table : RecordTable) : ∃ r, LeftJoined table r := by
  cases table with
  | nil => exact ⟨none, rfl⟩
  | cons r rest => exact ⟨some r, .head _⟩

variable {s : Inventory} {j : JoinedRecord}

theorem InView.record {level : Level} (h : j.InView s level) : j.record ∈ s.instances := by
  cases level <;> exact h.1

/-- A row of a deeper view, cut off, is one of the shallower view. -/
theorem InView.cut {level deeper : Level} (h : j.InView s deeper)
    (hdepth : level.depth ≤ deeper.depth) : (j.cut level).InView s level := by
  cases level with
  | base => exact ⟨h.record, rfl, rfl⟩
  | first =>
    cases deeper with
    | base => exact absurd hdepth (by decide)
    | first => exact ⟨h.1, h.2.1, rfl⟩
    | second => exact ⟨h.1, h.2.1, rfl⟩
  | second =>
    cases deeper with
    | base => exact absurd hdepth (by decide)
    | first => exact absurd hdepth (by decide)
    | second => exact h

theorem InView.cut_self {level : Level} (h : j.InView s level) : j.cut level = j := by
  obtain ⟨r, holdings, item⟩ := j
  cases level with
  | base =>
    obtain ⟨-, hh, hi⟩ := h
    rw [JoinedRecord.cut, show holdings = none from hh, show item = none from hi]
  | first =>
    obtain ⟨-, -, hi⟩ := h
    rw [JoinedRecord.cut, show item = none from hi]
  | second => rfl

theorem InView.extend_base (h : j.InView s .base) : ∃ k, InView s .first k ∧ k.cut .base = j := by
  obtain ⟨r, hjoined⟩ := exists_leftJoined (s.holdings.of j.record.id)
  exact ⟨⟨j.record, r, none⟩, ⟨h.1, hjoined, rfl⟩, h.cut_self⟩

theorem InView.extend_first (h : j.InView s .first) : ∃ k, InView s .second k ∧ k.cut .first = j := by
  obtain ⟨r, hjoined⟩ := exists_leftJoined (j.holdings.toList.flatMap fun h => s.items.of h.id)
  exact ⟨⟨j.record, j.holdings, r⟩, ⟨h.1, h.2.1, hjoined⟩, h.cut_self⟩

/-- Each row of a view comes from one of every deeper view: whatever there is to join, something is. -/
theorem InView.extend {level deeper : Level} (h : j.InView s level)
    (hdepth : level.depth ≤ deeper.depth) : ∃ k, InView s deeper k ∧ k.cut level = j := by
  cases level with
  | base =>
    cases deeper with
    | base => exact ⟨j, h, h.cut_self⟩
    | first => exact h.extend_base
    | second =>
      obtain ⟨k, hk, hcut⟩ := h.extend_base
      obtain ⟨m, hm, hmcut⟩ := hk.extend_first
      exact ⟨m, hm, by rw [← hcut, ← hmcut]; rfl⟩
  | first =>
    cases deeper with
    | base => exact absurd hdepth (by decide)
    | first => exact ⟨j, h, h.cut_self⟩
    | second => exact h.extend_first
  | second =>
    cases deeper with
    | base => exact absurd hdepth (by decide)
    | first => exact absurd hdepth (by decide)
    | second => exact ⟨j, h, rfl⟩

/-- The columns of a row in a level's view. -/
def values (j : JoinedRecord) : Level → List Value
  | .base => [.text j.record.id, .text j.record.doc] ++ j.record.rowids
  | .first => j.holdingsValues
  | .second => j.itemsValues

/-- The value of a document's column. -/
def docValue (j : JoinedRecord) (level : Level) : Value :=
  match j.doc? level with
  | some doc => .text doc
  | none => .null

end JoinedRecord

namespace Store

/-- The columns of a level's view. -/
def viewColumns : Level → List RelationColumn
  | .base => RecordKind.instances.relationColumns
  | .first => holdingsColumns
  | .second => itemsColumns

/-- The relation of a level's view. -/
def view (s : Store) (level : Level) : Relation :=
  ⟨viewColumns level, (s.inventory.rowsOf level).map fun j => j.values level⟩

variable {s : Store}

theorem position_view {level carried : Level} {name : String}
    (h : (Catalog.inventory.views.get level).columns.get carried = some name) :
    (s.view level).position? name = some (carried.depth + 1) := by
  cases level <;> cases carried <;> cases h <;> rfl

theorem position_id (level : Level) : (s.view level).position? "id" = some 0 := by
  cases level <;> rfl

/-- The columns that the catalog names hold the documents of the levels. -/
theorem value_view (j : JoinedRecord) {level carried : Level} {name : String} (viewName : String)
    (h : (Catalog.inventory.views.get level).columns.get carried = some name) :
    (s.view level).value (j.values level) ⟨viewName, name⟩ = j.docValue carried := by
  rw [Relation.value, position_view h, Option.bind_some]
  obtain ⟨r, holdings, item⟩ := j
  cases level <;> cases carried <;> cases h <;> cases holdings <;> cases item <;> rfl

end Store

end InventoryFeed

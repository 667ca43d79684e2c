import InventoryFeed.Proofs.Sql.Evaluate
import InventoryFeed.Proofs.Sql.Order

/-!
# One answer for each id

A grouped query merges the rows of one id, which stand side by side once the rows are in the order of their
ids, and each of its keys becomes the extreme value over these rows. A query that is not grouped runs over
rows whose ids differ, so each row is the only one of its id. Either way each id is answered once, with one
of its rows, in the order of the keys.
-/

namespace InventoryFeed.Sql.Select

variable (q : Select) (s : Scope)

/-- The id of a row. -/
def idOf (row : List Value) : Value := s.relation.value row q.id

/-- The value that a row has for a key. -/
def sortValue (row : List Value) (term : OrderTerm) : Value := s.valueAt row term.column term.path

/-- The values that several rows have for the keys, the extreme ones. -/
def keysOver (rows : List (List Value)) : List Value :=
  q.order.map fun term => Value.best term.descending (rows.map fun row => sortValue s row term)

/-- The rows that have the id of a row. -/
def alike (rows : List (List Value)) (row : List Value) : List (List Value) :=
  rows.filter fun other => q.idOf s other = q.idOf s row

/-- A row with its keys. -/
def keyedRow (row : List Value) : KeyedRow := ⟨q.order.map (sortValue s row), row⟩

/-- A row that stands for several, with the keys of all of them. -/
structure Stands (rows : List (List Value)) (k : KeyedRow) : Prop where
  row : k.row ∈ rows
  keys : k.keys = q.keysOver s rows

/-- Several rows of which each stands for the rows of its id. -/
structure Grouped (rows : List (List Value)) (groups : List KeyedRow) : Prop where
  stands : ∀ g ∈ groups, q.Stands s (q.alike s rows g.row) g
  covers : ∀ row ∈ rows, ∃ g ∈ groups, q.idOf s g.row = q.idOf s row
  distinct : groups.Pairwise fun g h => q.idOf s g.row ≠ q.idOf s h.row

/-- Rows that are answered out of those that pass: one for each id, in the order of the keys. -/
structure Answers (passing answered : List (List Value)) : Prop where
  mem : ∀ row ∈ answered, row ∈ passing
  covers : ∀ row ∈ passing, ∃ other ∈ answered, q.idOf s other = q.idOf s row
  distinct : answered.Pairwise fun a b => q.idOf s a ≠ q.idOf s b
  ordered : answered.Pairwise fun a b =>
    Value.compareKeys (q.order.map (·.descending)) (q.keysOver s (q.alike s passing a))
      (q.keysOver s (q.alike s passing b)) ≠ .gt

variable {q : Select} {s : Scope}

/-- A row that is merged into a group is one of those that the group stands for. -/
theorem Stands.merge {rows : List (List Value)} {k : KeyedRow} (h : q.Stands s rows k)
    (next : List Value) :
    q.Stands s (rows ++ [next]) (k.merge q.order (q.keyedRow s next)) where
  row := by
    rw [KeyedRow.merge, keyedRow]
    split
    · exact List.mem_append_right _ (.head _)
    · exact List.mem_append_left _ h.row
  keys := by
    have hzip : ∀ (order : List OrderTerm) (f g : OrderTerm → Value),
        order.zip ((order.map f).zip (order.map g)) = order.map fun term => (term, f term, g term) := by
      intro order f g
      induction order with
      | nil => rfl
      | cons term rest ih => simp only [List.map_cons, List.zip_cons_cons, ih]
    rw [KeyedRow.merge, keyedRow, h.keys, keysOver, keysOver]
    dsimp only
    rw [hzip, List.map_map, List.map_map]
    refine List.map_congr_left fun term _ => ?_
    simp only [Function.comp_apply, List.map_append, List.map_cons, List.map_nil, Value.best_concat]

/-- A group of all rows of one id is put before the groups of the others. -/
theorem Grouped.cons {begun rest : List (List Value)} {k : KeyedRow} {groups : List KeyedRow}
    (hrest : q.Grouped s rest groups) (hk : q.Stands s begun k)
    (hbegun : ∀ row ∈ begun, q.idOf s row = q.idOf s k.row)
    (hother : ∀ row ∈ rest, q.idOf s row ≠ q.idOf s k.row) :
    q.Grouped s (begun ++ rest) (k :: groups) := by
  have hids : ∀ g ∈ groups, q.idOf s g.row ≠ q.idOf s k.row := fun g hg =>
    hother g.row (List.mem_filter.mp (hrest.stands g hg).row).1
  refine ⟨?_, ?_, List.pairwise_cons.mpr ⟨fun g hg => (hids g hg).symm, hrest.distinct⟩⟩
  · rintro g (_ | ⟨_, hg⟩)
    · have halike : q.alike s (begun ++ rest) k.row = begun := by
        rw [alike, List.filter_append,
          List.filter_eq_self.mpr fun row hrow => decide_eq_true (hbegun row hrow),
          List.filter_eq_nil_iff.mpr fun row hrow => by simpa using hother row hrow, List.append_nil]
      rw [halike]
      exact hk
    · have halike : q.alike s (begun ++ rest) g.row = q.alike s rest g.row := by
        rw [alike, List.filter_append, List.filter_eq_nil_iff.mpr, List.nil_append]
        · rfl
        · intro row hrow
          simpa [hbegun row hrow] using (hids g hg).symm
      rw [halike]
      exact hrest.stands g hg
  · intro row hrow
    rcases List.mem_append.mp hrow with hrow | hrow
    · exact ⟨k, .head _, (hbegun row hrow).symm⟩
    · obtain ⟨g, hg, hid⟩ := hrest.covers row hrow
      exact ⟨g, .tail _ hg, hid⟩

/-- The rows of groups are answers in every order that the keys allow. -/
theorem Grouped.answers {passing answered : List (List Value)} {groups : List KeyedRow}
    (h : q.Grouped s passing groups) (hperm : answered.Perm (groups.map (·.row)))
    (hordered : answered.Pairwise fun a b =>
      Value.compareKeys (q.order.map (·.descending)) (q.keysOver s (q.alike s passing a))
        (q.keysOver s (q.alike s passing b)) ≠ .gt) : q.Answers s passing answered where
  mem := by
    intro row hrow
    obtain ⟨g, hg, rfl⟩ := List.mem_map.mp (hperm.mem_iff.mp hrow)
    exact (List.mem_filter.mp (h.stands g hg).row).1
  covers := by
    intro row hrow
    obtain ⟨g, hg, hid⟩ := h.covers row hrow
    exact ⟨g.row, hperm.mem_iff.mpr (List.mem_map_of_mem hg), hid⟩
  distinct := (hperm.pairwise_iff fun hne => hne.symm).mpr (List.pairwise_map.mpr h.distinct)
  ordered := hordered

/-- The rows that the condition is tested on. -/
def source (q : Select) (s : Scope) : List (List Value) :=
  if q.grouped then q.byId s else s.relation.rows

end InventoryFeed.Sql.Select

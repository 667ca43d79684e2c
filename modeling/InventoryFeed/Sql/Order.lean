import InventoryFeed.Sql.Value

/-!
# Sorting by several keys

A key ascends or descends, and the first key that differs decides. Nothing is less than every other value, so
it comes first among ascending keys and last among descending ones. Where several values compete for one
key, the extreme one stands for all of them; nothing stands for them only if there is no other value.
-/

namespace InventoryFeed.Sql.Value

/-- The order of values under a direction. -/
def directed (descending : Bool) (a b : Value) : Ordering :=
  if descending then (a.compare b).swap else a.compare b

/-- The order of several keys, each under its direction, the most important first. -/
def compareKeys : List Bool → List Value → List Value → Ordering
  | descending :: directions, a :: as, b :: bs =>
    (directed descending a b).then (compareKeys directions as bs)
  | _, _, _ => .eq

/-- The least of some values, the greatest if the key descends, nothing being left out as long as there is
another value. -/
structure Extreme (descending : Bool) (among : Value → Prop) (v : Value) : Prop where
  mem : among v
  first : ∀ w, among w → w ≠ .null → v ≠ .null ∧ directed descending v w ≠ .gt

end InventoryFeed.Sql.Value

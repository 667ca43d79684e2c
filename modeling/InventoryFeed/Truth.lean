/-!
# Three truth values

A condition on a record is true, false, or neither when it compares with nothing. A conjunction with
a false part is false and a disjunction with a true part is true, whatever the other parts are.
-/

namespace InventoryFeed

/-- A truth value, none when a condition is neither true nor false. -/
abbrev Truth := Option Bool

namespace Truth

/-- The opposite; what is neither stays neither. -/
def neg (a : Truth) : Truth := a.map not

/-- Both of two conditions. -/
def both : Truth → Truth → Truth
  | some false, _ => some false
  | some true, b => b
  | none, some false => some false
  | none, _ => none

/-- One of two conditions. -/
def either : Truth → Truth → Truth
  | some true, _ => some true
  | some false, b => b
  | none, some true => some true
  | none, _ => none

/-- All of several conditions; true of none. -/
def all (values : List Truth) : Truth := values.foldr both (some true)

/-- One of several conditions; false of none. -/
def any (values : List Truth) : Truth := values.foldr either (some false)

@[simp] theorem both_true (a : Truth) : a.both (some true) = a := by
  rcases a with _ | _ | _ <;> rfl

@[simp] theorem either_false (a : Truth) : a.either (some false) = a := by
  rcases a with _ | _ | _ <;> rfl

end Truth

end InventoryFeed

import InventoryFeed.Query.Basic
import InventoryFeed.Truth

/-!
# What a predicate means

The comparisons of a predicate, from left to right and numbered from zero on, and its truth value once
each of them has one.
-/

namespace InventoryFeed

/-- A comparison of a field with a literal. -/
structure Comparison where
  /-- The field. -/
  field : FieldRef
  /-- How it is compared. -/
  op : CompareOp
  /-- What it is compared with. -/
  value : Literal
  deriving DecidableEq, Repr

namespace Predicate

mutual

/-- The comparisons of a predicate from left to right. -/
def comparisons : Predicate → List Comparison
  | all => []
  | compare field op value => [⟨field, op, value⟩]
  | conj children => comparisonsOfAll children
  | disj children => comparisonsOfAll children
  | neg child => child.comparisons

/-- The comparisons of several predicates from left to right. -/
def comparisonsOfAll : List Predicate → List Comparison
  | [] => []
  | child :: rest => child.comparisons ++ comparisonsOfAll rest

end

variable (value : Nat → Comparison → Truth)

mutual

/-- The truth value of a predicate whose comparisons are numbered from `k` on, each with the truth value
that belongs to its number. -/
def truth (k : Nat) : Predicate → Truth
  | all => some true
  | compare field op literal => value k ⟨field, op, literal⟩
  | conj children => Truth.all (truthOfEach k children)
  | disj children => Truth.any (truthOfEach k children)
  | neg child => (truth k child).neg

/-- The truth values of several predicates, their comparisons numbered one after the other. -/
def truthOfEach (k : Nat) : List Predicate → List Truth
  | [] => []
  | child :: rest => truth k child :: truthOfEach (k + child.comparisons.length) rest

end

end Predicate

end InventoryFeed

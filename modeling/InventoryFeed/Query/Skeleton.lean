import InventoryFeed.Catalog.Basic
import InventoryFeed.Query.Basic

/-!
# The skeleton of a request

What is left of a request when all that a caller can choose freely is taken out of it: literals, patterns,
paths, the names of qualifiers, limit and offset. There remain the tree of the predicate with the operators
of its comparisons, the level that each field leads to, the directions of the sort keys, and whether a page
is asked for.
-/

namespace InventoryFeed

/-- A predicate without its literals, paths and qualifiers. -/
inductive Skeleton where
  /-- True of every record. -/
  | all
  /-- A comparison of a field at a level, none if its qualifier is unknown. -/
  | compare (level : Option Level) (op : CompareOp)
  /-- All of the conditions hold. -/
  | conj (children : List Skeleton)
  /-- One of the conditions holds. -/
  | disj (children : List Skeleton)
  /-- The condition does not hold. -/
  | neg (child : Skeleton)
  deriving Repr, Inhabited

namespace Predicate

mutual

/-- The skeleton of a predicate. -/
def skeleton (catalog : Catalog) : Predicate → Skeleton
  | all => .all
  | compare field op _ => .compare (catalog.levelOf field.qualifier) op
  | conj children => .conj (skeletons catalog children)
  | disj children => .disj (skeletons catalog children)
  | neg child => .neg (child.skeleton catalog)

/-- The skeletons of several predicates. -/
def skeletons (catalog : Catalog) : List Predicate → List Skeleton
  | [] => []
  | child :: rest => child.skeleton catalog :: skeletons catalog rest

end

end Predicate

/-- A request without all that a caller can choose freely. -/
structure RequestSkeleton where
  /-- The skeleton of the predicate. -/
  predicate : Skeleton
  /-- The level of each sort key and whether it descends. -/
  sort : List (Option Level × Bool)
  /-- Whether a page is asked for. -/
  paged : Bool
  deriving Repr

/-- The skeleton of a request. -/
def Request.skeleton (catalog : Catalog) (r : Request) : RequestSkeleton where
  predicate := r.predicate.skeleton catalog
  sort := r.sort.map fun key => (catalog.levelOf key.field.qualifier, key.descending)
  paged := r.limit.isSome || 0 < r.offset

end InventoryFeed

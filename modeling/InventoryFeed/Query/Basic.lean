import InventoryFeed.Decimal.Binary64

/-!
# Queries

A predicate over field references, and a request, which adds order and paging to it. The text of a
query is read and written in `Query.Form`; what a predicate means on a record is in `Query.Meaning`.
-/

namespace InventoryFeed

/-- A field of one of the joined entities. -/
structure FieldRef where
  /-- The relation that leads to the entity; none for the record itself. -/
  qualifier : Option String
  /-- The path inside the entity's document, its steps divided by points. -/
  path : String
  deriving DecidableEq, Repr

/-- The name of a field as a query writes it. -/
def FieldRef.display (field : FieldRef) : String :=
  match field.qualifier with
  | some qualifier => qualifier ++ "." ++ field.path
  | none => field.path

/-- How a field is compared with a literal. -/
inductive CompareOp where
  /-- Equal. -/
  | eq
  /-- Different. -/
  | ne
  /-- Less. -/
  | lt
  /-- At most. -/
  | le
  /-- Greater. -/
  | gt
  /-- At least. -/
  | ge
  /-- The field's text matches a wildcard pattern. -/
  | like
  deriving DecidableEq, Repr

namespace CompareOp

/-- The operators. -/
def all : List CompareOp := [eq, ne, lt, le, gt, ge, like]

/-- The name of an operator in a query. -/
def name : CompareOp → String
  | eq => "="
  | ne => "<>"
  | lt => "<"
  | le => "<="
  | gt => ">"
  | ge => ">="
  | like => "matches"

end CompareOp

/-- A value that a caller compares with. -/
inductive Literal where
  /-- A truth value. -/
  | bool (value : Bool)
  /-- An integer of 64 bits. -/
  | int (value : Int64)
  /-- A double. -/
  | real (value : Binary64)
  /-- A text. -/
  | text (value : String)
  deriving DecidableEq, Repr

/-- A condition on a record. -/
inductive Predicate where
  /-- True of every record. -/
  | all
  /-- A comparison of a field with a literal. -/
  | compare (field : FieldRef) (op : CompareOp) (value : Literal)
  /-- All of the conditions hold. -/
  | conj (children : List Predicate)
  /-- One of the conditions holds. -/
  | disj (children : List Predicate)
  /-- The condition does not hold. -/
  | neg (child : Predicate)
  deriving Repr, Inhabited

namespace Predicate

mutual

/-- The field references of a predicate from left to right. -/
def fields : Predicate → List FieldRef
  | all => []
  | compare field _ _ => [field]
  | conj children => fieldsOfAll children
  | disj children => fieldsOfAll children
  | neg child => child.fields

/-- The field references of several predicates from left to right. -/
def fieldsOfAll : List Predicate → List FieldRef
  | [] => []
  | child :: rest => child.fields ++ fieldsOfAll rest

end

end Predicate

/-- A field to order by. -/
structure SortKey where
  /-- The field. -/
  field : FieldRef
  /-- Whether the greatest value comes first. -/
  descending : Bool
  deriving DecidableEq, Repr

/-- A search: which records, in which order, and which page of them. -/
structure Request where
  /-- The condition on the records. -/
  predicate : Predicate
  /-- The fields to order by, the most important first. -/
  sort : List SortKey
  /-- The greatest number of records, if it is bounded. -/
  limit : Option UInt64
  /-- The number of records to leave out at the front. -/
  offset : UInt64
  deriving Repr

namespace Request

/-- The request for every record that satisfies a predicate. -/
def ofPredicate (predicate : Predicate) : Request := ⟨predicate, [], none, 0⟩

/-- The field references of a request: those of the predicate, then the sort keys. -/
def fields (r : Request) : List FieldRef := r.predicate.fields ++ r.sort.map (·.field)

/-- Whether the request asks for a page. -/
def paged (r : Request) : Bool := r.limit.isSome || 0 < r.offset

end Request

end InventoryFeed

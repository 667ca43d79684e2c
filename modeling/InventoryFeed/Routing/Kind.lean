import InventoryFeed.Query.Pattern
import InventoryFeed.Query.Wildcard
import InventoryFeed.Sql.Evaluate

/-!
# Literals and what they are compared with

What a literal stands for in a comparison, told apart from how a request is routed. The part of a record's
document that a comparison is about, and when it is of the same kind as the literal: both truth values, both
integers or both texts.
-/

namespace InventoryFeed

namespace Literal

/-- A literal in words. A double is its shortest decimal, written around a point and without one if it
is whole. -/
def wording : Literal → String
  | bool true => "true"
  | bool false => "false"
  | int n => toString n.toInt
  | real x => DecimalLayout.write ⟨none, none, false, false, false, 1⟩ x
  | text s => s

/-- What a literal stands for: in a match the store's pattern for it in words, elsewhere a truth value
is 0 or 1, and a number or a text is itself. -/
def comparand : CompareOp → Literal → Sql.Value
  | .like, literal => .text (Wildcard.likePattern literal.wording)
  | _, bool false => .integer 0
  | _, bool true => .integer 1
  | _, int n => .integer n.toInt
  | _, real x => .real x
  | _, text s => .text s

/-- Whether a literal is a truth value. -/
def isBool : Literal → Bool
  | bool _ => true
  | _ => false

/-- Whether a literal is a truth value, an integer, or a text without wildcards and backslashes. -/
def Plain : Literal → Prop
  | bool _ => True
  | int _ => True
  | real _ => False
  | text s => ∀ c ∈ s.toList, Wildcard.IsPlain c

/-- Whether a part of a document is of the kind of a literal. -/
def sameKind : Literal → Json.Tree → Bool
  | bool _, .bool _ => true
  | int _, .number n =>
    match n.toNumber? with
    | some (.int _) => true
    | _ => false
  | text _, .string _ => true
  | _, _ => false

end Literal

/-- The part at a path of the document in a column. -/
def Sql.Relation.partAt? (r : Relation) (row : List Value) (column : Column) (path : String) :
    Option Json.Tree := do
  let doc ← (r.value row column).text?
  let tree ← Json.Tree.read doc
  tree.at? (pathSteps ("$." ++ path))

end InventoryFeed

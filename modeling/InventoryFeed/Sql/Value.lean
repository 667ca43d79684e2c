import InventoryFeed.Decimal.Layout
import InventoryFeed.Word

/-!
# Values of the store

A value is nothing, an integer, a double or a text. Nothing comes before the numbers and the
numbers, compared by what they stand for, before the texts. In the three-valued logic of conditions
a comparison with nothing has no truth value.
-/

namespace InventoryFeed.Sql

/-- A value that a column holds or a placeholder is bound to. -/
inductive Value where
  /-- Nothing. -/
  | null
  /-- An integer. -/
  | integer (value : Int)
  /-- A double. -/
  | real (value : Binary64)
  /-- A text. -/
  | text (value : String)
  deriving DecidableEq, Repr, Inhabited

namespace Value

/-- The greatest integer that a column holds. -/
def maxInteger : Nat := Word.signedEnd - 1

/-- A count as a column holds it. -/
def ofCount (n : Nat) : Value := .integer (min n maxInteger)

/-- The order in which values are sorted. -/
def compare : Value → Value → Ordering
  | .null, .null => .eq
  | .null, _ => .lt
  | _, .null => .gt
  | .integer a, .integer b => Ord.compare a b
  | .integer a, .real b => (b.compareInt a).swap
  | .real a, .integer b => a.compareInt b
  | .real a, .real b => a.compare b
  | .text a, .text b => Ord.compare a b
  | .text _, _ => .gt
  | _, .text _ => .lt

/-- Whether a row of values is sorted before another or with it, the first value that differs
deciding. -/
def rowBefore : List Value → List Value → Bool
  | a :: as, b :: bs =>
    match a.compare b with
    | .lt => true
    | .gt => false
    | .eq => rowBefore as bs
  | _, _ => true

/-- Doubles as the store turns them into text: fifteen digits at most, a point always, an exponent of
two digits at least outside `-4` to `14`. -/
def realLayout : DecimalLayout where
  lowest := some (-4)
  highest := some 14
  wholeFraction := true
  exponentFraction := true
  exponentPlus := true
  exponentWidth := 2

/-- The text of a double in the store. -/
def realText (x : Binary64) : String :=
  let magnitude := realLayout.writeMagnitude (x.significant 15)
  String.ofList (if x.negative && !x.isZero then '-' :: magnitude else magnitude)

/-- The text that a value is taken as; none for nothing. -/
def text? : Value → Option String
  | .null => none
  | .integer n => some (toString n)
  | .real x => some (realText x)
  | .text s => some s

end Value

end InventoryFeed.Sql

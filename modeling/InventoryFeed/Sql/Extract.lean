import InventoryFeed.Json.Scalar
import InventoryFeed.Sql.Value
import InventoryFeed.Word

/-!
# Values inside documents

The value at a path of a document's text. A path walks through the members of objects only; a missing
member, an array on the way and a null have no value. Strings are texts, truth values one and zero,
numbers integers if they are written as such and fit 64 bits, else the nearest doubles; arrays and
objects are their own text without blanks.
-/

namespace InventoryFeed

open Json

namespace Json

/-- The double nearest to the number that is written; none beyond the doubles. -/
def Numeral.nearest? (n : Numeral) : Option Binary64 :=
  let digits := Ascii.ofDigits 10 (n.whole ++ n.fraction)
  let stated : Int := match n.exponent with
    | some e =>
      let size : Int := (Ascii.ofDigits 10 e.digits : Nat)
      if e.sign = some '-' then -size else size
    | none => 0
  let e := stated - n.fraction.length
  let size := (n.whole.length + n.fraction.length : Nat)
  let value :=
    if digits = 0 || e + size < -400 then some (Binary64.zero false)
    else if 400 < e then none
    else if 0 ≤ e then Binary64.ofRatio (digits * Nat.pow 10 e.toNat) 1
    else Binary64.ofRatio digits (Nat.pow 10 (-e).toNat)
  value.map (Binary64.withSign n.negative)

/-- The value under the first member with a key. -/
def memberAt? (key : String) (members : List (List Char × Tree)) : Option Tree :=
  (members.find? fun member => unescape member.1 = some key.toList).map (·.2)

/-- The part of a tree at the end of a path. -/
def Tree.at? : List String → Tree → Option Tree
  | [], tree => some tree
  | step :: steps, .object members => (memberAt? step members).bind (Tree.at? steps)
  | _ :: _, _ => none

end Json

namespace Sql

/-- The value of a number in a document. -/
def ofNumeral (n : Numeral) : Value :=
  let size := Ascii.ofDigits 10 n.whole
  let whole : Int := if n.negative then -(size : Int) else size
  if n.fraction.isEmpty && n.exponent.isNone && Word.isSigned whole then
    .integer whole
  else
    match n.nearest? with
    | some x => .real x
    | none => .null

/-- The value of a part of a document. -/
def ofTree : Tree → Value
  | .null => .null
  | .bool b => .integer (if b then 1 else 0)
  | .number n => ofNumeral n
  | .string raw => .text (String.ofList ((unescape raw).getD raw))
  | tree => .text (String.ofList tree.compact)

/-- The steps of a path, which starts at the whole document. -/
def pathSteps (path : String) : List String :=
  (path.toList.splitOn '.').tail.map String.ofList

/-- The value at a path of a document's text; none if the text is not a document. -/
def extract? (doc path : String) : Option Value :=
  (Tree.read doc).map fun tree =>
    match tree.at? (pathSteps path) with
    | some part => ofTree part
    | none => .null

end Sql

end InventoryFeed

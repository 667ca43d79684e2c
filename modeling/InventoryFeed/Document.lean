import InventoryFeed.Json.Scalar
import InventoryFeed.Keyed

/-!
# Documents

The JSON value of a record. The members of an object are kept in the order of their keys, each key
once; a text that repeats a key gives the last value. Integers lie between `-2 ^ 63` and
`2 ^ 64 - 1`, all other numbers are doubles. A text nested deeper than `Json.maxNesting` is refused.
-/

namespace InventoryFeed

/-- How many arrays and objects may stand inside one another in a text that is read. -/
def Json.maxNesting : Nat := 127

/-- A JSON value. -/
inductive Document where
  /-- The null value. -/
  | null
  /-- A truth value. -/
  | bool (value : Bool)
  /-- An integer. -/
  | int (value : Int)
  /-- A double. -/
  | real (value : Binary64)
  /-- A string. -/
  | text (value : String)
  /-- An array. -/
  | array (items : List Document)
  /-- An object, its members in key order. -/
  | object (members : List (String × Document))
  deriving Repr, Inhabited

namespace Document

/-- The value under a key of an object. -/
def get? (key : String) : Document → Option Document
  | .object members => Keyed.get? key members
  | _ => none

/-- A string. -/
def text? : Document → Option String
  | .text s => some s
  | _ => none

/-- An integer that is not negative. -/
def count? : Document → Option Nat
  | .int n => if 0 ≤ n then some n.toNat else none
  | _ => none

/-- A truth value. -/
def bool? : Document → Option Bool
  | .bool b => some b
  | _ => none

/-- The items of an array. -/
def items? : Document → Option (List Document)
  | .array items => some items
  | _ => none

/-- The members of an object. -/
def members? : Document → Option (List (String × Document))
  | .object members => some members
  | _ => none

mutual

/-- The document of a tree; `room` is how many arrays and objects may still be entered. -/
def ofTree? (room : Nat) : Json.Tree → Option Document
  | .null => some .null
  | .bool b => some (.bool b)
  | .number n =>
    match n.toNumber? with
    | some (.int value) => some (.int value)
    | some (.real value) => some (.real value)
    | none => none
  | .string raw => (Json.unescape raw).map fun cs => .text (String.ofList cs)
  | .array items =>
    if room = 0 then none else (ofItems? (room - 1) items).map .array
  | .object members =>
    if room = 0 then none else (ofMembers? (room - 1) members).map fun ms => .object (Keyed.ofList ms)

/-- The documents of an array's items. -/
def ofItems? (room : Nat) : List Json.Tree → Option (List Document)
  | [] => some []
  | item :: rest => do
    let value ← ofTree? room item
    let values ← ofItems? room rest
    pure (value :: values)

/-- The members of an object in the order of the text. -/
def ofMembers? (room : Nat) : List (List Char × Json.Tree) → Option (List (String × Document))
  | [] => some []
  | (key, item) :: rest => do
    let name ← Json.unescape key
    let value ← ofTree? room item
    let members ← ofMembers? room rest
    pure ((String.ofList name, value) :: members)

end

/-- Read a text as a document. -/
def read (text : String) : Option Document :=
  (Json.Tree.read text).bind (ofTree? Json.maxNesting)

mutual

/-- The compact text of a document. -/
def write : Document → List Char
  | .null => "null".toList
  | .bool true => "true".toList
  | .bool false => "false".toList
  | .int n => Json.writeInt n
  | .real x => Json.writeReal x
  | .text s => Json.writeString s
  | .array items => '[' :: writeItems items ++ [']']
  | .object members => '{' :: writeMembers members ++ ['}']

/-- Items with commas between them. -/
def writeItems : List Document → List Char
  | [] => []
  | [item] => item.write
  | item :: next :: rest => item.write ++ ',' :: writeItems (next :: rest)

/-- Members with commas between them. -/
def writeMembers : List (String × Document) → List Char
  | [] => []
  | [(key, value)] => Json.writeString key ++ ':' :: value.write
  | (key, value) :: next :: rest =>
    Json.writeString key ++ ':' :: value.write ++ ',' :: writeMembers (next :: rest)

end

/-- The compact text of a document as a string. -/
def compact (d : Document) : String := String.ofList d.write

end Document

end InventoryFeed

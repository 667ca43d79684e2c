import InventoryFeed.Json.Record
import InventoryFeed.Query.Basic
import InventoryFeed.Word

/-!
# The text of a query

Predicates and requests as JSON text. A literal is a truth value, an integer of 64 bits, another
number, which becomes a double, or a string. What is written is read back as the same query.
-/

namespace InventoryFeed

open Json

namespace FieldRef

/-- Read a field reference. -/
def ofTree? (room : Nat) (tree : Tree) : Option FieldRef := do
  let record ← tree.record? ["qualifier", "path"] room
  let qualifier ← record.defaulted 0 none (nullable? Tree.text?)
  let path ← record.required 1 Tree.text?
  pure ⟨qualifier, path⟩

/-- The text of a field reference, without a qualifier that is not there. -/
def write (field : FieldRef) : List Char :=
  writeRecord ((field.qualifier.map fun q => ("qualifier", writeString q)).toList
    ++ [("path", writeString field.path)])

end FieldRef

namespace Literal

/-- Read a literal. -/
def ofTree? : Tree → Option Literal
  | .bool b => some (.bool b)
  | .number n =>
    match n.toNumber? with
    | some (.int value) =>
      if value < Word.signedEnd then some (.int (Int64.ofInt value))
      else (Binary64.ofNat? value.toNat).map .real
    | some (.real value) => some (.real value)
    | none => none
  | .string raw => (unescape raw).map fun cs => .text (String.ofList cs)
  | _ => none

/-- The text of a literal. -/
def write : Literal → List Char
  | .bool b => writeBool b
  | .int n => writeInt n.toInt
  | .real x => writeReal x
  | .text s => writeString s

end Literal

namespace Predicate

/-- Read a comparison. -/
def compareOfTree? (room : Nat) (tree : Tree) : Option Predicate := do
  let record ← tree.record? ["field", "op", "value"] room
  let field ← record.required 0 (FieldRef.ofTree? (room - 1))
  let op ← record.required 1 (Tree.oneOf? (room - 1) CompareOp.all CompareOp.name)
  let value ← record.required 2 Literal.ofTree?
  pure (.compare field op value)

mutual

/-- Read a predicate. -/
def ofTree? (room : Nat) : Tree → Option Predicate
  | .string raw => if (unescape raw) = some "all".toList then some .all else none
  | .object [(raw, value)] =>
    if room = 0 then none else
      match (unescape raw).map String.ofList with
      | some "all" =>
        match value with
        | .null => some .all
        | _ => none
      | some "compare" => compareOfTree? (room - 1) value
      | some "and" => (childrenOfTree? (room - 1) value).map .conj
      | some "or" => (childrenOfTree? (room - 1) value).map .disj
      | some "not" => (ofTree? (room - 1) value).map .neg
      | _ => none
  | _ => none

/-- Read an array of predicates. -/
def childrenOfTree? (room : Nat) : Tree → Option (List Predicate)
  | .array items => if room = 0 then none else listOfTrees? (room - 1) items
  | _ => none

/-- Read each of several predicates. -/
def listOfTrees? (room : Nat) : List Tree → Option (List Predicate)
  | [] => some []
  | item :: rest => do
    let child ← ofTree? room item
    let children ← listOfTrees? room rest
    pure (child :: children)

end

mutual

/-- The text of a predicate. -/
def write : Predicate → List Char
  | all => writeString "all"
  | compare field op value =>
    writeRecord [("compare", writeRecord
      [("field", field.write), ("op", writeString op.name), ("value", value.write)])]
  | conj children => writeRecord [("and", writeArray (writeEach children))]
  | disj children => writeRecord [("or", writeArray (writeEach children))]
  | neg child => writeRecord [("not", child.write)]

/-- The text of each of several predicates. -/
def writeEach : List Predicate → List (List Char)
  | [] => []
  | child :: rest => child.write :: writeEach rest

end

/-- Read a text as a predicate. -/
def read (text : String) : Option Predicate := (Tree.read text).bind (ofTree? maxNesting)

/-- The text of a predicate as a string. -/
def compact (p : Predicate) : String := String.ofList p.write

end Predicate

namespace SortKey

/-- Read a sort key. -/
def ofTree? (room : Nat) (tree : Tree) : Option SortKey := do
  let record ← tree.record? ["field", "descending"] room
  let field ← record.required 0 (FieldRef.ofTree? (room - 1))
  let descending ← record.defaulted 1 false Tree.bool?
  pure ⟨field, descending⟩

/-- The text of a sort key. -/
def write (key : SortKey) : List Char :=
  writeRecord [("field", key.field.write), ("descending", writeBool key.descending)]

end SortKey

namespace Request

/-- Read a request. -/
def ofTree? (room : Nat) (tree : Tree) : Option Request := do
  let record ← tree.record? ["predicate", "sort", "limit", "offset"] room
  let predicate ← record.required 0 (Predicate.ofTree? (room - 1))
  let sort ← record.defaulted 1 [] fun items =>
    (items.items? (room - 1)).bind (List.mapM (SortKey.ofTree? (room - 2)))
  let limit ← record.defaulted 2 none (nullable? Tree.count?)
  let offset ← record.defaulted 3 0 Tree.count?
  pure ⟨predicate, sort, limit.map UInt64.ofNat, UInt64.ofNat offset⟩

/-- The text of a request, all four fields of it. -/
def write (r : Request) : List Char :=
  writeRecord [
    ("predicate", r.predicate.write),
    ("sort", writeArray (r.sort.map SortKey.write)),
    ("limit", match r.limit with
      | some n => writeInt n.toNat
      | none => "null".toList),
    ("offset", writeInt r.offset.toNat)]

/-- Read a text as a request. -/
def read (text : String) : Option Request := (Tree.read text).bind (ofTree? maxNesting)

/-- The text of a request as a string. -/
def compact (r : Request) : String := String.ofList r.write

end Request

end InventoryFeed

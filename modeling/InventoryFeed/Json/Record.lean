import InventoryFeed.Document

/-!
# Records in JSON text

A record with declared fields is written as an object, its keys in any order and unknown keys
skipped, or as an array of the fields in declaration order from which fields at the end may be
missing. A known key that is repeated is refused. A name from a closed list is written as a string,
or as an object whose one key is the name.

Every reader here is given the `room` that is left for arrays and objects inside one another.
-/

namespace InventoryFeed.Json

/-- The fields of a record that were found, in declaration order. -/
structure Record where
  /-- Whether the record was written as an array. -/
  positional : Bool
  /-- The value of each declared field, when it is there. -/
  fields : List (Option Tree)

/-- The values under a key. -/
def valuesOf (key : String) (members : List (String × Tree)) : List Tree :=
  (members.filter fun member => member.1 = key).map (·.2)

/-- The keys of an object as they are meant. -/
def meantKeys (members : List (List Char × Tree)) : Option (List (String × Tree)) :=
  members.mapM fun (raw, value) => (unescape raw).map fun key => (String.ofList key, value)

/-- The record with the field names given. -/
def Tree.record? (names : List String) (room : Nat) (tree : Tree) : Option Record :=
  if room = 0 then none else
    match tree with
    | .array items =>
      if names.length < items.length then none
      else some ⟨true, (List.range names.length).map fun i => items[i]?⟩
    | .object members => do
      let members ← meantKeys members
      let found := names.map fun name => valuesOf name members
      if found.any fun values => 1 < values.length then none
      else some ⟨false, found.map List.head?⟩
    | _ => none

namespace Record

/-- The value of the field at a position. -/
def field? (r : Record) (i : Nat) : Option Tree := (r.fields[i]?).join

/-- A field that must be there. -/
def required {α : Type} (r : Record) (i : Nat) (read : Tree → Option α) : Option α :=
  (r.field? i).bind read

/-- A field that has a value when it is missing. -/
def defaulted {α : Type} (r : Record) (i : Nat) (missing : α) (read : Tree → Option α) : Option α :=
  match r.field? i with
  | some tree => read tree
  | none => some missing

end Record

/-- Null for nothing, any other value read. -/
def nullable? {α : Type} (read : Tree → Option α) : Tree → Option (Option α)
  | .null => some none
  | tree => (read tree).map some

/-- A truth value. -/
def Tree.bool? : Tree → Option Bool
  | .bool b => some b
  | _ => none

/-- A string. -/
def Tree.text? : Tree → Option String
  | .string raw => (unescape raw).map String.ofList
  | _ => none

/-- A natural number below `2 ^ 64`. -/
def Tree.count? : Tree → Option Nat
  | .number n =>
    match n.toNumber? with
    | some (.int value) => if 0 ≤ value then some value.toNat else none
    | _ => none
  | _ => none

/-- The items of an array. -/
def Tree.items? (room : Nat) : Tree → Option (List Tree)
  | .array items => if room = 0 then none else some items
  | _ => none

/-- A name alone, or a name with a value. -/
def Tree.variant? (room : Nat) : Tree → Option (String × Option Tree)
  | .string raw => (unescape raw).map fun name => (String.ofList name, none)
  | .object [(raw, value)] =>
    if room = 0 then none else (unescape raw).map fun name => (String.ofList name, some value)
  | _ => none

/-- A name from a closed list, alone or with a null. -/
def Tree.oneOf? {α : Type} (room : Nat) (choices : List α) (name : α → String) (tree : Tree) :
    Option α :=
  match tree.variant? room with
  | some (text, none) => choices.find? fun choice => name choice = text
  | some (text, some .null) => choices.find? fun choice => name choice = text
  | _ => none

/-- An object of texts, sorted by key, the last of each key. -/
def Tree.textMap? (room : Nat) : Tree → Option (List (String × String))
  | .object members => do
    if room = 0 then none else
      let members ← meantKeys members
      let texts ← members.mapM fun (key, value) => value.text?.map fun text => (key, text)
      pure (Keyed.ofList texts)
  | _ => none

/-- Written members with commas between them, inside braces. -/
def writeRecord (members : List (String × List Char)) : List Char :=
  '{' :: (List.intercalate [','] (members.map fun (key, value) =>
    writeString key ++ ':' :: value)) ++ ['}']

/-- Written items with commas between them, inside brackets. -/
def writeArray (items : List (List Char)) : List Char :=
  '[' :: List.intercalate [','] items ++ [']']

/-- The text of a truth value. -/
def writeBool (b : Bool) : List Char := if b then "true".toList else "false".toList

end InventoryFeed.Json

/-!
# Keyed lists

A list of keys with values in which the keys ascend, so that each key stands once. Texts are
ordered by their characters, which is also the order of their bytes.
-/

namespace InventoryFeed.Keyed

variable {α : Type}

/-- Put a value under its key where the key belongs, in place of an older one. -/
def put (key : String) (value : α) : List (String × α) → List (String × α)
  | [] => [(key, value)]
  | (other, old) :: rest =>
    if key < other then (key, value) :: (other, old) :: rest
    else if key = other then (key, value) :: rest
    else (other, old) :: put key value rest

/-- The entries in key order, the last value of each key. -/
def ofList (entries : List (String × α)) : List (String × α) :=
  entries.foldl (fun sorted entry => put entry.1 entry.2 sorted) []

/-- The value under a key. -/
def get? (key : String) (entries : List (String × α)) : Option α :=
  (entries.find? fun entry => entry.1 = key).map (·.2)

end InventoryFeed.Keyed

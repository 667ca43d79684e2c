/-!
# Wildcard patterns

In a query's pattern a star is any run of characters, a question mark is one character, and a
backslash takes the next character as it is; at the end of the pattern it is itself. `toLike` is
the same pattern for the store, which writes the two wildcards as percent sign and underscore and
the backslash as its escape.
-/

namespace InventoryFeed.Wildcard

/-- A character as a store pattern that matches it alone. -/
def exactly (c : Char) : List Char :=
  if c = '%' ∨ c = '_' ∨ c = '\\' then ['\\', c] else [c]

/-- The store's pattern for a query's pattern. -/
def toLike : List Char → List Char
  | [] => []
  | '*' :: rest => '%' :: toLike rest
  | '?' :: rest => '_' :: toLike rest
  | ['\\'] => exactly '\\'
  | '\\' :: c :: rest => exactly c ++ toLike rest
  | c :: rest => exactly c ++ toLike rest

/-- The store's pattern for a query's pattern. -/
def likePattern (pattern : String) : String := String.ofList (toLike pattern.toList)

end InventoryFeed.Wildcard

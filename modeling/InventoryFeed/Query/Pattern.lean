/-!
# What a pattern matches

A query's pattern is read from the left. Its parts are wildcards and characters that stand for themselves,
and so are those of a pattern of the store, where the wildcards are written otherwise and every escape has
a character behind it.
-/

namespace InventoryFeed

/-- A part of a pattern. -/
inductive Piece where
  /-- Any run of characters, the empty one included. -/
  | anyRun
  /-- Any one character. -/
  | anyOne
  /-- A character that is meant as it is. -/
  | exactly (c : Char)
  deriving DecidableEq, Repr

namespace Wildcard

/-- The parts of a query's pattern. -/
def pieces : List Char → List Piece
  | [] => []
  | '*' :: rest => .anyRun :: pieces rest
  | '?' :: rest => .anyOne :: pieces rest
  | ['\\'] => [.exactly '\\']
  | '\\' :: c :: rest => .exactly c :: pieces rest
  | c :: rest => .exactly c :: pieces rest

/-- Whether a character is neither a wildcard nor a backslash. -/
def IsPlain (x : Char) : Prop := x ≠ '*' ∧ x ≠ '?' ∧ x ≠ '\\'

/-- Which subjects a query's pattern matches, its characters compared with theirs by `same`. -/
inductive Matches (same : Char → Char → Bool) : List Char → List Char → Prop
  /-- An empty pattern matches the empty subject. -/
  | empty : Matches same [] []
  /-- A star matches any run of characters. -/
  | anyRun {pattern subject : List Char} (run : List Char) (rest : Matches same pattern subject) :
      Matches same ('*' :: pattern) (run ++ subject)
  /-- A question mark matches one character, whichever it is. -/
  | anyOne {pattern subject : List Char} (c : Char) (rest : Matches same pattern subject) :
      Matches same ('?' :: pattern) (c :: subject)
  /-- A character behind a backslash matches itself, a wildcard and a backslash too. -/
  | escaped {x c : Char} {pattern subject : List Char} (alike : same x c = true)
      (rest : Matches same pattern subject) : Matches same ('\\' :: x :: pattern) (c :: subject)
  /-- A backslash behind which there is nothing matches itself. -/
  | lastBackslash {c : Char} (alike : same '\\' c = true) : Matches same ['\\'] [c]
  /-- Any other character matches itself. -/
  | plain {x c : Char} {pattern subject : List Char} (hx : IsPlain x) (alike : same x c = true)
      (rest : Matches same pattern subject) : Matches same (x :: pattern) (c :: subject)

end Wildcard

/-- The parts of a pattern of the store; none if there is nothing behind its last escape. -/
def Sql.likePieces? : List Char → Option (List Piece)
  | [] => some []
  | '%' :: rest => (likePieces? rest).map (.anyRun :: ·)
  | '_' :: rest => (likePieces? rest).map (.anyOne :: ·)
  | ['\\'] => none
  | '\\' :: c :: rest => (likePieces? rest).map (.exactly c :: ·)
  | c :: rest => (likePieces? rest).map (.exactly c :: ·)

end InventoryFeed

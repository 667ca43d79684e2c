import InventoryFeed.Sql.Evaluate
import InventoryFeed.Truth

/-!
# Reading a condition

What the text of a condition says. It is cut into tokens first; then a comparison or a match binds
more tightly than NOT, NOT more tightly than AND, AND more tightly than OR, and parentheses group. Words
are taken in any letter case. What is read has a truth value once each test in it has one.
-/

namespace InventoryFeed.Sql

/-- A test of a document against a bound operand, as a text names it. -/
structure Test where
  /-- The column of the document. -/
  column : Column
  /-- The placeholder of the path. -/
  path : Nat
  /-- How the value at the path is compared. -/
  op : CompareOp
  /-- The placeholder of the operand. -/
  operand : Nat
  deriving DecidableEq, Repr

/-- What the text of a condition says. -/
inductive Formula where
  /-- Two numbers compared. -/
  | numbers (left : Nat) (op : CompareOp) (right : Nat)
  /-- A test. -/
  | test (test : Test)
  /-- The opposite. -/
  | neg (child : Formula)
  /-- Both of two. -/
  | conj (left right : Formula)
  /-- One of two. -/
  | disj (left right : Formula)
  deriving Repr

/-- The truth value of a formula, given those of the tests. -/
def Formula.truth (value : Test → Truth) : Formula → Truth
  | numbers left op right => compareBy op (.integer left) (.integer right)
  | test t => value t
  | neg child => (child.truth value).neg
  | conj left right => (left.truth value).both (right.truth value)
  | disj left right => (left.truth value).either (right.truth value)

/-- A piece of a condition's text. -/
inductive Token where
  /-- A word or a name. -/
  | word (text : String)
  /-- A number. -/
  | number (value : Nat)
  /-- A placeholder by its number. -/
  | placeholder (n : Nat)
  /-- The sign of a comparison. -/
  | sign (op : CompareOp)
  /-- A text between single quotes. -/
  | quoted (text : List Char)
  /-- An opening parenthesis. -/
  | opening
  /-- A closing parenthesis. -/
  | closing
  /-- A comma. -/
  | comma
  /-- A point. -/
  | point
  deriving DecidableEq, Repr

namespace Token

/-- The number that the digits at the front make, if there is one, and the text after them. -/
def number? (cs : List Char) : Option (Nat × List Char) :=
  let digits := cs.takeWhile Ascii.isDigit
  if digits.isEmpty then none else some (Ascii.ofDigits 10 digits, cs.dropWhile Ascii.isDigit)

/-- The characters up to the next single quote, and the text after it. -/
def quoted? (cs : List Char) : Option (List Char × List Char) :=
  match cs.dropWhile (· ≠ '\'') with
  | [] => none
  | _ :: rest => some (cs.takeWhile (· ≠ '\''), rest)

/-- The token at the front of a text that does not start with a blank, and the text after it. -/
def first? : List Char → Option (Token × List Char)
  | '(' :: rest => some (opening, rest)
  | ')' :: rest => some (closing, rest)
  | ',' :: rest => some (comma, rest)
  | '.' :: rest => some (point, rest)
  | '=' :: rest => some (sign .eq, rest)
  | '<' :: '>' :: rest => some (sign .ne, rest)
  | '<' :: '=' :: rest => some (sign .le, rest)
  | '<' :: rest => some (sign .lt, rest)
  | '>' :: '=' :: rest => some (sign .ge, rest)
  | '>' :: rest => some (sign .gt, rest)
  | '?' :: rest => (number? rest).map fun (n, rest) => (placeholder n, rest)
  | '\'' :: rest => (quoted? rest).map fun (text, rest) => (quoted text, rest)
  | c :: rest =>
    if Ascii.isDigit c then (number? (c :: rest)).map fun (n, rest) => (number n, rest)
    else if Ascii.isWord c then
      some (word (String.ofList (c :: rest.takeWhile Ascii.isWord)), rest.dropWhile Ascii.isWord)
    else none
  | [] => none

/-- The tokens of a text, at most `fuel` of them. -/
def readWithin : Nat → List Char → Option (List Token)
  | 0, cs => if cs.all (· = ' ') then some [] else none
  | fuel + 1, cs =>
    match cs.dropWhile (· = ' ') with
    | [] => some []
    | cs => (first? cs).bind fun (token, rest) => (readWithin fuel rest).map (token :: ·)

/-- The tokens of a text. -/
def readAll (cs : List Char) : Option (List Token) := readWithin cs.length cs

/-- Whether a token is a word in any letter case. -/
def isWord (text : String) : Token → Bool
  | word w => Ascii.sameIgnoringCase text w
  | _ => false

/-- The number of a placeholder. -/
def placeholder? : Token → Option Nat
  | placeholder n => some n
  | _ => none

/-- The numbers of the placeholders from left to right. -/
def placeholders (tokens : List Token) : List Nat := tokens.filterMap placeholder?

/-- The column and the placeholder of the path, if the value at a path of a document is at the front. -/
def extraction? : List Token → Option (Column × Nat)
  | extract :: opening :: word view :: point :: word name :: comma :: placeholder path :: closing ::
      _ => if extract.isWord "json_extract" then some (⟨view, name⟩, path) else none
  | _ => none

/-- The columns and the placeholders of the paths of all values of documents from left to right. -/
def extractions : List Token → List (Column × Nat)
  | [] => []
  | token :: rest => (extraction? (token :: rest)).toList ++ extractions rest

end Token

namespace Formula

/-- What follows the left side of a test: a sign or a match with its escape, and the operand. -/
def readOperand : List Token → Option ((CompareOp × Nat) × List Token)
  | .sign op :: .placeholder n :: rest => some ((op, n), rest)
  | like :: .placeholder n :: escape :: .quoted ['\\'] :: rest =>
    if like.isWord "LIKE" && escape.isWord "ESCAPE" then some ((.like, n), rest) else none
  | _ => none

/-- A comparison at the front. -/
def readComparison : List Token → Option (Formula × List Token)
  | .number left :: .sign op :: .number right :: rest => some (numbers left op right, rest)
  | extract :: .opening :: .word view :: .point :: .word name :: .comma :: .placeholder path ::
      .closing :: rest =>
    if extract.isWord "json_extract" then
      (readOperand rest).map fun ((op, operand), rest) =>
        (test ⟨⟨view, name⟩, path, op, operand⟩, rest)
    else none
  | _ => none

mutual

/-- A disjunction at the front, the loosest form. -/
def readAny : Nat → List Token → Option (Formula × List Token)
  | 0, _ => none
  | fuel + 1, tokens => do
    let (left, rest) ← readEvery fuel tokens
    match rest with
    | next :: more =>
      if next.isWord "OR" then
        let (right, rest) ← readAny fuel more
        pure (disj left right, rest)
      else pure (left, rest)
    | [] => pure (left, rest)

/-- A conjunction at the front. -/
def readEvery : Nat → List Token → Option (Formula × List Token)
  | 0, _ => none
  | fuel + 1, tokens => do
    let (left, rest) ← readNegation fuel tokens
    match rest with
    | next :: more =>
      if next.isWord "AND" then
        let (right, rest) ← readEvery fuel more
        pure (conj left right, rest)
      else pure (left, rest)
    | [] => pure (left, rest)

/-- A negation, a formula in parentheses or a comparison at the front. -/
def readNegation : Nat → List Token → Option (Formula × List Token)
  | 0, _ => none
  | _ + 1, [] => none
  | fuel + 1, next :: more =>
    if next.isWord "NOT" then do
      let (child, rest) ← readNegation fuel more
      pure (neg child, rest)
    else if next = .opening then do
      let (inner, rest) ← readAny fuel more
      match rest with
      | .closing :: rest => pure (inner, rest)
      | _ => none
    else readComparison (next :: more)

end

/-- Read a whole text as a condition. Every form but the comparison is entered from the one below it
or behind a token, so three steps for each token are enough. -/
def read (text : String) : Option Formula := do
  let tokens ← Token.readAll text.toList
  match ← readAny (3 * tokens.length + 3) tokens with
  | (formula, []) => pure formula
  | _ => none

example : read "1 = 1 OR 1 = 0 AND NOT 1 <= 2" =
    some (disj (numbers 1 .eq 1) (conj (numbers 1 .eq 0) (neg (numbers 1 .le 2)))) := by
  rfl

end Formula

end InventoryFeed.Sql

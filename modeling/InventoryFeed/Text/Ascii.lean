/-!
# ASCII letters, digits and identifiers

Names in queries and settings are compared and checked by ASCII rules only: letters, digits and the
underscore, and letter case of the 26 Latin letters. Characters outside ASCII equal themselves
alone.
-/

namespace InventoryFeed.Ascii

/-- An ASCII letter. -/
def isLetter (c : Char) : Bool := ('a' ≤ c && c ≤ 'z') || ('A' ≤ c && c ≤ 'Z')

/-- An ASCII digit. -/
def isDigit (c : Char) : Bool := '0' ≤ c && c ≤ '9'

/-- A character of a plain name: letter, digit or underscore. -/
def isWord (c : Char) : Bool := isLetter c || isDigit c || c == '_'

/-- The capital of an ASCII letter; any other character stays. -/
def upperChar (c : Char) : Char :=
  if 'a' ≤ c ∧ c ≤ 'z' then Char.ofNat (c.toNat - 32) else c

/-- A text with its ASCII letters in capitals. -/
def upper (s : String) : String := String.ofList (s.toList.map upperChar)

/-- Whether two texts differ at most in the case of ASCII letters. -/
def sameIgnoringCase (s t : String) : Bool := upper s == upper t

/-- A plain identifier: a letter or underscore, then letters, digits and underscores. -/
def isIdentifier (s : String) : Bool :=
  match s.toList with
  | [] => false
  | c :: rest => (isLetter c || c == '_') && rest.all isWord

/-- The value of a hexadecimal digit. -/
def hexValue? (c : Char) : Option Nat :=
  if '0' ≤ c ∧ c ≤ '9' then some (c.toNat - 48)
  else if 'a' ≤ c ∧ c ≤ 'f' then some (c.toNat - 87)
  else if 'A' ≤ c ∧ c ≤ 'F' then some (c.toNat - 55)
  else none

/-- The number that a list of digits stands for in the base given. -/
def ofDigits (base : Nat) (digits : List Char) : Nat :=
  digits.foldl (fun n c => n * base + (hexValue? c).getD 0) 0

end InventoryFeed.Ascii

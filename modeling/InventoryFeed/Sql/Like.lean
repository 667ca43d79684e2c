import InventoryFeed.Text.Ascii

/-!
# Matching by LIKE

A percent sign matches any run of characters, an underscore one character, a backslash the next
character as it is, any other character itself. The store compares characters without regard to
the case of ASCII letters, and reads pattern and subject up to the first NUL.
-/

namespace InventoryFeed.Sql

/-- Whether a subject matches a pattern, characters compared by `same`. -/
def likeMatch (same : Char → Char → Bool) : List Char → List Char → Bool
  | [], subject => subject.isEmpty
  | '%' :: pattern, [] => likeMatch same pattern []
  | '%' :: pattern, c :: subject =>
    likeMatch same pattern (c :: subject) || likeMatch same ('%' :: pattern) subject
  | '_' :: pattern, _ :: subject => likeMatch same pattern subject
  | '\\' :: x :: pattern, c :: subject => same x c && likeMatch same pattern subject
  | ['\\'], _ => false
  | x :: pattern, c :: subject => same x c && likeMatch same pattern subject
  | _ :: _, [] => false
  termination_by pattern subject => pattern.length + subject.length

/-- Whether two characters differ at most in the case of an ASCII letter. -/
def sameLetter (a b : Char) : Bool := Ascii.upperChar a == Ascii.upperChar b

/-- The characters before the first NUL. -/
def beforeNul (s : String) : List Char := s.toList.takeWhile fun c => c.toNat != 0

/-- The store's LIKE with backslash as escape. -/
def like (subject pattern : String) : Bool :=
  likeMatch sameLetter (beforeNul pattern) (beforeNul subject)

end InventoryFeed.Sql

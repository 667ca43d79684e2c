import InventoryFeed.Document

/-!
# The shape of a document

How deep a document is nested, whether there is a double in it, and whether it is as a document is that
was read or built: its integers have 64 bits, its doubles are finite, and the keys of its objects ascend.
-/

namespace InventoryFeed.Document

mutual

/-- How many arrays and objects stand inside one another. -/
def depth : Document → Nat
  | .array items => itemsDepth items + 1
  | .object members => membersDepth members + 1
  | _ => 0

/-- How many arrays and objects stand inside one another among items. -/
def itemsDepth : List Document → Nat
  | [] => 0
  | item :: rest => max item.depth (itemsDepth rest)

/-- How many arrays and objects stand inside one another among the values of members. -/
def membersDepth : List (String × Document) → Nat
  | [] => 0
  | (_, value) :: rest => max value.depth (membersDepth rest)

end

mutual

/-- Whether there is no double in a document. -/
def Exact : Document → Prop
  | .real _ => False
  | .array items => ExactItems items
  | .object members => ExactMembers members
  | _ => True

/-- Whether there is no double in any item. -/
def ExactItems : List Document → Prop
  | [] => True
  | item :: rest => item.Exact ∧ ExactItems rest

/-- Whether there is no double in the value of any member. -/
def ExactMembers : List (String × Document) → Prop
  | [] => True
  | (_, value) :: rest => value.Exact ∧ ExactMembers rest

end

mutual

/-- Whether the doubles in a document are finite ones. -/
def Finite : Document → Prop
  | .real x => x.Finite
  | .array items => FiniteItems items
  | .object members => FiniteMembers members
  | _ => True

/-- Whether the doubles in items are finite. -/
def FiniteItems : List Document → Prop
  | [] => True
  | item :: rest => item.Finite ∧ FiniteItems rest

/-- Whether the doubles in the values of members are finite. -/
def FiniteMembers : List (String × Document) → Prop
  | [] => True
  | (_, value) :: rest => value.Finite ∧ FiniteMembers rest

end

mutual

/-- Whether the integers have 64 bits, signed or not, and the keys of each object ascend. -/
def Proper : Document → Prop
  | .int n => -(Word.signedEnd : Int) ≤ n ∧ n < Word.unsignedEnd
  | .array items => ProperItems items
  | .object members => (members.map Prod.fst).Pairwise (· < ·) ∧ ProperMembers members
  | _ => True

/-- Whether all items are so. -/
def ProperItems : List Document → Prop
  | [] => True
  | item :: rest => item.Proper ∧ ProperItems rest

/-- Whether the values of all members are so. -/
def ProperMembers : List (String × Document) → Prop
  | [] => True
  | (_, value) :: rest => value.Proper ∧ ProperMembers rest

end

end InventoryFeed.Document

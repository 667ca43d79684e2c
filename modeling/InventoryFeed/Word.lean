/-!
# Integers of 64 bits

The bounds of the integers that settings, JSON texts and the store know.
-/

namespace InventoryFeed.Word

/-- The first number past the unsigned integers, `2 ^ 64`. -/
abbrev unsignedEnd : Nat := 18446744073709551616

/-- The first number past the signed integers, `2 ^ 63`. -/
abbrev signedEnd : Nat := 9223372036854775808

/-- Whether a number is a signed integer. -/
def isSigned (n : Int) : Bool := -signedEnd ≤ n && n < signedEnd

end InventoryFeed.Word

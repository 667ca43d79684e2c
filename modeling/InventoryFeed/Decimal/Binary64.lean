/-!
# Finite double-precision numbers

A double is kept as the exact number it stands for, a sign, a mantissa and a power of two, so that
every operation on it is arithmetic on integers. `ofRatio` rounds a quotient to the nearest double,
a half going to the even mantissa; products and quotients of doubles are rounded once through it.
Comparison is comparison of the exact values, so the two zeros are equal.
-/

namespace InventoryFeed

/-- The double `± mantissa · 2 ^ exponent`. A rounded double has its mantissa below `2 ^ 53`, and
at least `2 ^ 52` unless the exponent is the least one, `-1074`. -/
structure Binary64 where
  /-- Whether the sign is minus; zero has both signs. -/
  negative : Bool
  /-- The integer that is scaled. -/
  mantissa : Nat
  /-- The power of two it is scaled by. -/
  exponent : Int
  deriving DecidableEq, Repr, Inhabited

namespace Binary64

/-- Zero with the given sign. -/
def zero (negative : Bool) : Binary64 := ⟨negative, 0, -1074⟩

/-- Whether the number is one of the two zeros. -/
def isZero (x : Binary64) : Bool := x.mantissa == 0

/-- The same magnitude under the given sign. -/
def withSign (negative : Bool) (x : Binary64) : Binary64 := { x with negative }

/-- The first number past the mantissas, `2 ^ 53`. -/
abbrev mantissaEnd : Nat := 9007199254740992

/-- The least mantissa of a double whose exponent is not the least, `2 ^ 52`. -/
abbrev leastMantissa : Nat := 4503599627370496

/-- The mantissa and the exponent have the sizes that they have in a double of 64 bits. -/
structure Finite (x : Binary64) : Prop where
  mantissa : x.mantissa < mantissaEnd
  least : -1074 ≤ x.exponent
  greatest : x.exponent ≤ 971

/-- A power of two as the numerator of a fraction. -/
def numeratorScale (e : Int) : Nat := Nat.pow 2 e.toNat

/-- A power of two as the denominator of a fraction. -/
def denominatorScale (e : Int) : Nat := Nat.pow 2 (-e).toNat

/-- The integer nearest to `num / den`, a half going to the even neighbour. -/
def roundQuotient (num den : Nat) : Nat :=
  let low := num / den
  let rest := num % den
  if den < 2 * rest ∨ (2 * rest = den ∧ low % 2 = 1) then low + 1 else low

/-- The exponent at which `num / den` has a mantissa of 53 bits, or the least exponent. -/
def gridExponent (num den : Nat) : Int :=
  let guess := max ((num.log2 : Int) - den.log2 - 53) (-1074)
  if mantissaEnd ≤ num * denominatorScale guess / (den * numeratorScale guess) then guess + 1 else guess

/-- The double nearest to `num / den`; `none` when it lies beyond the largest finite double. -/
def ofRatio (num den : Nat) : Option Binary64 :=
  if num = 0 then some (zero false) else
    let e := gridExponent num den
    let m := roundQuotient (num * denominatorScale e) (den * numeratorScale e)
    let x : Binary64 := if m = mantissaEnd then ⟨false, leastMantissa, e + 1⟩ else ⟨false, m, e⟩
    if x.exponent ≤ 971 then some x else none

/-- The double nearest to a natural number. -/
def ofNat? (n : Nat) : Option Binary64 := ofRatio n 1

/-- The magnitude of the product, rounded once. -/
def mul? (x y : Binary64) : Option Binary64 :=
  let e := x.exponent + y.exponent
  ofRatio (x.mantissa * y.mantissa * numeratorScale e) (denominatorScale e)

/-- The magnitude of the quotient by a number other than zero, rounded once. -/
def div? (x y : Binary64) : Option Binary64 :=
  let e := x.exponent - y.exponent
  ofRatio (x.mantissa * numeratorScale e) (y.mantissa * denominatorScale e)

/-- The mantissa with its sign. -/
def signedMantissa (x : Binary64) : Int := if x.negative then -(x.mantissa : Int) else x.mantissa

/-- Compare `a · 2 ^ p` with `b · 2 ^ q`. -/
def compareScaled (a p b q : Int) : Ordering :=
  let least := min p q
  compare (a * numeratorScale (p - least)) (b * numeratorScale (q - least))

/-- The order of the exact values. -/
def compare (x y : Binary64) : Ordering :=
  compareScaled x.signedMantissa x.exponent y.signedMantissa y.exponent

/-- The order of a double and an integer. -/
def compareInt (x : Binary64) (n : Int) : Ordering :=
  compareScaled x.signedMantissa x.exponent n 0

end Binary64

end InventoryFeed

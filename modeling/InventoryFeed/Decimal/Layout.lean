import InventoryFeed.Decimal.Digits

/-!
# Writing a decimal

A layout says when digits are written around a decimal point and when with an exponent, and how
each of the two looks. The layouts of the program's outputs are records of this type, each kept
beside the output it belongs to.
-/

namespace InventoryFeed

/-- How decimals are written. The exponent meant here is that of the first digit. -/
structure DecimalLayout where
  /-- The least exponent written around a point; `none` for no bound. -/
  lowest : Option Int
  /-- The greatest exponent written around a point; `none` for no bound. -/
  highest : Option Int
  /-- Whether a whole number written around a point keeps a fraction digit. -/
  wholeFraction : Bool
  /-- Whether a single digit before an exponent keeps a fraction digit. -/
  exponentFraction : Bool
  /-- Whether an exponent that is not negative has a plus sign. -/
  exponentPlus : Bool
  /-- The least number of digits of an exponent. -/
  exponentWidth : Nat

namespace DecimalLayout

/-- The decimal digits of a natural number. -/
def digitsOf (n : Nat) : List Char := Nat.toDigits 10 n

/-- Whether an exponent of the first digit is written around a point. -/
def positional (l : DecimalLayout) (e : Int) : Bool :=
  (l.lowest.all fun low => low ≤ e) && (l.highest.all fun high => e ≤ high)

/-- Digits around a decimal point, the first digit having exponent `e`. -/
def writePositional (l : DecimalLayout) (digits : List Char) (e : Int) : List Char :=
  if e < 0 then
    '0' :: '.' :: (List.replicate (-e - 1).toNat '0' ++ digits)
  else
    let whole := e.toNat + 1
    let before := digits.take whole ++ List.replicate (whole - digits.length) '0'
    let after := digits.drop whole
    if after.isEmpty then (if l.wholeFraction then before ++ ['.', '0'] else before)
    else before ++ '.' :: after

/-- Digits with an exponent. -/
def writeExponent (l : DecimalLayout) (digits : List Char) (e : Int) : List Char :=
  let fraction := digits.drop 1
  let mantissa :=
    if fraction.isEmpty then
      (if l.exponentFraction then digits ++ ['.', '0'] else digits)
    else digits.take 1 ++ '.' :: fraction
  let sign := if e < 0 then ['-'] else if l.exponentPlus then ['+'] else []
  let size := digitsOf e.natAbs
  mantissa ++ 'e' :: sign ++ List.replicate (l.exponentWidth - size.length) '0' ++ size

/-- The text of a decimal without sign. -/
def writeMagnitude (l : DecimalLayout) (d : Decimal) : List Char :=
  let digits := digitsOf d.digits
  let e := if d.digits = 0 then 0 else d.exponent + digits.length - 1
  if l.positional e then l.writePositional digits e else l.writeExponent digits e

/-- The shortest text of a double under a layout. -/
def write (l : DecimalLayout) (x : Binary64) : String :=
  String.ofList ((if x.negative then ['-'] else []) ++ l.writeMagnitude x.shortest)

end DecimalLayout

end InventoryFeed

import InventoryFeed.Decimal.Binary64

/-!
# Decimal digits of a double

`shortest` finds the fewest decimal digits that a nearest-double reader takes back to the number,
and of several such digit strings the nearest. `significant` rounds to a fixed count of digits
instead. Both look only at the two neighbours of the number on a decimal grid, in exact integer
arithmetic.
-/

namespace InventoryFeed

/-- The decimal `digits · 10 ^ exponent`. -/
structure Decimal where
  /-- The digits, read as one integer. -/
  digits : Nat
  /-- The power of ten. -/
  exponent : Int
  deriving DecidableEq, Repr

namespace Decimal

/-- Move zeros from the end of the digits into the exponent. -/
def strip : Nat → Decimal → Decimal
  | 0, d => d
  | fuel + 1, d =>
    if d.digits ≠ 0 ∧ d.digits % 10 = 0 then strip fuel ⟨d.digits / 10, d.exponent + 1⟩ else d

/-- The decimal without zeros at the end; a double has at most 18 digits here. -/
def normalize (d : Decimal) : Decimal := strip 20 d

end Decimal

namespace Binary64

/-- A positive number on a decimal grid: `units · step` is the number, and `steps / step` counts
grid points. The number is `4 · mantissa` units, so that the bounds of its interval are whole. -/
structure Grid where
  /-- The factor of one unit. -/
  unit : Nat
  /-- The factor of one grid step. -/
  step : Nat

/-- The grid of multiples of `10 ^ k` seen in units of a quarter of the last binary place. -/
def gridAt (x : Binary64) (k : Int) : Grid where
  unit := numeratorScale (x.exponent - 2) * Nat.pow 10 (-k).toNat
  step := denominatorScale (x.exponent - 2) * Nat.pow 10 k.toNat

/-- Whether the number lies below `10 ^ p`. -/
def belowPower (x : Binary64) (p : Int) : Bool :=
  let g := x.gridAt p
  4 * x.mantissa * g.unit < g.step

/-- The least `p` such that the number, which is not zero, lies below `10 ^ p`. -/
def decimalPoint (x : Binary64) : Int :=
  let guess := ((x.mantissa.log2 : Int) + x.exponent) * 1233 / 4096 - 1
  ((List.range 5).map fun i : Nat => guess + i).find? x.belowPower |>.getD guess

/-- Whether `d` grid steps lie where a nearest-double reader gives the number back: at most half a
binary place away, a quarter below a power of two, the ends included for an even mantissa. -/
def readsBack (x : Binary64) (g : Grid) (d : Nat) : Bool :=
  let below := if x.mantissa = leastMantissa ∧ -1074 < x.exponent then 1 else 2
  let low := (4 * x.mantissa - below) * g.unit
  let high := (4 * x.mantissa + 2) * g.unit
  let here := d * g.step
  if x.mantissa % 2 = 0 then low ≤ here && here ≤ high else low < here && here < high

/-- The neighbour on the grid of multiples of `10 ^ k` that reads back, the nearer one of two. -/
def gridPoint? (x : Binary64) (k : Int) : Option Decimal :=
  let g := x.gridAt k
  let units := 4 * x.mantissa * g.unit
  let low := units / g.step
  let nearest := roundQuotient units g.step
  if x.readsBack g nearest then some ⟨nearest, k⟩
  else if x.readsBack g low then some ⟨low, k⟩
  else if x.readsBack g (low + 1) then some ⟨low + 1, k⟩
  else none

/-- The fewest digits that read back; seventeen are always enough. -/
def shortest (x : Binary64) : Decimal :=
  if x.isZero then ⟨0, 0⟩ else
    let p := x.decimalPoint
    (((List.range 17).findSome? fun n => x.gridPoint? (p - (n + 1 : Nat))).getD ⟨0, 0⟩).normalize

/-- The number rounded to `n` digits, a half going up in magnitude. -/
def significant (x : Binary64) (n : Nat) : Decimal :=
  if x.isZero then ⟨0, 0⟩ else
    let k := x.decimalPoint - n
    let g := x.gridAt k
    let units := 4 * x.mantissa * g.unit
    let low := units / g.step
    let d := if g.step ≤ 2 * (units % g.step) then low + 1 else low
    Decimal.normalize ⟨d, k⟩

end Binary64

end InventoryFeed

import InventoryFeed.Decimal.Layout
import InventoryFeed.Json.Tree
import InventoryFeed.Text.Ascii
import InventoryFeed.Word

/-!
# Strings and numbers of JSON

`unescape` takes the characters out of a written string and refuses a surrogate escape that is not
half of a pair. `Numeral.toNumber` is the number that a written one stands for: an integer if it
has neither point nor exponent and fits 64 bits, signed or not; else a double. The double is the
significand, cut off where it no longer fits 64 bits, times a power of ten, each step rounded once.
-/

namespace InventoryFeed.Json

/-- The value of four hexadecimal digits. -/
def hexUnit (a b c d : Char) : Nat := Ascii.ofDigits 16 [a, b, c, d]

/-- The first half of a surrogate pair. -/
def isHighSurrogate (n : Nat) : Bool := 0xd800 ≤ n && n ≤ 0xdbff

/-- The second half of a surrogate pair. -/
def isLowSurrogate (n : Nat) : Bool := 0xdc00 ≤ n && n ≤ 0xdfff

/-- The character that a pair of surrogates stands for. -/
def pairedChar (high low : Nat) : Char :=
  Char.ofNat (0x10000 + (high - 0xd800) * 0x400 + (low - 0xdc00))

/-- The character after a backslash as it is meant. -/
def escapedChar (e : Char) : Char :=
  if e = 'b' then Char.ofNat 8 else if e = 'f' then Char.ofNat 12 else if e = 'n' then '\n'
  else if e = 'r' then '\r' else if e = 't' then '\t' else e

/-- The characters that a written string stands for; `none` for a surrogate without its other
half. -/
def unescape : List Char → Option (List Char)
  | [] => some []
  | '\\' :: 'u' :: a :: b :: c :: d :: rest =>
    let unit := hexUnit a b c d
    if isLowSurrogate unit then none
    else if isHighSurrogate unit then
      match rest with
      | '\\' :: 'u' :: e :: f :: g :: h :: rest =>
        if isLowSurrogate (hexUnit e f g h) then
          (unescape rest).map (pairedChar unit (hexUnit e f g h) :: ·)
        else none
      | _ => none
    else (unescape rest).map (Char.ofNat unit :: ·)
  | '\\' :: e :: rest => (unescape rest).map (escapedChar e :: ·)
  | c :: rest => (unescape rest).map (c :: ·)

/-- A small hexadecimal digit. -/
def hexDigit (n : Nat) : Char := if n < 10 then Char.ofNat (48 + n) else Char.ofNat (87 + n)

/-- How a character is written inside a string. -/
def escape (c : Char) : List Char :=
  if c = '"' then ['\\', '"'] else if c = '\\' then ['\\', '\\']
  else if c = '\n' then ['\\', 'n'] else if c = '\r' then ['\\', 'r']
  else if c = '\t' then ['\\', 't'] else if c = Char.ofNat 8 then ['\\', 'b']
  else if c = Char.ofNat 12 then ['\\', 'f']
  else if c.toNat < 0x20 then ['\\', 'u', '0', '0', hexDigit (c.toNat / 16), hexDigit (c.toNat % 16)]
  else [c]

/-- The characters of a string as they are written between quotes. -/
def escapeAll (cs : List Char) : List Char := cs.flatMap escape

/-- The text of a string with its quotes. -/
def writeString (s : String) : List Char := quoted (escapeAll s.toList)

/-- The text of an integer. -/
def writeInt (n : Int) : List Char :=
  if n < 0 then '-' :: Nat.toDigits 10 n.natAbs else Nat.toDigits 10 n.natAbs

/-- Doubles in JSON: around a point from a hundred-thousandth up to below ten to the sixteenth, a
whole number with one fraction digit, other numbers with a signed exponent. -/
def numberLayout : DecimalLayout where
  lowest := some (-5)
  highest := some 15
  wholeFraction := true
  exponentFraction := false
  exponentPlus := true
  exponentWidth := 1

/-- The text of a double. -/
def writeReal (x : Binary64) : List Char := (numberLayout.write x).toList

/-- A number of JSON. -/
inductive Number where
  /-- An integer of 64 bits, signed or unsigned. -/
  | int (value : Int)
  /-- Any other number. -/
  | real (value : Binary64)
  deriving DecidableEq, Repr

/-- The digits of `digits` that can be appended to `significand` within 64 bits, as the number they
make, and how many of them there are. -/
def accumulate (significand : Nat) : List Char → Nat × Nat
  | [] => (significand, 0)
  | c :: rest =>
    let longer := significand * 10 + (c.toNat - 48)
    if longer < Word.unsignedEnd then
      let (total, count) := accumulate longer rest
      (total, count + 1)
    else (significand, 0)

/-- A power of ten as a double; the exponent is at most 308. -/
def powerOfTen (n : Nat) : Binary64 := (Binary64.ofNat? (Nat.pow 10 n)).getD (Binary64.zero false)

/-- A double times `10 ^ e` as it is read: one rounded product or quotient for an exponent of at most
308 in size, before which a smaller exponent is raised by rounded quotients. `none` beyond the
doubles. -/
def scaleByTen : Nat → Binary64 → Int → Option Binary64
  | 0, _, _ => none
  | fuel + 1, x, e =>
    if e.natAbs ≤ 308 then
      if 0 ≤ e then x.mul? (powerOfTen e.natAbs) else x.div? (powerOfTen e.natAbs)
    else if x.isZero then some x
    else if 0 ≤ e then none
    else (x.div? (powerOfTen 308)).bind fun smaller => scaleByTen fuel smaller (e + 308)

namespace Numeral

/-- The exponent that is written; zero if there is none. -/
def stated (n : Numeral) : Int :=
  match n.exponent with
  | some e =>
    let size : Int := (Ascii.ofDigits 10 e.digits : Nat)
    if e.sign = some '-' then -size else size
  | none => 0

/-- The double that a number stands for. -/
def toReal? (n : Numeral) : Option Binary64 := do
  let (whole, used) := accumulate 0 n.whole
  let dropped := n.whole.length - used
  let (significand, places) := accumulate whole n.fraction
  let start ← Binary64.ofNat? significand
  let value ← scaleByTen 4 start (n.stated + dropped - places)
  pure (value.withSign n.negative)

/-- The number that is written; `none` when it is too large for a double. -/
def toNumber? (n : Numeral) : Option Number :=
  if n.fraction.isEmpty ∧ n.exponent.isNone then
    let size := Ascii.ofDigits 10 n.whole
    if n.negative then
      if 0 < size ∧ size ≤ Word.signedEnd then some (.int (-size)) else n.toReal?.map .real
    else if size < Word.unsignedEnd then some (.int size) else n.toReal?.map .real
  else n.toReal?.map .real

end Numeral

end InventoryFeed.Json

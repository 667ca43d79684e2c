import InventoryFeed.Proofs.Decimal.Digits
import InventoryFeed.Proofs.Json.Scaling

/-!
# Doubles read back

The digits of a finite double stand for at most half a binary place more than it, so what they are written as
has a nearest double when it is read, though not always the same one. The greatest double stands alone: half
a place more than it is rounded to infinity, but its own digits are not.
-/

namespace InventoryFeed

open Binary64

namespace Binary64

/-- All finite doubles but the greatest are half a binary place below what is readable. -/
theorem upper_le_readable {x : Binary64} (h : x.Finite)
    (hgreatest : ¬(x.mantissa = mantissaEnd - 1 ∧ x.exponent = 971)) : x.upper ≤ Json.readable := by
  have hreadable : (Json.readable : ℚ) = 36028797018963962 * 2 ^ (969 : Int) := by
    rw [Json.readable, Nat.cast_mul, numeratorScale_eq (by decide), show (970 : Int) = 969 + 1 from rfl,
      zpow_add_one₀ two_ne_zero]
    ring
  have hmantissa : x.mantissa < 9007199254740992 := h.mantissa
  have hexponent := h.greatest
  rw [hreadable]
  -- Below the greatest exponent any mantissa will do, since a place is twice as wide there.
  rcases hexponent.lt_or_eq with hlt | heq
  · have hpow : (2 : ℚ) ^ (x.exponent - 2) ≤ 2 ^ (968 : Int) :=
      zpow_le_zpow_right₀ one_le_two (by omega)
    have hdigits : ((4 * x.mantissa + 2 : Nat) : ℚ) ≤ 36028797018963966 :=
      Nat.cast_le_ofNat.mpr (by omega)
    calc x.upper ≤ 36028797018963966 * 2 ^ (968 : Int) :=
          mul_le_mul hdigits hpow (zpow_nonneg zero_le_two _) (by norm_num)
      _ ≤ 36028797018963962 * 2 ^ (969 : Int) := by
          rw [show (969 : Int) = 968 + 1 from rfl, zpow_add_one₀ two_ne_zero]
          have hpos : (0 : ℚ) < 2 ^ (968 : Int) := zpow_pos two_pos _
          generalize (2 : ℚ) ^ (968 : Int) = place at hpos ⊢
          linarith
  · have hsmaller : x.mantissa ≠ 9007199254740991 := fun hm => hgreatest ⟨hm, heq⟩
    have hdigits : ((4 * x.mantissa + 2 : Nat) : ℚ) ≤ 36028797018963962 :=
      Nat.cast_le_ofNat.mpr (by omega)
    rw [upper, heq]
    exact mul_le_mul_of_nonneg_right hdigits (zpow_nonneg zero_le_two _)

end Binary64

namespace Json

theorem positional_iff (e : Int) : numberLayout.positional e = true ↔ -5 ≤ e ∧ e ≤ 15 := by
  simp [DecimalLayout.positional, numberLayout]

theorem exists_toReal?_of_positional (negative : Bool) {digits : List Char} {e : Int}
    (hwell : (numeralOfDigits negative digits e).WellFormed) (hlow : -5 ≤ e) (hhigh : e ≤ 15)
    (hlength : digits.length ≤ 1200) : ∃ y, (numeralOfDigits negative digits e).toReal? = some y := by
  rw [numeralOfDigits, if_pos ((positional_iff e).mpr ⟨hlow, hhigh⟩)] at hwell ⊢
  split at hwell
  · rename_i hneg
    rw [if_pos hneg]
    refine Numeral.exists_toReal?_of_plain hwell rfl (Nat.le_of_ble_eq_true rfl) ?_
    dsimp only
    rw [List.length_append, List.length_replicate]
    omega
  · rename_i hneg
    rw [if_neg hneg]
    refine Numeral.exists_toReal?_of_plain hwell rfl ?_ ?_ <;> dsimp only
    · rw [List.length_append, List.length_replicate, List.length_take]
      omega
    · split
      · exact Nat.le_of_ble_eq_true rfl
      · rw [List.length_drop]
        omega

theorem exists_toReal?_of_exponential (negative : Bool) {digits : List Char} {e : Int}
    (hwell : (numeralOfDigits negative digits e).WellFormed) (hne : digits ≠ [])
    (he : numberLayout.positional e = false) (hlow : -342 ≤ e + 1 - digits.length)
    (h : ((Nat.ofDigitChars 10 digits 0 : Nat) : ℚ) * 10 ^ (e + 1 - digits.length) ≤ readable) :
    ∃ y, (numeralOfDigits negative digits e).toReal? = some y := by
  obtain ⟨c, more, rfl⟩ := List.exists_cons_of_ne_nil hne
  rw [numeralOfDigits, if_neg (Bool.eq_false_iff.mp he)] at hwell ⊢
  let n : Numeral := ⟨negative, [c], more,
    some ⟨'e', some (if e < 0 then '-' else '+'), DecimalLayout.digitsOf e.natAbs⟩⟩
  change n.WellFormed at hwell
  change ∃ y, n.toReal? = some y
  have hstated : n.stated = e := by
    have hsize : Ascii.ofDigits 10 (DecimalLayout.digitsOf e.natAbs) = e.natAbs :=
      Ascii.ofDigits_toDigits _
    simp only [n, Numeral.stated, hsize]
    by_cases hneg : e < 0
    · rw [if_pos hneg, if_pos rfl]
      omega
    · rw [if_neg hneg, if_neg (by decide)]
      omega
  rw [List.length_cons, show e + 1 - ((more.length + 1 : Nat) : Int) = e - more.length by omega] at hlow h
  refine Numeral.exists_toReal? (show [c].length ≤ 19 from Nat.le_of_ble_eq_true rfl) hwell.whole ?_ ?_ <;>
    rw [hstated]
  · change -1232 + (more.length : Int) ≤ e
    omega
  · exact h

/-- What a decimal is written as is read if the decimal is readable. -/
theorem exists_toReal?_of_decimal (negative : Bool) {d : Decimal} (hlow : -342 ≤ d.exponent)
    (h : d.toRat ≤ readable) : ∃ y, (numeralOfDecimal negative d).toReal? = some y := by
  have hwell := wellFormed_numeralOfDecimal negative d
  rw [numeralOfDecimal] at hwell ⊢
  have hdigits : Nat.ofDigitChars 10 (DecimalLayout.digitsOf d.digits) 0 = d.digits :=
    Nat.ofDigitChars_ten_toDigits
  rcases Nat.eq_zero_or_pos d.digits with hzero | hpos
  · rw [if_pos hzero] at hwell ⊢
    refine exists_toReal?_of_positional negative hwell (by decide) (by decide) ?_
    rw [hzero]
    decide
  rw [if_neg (Nat.ne_of_gt hpos)] at hwell ⊢
  generalize hlength : (DecimalLayout.digitsOf d.digits).length = length at hwell ⊢
  by_cases hplain : numberLayout.positional (d.exponent + length - 1) = true
  · obtain ⟨hleast, hgreatest⟩ := (positional_iff _).mp hplain
    exact exists_toReal?_of_positional negative hwell hleast hgreatest (by omega)
  · have hexponent : d.exponent + length - 1 + 1 - (DecimalLayout.digitsOf d.digits).length =
        d.exponent := by omega
    refine exists_toReal?_of_exponential negative hwell Nat.toDigits_ne_nil
      (Bool.eq_false_iff.mpr hplain) ?_ ?_ <;> rw [hexponent]
    · exact hlow
    · simpa only [hdigits, Decimal.toRat] using h

/-- Where a decimal was written there is a point or an exponent. -/
theorem fraction_or_exponent (negative : Bool) {digits : List Char} (e : Int) (h : digits ≠ []) :
    (numeralOfDigits negative digits e).fraction ≠ [] ∨ (numeralOfDigits negative digits e).exponent ≠ none := by
  rw [numeralOfDigits]
  split
  · left
    split
    · exact List.append_ne_nil_of_right_ne_nil _ h
    · dsimp only
      split
      · exact List.cons_ne_nil _ _
      · rename_i hnonempty
        exact fun hempty => hnonempty (List.isEmpty_iff.mpr hempty)
  · exact .inr (Option.some_ne_none _)

theorem toNumber?_of_decimal (negative : Bool) (d : Decimal) :
    (numeralOfDecimal negative d).toNumber? = (numeralOfDecimal negative d).toReal?.map .real := by
  have hreal : ¬((numeralOfDecimal negative d).fraction.isEmpty = true ∧
      (numeralOfDecimal negative d).exponent.isNone = true) := by
    rw [List.isEmpty_iff, Option.isNone_iff_eq_none, not_and_or]
    exact fraction_or_exponent negative _ Nat.toDigits_ne_nil
  rw [Numeral.toNumber?, if_neg hreal]

/-- The text of a finite double is read as a double. -/
theorem exists_toNumber?_shortest {x : Binary64} (h : x.Finite) :
    ∃ y, (numeralOfDecimal x.negative x.shortest).toNumber? = some (.real y) := by
  have hreal : ∃ y, (numeralOfDecimal x.negative x.shortest).toReal? = some y := by
    by_cases hgreatest : x.mantissa = mantissaEnd - 1 ∧ x.exponent = 971
    · obtain ⟨negative, mantissa, exponent⟩ := x
      obtain ⟨rfl, rfl⟩ := hgreatest
      cases negative <;> exact Option.isSome_iff_exists.mp (by decide +kernel)
    · obtain ⟨hupper, hlow⟩ := shortest_spec h.least
      exact exists_toReal?_of_decimal x.negative hlow (hupper.trans (upper_le_readable h hgreatest))
  obtain ⟨y, hy⟩ := hreal
  exact ⟨y, by rw [toNumber?_of_decimal, hy, Option.map_some]⟩

end Json

end InventoryFeed

import InventoryFeed.Proofs.Decimal.Binary64
import InventoryFeed.Proofs.Json.Numeral

/-!
# Significands times powers of ten

A number is read by taking as many of its digits as fit 64 bits, which only makes it smaller, and scaling them
by a power of ten. Up to a size just below the greatest double the scaled number has a nearest double,
however the power itself was rounded.
-/

namespace InventoryFeed

open Binary64

namespace Json

/-- The size up to which every product of digits and a power of ten is read: half a binary place more than the
greatest double but one. -/
def readable : Nat := 18014398509481981 * numeratorScale 970

theorem le_ofDigitChars (digits : List Char) (start : Nat) :
    start * 10 ^ digits.length ≤ Nat.ofDigitChars 10 digits start := by
  rw [Nat.ofDigitChars_eq_ofDigitChars_zero, Nat.mul_comm]
  exact Nat.le_add_right _ _

theorem ofDigitChars_lt {digits : List Char} (h : ∀ c ∈ digits, isDigit c = true) :
    Nat.ofDigitChars 10 digits 0 < 10 ^ digits.length := by
  induction digits with
  | nil => exact Nat.one_pos
  | cons c rest ih =>
    obtain ⟨hc, hrest⟩ := List.forall_mem_cons.mp h
    have hdigit : c.toNat - '0'.toNat ≤ 9 := by
      simp only [isDigit, Bool.and_eq_true, decide_eq_true_eq, Char.le_def, UInt32.le_iff_toNat_le] at hc
      have hle : c.toNat ≤ 57 := hc.2
      exact Nat.sub_le_of_le_add hle
    have hlt := ih hrest
    have hpow := Nat.mul_le_mul_left (10 ^ rest.length) hdigit
    rw [Nat.ofDigitChars_cons, Nat.ofDigitChars_eq_ofDigitChars_zero, List.length_cons, Nat.pow_succ,
      Nat.mul_zero, Nat.zero_add]
    omega

/-- Digits that make a number of 64 bits are all taken. -/
theorem accumulate_eq {digits : List Char} {start : Nat}
    (h : Nat.ofDigitChars 10 digits start < Word.unsignedEnd) :
    accumulate start digits = (Nat.ofDigitChars 10 digits start, digits.length) := by
  induction digits generalizing start with
  | nil => rfl
  | cons c rest ih =>
    have hcons : Nat.ofDigitChars 10 (c :: rest) start =
        Nat.ofDigitChars 10 rest (start * 10 + (c.toNat - 48)) := by
      rw [Nat.ofDigitChars_cons, Nat.mul_comm]
      rfl
    rw [hcons] at h ⊢
    have hlonger : start * 10 + (c.toNat - 48) < Word.unsignedEnd :=
      Nat.lt_of_le_of_lt ((Nat.le_mul_of_pos_right _ (Nat.pow_pos (by decide))).trans
        (le_ofDigitChars rest _)) h
    rw [accumulate]
    dsimp only
    rw [if_pos hlonger, ih h]
    rfl

/-- The digits that are taken make a number of 64 bits, and those that are left out only add to it. -/
theorem accumulate_le (digits : List Char) {start : Nat} (h : start < Word.unsignedEnd) :
    (accumulate start digits).1 < Word.unsignedEnd ∧ (accumulate start digits).2 ≤ digits.length ∧
      (accumulate start digits).1 * 10 ^ (digits.length - (accumulate start digits).2) ≤
        Nat.ofDigitChars 10 digits start := by
  induction digits generalizing start with
  | nil => exact ⟨h, Nat.le_refl _, Nat.le_of_eq (Nat.mul_one _)⟩
  | cons c rest ih =>
    rw [accumulate]
    dsimp only
    split
    · rename_i hlonger
      obtain ⟨hlt, hcount, hle⟩ := ih hlonger
      refine ⟨hlt, Nat.succ_le_succ hcount, ?_⟩
      rw [List.length_cons, Nat.add_sub_add_right, Nat.ofDigitChars_cons, Nat.mul_comm 10]
      exact hle
    · exact ⟨h, Nat.zero_le _, le_ofDigitChars (c :: rest) start⟩

/-- The first number past 64 bits is a double. -/
theorem ofNat?_wordEnd : ofNat? Word.unsignedEnd = some ⟨false, leastMantissa, 12⟩ := rfl

theorem size_wordEnd : size ⟨false, leastMantissa, 12⟩ = Word.unsignedEnd := by
  norm_num [size]

theorem powers_le {m n : Nat} (h : m ≤ n) : Nat.pow 10 m ≤ Nat.pow 10 n :=
  Nat.pow_le_pow_right (by decide) h

theorem lt_power {a m n : Nat} (ha : a < Nat.pow 10 m) (h : m ≤ n) : a < Nat.pow 10 n :=
  ha.trans_le (powers_le h)

theorem le_of_mul_power {a b n : Nat} (h : a * Nat.pow 10 n ≤ b) : a ≤ b :=
  (Nat.le_mul_of_pos_right a (Nat.pow_pos (by decide))).trans h

theorem ofNat?_powerOfTen_of_le {m n : Nat} (h : m ≤ n) (hn : (ofNat? (Nat.pow 10 n)).isSome = true) :
    ofNat? (Nat.pow 10 m) = some (powerOfTen m) := by
  obtain ⟨y, hy⟩ := Option.isSome_iff_exists.mp hn
  obtain ⟨x, hx, -⟩ := ofNat?_mono (powers_le h) hy
  rw [powerOfTen, hx, Option.getD_some]

/-- The greatest powers of ten that are doubles, and the greatest products with them; up to the first of them no
significand is too large. -/
theorem greatest_powers : ∀ i < 21, (ofNat? (Nat.pow 10 (288 + i))).isSome = true ∧
    (i = 0 → Word.unsignedEnd * Nat.pow 10 (288 + i) ≤ readable) ∧
    ((ofNat? (min (Word.unsignedEnd - 1) (readable / Nat.pow 10 (288 + i)))).bind
      fun x => x.mul? (powerOfTen (288 + i))).isSome = true := by decide +kernel

theorem readable_lt : readable < Nat.pow 10 309 := by decide +kernel

theorem wordEnd_le_readable : Word.unsignedEnd ≤ readable :=
  le_of_mul_power ((greatest_powers 0 (by decide)).2.1 rfl)

section

variable {n : Nat} (hn : n ≤ 308)
include hn

/-- A power is one of the greatest or below all of them. -/
theorem exists_greatest : ∃ i < 21, n ≤ 288 + i ∧ (i = 0 ∨ n = 288 + i) :=
  ⟨n - 288, by omega, by omega, by omega⟩

theorem ofNat?_powerOfTen : ofNat? (Nat.pow 10 n) = some (powerOfTen n) := by
  obtain ⟨i, hi, hle, -⟩ := exists_greatest hn
  exact ofNat?_powerOfTen_of_le hle (greatest_powers i hi).1

theorem powerOfTen_mono {m : Nat} (h : m ≤ n) : (powerOfTen m).size ≤ (powerOfTen n).size := by
  obtain ⟨x, hx, hle⟩ := ofNat?_mono (powers_le h) (ofNat?_powerOfTen hn)
  cases (ofNat?_powerOfTen (h.trans hn)).symm.trans hx
  exact hle

theorem one_le_powerOfTen : 1 ≤ (powerOfTen n).size := by
  have hone : (powerOfTen 0).size = 1 := by
    rw [show powerOfTen 0 = ⟨false, leastMantissa, -52⟩ from rfl, size]
    norm_num
  exact hone ▸ powerOfTen_mono hn (Nat.zero_le n)

/-- A quotient by a power of ten has a nearest double, no larger than a bound on what is divided. -/
theorem exists_div {x : Binary64} (h : x.size ≤ Word.unsignedEnd) :
    ∃ z, x.div? (powerOfTen n) = some z ∧ z.size ≤ Word.unsignedEnd := by
  have hpower := one_le_powerOfTen hn
  have hden : 0 < (powerOfTen n).mantissa * denominatorScale (x.exponent - (powerOfTen n).exponent) := by
    refine Nat.mul_pos (Nat.pos_of_ne_zero fun hzero => ?_) (denominatorScale_pos _)
    rw [size, hzero, Nat.cast_zero, zero_mul] at hpower
    exact absurd hpower (by norm_num)
  rw [← size_wordEnd]
  refine ofRatio_mono hden Nat.one_pos ?_ ofNat?_wordEnd
  rw [div_ratio, Nat.cast_one, div_one]
  exact (div_le_self x.size_nonneg hpower).trans h

end

/-- A significand of 64 bits times a power of ten has a nearest double as far as the product is readable. -/
theorem exists_mul {s n : Nat} {x : Binary64} (hs : s < Word.unsignedEnd) (hn : n ≤ 308)
    (h : s * Nat.pow 10 n ≤ readable) (hx : ofNat? s = some x) :
    ∃ y, x.mul? (powerOfTen n) = some y := by
  obtain ⟨i, hi, hle, hcase⟩ := exists_greatest hn
  obtain ⟨-, hsmall, hproduct⟩ := greatest_powers i hi
  have hbound : s ≤ readable / Nat.pow 10 (288 + i) := by
    have hpos : 0 < Nat.pow 10 (288 + i) := Nat.pow_pos (by decide)
    rw [Nat.le_div_iff_mul_le hpos]
    rcases hcase with hzero | heq
    · exact (Nat.mul_le_mul_right _ hs.le).trans (hsmall hzero)
    · rwa [← heq]
  obtain ⟨z, hz⟩ := Option.isSome_iff_exists.mp hproduct
  obtain ⟨x', hx', hz⟩ := Option.bind_eq_some_iff.mp hz
  obtain ⟨y, hy, hsize⟩ := ofNat?_mono (Nat.le_min.mpr ⟨Nat.le_sub_one_of_lt hs, hbound⟩) hx'
  cases hx.symm.trans hy
  exact mul?_mono hsize (powerOfTen_mono (by omega) hle) hz

theorem exists_scaleByTen_of_neg (fuel : Nat) {x : Binary64} {e : Int} (hx : x.size ≤ Word.unsignedEnd)
    (hneg : e < 0) (hfuel : -(308 * fuel : Int) ≤ e) : ∃ y, scaleByTen fuel x e = some y := by
  induction fuel generalizing x e with
  | zero => omega
  | succ fuel ih =>
    rw [scaleByTen]
    split
    · rename_i hsmall
      rw [if_neg (by omega)]
      obtain ⟨y, hy, -⟩ := exists_div hsmall hx
      exact ⟨y, hy⟩
    · rename_i hlarge
      split
      · exact ⟨x, rfl⟩
      · obtain ⟨y, hy, hsize⟩ := exists_div (Nat.le_refl 308) hx
        rw [if_neg (by omega), hy, Option.bind_some]
        exact ih hsize (by omega) (by omega)

/-- A significand of 64 bits is scaled as far as the product is readable. -/
theorem exists_scaleByTen {s : Nat} {e : Int} (hs : s < Word.unsignedEnd) (hlow : -1232 ≤ e)
    (h : (s : ℚ) * 10 ^ e ≤ readable) : ∃ y, (ofNat? s).bind (fun x => scaleByTen 4 x e) = some y := by
  obtain ⟨x, hx, hsize⟩ := ofNat?_mono hs.le ofNat?_wordEnd
  rw [hx, Option.bind_some]
  rcases Int.lt_or_le e 0 with hneg | hnonneg
  · exact exists_scaleByTen_of_neg 4 (size_wordEnd ▸ hsize) hneg hlow
  obtain ⟨n, rfl⟩ := Int.eq_ofNat_of_zero_le hnonneg
  have hproduct : s * Nat.pow 10 n ≤ readable := by
    rw [zpow_natCast] at h
    exact_mod_cast h
  rw [scaleByTen]
  by_cases hn : n ≤ 308
  · rw [if_pos (by omega), if_pos hnonneg]
    exact exists_mul hs hn hproduct hx
  · -- Nothing but zero times so large a power is readable.
    have hzero : s = 0 := by
      refine Nat.eq_zero_of_not_pos fun hpos => ?_
      have hpower : readable < Nat.pow 10 n :=
        lt_power readable_lt (Nat.lt_of_not_le hn)
      exact absurd (hproduct.trans_lt hpower) (Nat.not_lt.mpr (Nat.le_mul_of_pos_left _ hpos))
    rw [hzero] at hx
    cases hx
    rw [if_neg (by omega)]
    exact ⟨_, rfl⟩

/-- A number with few digits before the point is read if it is readable. -/
theorem Numeral.exists_toReal? {n : Numeral} (hshort : n.whole.length ≤ 19)
    (hwhole : ∀ c ∈ n.whole, isDigit c = true) (hlow : -1232 + (n.fraction.length : Int) ≤ n.stated)
    (h : ((Nat.ofDigitChars 10 (n.whole ++ n.fraction) 0 : Nat) : ℚ) *
      10 ^ (n.stated - n.fraction.length) ≤ readable) : ∃ y, n.toReal? = some y := by
  have hfits : Nat.ofDigitChars 10 n.whole 0 < Word.unsignedEnd :=
    (ofDigitChars_lt hwhole).trans_le ((Nat.pow_le_pow_right (by decide) hshort).trans (by decide))
  obtain ⟨hword, hplaces, hcut⟩ := accumulate_le n.fraction hfits
  rw [← Nat.ofDigitChars_append] at hcut
  generalize htaken : accumulate (Nat.ofDigitChars 10 n.whole 0) n.fraction = taken at hword hplaces hcut
  obtain ⟨significand, places⟩ := taken
  dsimp only at hword hplaces hcut
  have hsize : (significand : ℚ) * 10 ^ (n.stated - places) ≤ readable := by
    have hpow : (10 : ℚ) ^ (n.stated - places) =
        10 ^ (n.fraction.length - places) * 10 ^ (n.stated - n.fraction.length) := by
      rw [← zpow_natCast, ← zpow_add₀ (by norm_num)]
      exact congrArg (fun e : Int => (10 : ℚ) ^ e) (by omega)
    rw [hpow, ← mul_assoc]
    refine le_trans (mul_le_mul_of_nonneg_right ?_ (zpow_nonneg (by norm_num) _)) h
    exact_mod_cast hcut
  obtain ⟨y, hy⟩ := exists_scaleByTen hword (by omega) hsize
  obtain ⟨start, hstart, hscaled⟩ := Option.bind_eq_some_iff.mp hy
  refine ⟨y.withSign n.negative, ?_⟩
  rw [toReal?, accumulate_eq hfits]
  dsimp only
  rw [htaken]
  dsimp only
  rw [hstart, Option.bind_eq_bind, Option.bind_some, Nat.sub_self, Nat.cast_zero, Int.add_zero, hscaled]
  rfl

/-- A number without an exponent is read if it is short enough. -/
theorem Numeral.exists_toReal?_of_plain {n : Numeral} (h : n.WellFormed) (hexponent : n.exponent = none)
    (hshort : n.whole.length ≤ 19) (hfraction : n.fraction.length ≤ 1232) : ∃ y, n.toReal? = some y := by
  have hstated : n.stated = 0 := by rw [stated, hexponent]
  refine exists_toReal? hshort h.whole (by omega) ?_
  have hlt := ofDigitChars_lt (List.forall_mem_append.mpr ⟨h.whole, h.fraction⟩)
  rw [List.length_append, Nat.pow_add] at hlt
  have hword : 10 ^ n.whole.length ≤ Word.unsignedEnd :=
    (Nat.pow_le_pow_right (by decide) hshort).trans (by decide)
  have hwhole : 10 ^ n.whole.length ≤ readable :=
    hword.trans wordEnd_le_readable
  have hpow : (0 : ℚ) < 10 ^ n.fraction.length := by positivity
  rw [hstated, Int.zero_sub, zpow_neg, zpow_natCast, ← div_eq_mul_inv, div_le_iff₀ hpow]
  exact_mod_cast hlt.le.trans (Nat.mul_le_mul_right _ hwhole)

end Json

end InventoryFeed

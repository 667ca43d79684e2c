import InventoryFeed.Decimal.Binary64
import Mathlib.Algebra.Order.Field.Basic
import Mathlib.Algebra.Order.Field.Power
import Mathlib.Data.Rat.Cast.Order
import Mathlib.Tactic.Linarith
import Mathlib.Tactic.NormNum
import Mathlib.Tactic.Ring

/-!
# Rounding is monotone

A quotient is rounded to a mantissa of 53 bits at the exponent of its size. A greater quotient has no smaller
exponent and at the same exponent no smaller mantissa, so rounding keeps the order, and whatever is below a
quotient that is rounded to a finite double is rounded to one as well.
-/

namespace InventoryFeed.Binary64

/-- The size of the number that a double stands for. -/
def size (x : Binary64) : ℚ := x.mantissa * 2 ^ x.exponent

theorem size_nonneg (x : Binary64) : 0 ≤ x.size :=
  mul_nonneg (Nat.cast_nonneg _) (zpow_nonneg zero_le_two _)

theorem denominatorScale_pos (e : Int) : 0 < denominatorScale e := Nat.pow_pos Nat.two_pos

theorem numeratorScale_pos (e : Int) : 0 < numeratorScale e := Nat.pow_pos Nat.two_pos

theorem cast_pow (b n : Nat) : ((Nat.pow b n : Nat) : ℚ) = (b : ℚ) ^ (n : Int) := by
  rw [Nat.pow_eq, Nat.cast_pow, zpow_natCast]

theorem numeratorScale_eq {e : Int} (h : 0 ≤ e) : (numeratorScale e : ℚ) = 2 ^ e := by
  rw [numeratorScale, cast_pow, Int.toNat_of_nonneg h, Nat.cast_ofNat]

/-- The powers above and below the bar of a fraction make up a power. -/
theorem pow_div_pow {b : Nat} (hb : 0 < b) (e : Int) :
    ((Nat.pow b e.toNat : Nat) : ℚ) / (Nat.pow b (-e).toNat : Nat) = (b : ℚ) ^ e := by
  have hne : (b : ℚ) ≠ 0 := Nat.cast_ne_zero.mpr (Nat.ne_of_gt hb)
  have hsplit : (b : ℚ) ^ e = (b : ℚ) ^ ((e.toNat : Int) - (-e).toNat) := by
    congr 1
    omega
  rw [hsplit, zpow_sub₀ hne, cast_pow, cast_pow]

theorem mantissaEnd_eq : ((mantissaEnd : Nat) : ℚ) = 2 ^ (53 : Int) := by norm_num

theorem leastMantissa_eq : ((leastMantissa : Nat) : ℚ) = 2 ^ (52 : Int) := by norm_num

/-- The two scales of an exponent make up its power of two. -/
theorem numeratorScale_div (e : Int) : (numeratorScale e : ℚ) / denominatorScale e = 2 ^ e :=
  pow_div_pow Nat.two_pos e

theorem roundQuotient_mono {a b c d : Nat} (hb : 0 < b) (hd : 0 < d) (h : a * d ≤ c * b) :
    roundQuotient a b ≤ roundQuotient c d := by
  have ha := Nat.div_add_mod a b
  have hc := Nat.div_add_mod c d
  have hlow : a / b ≤ c / d := by
    refine (Nat.le_div_iff_mul_le hd).mpr (Nat.le_of_mul_le_mul_right ?_ hb)
    calc a / b * d * b = b * (a / b) * d := by ring
      _ ≤ a * d := Nat.mul_le_mul_right d (Nat.mul_div_le a b)
      _ ≤ c * b := h
  unfold roundQuotient
  dsimp only
  rcases hlow.lt_or_eq with hlt | heq
  · split <;> split <;> omega
  · -- The same integer part: the rest decides.
    have hrest : a % b * d ≤ c % d * b := by
      rw [heq] at ha
      nlinarith
    rw [heq]
    split_ifs with hup hup' hup'
    · exact Nat.le_refl _
    · exfalso
      refine hup' ?_
      rcases hup with hhalf | ⟨htie, hodd⟩
      · exact .inl (by nlinarith)
      · have hge : d ≤ 2 * (c % d) := by nlinarith
        rcases hge.lt_or_eq with hgt | htie'
        · exact .inl hgt
        · exact .inr ⟨htie'.symm, hodd⟩
    · exact Nat.le_succ _
    · exact Nat.le_refl _

theorem roundQuotient_one (n : Nat) : roundQuotient n 1 = n := by
  simp [roundQuotient, Nat.mod_one]

theorem le_roundQuotient {a b n : Nat} (hb : 0 < b) (h : n * b ≤ a) : n ≤ roundQuotient a b := by
  have hle := roundQuotient_mono (a := n) (c := a) Nat.one_pos hb (by omega)
  rwa [roundQuotient_one] at hle

theorem roundQuotient_le {a b n : Nat} (hb : 0 < b) (h : a ≤ n * b) : roundQuotient a b ≤ n := by
  have hle := roundQuotient_mono (a := a) (c := n) hb Nat.one_pos (by omega)
  rwa [roundQuotient_one] at hle

section

variable {num den : Nat}

theorem scaled_div (e : Int) : ((num * denominatorScale e : Nat) : ℚ) / (den * numeratorScale e : Nat) =
    (num : ℚ) / den / 2 ^ e := by
  rw [← numeratorScale_div e]
  push_cast
  rw [div_div_eq_mul_div, div_mul_eq_mul_div, div_div]

theorem scaled_pos (hden : 0 < den) (e : Int) : 0 < den * numeratorScale e :=
  Nat.mul_pos hden (numeratorScale_pos e)

/-- Whether a quotient has a mantissa of at least `n` at an exponent. -/
theorem scaled_le_iff (hden : 0 < den) (e : Int) (n : Nat) :
    n * (den * numeratorScale e) ≤ num * denominatorScale e ↔ (n : ℚ) * 2 ^ e ≤ num / den := by
  have hpos : (0 : ℚ) < (den * numeratorScale e : Nat) := Nat.cast_pos.mpr (scaled_pos hden e)
  rw [← le_div_iff₀ (zpow_pos two_pos e), ← scaled_div, le_div_iff₀ hpos]
  exact_mod_cast Iff.rfl

theorem quotient_bounds (hnum : 0 < num) (hden : 0 < den) :
    (2 : ℚ) ^ ((num.log2 : Int) - den.log2 - 1) ≤ num / den ∧
      (num / den : ℚ) < 2 ^ ((num.log2 : Int) - den.log2 + 1) := by
  have hlow : ∀ {n : Nat}, 0 < n → (2 : ℚ) ^ (n.log2 : Int) ≤ n := fun hn => by
    rw [zpow_natCast]
    exact_mod_cast Nat.log2_self_le (Nat.ne_of_gt hn)
  have hhigh : ∀ n : Nat, (n : ℚ) < 2 ^ ((n.log2 : Int) + 1) := fun n => by
    rw [← Nat.cast_succ, zpow_natCast]
    exact_mod_cast Nat.lt_log2_self
  have hdenPos : (0 : ℚ) < den := Nat.cast_pos.mpr hden
  constructor
  · rw [le_div_iff₀ hdenPos]
    calc (2 : ℚ) ^ ((num.log2 : Int) - den.log2 - 1) * den
        ≤ 2 ^ ((num.log2 : Int) - den.log2 - 1) * 2 ^ ((den.log2 : Int) + 1) :=
          mul_le_mul_of_nonneg_left (hhigh den).le (zpow_nonneg zero_le_two _)
      _ = 2 ^ (num.log2 : Int) := by
          rw [← zpow_add₀ two_ne_zero]
          congr 1
          omega
      _ ≤ num := hlow hnum
  · rw [div_lt_iff₀ hdenPos]
    calc (num : ℚ) < 2 ^ ((num.log2 : Int) + 1) := hhigh num
      _ = 2 ^ ((num.log2 : Int) - den.log2 + 1) * 2 ^ (den.log2 : Int) := by
          rw [← zpow_add₀ two_ne_zero]
          congr 1
          omega
      _ ≤ 2 ^ ((num.log2 : Int) - den.log2 + 1) * den :=
          mul_le_mul_of_nonneg_left (hlow hden) (zpow_nonneg zero_le_two _)

/-- An exponent suits a quotient: its mantissa there has at most 53 bits, and no fewer unless the exponent is
the least. -/
structure Suits (e : Int) (q : ℚ) : Prop where
  least : -1074 ≤ e
  below : q < mantissaEnd * 2 ^ e
  full : e = -1074 ∨ leastMantissa * 2 ^ e ≤ q

theorem suits_gridExponent (hnum : 0 < num) (hden : 0 < den) :
    Suits (gridExponent num den) (num / den) := by
  obtain ⟨hlow, hhigh⟩ := quotient_bounds hnum hden
  rw [gridExponent]
  generalize hguess : max ((num.log2 : Int) - den.log2 - 53) (-1074) = guess
  have htests : mantissaEnd ≤ num * denominatorScale guess / (den * numeratorScale guess) ↔
      (mantissaEnd : ℚ) * 2 ^ guess ≤ num / den := by
    rw [Nat.le_div_iff_mul_le (scaled_pos hden guess), scaled_le_iff hden]
  split_ifs with htest <;> rw [htests] at htest
  · refine ⟨by omega, hhigh.trans_le ?_, .inr ?_⟩
    · rw [mantissaEnd_eq, ← zpow_add₀ two_ne_zero]
      exact zpow_le_zpow_right₀ one_le_two (by omega)
    · rw [leastMantissa_eq, ← zpow_add₀ two_ne_zero]
      rwa [mantissaEnd_eq, ← zpow_add₀ two_ne_zero,
        show (53 : Int) + guess = 52 + (guess + 1) by omega] at htest
  · refine ⟨by omega, not_le.mp htest, ?_⟩
    by_cases hmin : guess = -1074
    · exact .inl hmin
    · refine .inr (le_trans ?_ hlow)
      rw [leastMantissa_eq, ← zpow_add₀ two_ne_zero]
      exact zpow_le_zpow_right₀ one_le_two (by omega)

/-- A mantissa of one bit more than 53 is the least one at the next exponent. -/
theorem mantissaEnd_mul (e : Int) : (mantissaEnd : ℚ) * 2 ^ e = leastMantissa * 2 ^ (e + 1) := by
  rw [zpow_add_one₀ two_ne_zero]
  norm_num
  ring

theorem Suits.mono {e e' : Int} {q q' : ℚ} (h : Suits e q) (h' : Suits e' q') (hq : q ≤ q') : e ≤ e' := by
  by_contra hlt
  have hfull := h.full.resolve_left fun heq => hlt (heq ▸ h'.least)
  have hpow : (2 : ℚ) ^ (e' + 1) ≤ 2 ^ e := zpow_le_zpow_right₀ one_le_two (by omega)
  rw [zpow_add_one₀ two_ne_zero] at hpow
  have hbelow := h'.below
  norm_num at hfull hbelow
  linarith

/-- The number that a quotient is rounded to, however large. -/
def rounded (num den : Nat) : ℚ :=
  roundQuotient (num * denominatorScale (gridExponent num den))
    (den * numeratorScale (gridExponent num den)) * 2 ^ gridExponent num den

theorem rounded_zero (den : Nat) : rounded 0 den = 0 := by
  simp [rounded, roundQuotient]

/-- The mantissa of the rounded number. -/
theorem roundQuotient_bounds (hnum : 0 < num) (hden : 0 < den) :
    let e := gridExponent num den
    let m := roundQuotient (num * denominatorScale e) (den * numeratorScale e)
    m ≤ mantissaEnd ∧ (e = -1074 ∨ leastMantissa ≤ m) := by
  intro e m
  have hsuits : Suits e (num / den) := suits_gridExponent hnum hden
  constructor
  · refine roundQuotient_le (scaled_pos hden e) (Nat.le_of_lt (Nat.lt_of_not_le fun hle => ?_))
    exact not_lt.mpr ((scaled_le_iff hden e _).mp hle) hsuits.below
  · exact hsuits.full.imp_right fun hfull =>
      le_roundQuotient (scaled_pos hden e) ((scaled_le_iff hden e _).mpr hfull)

/-- Rounding keeps the order of quotients. -/
theorem rounded_mono {num' den' : Nat} (hden : 0 < den) (hden' : 0 < den')
    (h : (num / den : ℚ) ≤ num' / den') : rounded num den ≤ rounded num' den' := by
  have hnonneg : 0 ≤ rounded num' den' :=
    mul_nonneg (Nat.cast_nonneg _) (zpow_nonneg zero_le_two _)
  rcases Nat.eq_zero_or_pos num with rfl | hnum
  · rwa [rounded_zero]
  have hnum' : 0 < num' := by
    refine Nat.pos_of_ne_zero fun hzero => ?_
    have hpos : (0 : ℚ) < num / den := div_pos (Nat.cast_pos.mpr hnum) (Nat.cast_pos.mpr hden)
    rw [hzero, Nat.cast_zero, zero_div] at h
    exact absurd h (not_le.mpr hpos)
  have hsuits := suits_gridExponent hnum hden
  have hsuits' := suits_gridExponent hnum' hden'
  have hpos : ∀ e : Int, (0 : ℚ) < 2 ^ e := zpow_pos two_pos
  rcases (hsuits.mono hsuits' h).lt_or_eq with hlt | heq
  · -- The smaller exponent's mantissas end where those of the greater begin.
    have hupper := (roundQuotient_bounds hnum hden).1
    have hlower := (roundQuotient_bounds hnum' hden').2.resolve_left fun heq =>
      absurd hsuits.least (by omega)
    have hpow : (2 : ℚ) ^ (gridExponent num den + 1) ≤ 2 ^ gridExponent num' den' :=
      zpow_le_zpow_right₀ one_le_two hlt
    calc rounded num den
        ≤ mantissaEnd * 2 ^ gridExponent num den :=
          mul_le_mul_of_nonneg_right (Nat.cast_le.mpr hupper) (hpos _).le
      _ = leastMantissa * 2 ^ (gridExponent num den + 1) := mantissaEnd_mul _
      _ ≤ leastMantissa * 2 ^ gridExponent num' den' :=
          mul_le_mul_of_nonneg_left hpow (Nat.cast_nonneg _)
      _ ≤ rounded num' den' := mul_le_mul_of_nonneg_right (Nat.cast_le.mpr hlower) (hpos _).le
  · rw [rounded, rounded, ← heq]
    refine mul_le_mul_of_nonneg_right (Nat.cast_le.mpr ?_) (hpos _).le
    refine roundQuotient_mono (scaled_pos hden _) (scaled_pos hden' _) ?_
    have hscaled := (div_le_div_iff_of_pos_right (hpos (gridExponent num den))).mpr h
    rw [← scaled_div, ← scaled_div, div_le_div_iff₀ (Nat.cast_pos.mpr (scaled_pos hden _))
      (Nat.cast_pos.mpr (scaled_pos hden' _))] at hscaled
    exact_mod_cast hscaled

/-- A quotient has a nearest double if it is not rounded to a number beyond all doubles. -/
theorem ofRatio_eq (num : Nat) (hden : 0 < den) :
    (rounded num den < 2 ^ (1024 : Int) ∧ ∃ x, ofRatio num den = some x ∧ x.size = rounded num den) ∨
      2 ^ (1024 : Int) ≤ rounded num den ∧ ofRatio num den = none := by
  rcases Nat.eq_zero_or_pos num with rfl | hnum
  · refine .inl ⟨?_, _, if_pos rfl, ?_⟩
    · rw [rounded_zero]
      exact zpow_pos two_pos _
    · rw [rounded_zero, zero, size]
      simp
  obtain ⟨hupper, hlower⟩ := roundQuotient_bounds hnum hden
  rw [ofRatio, if_neg (Nat.ne_of_gt hnum), rounded]
  dsimp only
  generalize gridExponent num den = e at hupper hlower ⊢
  generalize roundQuotient (num * denominatorScale e) (den * numeratorScale e) = m at hupper hlower ⊢
  have hpos : ∀ e : Int, (0 : ℚ) < 2 ^ e := zpow_pos two_pos
  have htop : (2 : ℚ) ^ (1024 : Int) = mantissaEnd * 2 ^ (971 : Int) := by
    rw [mantissaEnd_eq, ← zpow_add₀ two_ne_zero]
    rfl
  by_cases hend : m = mantissaEnd
  · have hvalue : (m : ℚ) * 2 ^ e = leastMantissa * 2 ^ (e + 1) := hend ▸ mantissaEnd_mul e
    rw [if_pos hend]
    dsimp only
    by_cases hle : e + 1 ≤ 971
    · refine .inl ⟨?_, _, if_pos hle, hvalue.symm⟩
      rw [htop, hend]
      exact mul_lt_mul_of_pos_left (zpow_lt_zpow_right₀ one_lt_two (by omega))
        (Nat.cast_pos.mpr (by decide))
    · refine .inr ⟨?_, if_neg hle⟩
      rw [htop, hend]
      exact mul_le_mul_of_nonneg_left (zpow_le_zpow_right₀ one_le_two (by omega)) (Nat.cast_nonneg _)
  · have hlt : (m : ℚ) < mantissaEnd := Nat.cast_lt.mpr (Nat.lt_of_le_of_ne hupper hend)
    rw [if_neg hend]
    dsimp only
    by_cases hle : e ≤ 971
    · refine .inl ⟨?_, _, if_pos hle, rfl⟩
      rw [htop]
      exact mul_lt_mul hlt (zpow_le_zpow_right₀ one_le_two hle) (hpos e) (Nat.cast_nonneg _)
    · refine .inr ⟨?_, if_neg hle⟩
      have hm : (leastMantissa : ℚ) ≤ m := Nat.cast_le.mpr (hlower.resolve_left (by omega))
      calc (2 : ℚ) ^ (1024 : Int) = leastMantissa * 2 ^ (972 : Int) := by
            rw [leastMantissa_eq, ← zpow_add₀ two_ne_zero]
            rfl
        _ ≤ m * 2 ^ e := mul_le_mul hm (zpow_le_zpow_right₀ one_le_two (by omega)) (hpos _).le
          (Nat.cast_nonneg _)

/-- What is not above a quotient that has a nearest double has one too, and it is not above that one. -/
theorem ofRatio_mono {num' den' : Nat} {y : Binary64} (hden : 0 < den) (hden' : 0 < den')
    (h : (num / den : ℚ) ≤ num' / den') (hy : ofRatio num' den' = some y) :
    ∃ x, ofRatio num den = some x ∧ x.size ≤ y.size := by
  have hmono := rounded_mono hden hden' h
  rcases ofRatio_eq num' hden' with ⟨htop, z, hz, hzsize⟩ | ⟨-, hnone⟩
  · cases hy.symm.trans hz
    rcases ofRatio_eq num hden with ⟨-, x, hx, hxsize⟩ | ⟨hbeyond, -⟩
    · exact ⟨x, hx, hxsize ▸ hzsize ▸ hmono⟩
    · exact absurd (hbeyond.trans hmono) (not_le.mpr htop)
  · cases hy.symm.trans hnone

end

theorem ofNat?_mono {m n : Nat} {y : Binary64} (h : m ≤ n) (hy : ofNat? n = some y) :
    ∃ x, ofNat? m = some x ∧ x.size ≤ y.size := by
  refine ofRatio_mono Nat.one_pos Nat.one_pos ?_ hy
  rw [Nat.cast_one, div_one, div_one]
  exact Nat.cast_le.mpr h

theorem mul_ratio (x y : Binary64) :
    ((x.mantissa * y.mantissa * numeratorScale (x.exponent + y.exponent) : Nat) : ℚ) /
      denominatorScale (x.exponent + y.exponent) = x.size * y.size := by
  push_cast
  rw [mul_div_assoc, numeratorScale_div, zpow_add₀ two_ne_zero, size, size]
  ring

theorem div_ratio (x y : Binary64) :
    ((x.mantissa * numeratorScale (x.exponent - y.exponent) : Nat) : ℚ) /
      (y.mantissa * denominatorScale (x.exponent - y.exponent) : Nat) = x.size / y.size := by
  push_cast
  rw [mul_div_mul_comm, numeratorScale_div, zpow_sub₀ two_ne_zero, size, size, div_mul_div_comm]

/-- A product has a nearest double if that of greater factors has one. -/
theorem mul?_mono {x x' y y' z : Binary64} (hx : x.size ≤ x'.size) (hy : y.size ≤ y'.size)
    (hz : x'.mul? y' = some z) : ∃ w, x.mul? y = some w := by
  have hratio : ((x.mantissa * y.mantissa * numeratorScale (x.exponent + y.exponent) : Nat) : ℚ) /
      denominatorScale (x.exponent + y.exponent) ≤
      ((x'.mantissa * y'.mantissa * numeratorScale (x'.exponent + y'.exponent) : Nat) : ℚ) /
        denominatorScale (x'.exponent + y'.exponent) := by
    rw [mul_ratio, mul_ratio]
    exact mul_le_mul hx hy y.size_nonneg x'.size_nonneg
  obtain ⟨w, hw, -⟩ := ofRatio_mono (denominatorScale_pos _) (denominatorScale_pos _) hratio hz
  exact ⟨w, hw⟩

end InventoryFeed.Binary64

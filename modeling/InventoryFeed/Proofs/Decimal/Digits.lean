import InventoryFeed.Decimal.Digits
import InventoryFeed.Proofs.Decimal.Binary64

/-!
# The size of a double's digits

The fewest digits that read back lie within half a binary place of the double.
-/

namespace InventoryFeed

namespace Decimal

/-- The number that a decimal stands for. -/
def toRat (d : Decimal) : ℚ := d.digits * 10 ^ d.exponent

/-- Zeros at the end stand for nothing but a greater exponent. -/
theorem strip_spec (fuel : Nat) (d : Decimal) :
    (strip fuel d).toRat = d.toRat ∧ d.exponent ≤ (strip fuel d).exponent := by
  induction fuel generalizing d with
  | zero => exact ⟨rfl, Int.le_refl _⟩
  | succ fuel ih =>
    rw [strip]
    split
    · rename_i hzero
      obtain ⟨hvalue, hle⟩ := ih ⟨d.digits / 10, d.exponent + 1⟩
      have hdigits : (d.digits : ℚ) = (d.digits / 10 : Nat) * 10 := by
        exact_mod_cast (Nat.div_mul_cancel (Nat.dvd_of_mod_eq_zero hzero.2)).symm
      refine ⟨?_, (Int.le_add_one (Int.le_refl _)).trans hle⟩
      rw [hvalue, toRat, toRat, hdigits, zpow_add_one₀ (by norm_num)]
      ring
    · exact ⟨rfl, Int.le_refl _⟩

end Decimal

namespace Binary64

/-- Half a binary place more than a double. -/
def upper (x : Binary64) : ℚ := (4 * x.mantissa + 2 : Nat) * 2 ^ (x.exponent - 2)

theorem upper_nonneg (x : Binary64) : 0 ≤ x.upper :=
  mul_nonneg (Nat.cast_nonneg _) (zpow_nonneg zero_le_two _)

theorem le_upper {x : Binary64} {k : Int} {d : Nat} (h : x.readsBack (x.gridAt k) d = true) :
    (Decimal.mk d k).toRat ≤ x.upper := by
  have hgrid : d * (denominatorScale (x.exponent - 2) * Nat.pow 10 k.toNat) ≤
      (4 * x.mantissa + 2) * (numeratorScale (x.exponent - 2) * Nat.pow 10 (-k).toNat) := by
    simp only [readsBack] at h
    split at h <;> simp only [Bool.and_eq_true, decide_eq_true_eq] at h
    · exact h.2
    · exact h.2.le
  have hscale : (0 : ℚ) < denominatorScale (x.exponent - 2) := Nat.cast_pos.mpr (denominatorScale_pos _)
  have hpower : (0 : ℚ) < (Nat.pow 10 (-k).toNat : Nat) := Nat.cast_pos.mpr (Nat.pow_pos (by decide))
  have hten : (10 : ℚ) ^ k = (Nat.pow 10 k.toNat : Nat) / (Nat.pow 10 (-k).toNat : Nat) :=
    (pow_div_pow (b := 10) (by decide) k).symm
  rw [Decimal.toRat, upper, ← numeratorScale_div, hten, mul_div_assoc', mul_div_assoc',
    div_le_div_iff₀ hpower hscale]
  have hcast : (d : ℚ) * (denominatorScale (x.exponent - 2) * (Nat.pow 10 k.toNat : Nat)) ≤
      (4 * x.mantissa + 2 : Nat) * (numeratorScale (x.exponent - 2) * (Nat.pow 10 (-k).toNat : Nat)) := by
    exact_mod_cast hgrid
  linarith

theorem gridPoint?_spec {x : Binary64} {k : Int} {d : Decimal} (h : x.gridPoint? k = some d) :
    d.toRat ≤ x.upper ∧ d.exponent = k := by
  simp only [gridPoint?] at h
  split at h
  · cases h
    exact ⟨le_upper ‹_›, rfl⟩
  split at h
  · cases h
    exact ⟨le_upper ‹_›, rfl⟩
  split at h
  · cases h
    exact ⟨le_upper ‹_›, rfl⟩
  · cases h

theorem le_decimalPoint {x : Binary64} (h : -1074 ≤ x.exponent) : -325 ≤ x.decimalPoint := by
  rw [decimalPoint]
  generalize hguess : ((x.mantissa.log2 : Int) + x.exponent) * 1233 / 4096 - 1 = guess
  have hle : -325 ≤ guess := by omega
  cases hfind : ((List.range 5).map fun i : Nat => guess + i).find? x.belowPower with
  | none => exact hle
  | some p =>
    obtain ⟨i, -, rfl⟩ := List.mem_map.mp (List.mem_of_find?_eq_some hfind)
    exact hle.trans (Int.le_add_of_nonneg_right (Int.natCast_nonneg i))

/-- The digits of a double stand for at most half a binary place more than it. -/
theorem shortest_spec {x : Binary64} (h : -1074 ≤ x.exponent) :
    x.shortest.toRat ≤ x.upper ∧ -342 ≤ x.shortest.exponent := by
  have hnone : (Decimal.mk 0 0).toRat ≤ x.upper := by
    rw [Decimal.toRat, Nat.cast_zero, zero_mul]
    exact x.upper_nonneg
  rw [shortest]
  split
  · exact ⟨hnone, by decide⟩
  dsimp only
  generalize hpoints : (List.range 17).findSome? (fun n => x.gridPoint? (x.decimalPoint - (n + 1 : Nat))) =
    found
  obtain ⟨hvalue, hexponent⟩ := Decimal.strip_spec 20 (found.getD ⟨0, 0⟩)
  rw [Decimal.normalize, hvalue]
  cases found with
  | none => exact ⟨hnone, le_trans (by decide) hexponent⟩
  | some d =>
    obtain ⟨n, hn, hpoint⟩ := List.exists_of_findSome?_eq_some hpoints
    obtain ⟨hle, hk⟩ := gridPoint?_spec hpoint
    refine ⟨hle, le_trans ?_ hexponent⟩
    rw [Option.getD_some, hk]
    have hrange := List.mem_range.mp hn
    have hdecimal := le_decimalPoint h
    omega

end Binary64

end InventoryFeed

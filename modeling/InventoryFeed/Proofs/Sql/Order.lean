import InventoryFeed.Proofs.Decimal.Binary64
import InventoryFeed.Sql.Evaluate
import InventoryFeed.Sql.Order
import Mathlib.Algebra.Order.Field.Basic
import Mathlib.Algebra.Order.Field.Power
import Mathlib.Data.List.Induction
import Mathlib.Data.Prod.Lex
import Mathlib.Data.Rat.Cast.Order
import Mathlib.Order.Compare

/-!
# The order of values

Values are ordered by their kind and within it by the number that they stand for or by their text, so their
order is total and transitive, and so is the order by several keys. The value that is kept as rows of one id
are merged is the extreme one.
-/

namespace InventoryFeed

namespace Binary64

/-- The number that a double stands for. -/
def toRat (x : Binary64) : ℚ := x.signedMantissa * 2 ^ x.exponent

/-- Scaled integers compare as the numbers that they stand for. -/
theorem compareScaled_eq (a p b q : Int) :
    compareScaled a p b q = Ord.compare ((a : ℚ) * 2 ^ p) (b * 2 ^ q) := by
  have hscale : ∀ {e : Int}, min p q ≤ e →
      (2 : ℚ) ^ e = numeratorScale (e - min p q) * 2 ^ min p q := by
    intro e he
    rw [numeratorScale_eq (by omega), ← zpow_add₀ two_ne_zero, Int.sub_add_cancel]
  have hpos : (0 : ℚ) < 2 ^ min p q := zpow_pos two_pos _
  have hmono : StrictMono fun n : Int => (n : ℚ) * 2 ^ min p q := fun m n hlt =>
    mul_lt_mul_of_pos_right (Int.cast_lt.mpr hlt) hpos
  rw [hscale (Int.min_le_left p q), hscale (Int.min_le_right p q), ← mul_assoc, ← mul_assoc]
  have hmap := hmono.cmp_map_eq (a * numeratorScale (p - min p q)) (b * numeratorScale (q - min p q))
  rw [cmp_eq_compare, cmp_eq_compare] at hmap
  push_cast at hmap
  exact hmap.symm

theorem compareInt_eq (x : Binary64) (n : Int) : x.compareInt n = Ord.compare x.toRat n := by
  rw [compareInt, compareScaled_eq, zpow_zero, mul_one, toRat]

end Binary64

namespace Sql

namespace Value

/-- The place of a value in the order of values: its kind, then its number or its text. -/
def rank : Value → ℕ ×ₗ ℚ ×ₗ String
  | null => toLex (0, toLex (0, ""))
  | integer n => toLex (1, toLex ((n : ℚ), ""))
  | real x => toLex (1, toLex (x.toRat, ""))
  | text s => toLex (2, toLex (0, s))

theorem compare_kinds {i j : ℕ} (x y : ℚ ×ₗ String) (h : i < j) :
    Ord.compare (toLex (i, x)) (toLex (j, y)) = .lt ∧
      Ord.compare (toLex (j, y)) (toLex (i, x)) = .gt := by
  have hlt : Ord.compare (toLex (i, x)) (toLex (j, y)) = .lt := by
    rw [Prod.Lex.compare_def, compareLex, Ordering.then_eq_lt]
    exact .inl (Nat.compare_eq_lt.mpr h)
  exact ⟨hlt, Std.OrientedCmp.gt_iff_lt.mpr hlt⟩

theorem compare_numbers (x y : ℚ) :
    Ord.compare (toLex (1, toLex (x, "")) : ℕ ×ₗ ℚ ×ₗ String) (toLex (1, toLex (y, ""))) =
      Ord.compare x y := by
  simp [Prod.Lex.compare_def, compareLex, compareOn]

theorem compare_eq_rank (a b : Value) : a.compare b = Ord.compare a.rank b.rank := by
  have hlow : (0 : ℕ) < 1 := Nat.one_pos
  have hhigh : (1 : ℕ) < 2 := Nat.one_lt_two
  have hboth : (0 : ℕ) < 2 := Nat.two_pos
  have hcast : ∀ m n : Int, Ord.compare m n = Ord.compare (m : ℚ) (n : ℚ) := by
    intro m n
    rw [← cmp_eq_compare, ← cmp_eq_compare]
    exact (Int.cast_strictMono.cmp_map_eq m n).symm
  cases a with
  | null =>
    cases b with
    | null => exact Std.ReflCmp.compare_self.symm
    | integer n => exact (compare_kinds _ _ hlow).1.symm
    | real y => exact (compare_kinds _ _ hlow).1.symm
    | text t => exact (compare_kinds _ _ hboth).1.symm
  | integer m =>
    cases b with
    | null => exact (compare_kinds _ _ hlow).2.symm
    | integer n => rw [rank, rank, compare_numbers, ← hcast, compare]
    | real y =>
      rw [rank, rank, compare_numbers, compare, y.compareInt_eq, ← Std.OrientedCmp.eq_swap]
    | text t => exact (compare_kinds _ _ hhigh).1.symm
  | real x =>
    cases b with
    | null => exact (compare_kinds _ _ hlow).2.symm
    | integer n => rw [rank, rank, compare_numbers, compare, x.compareInt_eq]
    | real y =>
      rw [rank, rank, compare_numbers, compare, Binary64.compare, Binary64.compareScaled_eq]
      rfl
    | text t => exact (compare_kinds _ _ hhigh).1.symm
  | text s =>
    cases b with
    | null => exact (compare_kinds _ _ hboth).2.symm
    | integer n => exact (compare_kinds _ _ hhigh).2.symm
    | real y => exact (compare_kinds _ _ hhigh).2.symm
    | text t => simp [rank, compare, Prod.Lex.compare_def, compareLex, compareOn]

/-- The order of values is total and transitive. -/
instance : Std.TransCmp Value.compare where
  eq_swap := by
    intro a b
    rw [compare_eq_rank, compare_eq_rank]
    exact Std.OrientedCmp.eq_swap
  isLE_trans := by
    intro a b c hab hbc
    rw [compare_eq_rank] at hab hbc ⊢
    exact Std.TransCmp.isLE_trans hab hbc

@[simp] theorem compare_self (a : Value) : a.compare a = .eq := Std.ReflCmp.compare_self

instance (descending : Bool) : Std.TransCmp (directed descending) := by
  cases descending with
  | false => exact inferInstanceAs (Std.TransCmp Value.compare)
  | true =>
    have hswap : directed true = fun a b => Value.compare b a := by
      funext a b
      exact Std.OrientedCmp.eq_swap.symm
    rw [hswap]
    infer_instance

@[simp] theorem directed_self (descending : Bool) (v : Value) : directed descending v v = .eq :=
  Std.ReflCmp.compare_self

/-- The value that is kept of several as their rows are merged one after the other. -/
def best (descending : Bool) (values : List Value) : Value :=
  values.foldl (fun kept v => (better descending kept v).1) .null

theorem best_concat (descending : Bool) (values : List Value) (v : Value) :
    best descending (values ++ [v]) = (better descending (best descending values) v).1 := by
  rw [best, List.foldl_append]
  rfl

theorem better_fst (descending : Bool) (kept v : Value) :
    (better descending kept v).1 =
      if kept = .null ∨ (v ≠ .null ∧ directed descending v kept = .lt) then v else kept := by
  cases descending <;> cases kept <;> cases v <;> simp [better, directed, apply_ite Prod.fst]

/-- The value that is kept is the extreme one, whichever value comes next. -/
theorem Extreme.better {descending : Bool} {among : Value → Prop} {kept : Value}
    (h : Extreme descending among kept) (v : Value) :
    Extreme descending (fun w => among w ∨ w = v) (better descending kept v).1 := by
  rw [better_fst]
  split
  · rename_i hbetter
    refine ⟨.inr rfl, fun w hw hnull => ?_⟩
    rcases hw with hw | rfl
    · obtain ⟨hkept, hfirst⟩ := h.first w hw hnull
      obtain ⟨hv, hlt⟩ := hbetter.resolve_left hkept
      exact ⟨hv, Ordering.ne_gt_iff_isLE.mpr (Std.TransCmp.isLE_trans (hlt ▸ rfl)
        (Ordering.ne_gt_iff_isLE.mp hfirst))⟩
    · exact ⟨hnull, by simp⟩
  · rename_i hworse
    obtain ⟨hkept, hnot⟩ := not_or.mp hworse
    refine ⟨.inl h.mem, fun w hw hnull => ?_⟩
    rcases hw with hw | rfl
    · exact h.first w hw hnull
    · refine ⟨hkept, fun hgt => hnot ⟨hnull, ?_⟩⟩
      exact Std.OrientedCmp.gt_iff_lt.mp hgt

end Value

end Sql

end InventoryFeed

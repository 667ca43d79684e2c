import InventoryFeed.Text.Ascii
import Mathlib.Data.List.TakeWhile
import Mathlib.Tactic.Common

/-!
# Digits of numbers in a text

The decimal digits of a number read back as the number, and a run of characters of one kind is cut off
where a character of another kind follows.
-/

namespace InventoryFeed

/-- What follows a run of characters of a kind is not of that kind. -/
def EndsRun (kind : Char → Bool) (rest : List Char) : Prop := ∀ c ∈ rest.head?, kind c = false

theorem endsRun_nil (kind : Char → Bool) : EndsRun kind [] := nofun

theorem endsRun_cons {kind : Char → Bool} {c : Char} (rest : List Char) (h : kind c = false) :
    EndsRun kind (c :: rest) := by
  simpa [EndsRun] using h

theorem takeWhile_run {kind : Char → Bool} {run rest : List Char} (hrun : ∀ c ∈ run, kind c)
    (hrest : EndsRun kind rest) : (run ++ rest).takeWhile kind = run := by
  rw [List.takeWhile_append_of_pos hrun]
  cases rest with
  | nil => simp
  | cons c rest => simp [hrest c rfl]

theorem dropWhile_run {kind : Char → Bool} {run rest : List Char} (hrun : ∀ c ∈ run, kind c)
    (hrest : EndsRun kind rest) : (run ++ rest).dropWhile kind = rest := by
  rw [List.dropWhile_append_of_pos hrun]
  cases rest with
  | nil => rfl
  | cons c rest => simp [hrest c rfl]

namespace Ascii

theorem isDigit_of_mem_toDigits {n : Nat} {c : Char} (h : c ∈ Nat.toDigits 10 n) :
    isDigit c = true :=
  Nat.isDigit_of_mem_toDigits (by decide) (by decide) h

theorem isDigit_of_isLetter {c : Char} (h : isLetter c = true) : isDigit c = false := by
  simp only [isLetter, isDigit, Bool.or_eq_true, Bool.and_eq_true, decide_eq_true_eq,
    Bool.and_eq_false_iff, decide_eq_false_iff_not, Char.le_def, UInt32.le_iff_toNat_le] at h ⊢
  change 97 ≤ _ ∧ _ ≤ 122 ∨ 65 ≤ _ ∧ _ ≤ 90 at h
  change ¬48 ≤ _ ∨ ¬_ ≤ 57
  omega

theorem hexValue_of_isDigit {c : Char} (h : isDigit c = true) :
    hexValue? c = some (c.toNat - '0'.toNat) := by
  simp only [isDigit, Bool.and_eq_true, decide_eq_true_eq] at h
  rw [hexValue?, if_pos h]
  rfl

/-- Decimal digits stand for the number that core reads. -/
theorem ofDigits_eq_ofDigitChars {digits : List Char} (h : ∀ c ∈ digits, isDigit c = true) :
    ofDigits 10 digits = Nat.ofDigitChars 10 digits 0 := by
  suffices hfrom : ∀ start, digits.foldl (fun n c => n * 10 + (hexValue? c).getD 0) start =
      Nat.ofDigitChars 10 digits start from hfrom 0
  intro start
  induction digits generalizing start with
  | nil => rfl
  | cons c rest ih =>
    have hc := hexValue_of_isDigit (h c (.head _))
    rw [List.foldl_cons, ih fun d hd => h d (.tail _ hd), Nat.ofDigitChars_cons, hc,
      Option.getD_some, Nat.mul_comm]

/-- The digits of a number stand for it. -/
theorem ofDigits_toDigits (n : Nat) : ofDigits 10 (Nat.toDigits 10 n) = n := by
  rw [ofDigits_eq_ofDigitChars fun _ => isDigit_of_mem_toDigits, Nat.ofDigitChars_ten_toDigits]

end Ascii

end InventoryFeed

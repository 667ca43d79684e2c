import InventoryFeed.Text.Ascii

/-!
# Letters, digits and identifiers as they are told

The characters that a plain name may hold and the form of a plain identifier, told by ranges. The checks of
`Text.Ascii` decide just these.
-/

namespace InventoryFeed.Ascii

/-- A letter from `A` to `Z` or from `a` to `z`. -/
def Letter (c : Char) : Prop := ('A' ≤ c ∧ c ≤ 'Z') ∨ ('a' ≤ c ∧ c ≤ 'z')

/-- A letter, a digit from `0` to `9`, or the underscore. -/
def WordChar (c : Char) : Prop := Letter c ∨ ('0' ≤ c ∧ c ≤ '9') ∨ c = '_'

/-- A letter or the underscore, then letters, digits and underscores. -/
def Identifier (name : String) : Prop :=
  ∃ first rest, name.toList = first :: rest ∧ (Letter first ∨ first = '_') ∧ ∀ c ∈ rest, WordChar c

theorem isLetter_iff {c : Char} : isLetter c = true ↔ Letter c := by
  simp only [isLetter, Letter, Bool.or_eq_true, Bool.and_eq_true, decide_eq_true_eq]
  exact or_comm

theorem isWord_iff {c : Char} : isWord c = true ↔ WordChar c := by
  simp only [isWord, WordChar, isDigit, Bool.or_eq_true, Bool.and_eq_true, decide_eq_true_eq,
    isLetter_iff, beq_iff_eq, or_assoc]

theorem isIdentifier_iff {name : String} : isIdentifier name = true ↔ Identifier name := by
  unfold isIdentifier Identifier
  cases name.toList with
  | nil => simp
  | cons first rest =>
    simp only [Bool.and_eq_true, Bool.or_eq_true, isLetter_iff, beq_iff_eq, List.all_eq_true, isWord_iff,
      List.cons.injEq]
    constructor
    · rintro ⟨hfirst, hrest⟩
      exact ⟨first, rest, ⟨rfl, rfl⟩, hfirst, hrest⟩
    · rintro ⟨first', rest', ⟨rfl, rfl⟩, hfirst, hrest⟩
      exact ⟨hfirst, hrest⟩

end InventoryFeed.Ascii

import InventoryFeed.Json.Scalar

/-!
# Strings read back

A string that is written between quotes is read up to its closing quote, and its characters are those
that were written.
-/

namespace InventoryFeed.Json

theorem isHexDigit_hexDigit : ∀ n < 16, isHexDigit (hexDigit n) = true := by decide

theorem hexUnit_control :
    ∀ n < 0x20, hexUnit '0' '0' (hexDigit (n / 16)) (hexDigit (n % 16)) = n := by
  decide

/-- The three ways in which a character is written: behind a backslash, by its number, or as it is. -/
theorem escape_cases (c : Char) :
    (∃ e, escape c = ['\\', e] ∧ isSimpleEscape e = true ∧ escapedChar e = c) ∨
      (c.toNat < 0x20 ∧
        escape c = ['\\', 'u', '0', '0', hexDigit (c.toNat / 16), hexDigit (c.toNat % 16)]) ∨
      (c ≠ '"' ∧ c ≠ '\\' ∧ ¬c.toNat < 0x20 ∧ escape c = [c]) := by
  unfold escape
  iterate 7
    split
    · subst_vars
      exact .inl ⟨_, rfl, rfl, rfl⟩
  rename_i hquote hslash _ _ _ _ _
  split
  · rename_i hcontrol
    exact .inr (.inl ⟨hcontrol, rfl⟩)
  · rename_i hprinted
    exact .inr (.inr ⟨hquote, hslash, hprinted, rfl⟩)

theorem readString_escape (c : Char) (rest : List Char) :
    readString (escape c ++ rest) =
      (readString rest).map fun (raw, rest) => (escape c ++ raw, rest) := by
  obtain ⟨e, hescape, hsimple, -⟩ | ⟨hcontrol, hescape⟩ | ⟨hquote, hslash, hprinted, hescape⟩ :=
    escape_cases c
  all_goals rw [hescape]
  · change readString ('\\' :: e :: rest) = _
    rw [readString]
    · rw [if_pos hsimple]
      rfl
    · rintro a b d f rest' rfl -
      cases hsimple
  · have hhigh := isHexDigit_hexDigit (c.toNat / 16) (by omega)
    have hlow := isHexDigit_hexDigit (c.toNat % 16) (by omega)
    have hzero : isHexDigit '0' = true := rfl
    change readString ('\\' :: 'u' :: '0' :: '0' :: _ :: _ :: rest) = _
    rw [readString, hzero, hhigh, hlow]
    rfl
  · change readString (c :: rest) = _
    rw [readString]
    · rw [if_neg (by simp [hslash, hprinted])]
      rfl
    · exact hquote
    · intro a b d e rest' h
      exact absurd h hslash
    · intro e rest' h
      exact absurd h hslash

/-- A written string is read up to its closing quote. -/
theorem readString_escapeAll (cs rest : List Char) :
    readString (escapeAll cs ++ '"' :: rest) = some (escapeAll cs, rest) := by
  induction cs with
  | nil => rfl
  | cons c cs ih =>
    have hsplit : escapeAll (c :: cs) = escape c ++ escapeAll cs := List.flatMap_cons
    rw [hsplit, List.append_assoc, readString_escape, ih]
    rfl

theorem unescape_escape (c : Char) (rest : List Char) :
    unescape (escape c ++ rest) = (unescape rest).map (c :: ·) := by
  obtain ⟨e, hescape, hsimple, hmeant⟩ | ⟨hcontrol, hescape⟩ | ⟨-, hslash, -, hescape⟩ :=
    escape_cases c
  all_goals rw [hescape]
  · change unescape ('\\' :: e :: rest) = _
    rw [unescape, hmeant]
    rintro a b d f rest' rfl -
    cases hsimple
  · have hunit := hexUnit_control c.toNat hcontrol
    have hlow : isLowSurrogate c.toNat = false := by simp [isLowSurrogate]; omega
    have hhigh : isHighSurrogate c.toNat = false := by simp [isHighSurrogate]; omega
    change unescape ('\\' :: 'u' :: '0' :: '0' :: _ :: _ :: rest) = _
    rw [unescape.eq_def]
    simp only [hunit, hlow, hhigh, Char.ofNat_toNat, Bool.false_eq_true, if_false]
  · change unescape (c :: rest) = _
    rw [unescape]
    · intro a b d e rest' h
      exact absurd h hslash
    · intro e rest' h
      exact absurd h hslash

/-- The characters of a written string are those that were written. -/
theorem unescape_escapeAll (cs : List Char) : unescape (escapeAll cs) = some cs := by
  induction cs with
  | nil => rfl
  | cons c cs ih =>
    have hsplit : escapeAll (c :: cs) = escape c ++ escapeAll cs := List.flatMap_cons
    rw [hsplit, unescape_escape, ih]
    rfl

end InventoryFeed.Json

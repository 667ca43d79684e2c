import InventoryFeed.Proofs.Json.RoundTrip

/-!
# No control characters in what is written

The characters of a string below the blank are written as escapes, and nothing else that is written has one.
So a document takes up one line of a text, whatever characters are in its strings and keys.
-/

namespace InventoryFeed.Json

/-- No character lies below the blank. -/
def Printed (cs : List Char) : Prop := ∀ c ∈ cs, 0x20 ≤ c.toNat

namespace Printed

variable {cs ds : List Char} {c : Char}

theorem nil : Printed [] := List.forall_mem_nil _

theorem cons (hc : 0x20 ≤ c.toNat) (h : Printed cs) : Printed (c :: cs) :=
  List.forall_mem_cons.mpr ⟨hc, h⟩

theorem append (hcs : Printed cs) (hds : Printed ds) : Printed (cs ++ ds) :=
  List.forall_mem_append.mpr ⟨hcs, hds⟩

/-- Printed characters between two others. -/
theorem between {opening closing : Char} (hopening : 0x20 ≤ opening.toNat)
    (hclosing : 0x20 ≤ closing.toNat) (h : Printed cs) : Printed (opening :: (cs ++ [closing])) :=
  cons hopening (h.append (cons hclosing nil))

/-- Characters that are checked one by one. -/
theorem of_all (h : (cs.all fun c => 0x20 ≤ c.toNat) = true) : Printed cs := by
  intro c hc
  exact of_decide_eq_true (List.all_eq_true.mp h c hc)

theorem newline_not_mem (h : Printed cs) : '\n' ∉ cs := by
  intro hmem
  exact absurd (h '\n' hmem) (by decide)

end Printed

theorem printed_of_isDigit {cs : List Char} (h : ∀ c ∈ cs, isDigit c = true) : Printed cs := by
  intro c hc
  have hdigit := h c hc
  simp only [isDigit, Bool.and_eq_true, decide_eq_true_eq] at hdigit
  have hlow : '0'.toNat ≤ c.toNat := hdigit.1
  exact Nat.le_trans (by decide) hlow

theorem printed_numeral {n : Numeral} (h : n.WellFormed) : Printed n.compact := by
  unfold Numeral.compact
  refine (((?_ : Printed _).append (printed_of_isDigit h.whole)).append ?_).append ?_
  · split
    · exact .cons (by decide) .nil
    · exact .nil
  · split
    · exact .nil
    · exact .cons (by decide) (printed_of_isDigit h.fraction)
  · split
    · rename_i e hexponent
      have he := h.exponent e (Option.mem_def.mpr hexponent)
      have hsign : Printed e.sign.toList := by
        intro c hc
        rcases he.sign c (Option.mem_toList.mp hc) with rfl | rfl <;> decide
      refine .cons ?_ (hsign.append (printed_of_isDigit he.digits))
      rcases he.mark with hmark | hmark <;> rw [hmark] <;> decide
    · exact .nil

theorem printed_hexDigit : ∀ n < 16, 0x20 ≤ (hexDigit n).toNat := by decide

theorem printed_simpleEscape {e : Char} (h : isSimpleEscape e = true) : 0x20 ≤ e.toNat := by
  simp only [isSimpleEscape, Bool.or_eq_true, beq_iff_eq] at h
  rcases h with ((((((rfl | rfl) | rfl) | rfl) | rfl) | rfl) | rfl) | rfl <;> decide

/-- Whatever a character is, it is written without control characters. -/
theorem printed_escape (c : Char) : Printed (escape c) := by
  obtain ⟨e, hescape, hsimple, -⟩ | ⟨hcontrol, hescape⟩ | ⟨-, -, hprinted, hescape⟩ := escape_cases c
  all_goals rw [hescape]
  · exact .cons (by decide) (.cons (printed_simpleEscape hsimple) .nil)
  · have hhigh := printed_hexDigit (c.toNat / 16) (by omega)
    have hlow := printed_hexDigit (c.toNat % 16) (by omega)
    have hnumber : Printed [hexDigit (c.toNat / 16), hexDigit (c.toNat % 16)] :=
      .cons hhigh (.cons hlow .nil)
    have hmark : Printed ['\\', 'u', '0', '0'] := .of_all rfl
    exact hmark.append hnumber
  · exact .cons (Nat.le_of_not_lt hprinted) .nil

theorem printed_writeString (s : String) : Printed (writeString s) := by
  have hchars : Printed (escapeAll s.toList) := by
    intro c hc
    obtain ⟨d, -, hd⟩ := List.mem_flatMap.mp hc
    exact printed_escape d c hd
  exact hchars.between (by decide) (by decide)

theorem printed_writeInt (n : Int) : Printed (writeInt n) := by
  rw [← compact_numeralOf]
  exact printed_numeral (wellFormed_numeralOf n)

theorem printed_writeReal (x : Binary64) : Printed (writeReal x) := by
  rw [writeReal_eq]
  exact printed_numeral (wellFormed_numeralOfDecimal _ _)

mutual

/-- The text of a document has no control characters. -/
theorem printed_write (d : Document) : Printed d.write := by
  match d with
  | .null => exact .of_all rfl
  | .bool true => exact .of_all rfl
  | .bool false => exact .of_all rfl
  | .int n => exact printed_writeInt n
  | .real x => exact printed_writeReal x
  | .text s => exact printed_writeString s
  | .array items => exact (printed_writeItems items).between (by decide) (by decide)
  | .object members => exact (printed_writeMembers members).between (by decide) (by decide)

theorem printed_writeItems (items : List Document) : Printed (Document.writeItems items) := by
  match items with
  | [] => exact .nil
  | item :: rest =>
    rw [Document.writeItems_cons]
    refine (printed_write item).append ?_
    split
    · exact .nil
    · exact .cons (by decide) (printed_writeItems rest)

theorem printed_writeMembers (members : List (String × Document)) :
    Printed (Document.writeMembers members) := by
  match members with
  | [] => exact .nil
  | (key, value) :: rest =>
    rw [Document.writeMembers_cons]
    refine ((printed_writeString key).append (.cons (by decide) (printed_write value))).append ?_
    split
    · exact .nil
    · exact .cons (by decide) (printed_writeMembers rest)

end

end InventoryFeed.Json

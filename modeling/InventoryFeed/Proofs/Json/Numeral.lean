import InventoryFeed.Json.Scalar
import InventoryFeed.Proofs.Text.Digits

/-!
# Numbers read back

A number whose parts are digits, the first of them no zero unless it stands alone, is read as far as it goes.
Integers and doubles are written as such numbers, and an integer of 64 bits stands for itself.
-/

namespace InventoryFeed.Json

theorem head_toDigits {n : Nat} (h : 0 < n) : ∀ c ∈ (Nat.toDigits 10 n).head?, c ≠ '0' := by
  have hdigit : ∀ n < 10, 0 < n → n.digitChar ≠ '0' := by decide
  induction n using Nat.strongRecOn with
  | ind n ih =>
    by_cases hn : n < 10
    · rw [Nat.toDigits_of_lt_base hn]
      rintro c ⟨⟩
      exact hdigit n hn h
    · intro c hc
      rw [Nat.toDigits_of_base_le (by decide) (by omega), List.head?_append,
        List.head?_eq_some_head Nat.toDigits_ne_nil, Option.some_or] at hc
      refine ih (n / 10) (by omega) (by omega) c ?_
      rwa [List.head?_eq_some_head Nat.toDigits_ne_nil]

/-- Nothing at the front of what follows a number belongs to the number. -/
def EndsNumber (rest : List Char) : Prop :=
  ∀ c ∈ rest.head?, isDigit c = false ∧ c ≠ '.' ∧ c ≠ 'e' ∧ c ≠ 'E'

theorem endsNumber_cons {c : Char} (rest : List Char)
    (h : isDigit c = false ∧ c ≠ '.' ∧ c ≠ 'e' ∧ c ≠ 'E') : EndsNumber (c :: rest) := by
  rintro _ ⟨⟩
  exact h

/-- The parts of an exponent are as they can be read. -/
structure Exponent.WellFormed (e : Exponent) : Prop where
  mark : e.mark = 'e' ∨ e.mark = 'E'
  sign : ∀ c ∈ e.sign, c = '+' ∨ c = '-'
  some_digit : e.digits ≠ []
  digits : ∀ c ∈ e.digits, isDigit c = true

/-- The parts of a number are as they can be read. -/
structure Numeral.WellFormed (n : Numeral) : Prop where
  some_digit : n.whole ≠ []
  whole : ∀ c ∈ n.whole, isDigit c = true
  leading : n.whole.head? = some '0' → n.whole = ['0']
  fraction : ∀ c ∈ n.fraction, isDigit c = true
  exponent : ∀ e ∈ n.exponent, e.WellFormed

theorem readDigits_append {digits rest : List Char} (hne : digits ≠ [])
    (hdigits : ∀ c ∈ digits, isDigit c = true) (hrest : EndsRun isDigit rest) :
    readDigits (digits ++ rest) = some (digits, rest) := by
  rw [readDigits, takeWhile_run hdigits hrest, dropWhile_run hdigits hrest]
  simp [hne]

theorem readWhole_append {digits rest : List Char} (hne : digits ≠ [])
    (hdigits : ∀ c ∈ digits, isDigit c = true) (hleading : digits.head? = some '0' → digits = ['0'])
    (hrest : EndsRun isDigit rest) : readWhole (digits ++ rest) = some (digits, rest) := by
  rw [readWhole, readDigits_append hne hdigits hrest]
  split
  · rename_i next more rest' heq
    obtain ⟨rfl, -⟩ := Prod.mk.inj (Option.some.inj heq)
    cases hleading rfl
  · rfl

theorem readFraction_append {digits rest : List Char} (hdigits : ∀ c ∈ digits, isDigit c = true)
    (hrest : EndsRun isDigit rest) (hpoint : ∀ c ∈ rest.head?, c ≠ '.') :
    readFraction ((if digits.isEmpty then [] else '.' :: digits) ++ rest) = some (digits, rest) := by
  cases digits with
  | nil =>
    change readFraction rest = _
    unfold readFraction
    split
    · exact absurd rfl (hpoint '.' rfl)
    · rfl
  | cons c digits => exact readDigits_append (List.cons_ne_nil _ _) hdigits hrest

theorem readExponent_compact {e : Exponent} (h : e.WellFormed) {rest : List Char}
    (hrest : EndsRun isDigit rest) : readExponent (e.compact ++ rest) = some (some e, rest) := by
  obtain ⟨mark, sign, digits⟩ := e
  have hread := readDigits_append h.some_digit h.digits hrest
  have hmark : (mark == 'e' || mark == 'E') = true := by
    rcases h.mark with hmark | hmark <;> simp [show mark = _ from hmark]
  dsimp only at hread
  cases sign with
  | some c =>
    have hsign : (c == '+' || c == '-') = true := by
      rcases h.sign c rfl with rfl | rfl <;> rfl
    change readExponent (mark :: c :: (digits ++ rest)) = _
    rw [readExponent, if_pos hmark, if_pos hsign, hread]
    rfl
  | none =>
    obtain ⟨c, more, hdigits⟩ := List.exists_cons_of_ne_nil h.some_digit
    have hc : isDigit c = true := h.digits c (by simp [show digits = _ from hdigits])
    have hsign : (c == '+' || c == '-') = false := by
      simp only [Bool.or_eq_false_iff, beq_eq_false_iff_ne]
      constructor <;> rintro rfl <;> cases hc
    change readExponent (mark :: (digits ++ rest)) = _
    rw [show digits = _ from hdigits] at hread ⊢
    rw [List.cons_append] at hread ⊢
    rw [readExponent, if_pos hmark]
    simp only [hsign, Bool.false_eq_true, if_false, hread]
    rfl

theorem readExponent_none {rest : List Char} (h : EndsNumber rest) :
    readExponent rest = some (none, rest) := by
  cases rest with
  | nil => rfl
  | cons c rest =>
    obtain ⟨-, -, he, hE⟩ := h c rfl
    simp [readExponent, he, hE]

theorem readMagnitude_append {n : Numeral} (h : n.WellFormed) {after rest : List Char}
    (hexponent : readExponent after = some (n.exponent, rest)) (hdigit : EndsRun isDigit after)
    (hpoint : ∀ c ∈ after.head?, c ≠ '.') :
    readMagnitude n.negative
      (n.whole ++ ((if n.fraction.isEmpty then [] else '.' :: n.fraction) ++ after)) =
        some (n, rest) := by
  have hfraction := readFraction_append h.fraction hdigit hpoint
  have hends : EndsRun isDigit ((if n.fraction.isEmpty then [] else '.' :: n.fraction) ++ after) := by
    split
    · exact hdigit
    · exact endsRun_cons _ rfl
  have hwhole := readWhole_append h.some_digit h.whole h.leading hends
  simp only [readMagnitude, hwhole, hfraction, hexponent, Option.bind_eq_bind, Option.bind_some,
    Option.pure_def]

theorem readMagnitude_compact {n : Numeral} (h : n.WellFormed) {rest : List Char}
    (hrest : EndsNumber rest) :
    readMagnitude n.negative
      ((n.whole ++ (if n.fraction.isEmpty then [] else '.' :: n.fraction) ++
        (n.exponent.map Exponent.compact).getD []) ++ rest) = some (n, rest) := by
  rw [List.append_assoc, List.append_assoc]
  cases hexponent : n.exponent with
  | none =>
    refine readMagnitude_append h ?_ (fun c hc => (hrest c hc).1) fun c hc => (hrest c hc).2.1
    rw [hexponent]
    exact readExponent_none hrest
  | some e =>
    have he := h.exponent e hexponent
    refine readMagnitude_append h ?_ ?_ ?_
    · rw [hexponent]
      exact readExponent_compact he fun c hc => (hrest c hc).1
    all_goals
      rintro c ⟨⟩
      rcases he.mark with hmark | hmark <;> rw [hmark] <;> decide

/-- A number is read as far as it goes. -/
theorem readNumeral_compact {n : Numeral} (h : n.WellFormed) {rest : List Char}
    (hrest : EndsNumber rest) : readNumeral (n.compact ++ rest) = some (n, rest) := by
  have hread := readMagnitude_compact h hrest
  have hcompact : n.compact = (if n.negative then ['-'] else []) ++
      (n.whole ++ (if n.fraction.isEmpty then [] else '.' :: n.fraction) ++
        (n.exponent.map Exponent.compact).getD []) := by
    rw [Numeral.compact]
    cases n.exponent <;> simp
  rw [hcompact, List.append_assoc]
  cases hnegative : n.negative with
  | true =>
    rw [hnegative] at hread
    exact hread
  | false =>
    rw [hnegative] at hread
    obtain ⟨c, more, hwhole⟩ := List.exists_cons_of_ne_nil h.some_digit
    have hc : isDigit c = true := h.whole c (by simp [hwhole])
    rw [if_neg Bool.false_ne_true, List.nil_append]
    rw [hwhole] at hread ⊢
    -- No digit is a sign.
    refine Eq.trans (readNumeral.eq_2 _ fun more' heq => ?_) hread
    obtain ⟨rfl, -⟩ := List.cons.inj heq
    cases hc

/-- The number that is read where an integer was written. -/
def numeralOf (n : Int) : Numeral := ⟨decide (n < 0), Nat.toDigits 10 n.natAbs, [], none⟩

theorem leading_toDigits (n : Nat) (h : (Nat.toDigits 10 n).head? = some '0') :
    Nat.toDigits 10 n = ['0'] := by
  rcases Nat.eq_zero_or_pos n with rfl | hpos
  · rfl
  · exact absurd rfl (head_toDigits hpos '0' h)

theorem compact_numeralOf (n : Int) : (numeralOf n).compact = writeInt n := by
  rw [Numeral.compact, numeralOf, writeInt]
  by_cases hneg : n < 0 <;> simp [hneg]

theorem wellFormed_numeralOf (n : Int) : (numeralOf n).WellFormed where
  some_digit := Nat.toDigits_ne_nil
  whole := fun _ => Ascii.isDigit_of_mem_toDigits
  leading := leading_toDigits _
  fraction := fun _ h => absurd h List.not_mem_nil
  exponent := fun _ h => absurd h (Option.not_mem_none _)

/-- The number that is read where digits were written, the first of them having exponent `e`. -/
def numeralOfDigits (negative : Bool) (digits : List Char) (e : Int) : Numeral :=
  if numberLayout.positional e then
    if e < 0 then ⟨negative, ['0'], List.replicate (-e - 1).toNat '0' ++ digits, none⟩
    else
      ⟨negative, digits.take (e.toNat + 1) ++ List.replicate (e.toNat + 1 - digits.length) '0',
        if (digits.drop (e.toNat + 1)).isEmpty then ['0'] else digits.drop (e.toNat + 1), none⟩
  else
    ⟨negative, digits.take 1, digits.drop 1,
      some ⟨'e', some (if e < 0 then '-' else '+'), DecimalLayout.digitsOf e.natAbs⟩⟩

theorem compact_numeralOfDigits (negative : Bool) {digits : List Char} (e : Int) (h : digits ≠ []) :
    (numeralOfDigits negative digits e).compact = (if negative then ['-'] else []) ++
      if numberLayout.positional e then numberLayout.writePositional digits e
      else numberLayout.writeExponent digits e := by
  obtain ⟨c, more, rfl⟩ := List.exists_cons_of_ne_nil h
  rw [numeralOfDigits]
  split
  · rw [DecimalLayout.writePositional]
    split
    · simp [Numeral.compact]
    · dsimp only
      split
      · simp [Numeral.compact, numberLayout]
      · rename_i hafter
        have hlong : e.toNat < more.length := by simpa using hafter
        simpa [Numeral.compact] using hlong
  · have hsize : 1 - (DecimalLayout.digitsOf e.natAbs).length = 0 := by
      have hpos : 0 < (DecimalLayout.digitsOf e.natAbs).length :=
        List.length_pos_iff.mpr Nat.toDigits_ne_nil
      omega
    rw [DecimalLayout.writeExponent]
    cases more <;> split <;>
      simp [Numeral.compact, Exponent.compact, numberLayout, hsize]

theorem wellFormed_numeralOfDigits (negative : Bool) {digits : List Char} {e : Int} (h : digits ≠ [])
    (hdigits : ∀ c ∈ digits, isDigit c = true)
    (hleading : digits.head? = some '0' → digits = ['0'] ∧ e = 0) :
    (numeralOfDigits negative digits e).WellFormed := by
  obtain ⟨c, more, rfl⟩ := List.exists_cons_of_ne_nil h
  have hzeros : ∀ n, ∀ c ∈ List.replicate n '0', isDigit c = true := by
    intro n c hc
    rw [List.eq_of_mem_replicate hc]
    rfl
  rw [numeralOfDigits]
  split
  · split
    · refine ⟨List.cons_ne_nil _ _, ?_, fun _ => rfl, ?_, fun _ h => absurd h (Option.not_mem_none _)⟩
      · intro c hc
        rw [List.mem_singleton.mp hc]
        rfl
      · exact List.forall_mem_append.mpr ⟨hzeros _, hdigits⟩
    · refine ⟨by simp, ?_, ?_, ?_, fun _ h => absurd h (Option.not_mem_none _)⟩
      · exact List.forall_mem_append.mpr ⟨fun c hc => hdigits c (List.mem_of_mem_take hc), hzeros _⟩
      · intro hzero
        obtain ⟨hsingle, rfl⟩ := hleading (by simpa using hzero)
        rw [hsingle]
        rfl
      · dsimp only
        split
        · exact hzeros 1
        · exact fun c hc => hdigits c (List.mem_of_mem_drop hc)
  · refine ⟨by simp, fun c hc => hdigits c (List.mem_of_mem_take hc), ?_,
      fun c hc => hdigits c (List.mem_of_mem_drop hc), ?_⟩
    · intro hzero
      rw [Option.some.inj hzero]
      rfl
    · rintro e' ⟨⟩
      refine ⟨.inl rfl, ?_, Nat.toDigits_ne_nil, fun _ => Ascii.isDigit_of_mem_toDigits⟩
      rintro c ⟨⟩
      split
      · exact .inr rfl
      · exact .inl rfl

/-- The number that is read where a decimal was written. -/
def numeralOfDecimal (negative : Bool) (d : Decimal) : Numeral :=
  numeralOfDigits negative (DecimalLayout.digitsOf d.digits)
    (if d.digits = 0 then 0 else d.exponent + (DecimalLayout.digitsOf d.digits).length - 1)

theorem compact_numeralOfDecimal (negative : Bool) (d : Decimal) :
    (numeralOfDecimal negative d).compact =
      (if negative then ['-'] else []) ++ numberLayout.writeMagnitude d :=
  compact_numeralOfDigits negative _ Nat.toDigits_ne_nil

theorem wellFormed_numeralOfDecimal (negative : Bool) (d : Decimal) :
    (numeralOfDecimal negative d).WellFormed := by
  refine wellFormed_numeralOfDigits negative Nat.toDigits_ne_nil
    (fun _ => Ascii.isDigit_of_mem_toDigits) fun hzero => ⟨leading_toDigits _ hzero, ?_⟩
  rw [if_pos]
  rcases Nat.eq_zero_or_pos d.digits with hd | hpos
  · exact hd
  · exact absurd rfl (head_toDigits hpos '0' hzero)

theorem writeReal_eq (x : Binary64) :
    writeReal x = (numeralOfDecimal x.negative x.shortest).compact := by
  rw [writeReal, DecimalLayout.write, String.toList_ofList, compact_numeralOfDecimal]

/-- An integer of 64 bits, signed or not, stands for itself. -/
theorem toNumber_numeralOf {n : Int} (hlow : -(Word.signedEnd : Int) ≤ n)
    (hhigh : n < Word.unsignedEnd) : (numeralOf n).toNumber? = some (.int n) := by
  have hsize : Ascii.ofDigits 10 (Nat.toDigits 10 n.natAbs) = n.natAbs := Ascii.ofDigits_toDigits _
  unfold Numeral.toNumber? numeralOf
  rw [if_pos ⟨rfl, rfl⟩]
  dsimp only
  rw [hsize]
  by_cases hneg : n < 0
  · rw [decide_eq_true hneg, if_pos rfl, if_pos (by omega)]
    congr 2
    omega
  · rw [decide_eq_false hneg, if_neg (by decide), if_pos (by omega)]
    congr 2
    omega

end InventoryFeed.Json

import InventoryFeed.Document.Shape
import InventoryFeed.Proofs.Json.Scalar
import InventoryFeed.Proofs.Text.Digits

/-!
# Brackets in a text

Whoever reads a JSON text from its front knows at each place how many brackets are open there and whether
the place is within a string. A text that is read as a value leaves as many brackets open as it finds, and
the text of a document never closes one that it did not open. So the text of an array without its last
bracket is no JSON text, nor is any first part of it. At most as many brackets are open at once as arrays and
objects of the document stand inside one another.
-/

namespace InventoryFeed.Json

/-- A place in a text, with the number of brackets that are open there. -/
inductive Place where
  /-- Between the tokens or within one other than a string. -/
  | outside (depth : Nat)
  /-- Within a string. -/
  | inString (depth : Nat)
  /-- Within a string behind a backslash. -/
  | slashed (depth : Nat)

namespace Place

/-- The number of open brackets. -/
def depth : Place → Nat
  | outside d => d
  | inString d => d
  | slashed d => d

/-- The place behind a character. -/
def step : Place → Char → Place
  | outside d, c =>
    if c = '"' then inString d
    else if c = '[' ∨ c = '{' then outside (d + 1)
    else if c = ']' ∨ c = '}' then outside (d - 1)
    else outside d
  | inString d, c => if c = '"' then outside d else if c = '\\' then slashed d else inString d
  | slashed d, _ => inString d

/-- The place behind several characters. -/
def after (p : Place) (cs : List Char) : Place := cs.foldl step p

theorem after_cons (p : Place) (c : Char) (cs : List Char) : p.after (c :: cs) = (p.step c).after cs :=
  rfl

theorem after_append (p : Place) (cs ds : List Char) : p.after (cs ++ ds) = (p.after cs).after ds :=
  List.foldl_append

/-- How many brackets are open at once at most, on the way behind several characters. -/
def deepest : Place → List Char → Nat
  | p, [] => p.depth
  | p, c :: cs => max p.depth ((p.step c).deepest cs)

theorem depth_le_deepest (p : Place) (cs : List Char) : p.depth ≤ p.deepest cs := by
  cases cs with
  | nil => exact Nat.le_refl _
  | cons c cs => exact Nat.le_max_left _ _

theorem deepest_append (p : Place) (cs ds : List Char) :
    p.deepest (cs ++ ds) = max (p.deepest cs) ((p.after cs).deepest ds) := by
  induction cs generalizing p with
  | nil => exact (Nat.max_eq_right (depth_le_deepest p ds)).symm
  | cons c cs ih =>
    rw [List.cons_append, deepest, deepest, ih, Nat.max_assoc]
    rfl

/-- No place on the way has fewer brackets open than `least`. -/
def Above (least : Nat) : Place → List Char → Prop
  | p, [] => least ≤ p.depth
  | p, c :: cs => least ≤ p.depth ∧ Above least (p.step c) cs

theorem Above.append {least : Nat} {p : Place} {cs ds : List Char} (hcs : Above least p cs)
    (hds : Above least (p.after cs) ds) : Above least p (cs ++ ds) := by
  induction cs generalizing p with
  | nil => exact hds
  | cons c cs ih => exact ⟨hcs.1, ih hcs.2 hds⟩

theorem Above.of_append {least : Nat} {p : Place} {cs ds : List Char} (h : Above least p (cs ++ ds)) :
    least ≤ (p.after cs).depth := by
  induction cs generalizing p with
  | nil =>
    cases ds with
    | nil => exact h
    | cons c ds => exact h.1
  | cons c cs ih => exact ih h.2

theorem Above.mono {least lower : Nat} {p : Place} {cs : List Char} (h : Above least p cs)
    (hlower : lower ≤ least) : Above lower p cs := by
  induction cs generalizing p with
  | nil => exact Nat.le_trans hlower h
  | cons c cs ih => exact ⟨Nat.le_trans hlower h.1, ih h.2⟩

end Place

open Place

/-- A character outside of strings that leaves all brackets as they are. -/
def isNeutral (c : Char) : Bool := c != '"' && c != '[' && c != ']' && c != '{' && c != '}'

theorem step_neutral (d : Nat) {c : Char} (h : isNeutral c = true) : (outside d).step c = outside d := by
  simp only [isNeutral, Bool.and_eq_true, bne_iff_ne] at h
  simp [Place.step, h]

abbrev AllNeutral (cs : List Char) : Prop := cs.all isNeutral = true

theorem allNeutral_cons {c : Char} {cs : List Char} :
    AllNeutral (c :: cs) ↔ isNeutral c = true ∧ AllNeutral cs := by
  rw [AllNeutral, List.all_cons, Bool.and_eq_true]

theorem allNeutral_append {cs ds : List Char} :
    AllNeutral (cs ++ ds) ↔ AllNeutral cs ∧ AllNeutral ds := by
  rw [AllNeutral, List.all_append, Bool.and_eq_true]

theorem AllNeutral.of_subset {cs ds : List Char} (h : AllNeutral ds) (hsub : cs ⊆ ds) :
    AllNeutral cs :=
  List.all_eq_true.mpr fun c hc => List.all_eq_true.mp h c (hsub hc)

/-! ## What is read -/

/-- What is read from a text leaves as many brackets open as it finds. -/
def Takes (cs rest : List Char) : Prop :=
  ∃ used, cs = used ++ rest ∧ ∀ d, (outside d).after used = outside d

namespace Takes

variable {cs ds rest : List Char} {c : Char}

theorem refl (cs : List Char) : Takes cs cs := ⟨[], rfl, fun _ => rfl⟩

theorem trans (first : Takes cs ds) (next : Takes ds rest) : Takes cs rest := by
  obtain ⟨used, rfl, hused⟩ := first
  obtain ⟨more, rfl, hmore⟩ := next
  refine ⟨used ++ more, (List.append_assoc ..).symm, fun d => ?_⟩
  rw [after_append, hused, hmore]

theorem cons (hc : isNeutral c = true) (h : Takes cs rest) : Takes (c :: cs) rest := by
  obtain ⟨used, rfl, hused⟩ := h
  refine ⟨c :: used, rfl, fun d => ?_⟩
  rw [after_cons, step_neutral d hc, hused]

theorem of_neutral (used : List Char) (h : AllNeutral used) (rest : List Char) :
    Takes (used ++ rest) rest := by
  induction used with
  | nil => exact .refl rest
  | cons c used ih =>
    obtain ⟨hc, hused⟩ := allNeutral_cons.mp h
    exact .cons hc (ih hused)

/-- What stands between brackets is taken with them. -/
theorem bracket {opening closing : Char} (hopen : opening = '[' ∨ opening = '{')
    (hclose : closing = ']' ∨ closing = '}') (h : Takes cs (closing :: rest)) :
    Takes (opening :: cs) rest := by
  obtain ⟨used, rfl, hused⟩ := h
  refine ⟨opening :: used ++ [closing], by simp, fun d => ?_⟩
  have hopened : (outside d).step opening = outside (d + 1) := by
    rcases hopen with rfl | rfl <;> rfl
  have hclosed : (outside (d + 1)).step closing = outside d := by
    rcases hclose with rfl | rfl <;> rfl
  rw [List.cons_append, after_cons, hopened, after_append, hused, after_cons, hclosed]
  rfl

end Takes

theorem isNeutral_of_isBlank {c : Char} (h : isBlank c = true) : isNeutral c = true := by
  simp only [isBlank, Bool.or_eq_true, beq_iff_eq] at h
  rcases h with ((rfl | rfl) | rfl) | rfl <;> rfl

theorem isNeutral_of_isDigit {c : Char} (h : isDigit c = true) : isNeutral c = true := by
  simp only [isNeutral, Bool.and_eq_true, bne_iff_ne]
  refine ⟨⟨⟨⟨?_, ?_⟩, ?_⟩, ?_⟩, ?_⟩ <;> rintro rfl <;> cases h

theorem takes_skipBlanks (cs : List Char) : Takes cs (skipBlanks cs) := by
  have hblanks : AllNeutral (cs.takeWhile isBlank) := List.all_eq_true.mpr fun c hc =>
    isNeutral_of_isBlank (List.mem_takeWhile_imp hc)
  have h := Takes.of_neutral _ hblanks (cs.dropWhile isBlank)
  rwa [List.takeWhile_append_dropWhile] at h

theorem takes_of_skipBlanks {cs ds rest : List Char} (hskip : skipBlanks cs = ds) (h : Takes ds rest) :
    Takes cs rest :=
  (takes_skipBlanks cs).trans (hskip ▸ h)

theorem takes_readDigits {cs digits rest : List Char} (h : readDigits cs = some (digits, rest)) :
    Takes cs rest := by
  unfold readDigits at h
  dsimp only at h
  split at h
  · cases h
  · cases h
    have hdigits : AllNeutral (cs.takeWhile isDigit) := List.all_eq_true.mpr fun c hc =>
      isNeutral_of_isDigit (List.mem_takeWhile_imp hc)
    have htaken := Takes.of_neutral _ hdigits (cs.dropWhile isDigit)
    rwa [List.takeWhile_append_dropWhile] at htaken

theorem takes_readFraction {cs digits rest : List Char} (h : readFraction cs = some (digits, rest)) :
    Takes cs rest := by
  unfold readFraction at h
  split at h
  · exact (takes_readDigits h).cons rfl
  · cases h
    exact .refl _

theorem takes_readExponent {cs rest : List Char} {exponent : Option Exponent}
    (h : readExponent cs = some (exponent, rest)) : Takes cs rest := by
  unfold readExponent at h
  split at h
  · cases h
    exact .refl _
  split at h
  · rename_i mark more hmark
    have hneutral : isNeutral mark = true := by
      simp only [Bool.or_eq_true, beq_iff_eq] at hmark
      rcases hmark with rfl | rfl <;> rfl
    refine .cons hneutral ?_
    split at h
    · cases h
    split at h
    · rename_i sign tail hsign
      obtain ⟨⟨digits, rest'⟩, hdigits, heq⟩ := Option.map_eq_some_iff.mp h
      cases heq
      have hneutral' : isNeutral sign = true := by
        simp only [Bool.or_eq_true, beq_iff_eq] at hsign
        rcases hsign with rfl | rfl <;> rfl
      exact .cons hneutral' (takes_readDigits hdigits)
    · obtain ⟨⟨digits, rest'⟩, hdigits, heq⟩ := Option.map_eq_some_iff.mp h
      cases heq
      exact takes_readDigits hdigits
  · cases h
    exact .refl _

theorem takes_readMagnitude {negative : Bool} {cs rest : List Char} {numeral : Numeral}
    (h : readMagnitude negative cs = some (numeral, rest)) : Takes cs rest := by
  obtain ⟨⟨whole, cs₁⟩, hwhole, h⟩ := Option.bind_eq_some_iff.mp h
  obtain ⟨⟨fraction, cs₂⟩, hfraction, h⟩ := Option.bind_eq_some_iff.mp h
  obtain ⟨⟨exponent, cs₃⟩, hexponent, h⟩ := Option.bind_eq_some_iff.mp h
  cases h
  have hdigits : readDigits cs = some (whole, cs₁) := by
    unfold readWhole at hwhole
    split at hwhole
    · cases hwhole
    · exact hwhole
  exact (takes_readDigits hdigits).trans
    ((takes_readFraction hfraction).trans (takes_readExponent hexponent))

theorem takes_readNumeral {cs rest : List Char} {numeral : Numeral}
    (h : readNumeral cs = some (numeral, rest)) : Takes cs rest := by
  unfold readNumeral at h
  split at h
  · exact (takes_readMagnitude h).cons rfl
  · exact takes_readMagnitude h

/-- What is read from within a string ends with the string. -/
def Leaves (cs rest : List Char) : Prop :=
  ∃ used, cs = used ++ rest ∧ ∀ d, (inString d).after used = outside d

theorem Leaves.append {cs rest : List Char} (h : Leaves cs rest) (front : List Char)
    (hfront : ∀ d, (inString d).after front = inString d) : Leaves (front ++ cs) rest := by
  obtain ⟨used, rfl, hused⟩ := h
  refine ⟨front ++ used, (List.append_assoc ..).symm, fun d => ?_⟩
  rw [after_append, hfront, hused]

theorem step_inString (d : Nat) {c : Char} (hquote : c ≠ '"') (hslash : c ≠ '\\') :
    (inString d).step c = inString d := by
  simp [Place.step, hquote, hslash]

theorem step_hexDigit (d : Nat) {c : Char} (h : isHexDigit c = true) :
    (inString d).step c = inString d := by
  refine step_inString d ?_ ?_ <;> rintro rfl <;> cases h

theorem leaves_readString {cs raw rest : List Char} (h : readString cs = some (raw, rest)) :
    Leaves cs rest := by
  fun_induction readString cs generalizing raw rest with
  | case1 => cases h
  | case2 rest' =>
    cases h
    exact ⟨['"'], rfl, fun _ => rfl⟩
  | case3 a b c e rest' hdigits ih =>
    obtain ⟨⟨raw', rest''⟩, hread, heq⟩ := Option.map_eq_some_iff.mp h
    cases heq
    refine (ih hread).append ['\\', 'u', a, b, c, e] fun d => ?_
    simp only [Bool.and_eq_true] at hdigits
    obtain ⟨⟨⟨ha, hb⟩, hc⟩, he⟩ := hdigits
    change ((((inString d).step a).step b).step c).step e = inString d
    rw [step_hexDigit d ha, step_hexDigit d hb, step_hexDigit d hc, step_hexDigit d he]
  | case4 => cases h
  | case5 e rest' _ _ ih =>
    obtain ⟨⟨raw', rest''⟩, hread, heq⟩ := Option.map_eq_some_iff.mp h
    cases heq
    exact (ih hread).append ['\\', e] fun _ => rfl
  | case6 => cases h
  | case7 => cases h
  | case8 c rest' hquote _ _ hplain ih =>
    obtain ⟨⟨raw', rest''⟩, hread, heq⟩ := Option.map_eq_some_iff.mp h
    cases heq
    simp only [Bool.or_eq_true, beq_iff_eq, not_or] at hplain
    exact (ih hread).append [c] fun d => step_inString d hquote hplain.1

theorem Leaves.takes {cs rest : List Char} (h : Leaves cs rest) : Takes ('"' :: cs) rest := by
  obtain ⟨used, rfl, hused⟩ := h
  exact ⟨'"' :: used, rfl, fun d => hused d⟩

/-- Whatever is read with this fuel leaves as many brackets open as it finds. Items and members are read up
to the bracket after them, which belongs to what they stand in. -/
structure TakesWithin (fuel : Nat) : Prop where
  value : ∀ {cs tree rest}, readValue fuel cs = some (tree, rest) → Takes cs rest
  items : ∀ {cs items rest}, readItems fuel cs = some (items, rest) → Takes cs (']' :: rest)
  members : ∀ {cs members rest}, readMembers fuel cs = some (members, rest) → Takes cs ('}' :: rest)

section

variable {fuel : Nat} {cs rest : List Char}

theorem takes_readValue (within : TakesWithin fuel) {tree : Tree}
    (h : readValue (fuel + 1) cs = some (tree, rest)) : Takes cs rest := by
  rw [readValue] at h
  split at h
  · rename_i rest' hskip
    cases h
    exact takes_of_skipBlanks hskip (.of_neutral ['n', 'u', 'l', 'l'] rfl _)
  · rename_i rest' hskip
    cases h
    exact takes_of_skipBlanks hskip (.of_neutral ['t', 'r', 'u', 'e'] rfl _)
  · rename_i rest' hskip
    cases h
    exact takes_of_skipBlanks hskip (.of_neutral ['f', 'a', 'l', 's', 'e'] rfl _)
  · rename_i rest' hskip
    obtain ⟨⟨raw, rest''⟩, hread, heq⟩ := Option.map_eq_some_iff.mp h
    cases heq
    exact takes_of_skipBlanks hskip (leaves_readString hread).takes
  · -- An array, empty or with items.
    rename_i rest' hskip
    refine takes_of_skipBlanks hskip (.bracket (.inl rfl) (.inl rfl) ?_)
    split at h
    · rename_i hclose
      cases h
      exact hclose ▸ takes_skipBlanks rest'
    · obtain ⟨⟨items, rest''⟩, hread, heq⟩ := Option.map_eq_some_iff.mp h
      cases heq
      exact takes_of_skipBlanks rfl (within.items hread)
  · -- An object, empty or with members.
    rename_i rest' hskip
    refine takes_of_skipBlanks hskip (.bracket (.inr rfl) (.inr rfl) ?_)
    split at h
    · rename_i hclose
      cases h
      exact hclose ▸ takes_skipBlanks rest'
    · obtain ⟨⟨members, rest''⟩, hread, heq⟩ := Option.map_eq_some_iff.mp h
      cases heq
      exact takes_of_skipBlanks rfl (within.members hread)
  · obtain ⟨⟨numeral, rest'⟩, hread, heq⟩ := Option.map_eq_some_iff.mp h
    cases heq
    exact takes_of_skipBlanks rfl (takes_readNumeral hread)

theorem takes_readItems (within : TakesWithin fuel) {items : List Tree}
    (h : readItems (fuel + 1) cs = some (items, rest)) : Takes cs (']' :: rest) := by
  rw [readItems] at h
  obtain ⟨⟨item, rest'⟩, hitem, h⟩ := Option.bind_eq_some_iff.mp h
  dsimp only at h
  refine (within.value hitem).trans ?_
  split at h
  · rename_i rest'' hcomma
    obtain ⟨⟨items, last⟩, hitems, h⟩ := Option.bind_eq_some_iff.mp h
    cases h
    exact takes_of_skipBlanks hcomma (.cons rfl (within.items hitems))
  · rename_i rest'' hbracket
    cases h
    exact takes_of_skipBlanks hbracket (.refl _)
  · cases h

theorem takes_readMembers (within : TakesWithin fuel) {members : List (List Char × Tree)}
    (h : readMembers (fuel + 1) cs = some (members, rest)) : Takes cs ('}' :: rest) := by
  rw [readMembers] at h
  split at h
  · rename_i rest' hquote
    obtain ⟨⟨key, rest₁⟩, hkey, h⟩ := Option.bind_eq_some_iff.mp h
    dsimp only at h
    refine takes_of_skipBlanks hquote ((leaves_readString hkey).takes.trans ?_)
    split at h
    · rename_i rest₂ hcolon
      obtain ⟨⟨value, rest₃⟩, hvalue, h⟩ := Option.bind_eq_some_iff.mp h
      dsimp only at h
      refine takes_of_skipBlanks hcolon (.cons rfl ((within.value hvalue).trans ?_))
      split at h
      · rename_i rest₄ hcomma
        obtain ⟨⟨members, last⟩, hmembers, h⟩ := Option.bind_eq_some_iff.mp h
        cases h
        exact takes_of_skipBlanks hcomma (.cons rfl (within.members hmembers))
      · rename_i rest₄ hbrace
        cases h
        exact takes_of_skipBlanks hbrace (.refl _)
      · cases h
    · cases h
  · cases h

end

/-- Whatever is read leaves as many brackets open as it finds. -/
theorem takes_read (fuel : Nat) : TakesWithin fuel := by
  induction fuel with
  | zero => exact ⟨nofun, nofun, nofun⟩
  | succ fuel within =>
    exact ⟨takes_readValue within, takes_readItems within, takes_readMembers within⟩

/-- A whole text that is read leaves no bracket open. -/
theorem outside_of_read {text : String} {tree : Tree} (h : Tree.read text = some tree) (d : Nat) :
    (outside d).after text.toList = outside d := by
  unfold Tree.read at h
  dsimp only at h
  split at h
  · rename_i tree' rest hread
    split at h
    · rename_i hempty
      have hend : skipBlanks rest = [] := List.isEmpty_iff.mp hempty
      obtain ⟨used, hused, hafter⟩ := ((takes_read _).value hread).trans (hend ▸ takes_skipBlanks rest)
      rw [hused, List.append_nil, hafter]
    · cases h
  · cases h

/-! ## What is written -/

/-- A text that leaves as many brackets open as it finds, closes none of those, and has so many more open at
once at most. -/
def Nested (count : Nat) (cs : List Char) : Prop :=
  ∀ d, (outside d).after cs = outside d ∧ Above d (outside d) cs ∧ (outside d).deepest cs = d + count

namespace Nested

variable {count more : Nat} {cs ds : List Char} {c : Char}

theorem nil : Nested 0 [] := fun d => ⟨rfl, Nat.le_refl d, rfl⟩

theorem append (hcs : Nested count cs) (hds : Nested more ds) : Nested (max count more) (cs ++ ds) := by
  intro d
  obtain ⟨hafter, habove, hdeepest⟩ := hcs d
  obtain ⟨hafter', habove', hdeepest'⟩ := hds d
  refine ⟨?_, habove.append ?_, ?_⟩
  · rw [after_append, hafter, hafter']
  · rwa [hafter]
  · rw [deepest_append, hafter, hdeepest, hdeepest', Nat.add_max_add_left]

theorem cons (hc : isNeutral c = true) (h : Nested count cs) : Nested count (c :: cs) := by
  intro d
  have hstep := step_neutral d hc
  obtain ⟨hafter, habove, hdeepest⟩ := h d
  refine ⟨?_, ⟨Nat.le_refl d, ?_⟩, ?_⟩
  · rw [after_cons, hstep, hafter]
  · rwa [hstep]
  · rw [deepest, hstep, hdeepest]
    exact Nat.max_eq_right (Nat.le_add_right d count)

theorem of_neutral (h : AllNeutral cs) : Nested 0 cs := by
  induction cs with
  | nil => exact .nil
  | cons c cs ih =>
    obtain ⟨hc, hcs⟩ := allNeutral_cons.mp h
    exact .cons hc (ih hcs)

theorem bracket {opening closing : Char} (hopen : opening = '[' ∨ opening = '{')
    (hclose : closing = ']' ∨ closing = '}') (h : Nested count cs) :
    Nested (count + 1) (opening :: cs ++ [closing]) := by
  intro d
  obtain ⟨hafter, habove, hdeepest⟩ := h (d + 1)
  have hopened : (outside d).step opening = outside (d + 1) := by
    rcases hopen with rfl | rfl <;> rfl
  have hclosed : (outside (d + 1)).step closing = outside d := by
    rcases hclose with rfl | rfl <;> rfl
  refine ⟨?_, ⟨Nat.le_refl d, ?_⟩, ?_⟩
  · rw [List.cons_append, after_cons, hopened, after_append, hafter]
    exact hclosed
  · change Above d ((outside d).step opening) (cs ++ [closing])
    rw [hopened]
    refine (habove.mono (Nat.le_succ d)).append ?_
    rw [hafter]
    refine ⟨Nat.le_succ d, ?_⟩
    rw [hclosed]
    exact Nat.le_refl d
  · rw [List.cons_append, deepest, hopened, deepest_append, hdeepest, hafter, deepest, hclosed, deepest]
    simp only [depth]
    omega

end Nested

/-- A string is not left before its last quote, nor is a bracket in it one of the text. -/
def Kept (cs : List Char) : Prop :=
  ∀ d, (inString d).after cs = inString d ∧ Above d (inString d) cs ∧ (inString d).deepest cs = d

theorem Kept.append {cs ds : List Char} (hcs : Kept cs) (hds : Kept ds) : Kept (cs ++ ds) := by
  intro d
  obtain ⟨hafter, habove, hdeepest⟩ := hcs d
  obtain ⟨hafter', habove', hdeepest'⟩ := hds d
  refine ⟨?_, habove.append ?_, ?_⟩
  · rw [after_append, hafter, hafter']
  · rwa [hafter]
  · rw [deepest_append, hafter, hdeepest, hdeepest', Nat.max_self]

theorem kept_escaped (c : Char) : Kept ['\\', c] := fun d =>
  ⟨rfl, ⟨Nat.le_refl d, Nat.le_refl d, Nat.le_refl d⟩, by simp [deepest, Place.step, depth]⟩

theorem kept_plain {c : Char} (hquote : c ≠ '"') (hslash : c ≠ '\\') : Kept [c] := by
  intro d
  have hstep := step_inString d hquote hslash
  refine ⟨hstep, ⟨Nat.le_refl d, ?_⟩, ?_⟩
  · rw [hstep]
    exact Nat.le_refl d
  · rw [deepest, hstep]
    exact Nat.max_self d

theorem ne_hexDigit : ∀ n < 16, hexDigit n ≠ '"' ∧ hexDigit n ≠ '\\' := by decide

theorem kept_escape (c : Char) : Kept (escape c) := by
  obtain ⟨e, hescape, -⟩ | ⟨hcontrol, hescape⟩ | ⟨hquote, hslash, -, hescape⟩ := escape_cases c
  all_goals rw [hescape]
  · exact kept_escaped e
  · obtain ⟨hquote₁, hslash₁⟩ := ne_hexDigit (c.toNat / 16) (by omega)
    obtain ⟨hquote₂, hslash₂⟩ := ne_hexDigit (c.toNat % 16) (by omega)
    have hzero : Kept ['0'] := kept_plain (by decide) (by decide)
    exact (kept_escaped 'u').append (hzero.append (hzero.append
      ((kept_plain hquote₁ hslash₁).append (kept_plain hquote₂ hslash₂))))
  · exact kept_plain hquote hslash

theorem kept_escapeAll (cs : List Char) : Kept (escapeAll cs) := by
  induction cs with
  | nil => exact fun d => ⟨rfl, Nat.le_refl d, rfl⟩
  | cons c cs ih =>
    have hsplit : escapeAll (c :: cs) = escape c ++ escapeAll cs := List.flatMap_cons
    exact hsplit ▸ (kept_escape c).append ih

theorem nested_writeString (s : String) : Nested 0 (writeString s) := by
  intro d
  obtain ⟨hafter, habove, hdeepest⟩ := kept_escapeAll s.toList d
  have hopened : (outside d).step '"' = inString d := rfl
  have hclosed : (inString d).step '"' = outside d := rfl
  unfold writeString quoted
  refine ⟨?_, ⟨Nat.le_refl d, ?_⟩, ?_⟩
  · rw [List.cons_append, after_cons, hopened, after_append, hafter]
    exact hclosed
  · change Above d ((outside d).step '"') (escapeAll s.toList ++ ['"'])
    rw [hopened]
    refine habove.append ?_
    rw [hafter]
    exact ⟨Nat.le_refl d, Nat.le_refl d⟩
  · rw [List.cons_append, deepest, hopened, deepest_append, hdeepest, hafter, deepest, hclosed, deepest]
    simp [depth]

theorem allNeutral_toDigits (n : Nat) : AllNeutral (Nat.toDigits 10 n) :=
  List.all_eq_true.mpr fun _ hc => isNeutral_of_isDigit (Ascii.isDigit_of_mem_toDigits hc)

theorem nested_writeInt (n : Int) : Nested 0 (writeInt n) := by
  have hdigits : Nested 0 (Nat.toDigits 10 n.natAbs) := .of_neutral (allNeutral_toDigits _)
  unfold writeInt
  split
  · exact .cons rfl hdigits
  · exact hdigits

theorem allNeutral_zeros (count : Nat) : AllNeutral (List.replicate count '0') := by
  refine List.all_eq_true.mpr fun c hc => ?_
  rw [List.eq_of_mem_replicate hc]
  rfl

section

variable (l : DecimalLayout) {digits : List Char} (h : AllNeutral digits) (e : Int)

include h

theorem allNeutral_writePositional : AllNeutral (l.writePositional digits e) := by
  have hwhole (count : Nat) : AllNeutral (digits.take count ++
      List.replicate (count - digits.length) '0') :=
    allNeutral_append.mpr ⟨h.of_subset (List.take_subset _ _), allNeutral_zeros _⟩
  unfold DecimalLayout.writePositional
  split
  · have hzeros := allNeutral_append.mpr ⟨allNeutral_zeros (-e - 1).toNat, h⟩
    exact allNeutral_cons.mpr ⟨rfl, allNeutral_cons.mpr ⟨rfl, hzeros⟩⟩
  dsimp only
  split
  · split
    · exact allNeutral_append.mpr ⟨hwhole _, rfl⟩
    · exact hwhole _
  · have hrest := h.of_subset (List.drop_subset (e.toNat + 1) digits)
    exact allNeutral_append.mpr ⟨hwhole _, allNeutral_cons.mpr ⟨rfl, hrest⟩⟩

theorem allNeutral_writeExponent : AllNeutral (l.writeExponent digits e) := by
  unfold DecimalLayout.writeExponent
  dsimp only
  rw [allNeutral_append, allNeutral_append, allNeutral_append, allNeutral_cons]
  refine ⟨⟨⟨?_, rfl, ?_⟩, allNeutral_zeros _⟩, allNeutral_toDigits _⟩
  · split
    · split
      · exact allNeutral_append.mpr ⟨h, rfl⟩
      · exact h
    · have hrest := h.of_subset (List.drop_subset 1 digits)
      exact allNeutral_append.mpr ⟨h.of_subset (List.take_subset _ _), allNeutral_cons.mpr ⟨rfl, hrest⟩⟩
  · split
    · rfl
    · split <;> rfl

end

theorem nested_writeReal (x : Binary64) : Nested 0 (writeReal x) := by
  have hmagnitude (digits : Nat) (e : Int) : AllNeutral (if numberLayout.positional e
      then numberLayout.writePositional (DecimalLayout.digitsOf digits) e
      else numberLayout.writeExponent (DecimalLayout.digitsOf digits) e) := by
    split
    · exact allNeutral_writePositional _ (allNeutral_toDigits _) _
    · exact allNeutral_writeExponent _ (allNeutral_toDigits _) _
  refine .of_neutral ?_
  rw [writeReal, DecimalLayout.write, String.toList_ofList]
  refine allNeutral_append.mpr ⟨?_, hmagnitude _ _⟩
  split <;> rfl

mutual

/-- The text of a document leaves as many brackets open as it finds, closes none of those, and opens as many at
once as the document is deep. -/
theorem nested_write (d : Document) : Nested d.depth d.write := by
  match d with
  | .null => exact .of_neutral rfl
  | .bool true => exact .of_neutral rfl
  | .bool false => exact .of_neutral rfl
  | .int n => exact nested_writeInt n
  | .real x => exact nested_writeReal x
  | .text s => exact nested_writeString s
  | .array items => exact (nested_writeItems items).bracket (.inl rfl) (.inl rfl)
  | .object members => exact (nested_writeMembers members).bracket (.inr rfl) (.inr rfl)

theorem nested_writeItems (items : List Document) :
    Nested (Document.itemsDepth items) (Document.writeItems items) := by
  match items with
  | [] => exact .nil
  | [item] =>
    rw [Document.itemsDepth, Document.itemsDepth, Nat.max_zero]
    exact nested_write item
  | item :: next :: rest =>
    exact (nested_write item).append (.cons rfl (nested_writeItems (next :: rest)))

theorem nested_writeMembers (members : List (String × Document)) :
    Nested (Document.membersDepth members) (Document.writeMembers members) := by
  have hfirst (key : String) {value : Document} (h : Nested value.depth value.write) :
      Nested value.depth (writeString key ++ ':' :: value.write) :=
    Nat.zero_max value.depth ▸ (nested_writeString key).append (.cons rfl h)
  match members with
  | [] => exact .nil
  | [(key, value)] =>
    rw [Document.membersDepth, Document.membersDepth, Nat.max_zero]
    exact hfirst key (nested_write value)
  | (key, value) :: next :: rest =>
    exact (hfirst key (nested_write value)).append (.cons rfl (nested_writeMembers (next :: rest)))

end

/-- How many brackets of a text are open at once at most. -/
def nesting (text : String) : Nat := (outside 0).deepest text.toList

/-- In the text of a document this is how many arrays and objects stand inside one another. -/
theorem nesting_compact (d : Document) : nesting d.compact = d.depth := by
  rw [nesting, Document.compact, String.toList_ofList, (nested_write d 0).2.2, Nat.zero_add]

/-- An array of which the last bracket is missing is no JSON text, nor is any first part of it. -/
theorem read_of_unclosed {items : List Document} {text : String}
    (h : text.toList <+: '[' :: Document.writeItems items) : Tree.read text = none := by
  cases hread : Tree.read text with
  | none => rfl
  | some tree =>
    have hplace := outside_of_read hread 0
    obtain ⟨more, hmore⟩ := h
    cases htext : text.toList with
    | nil =>
      rw [Tree.read, htext] at hread
      cases hread
    | cons c rest =>
      rw [htext, List.cons_append] at hmore
      obtain ⟨rfl, hrest⟩ := List.cons.inj hmore
      -- The first bracket is still open.
      have habove : 1 ≤ ((outside 1).after rest).depth :=
        Above.of_append (hrest ▸ (nested_writeItems items 1).2.1)
      have hopened : (outside 0).after ('[' :: rest) = (outside 1).after rest := rfl
      rw [htext, hopened] at hplace
      rw [hplace] at habove
      exact absurd habove (by decide)

end InventoryFeed.Json

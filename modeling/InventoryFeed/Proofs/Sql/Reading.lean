import InventoryFeed.Proofs.Text.Digits
import InventoryFeed.Sql.Reading

/-!
# Reading back what was rendered

A condition whose names are identifiers and whose junctions have a child is rendered as a text that
reads as this condition: every negation and every junction stands between parentheses of its own, so the
reading needs no rule of precedence that the writing did not provide for.
-/

namespace InventoryFeed.Sql

namespace Condition

mutual

/-- A condition that can be written: its names are identifiers and its junctions have a child. -/
def Writable : Condition → Prop
  | constant _ => True
  | test column _ _ _ => Ascii.isIdentifier column.view = true ∧ Ascii.isIdentifier column.name = true
  | conj children => children ≠ [] ∧ EachWritable children
  | disj children => children ≠ [] ∧ EachWritable children
  | neg child => child.Writable

/-- All of several conditions can be written. -/
def EachWritable : List Condition → Prop
  | [] => True
  | child :: rest => child.Writable ∧ EachWritable rest

end

mutual

/-- The truth value of a condition, given those of its tests. -/
def truth (value : Test → Truth) : Condition → Truth
  | constant b => some b
  | test column path op operand => value ⟨column, path, op, operand⟩
  | conj children => Truth.all (truthOfEach value children)
  | disj children => Truth.any (truthOfEach value children)
  | neg child => (child.truth value).neg

def truthOfEach (value : Test → Truth) : List Condition → List Truth
  | [] => []
  | child :: rest => child.truth value :: truthOfEach value rest

end

mutual

/-- The tests of a condition from left to right. -/
def tests : Condition → List Test
  | constant _ => []
  | test column path op operand => [⟨column, path, op, operand⟩]
  | conj children => testsOfEach children
  | disj children => testsOfEach children
  | neg child => child.tests

def testsOfEach : List Condition → List Test
  | [] => []
  | child :: rest => child.tests ++ testsOfEach rest

end

/-- The tokens of a comparison after its left side. -/
def operandTokens (op : CompareOp) (operand : Nat) : List Token :=
  match op with
  | .like => [.word "LIKE", .placeholder operand, .word "ESCAPE", .quoted ['\\']]
  | op => [.sign op, .placeholder operand]

mutual

/-- The tokens of a condition's text. -/
def tokens : Condition → List Token
  | constant b => [.number 1, .sign .eq, .number (if b then 1 else 0)]
  | test column path op operand =>
    .word "json_extract" :: .opening :: .word column.view :: .point :: .word column.name :: .comma ::
      .placeholder path :: .closing :: operandTokens op operand
  | conj children => .opening :: tokensOfEach "AND" children ++ [.closing]
  | disj children => .opening :: tokensOfEach "OR" children ++ [.closing]
  | neg child => .word "NOT" :: .opening :: child.tokens ++ [.closing]

def tokensOfEach (between : String) : List Condition → List Token
  | [] => []
  | [child] => child.tokens
  | child :: next :: rest => child.tokens ++ .word between :: tokensOfEach between (next :: rest)

end

end Condition

namespace Token

/-- A text is cut into tokens, however many more there may be. -/
def Cuts (cs : List Char) (tokens : List Token) : Prop :=
  ∀ fuel, cs.length ≤ fuel → readWithin fuel cs = some tokens

theorem cuts_nil : Cuts [] [] := by
  rintro (_ | fuel) - <;> rfl

theorem Cuts.blank {cs : List Char} {tokens : List Token} (h : Cuts cs tokens) :
    Cuts (' ' :: cs) tokens := by
  rintro (_ | fuel) hfuel
  · simp at hfuel
  · have hcs := h (fuel + 1) (by simp only [List.length_cons] at hfuel; omega)
    rw [readWithin] at hcs ⊢
    simpa using hcs

/-- A token at the front is followed by the tokens of the rest. -/
theorem Cuts.token {c : Char} {cs rest : List Char} {token : Token} {tokens : List Token}
    (h : Cuts rest tokens) (hfirst : first? (c :: cs) = some (token, rest)) (hblank : c ≠ ' ')
    (hlength : rest.length ≤ cs.length) : Cuts (c :: cs) (token :: tokens) := by
  rintro (_ | fuel) hfuel
  · simp at hfuel
  · have hrest := h fuel (by simp only [List.length_cons] at hfuel; omega)
    have hskip : (c :: cs).dropWhile (· = ' ') = c :: cs := by simp [hblank]
    rw [readWithin, hskip]
    simp [hfirst, hrest]

/-- A word at the front ends where a character of another kind follows. -/
theorem first?_word {c : Char} {cs rest : List Char} (hc : Ascii.isWord c = true)
    (hdigit : Ascii.isDigit c = false) (hcs : ∀ d ∈ cs, Ascii.isWord d = true)
    (hrest : EndsRun Ascii.isWord rest) :
    first? (c :: (cs ++ rest)) = some (word (String.ofList (c :: cs)), rest) := by
  unfold first?
  split
  -- Every alternative before the last two is for a character that no word has.
  case h_13 heq =>
    cases heq
    simp only [hdigit, hc, takeWhile_run hcs hrest, dropWhile_run hcs hrest]
    rfl
  case h_14 heq => cases heq
  all_goals
    rename_i heq
    rw [(List.cons.inj heq).1] at hc
    exact absurd hc (by decide)

theorem number?_digits (n : Nat) {rest : List Char} (hrest : EndsRun Ascii.isDigit rest) :
    number? (Nat.toDigits 10 n ++ rest) = some (n, rest) := by
  have hdigits : ∀ c ∈ Nat.toDigits 10 n, Ascii.isDigit c = true :=
    fun _ => Ascii.isDigit_of_mem_toDigits
  have hne : (Nat.toDigits 10 n).isEmpty = false := by simp [Nat.toDigits_ne_nil]
  simp only [number?, takeWhile_run hdigits hrest, dropWhile_run hdigits hrest, hne,
    Ascii.ofDigits_toDigits]
  rfl

theorem isDigit_of_endsRun_isWord {rest : List Char} (h : EndsRun Ascii.isWord rest) :
    EndsRun Ascii.isDigit rest := by
  intro c hc
  have hword := h c hc
  simp only [Ascii.isWord, Bool.or_eq_false_iff] at hword
  exact hword.1.2

/-- An identifier is cut off as one word. -/
theorem Cuts.word {rest : List Char} {tokens : List Token} (h : Cuts rest tokens) (name : String)
    (hname : Ascii.isIdentifier name = true) (hrest : EndsRun Ascii.isWord rest) :
    Cuts (name.toList ++ rest) (.word name :: tokens) := by
  obtain ⟨cs, rfl⟩ : ∃ cs, name = String.ofList cs := ⟨name.toList, String.ofList_toList.symm⟩
  rw [Ascii.isIdentifier, String.toList_ofList] at hname
  rw [String.toList_ofList]
  cases cs with
  | nil => simp at hname
  | cons c cs =>
    simp only [Bool.and_eq_true, List.all_eq_true] at hname
    obtain ⟨hfirst, hcs⟩ := hname
    have hdigit : Ascii.isDigit c = false := by
      rcases Bool.or_eq_true_iff.mp hfirst with hletter | hline
      · exact Ascii.isDigit_of_isLetter hletter
      · rw [eq_of_beq hline]
        rfl
    have hword : Ascii.isWord c = true := by
      rw [Ascii.isWord, hdigit, Bool.or_false, hfirst]
    have hblank : c ≠ ' ' := by
      rintro rfl
      exact absurd hword (by decide)
    exact h.token (first?_word hword hdigit hcs hrest) hblank (by simp)

theorem Cuts.digit {rest : List Char} {tokens : List Token} (h : Cuts rest tokens) {c : Char}
    (hc : Ascii.isDigit c = true) (hrest : EndsRun Ascii.isWord rest) :
    Cuts (c :: rest) (.number (Ascii.ofDigits 10 [c]) :: tokens) := by
  have hrun : ∀ d ∈ [c], Ascii.isDigit d = true := by simpa using hc
  have hends := isDigit_of_endsRun_isWord hrest
  have hnumber : number? (c :: rest) = some (Ascii.ofDigits 10 [c], rest) := by
    have htake : (c :: rest).takeWhile Ascii.isDigit = [c] := takeWhile_run hrun hends
    have hdrop : (c :: rest).dropWhile Ascii.isDigit = rest := dropWhile_run hrun hends
    rw [number?, htake, hdrop]
    rfl
  refine h.token ?_ ?_ (Nat.le_refl _)
  · unfold first?
    split
    case h_13 heq =>
      cases heq
      rw [if_pos hc, hnumber]
      rfl
    case h_14 heq => cases heq
    all_goals
      rename_i heq
      rw [(List.cons.inj heq).1] at hc
      exact absurd hc (by decide)
  · rintro rfl
    exact absurd hc (by decide)

theorem Cuts.opening {rest : List Char} {tokens : List Token} (h : Cuts rest tokens) :
    Cuts ('(' :: rest) (.opening :: tokens) :=
  h.token rfl (by decide) (Nat.le_refl _)

theorem Cuts.closing {rest : List Char} {tokens : List Token} (h : Cuts rest tokens) :
    Cuts (')' :: rest) (.closing :: tokens) :=
  h.token rfl (by decide) (Nat.le_refl _)

theorem Cuts.sign {rest : List Char} {tokens : List Token} (h : Cuts (' ' :: rest) tokens)
    (op : CompareOp) (hop : op ≠ .like) :
    Cuts (op.name.toList ++ ' ' :: rest) (.sign op :: tokens) := by
  cases op with
  | like => exact absurd rfl hop
  | _ => exact h.token rfl (by decide) (by simp)

theorem Cuts.placeholder {rest : List Char} {tokens : List Token} (h : Cuts rest tokens) (n : Nat)
    (hrest : EndsRun Ascii.isWord rest) :
    Cuts ((Sql.placeholder n).toList ++ rest) (.placeholder n :: tokens) := by
  have htext : (Sql.placeholder n).toList = '?' :: Nat.toDigits 10 n := by
    simp [Sql.placeholder]
  rw [htext]
  have hfirst : first? ('?' :: (Nat.toDigits 10 n ++ rest)) = some (.placeholder n, rest) := by
    change (number? (Nat.toDigits 10 n ++ rest)).map _ = _
    rw [number?_digits n (isDigit_of_endsRun_isWord hrest)]
    rfl
  exact h.token hfirst (by decide) (by simp)

end Token

namespace Condition

open Token

/-- The value at a path is cut into its tokens. -/
theorem cuts_renderValue (column : Column) (path : Nat) {rest : List Char} {more : List Token}
    (hview : Ascii.isIdentifier column.view = true) (hname : Ascii.isIdentifier column.name = true)
    (h : Cuts rest more) :
    Cuts ((renderValue column path).toList ++ rest)
      (.word "json_extract" :: .opening :: .word column.view :: .point :: .word column.name :: .comma ::
        .placeholder path :: .closing :: more) := by
  have htext : (renderValue column path).toList ++ rest = "json_extract".toList ++ '(' ::
      (column.view.toList ++ '.' :: (column.name.toList ++ ',' :: ' ' ::
        ((Sql.placeholder path).toList ++ ')' :: rest))) := by
    have hvalue : renderValue column path = "json_extract(" ++ (column.view ++ "." ++ column.name)
        ++ ", " ++ Sql.placeholder path ++ ")" := rfl
    have hopening : "json_extract(".toList = "json_extract".toList ++ ['('] := rfl
    have hpoint : ".".toList = ['.'] := rfl
    have hcomma : ", ".toList = [',', ' '] := rfl
    have hclosing : ")".toList = [')'] := rfl
    simp only [hvalue, String.toList_append, hopening, hpoint, hcomma, hclosing,
      List.append_assoc, List.cons_append, List.nil_append]
  rw [htext]
  -- Tokens are put in front of the rest one by one, so the value is cut from its closing parenthesis back.
  have hpath := h.closing.placeholder path (endsRun_cons _ (by decide))
  have hcomma : Cuts (',' :: ' ' :: ((Sql.placeholder path).toList ++ ')' :: rest)) _ :=
    hpath.blank.token rfl (by decide) (Nat.le_refl _)
  have hcolumn := hcomma.word column.name hname (endsRun_cons _ (by decide))
  have hpoint : Cuts ('.' :: (column.name.toList ++ ',' :: ' ' ::
      ((Sql.placeholder path).toList ++ ')' :: rest))) _ :=
    hcolumn.token rfl (by decide) (Nat.le_refl _)
  have hopening := (hpoint.word column.view hview (endsRun_cons _ (by decide))).opening
  exact hopening.word "json_extract" rfl (endsRun_cons _ (by decide))

theorem cuts_renderOperand (op : CompareOp) (operand : Nat) {rest : List Char} {more : List Token}
    (hrest : EndsRun Ascii.isWord rest) (h : Cuts rest more) :
    Cuts ((renderOperand op operand).toList ++ rest) (operandTokens op operand ++ more) := by
  have hsign := (h.placeholder operand hrest).blank
  cases op with
  | like =>
    have htext : (renderOperand .like operand).toList ++ rest = ' ' :: ("LIKE".toList ++ ' ' ::
        ((Sql.placeholder operand).toList ++ ' ' :: ("ESCAPE".toList ++ ' ' :: '\'' :: '\\' ::
          '\'' :: rest))) := by
      simp [renderOperand]
    rw [htext]
    have hquoted : Cuts ('\'' :: '\\' :: '\'' :: rest) (.quoted ['\\'] :: more) :=
      h.token rfl (by decide) (by simp; omega)
    have hescape := hquoted.blank.word "ESCAPE" (by decide) (endsRun_cons _ (by decide))
    have hoperand := hescape.blank.placeholder operand (endsRun_cons _ (by decide))
    exact (hoperand.blank.word "LIKE" (by decide) (endsRun_cons _ (by decide))).blank
  | _ =>
    simpa [renderOperand, operandTokens] using (hsign.sign _ (by decide)).blank

mutual

/-- The text of a condition is cut into its tokens. -/
theorem cuts_render {c : Condition} (hc : c.Writable) {rest : List Char} {more : List Token}
    (hrest : EndsRun Ascii.isWord rest) (h : Cuts rest more) :
    Cuts (c.render.toList ++ rest) (c.tokens ++ more) := by
  have hbefore : EndsRun Ascii.isWord (')' :: rest) := endsRun_cons _ (by decide)
  cases c with
  | constant b =>
    have hright := h.digit (c := if b then '1' else '0') (by cases b <;> decide) hrest
    have hsign := hright.blank.sign .eq (by decide)
    have hleft := hsign.blank.digit (c := '1') (by decide) (endsRun_cons _ (by decide))
    cases b <;> exact hleft
  | test column path op operand =>
    have hoperand := cuts_renderOperand op operand hrest h
    simpa [render, tokens] using cuts_renderValue column path hc.1 hc.2 hoperand
  | conj children =>
    have hchildren := cuts_renderEach "AND" rfl hc.1 hc.2 hbefore h.closing
    simpa [render, tokens] using hchildren.opening
  | disj children =>
    have hchildren := cuts_renderEach "OR" rfl hc.1 hc.2 hbefore h.closing
    simpa [render, tokens] using hchildren.opening
  | neg child =>
    have hchild := cuts_render (c := child) hc hbefore h.closing
    have hnot := hchild.opening.blank.word "NOT" rfl (endsRun_cons _ (by decide))
    simpa [render, tokens] using hnot

theorem cuts_renderEach (between : String) (hbetween : Ascii.isIdentifier between = true)
    {children : List Condition} (hne : children ≠ []) (hc : EachWritable children)
    {rest : List Char} {more : List Token} (hrest : EndsRun Ascii.isWord rest) (h : Cuts rest more) :
    Cuts ((renderEach (" " ++ between ++ " ") children).toList ++ rest)
      (tokensOfEach between children ++ more) := by
  match children with
  | [] => exact absurd rfl hne
  | [child] => exact cuts_render hc.1 hrest h
  | child :: next :: others =>
    have hothers := cuts_renderEach between hbetween (List.cons_ne_nil next others) hc.2 hrest h
    have hword := (hothers.blank.word between hbetween (endsRun_cons _ (by decide))).blank
    simpa [renderEach, tokensOfEach] using cuts_render hc.1 (endsRun_cons _ (by decide)) hword

end

theorem readAll_render {c : Condition} (hc : c.Writable) :
    Token.readAll c.render.toList = some c.tokens := by
  have h := cuts_render hc (endsRun_nil _) cuts_nil
  simp only [List.append_nil] at h
  exact h _ (Nat.le_refl _)

mutual

/-- What the tokens of a condition read as. -/
def formula : Condition → Formula
  | constant b => .numbers 1 .eq (if b then 1 else 0)
  | test column path op operand => .test ⟨column, path, op, operand⟩
  | conj children => formulaOfEach .conj children
  | disj children => formulaOfEach .disj children
  | neg child => .neg child.formula

def formulaOfEach (join : Formula → Formula → Formula) : List Condition → Formula
  | [] => .numbers 1 .eq 1
  | [child] => child.formula
  | child :: next :: rest => join child.formula (formulaOfEach join (next :: rest))

end

mutual

/-- What a condition reads as has the condition's truth value. -/
theorem truth_formula (value : Test → Truth) {c : Condition} (hc : c.Writable) :
    c.formula.truth value = c.truth value := by
  cases c with
  | constant b => cases b <;> rfl
  | test column path op operand => rfl
  | conj children =>
    obtain ⟨hne, heach⟩ := hc
    exact truth_formulaOfEach value .conj Truth.both (some true) (fun _ _ => rfl) Truth.both_true
      hne heach
  | disj children =>
    obtain ⟨hne, heach⟩ := hc
    exact truth_formulaOfEach value .disj Truth.either (some false) (fun _ _ => rfl)
      Truth.either_false hne heach
  | neg child => exact congrArg Truth.neg (truth_formula value (c := child) hc)

theorem truth_formulaOfEach (value : Test → Truth) (join : Formula → Formula → Formula)
    (combine : Truth → Truth → Truth) (unit : Truth)
    (hjoin : ∀ f g, (join f g).truth value = combine (f.truth value) (g.truth value))
    (hunit : ∀ a, combine a unit = a) {children : List Condition} (hne : children ≠ [])
    (hc : EachWritable children) :
    (formulaOfEach join children).truth value =
      (truthOfEach value children).foldr combine unit := by
  match children with
  | [] => exact absurd rfl hne
  | [child] => simp [formulaOfEach, truthOfEach, hunit, truth_formula value hc.1]
  | child :: next :: others =>
    have hothers := truth_formulaOfEach value join combine unit hjoin hunit
      (List.cons_ne_nil next others) hc.2
    rw [formulaOfEach, hjoin, truth_formula value hc.1, hothers]
    rfl

end

end Condition

namespace Formula

open Condition

theorem readComparison_test (column : Column) (path : Nat) (op : CompareOp) (operand : Nat)
    (rest : List Token) :
    readComparison ((Condition.test column path op operand).tokens ++ rest) =
      some (.test ⟨column, path, op, operand⟩, rest) := by
  cases op <;> rfl

/-- A word that would join what was read to more does not follow. -/
def Unjoined (word : String) (rest : List Token) : Prop :=
  ∀ token ∈ rest.head?, token.isWord word = false

theorem unjoined_closing (word : String) (rest : List Token) : Unjoined word (.closing :: rest) := by
  rintro token ⟨⟩
  rfl

theorem readEvery_of_readNegation {fuel : Nat} {tokens rest : List Token} {f : Formula}
    (h : readNegation fuel tokens = some (f, rest)) (hrest : Unjoined "AND" rest) :
    readEvery (fuel + 1) tokens = some (f, rest) := by
  rw [readEvery, h]
  cases rest with
  | nil => rfl
  | cons next more => simp [hrest next rfl]

theorem readAny_of_readEvery {fuel : Nat} {tokens rest : List Token} {f : Formula}
    (h : readEvery fuel tokens = some (f, rest)) (hrest : Unjoined "OR" rest) :
    readAny (fuel + 1) tokens = some (f, rest) := by
  rw [readAny, h]
  cases rest with
  | nil => rfl
  | cons next more => simp [hrest next rfl]

/-- What stands between parentheses is read as a whole. -/
theorem readNegation_parentheses {fuel : Nat} {inner rest : List Token} {f : Formula}
    (h : readAny fuel (inner ++ .closing :: rest) = some (f, .closing :: rest)) :
    readNegation (fuel + 1) (.opening :: (inner ++ .closing :: rest)) = some (f, rest) := by
  rw [readNegation]
  simp [Token.isWord, h]

-- A form is entered from a looser one without a token being read, at most three times in a row, whence the
-- three steps for each token. A junction's first child is read one form below the junction.
mutual

/-- A condition's tokens at the front are read as the condition. -/
theorem readNegation_tokens {c : Condition} (hc : c.Writable) (rest : List Token) (fuel : Nat)
    (hfuel : 3 * c.tokens.length + 1 ≤ fuel) :
    readNegation fuel (c.tokens ++ rest) = some (c.formula, rest) := by
  obtain ⟨fuel, rfl⟩ : ∃ less, fuel = less + 1 := ⟨fuel - 1, by omega⟩
  cases c with
  | constant b => rfl
  | test column path op operand => exact readComparison_test column path op operand rest
  | conj children =>
    have hlength : (Condition.conj children).tokens.length =
        (tokensOfEach "AND" children).length + 2 := by simp [Condition.tokens]
    obtain ⟨fuel, rfl⟩ : ∃ less, fuel = less + 1 := ⟨fuel - 1, by omega⟩
    have hevery := readEvery_tokens hc.1 hc.2 (unjoined_closing _ rest) fuel (by omega)
    have hany := readAny_of_readEvery hevery (unjoined_closing _ rest)
    simpa [Condition.tokens, Condition.formula] using readNegation_parentheses hany
  | disj children =>
    have hlength : (Condition.disj children).tokens.length =
        (tokensOfEach "OR" children).length + 2 := by simp [Condition.tokens]
    have hany := readAny_tokens hc.1 hc.2 (unjoined_closing _ rest) (unjoined_closing _ rest) fuel
      (by omega)
    simpa [Condition.tokens, Condition.formula] using readNegation_parentheses hany
  | neg child =>
    have hlength : (Condition.neg child).tokens.length = child.tokens.length + 3 := by
      simp [Condition.tokens]
    obtain ⟨fuel, rfl⟩ : ∃ less, fuel = less + 3 := ⟨fuel - 3, by omega⟩
    have hchild := readNegation_tokens (c := child) hc (.closing :: rest) fuel (by omega)
    have hevery := readEvery_of_readNegation hchild (unjoined_closing _ rest)
    have hany := readAny_of_readEvery hevery (unjoined_closing _ rest)
    have hinner := readNegation_parentheses hany
    have htokens : (Condition.neg child).tokens ++ rest =
        .word "NOT" :: .opening :: (child.tokens ++ .closing :: rest) := by simp [Condition.tokens]
    have hword : (Token.word "NOT").isWord "NOT" = true := rfl
    rw [htokens, readNegation, hword, if_pos rfl, hinner]
    rfl

theorem readEvery_tokens {children : List Condition} (hne : children ≠ [])
    (hc : EachWritable children) {rest : List Token} (hrest : Unjoined "AND" rest) (fuel : Nat)
    (hfuel : 3 * (tokensOfEach "AND" children).length + 2 ≤ fuel) :
    readEvery fuel (tokensOfEach "AND" children ++ rest) =
      some (formulaOfEach .conj children, rest) := by
  obtain ⟨fuel, rfl⟩ : ∃ less, fuel = less + 1 := ⟨fuel - 1, by omega⟩
  match children with
  | [] => exact absurd rfl hne
  | [child] =>
    rw [tokensOfEach] at hfuel
    exact readEvery_of_readNegation (readNegation_tokens hc.1 rest fuel (by omega)) hrest
  | child :: next :: others =>
    rw [tokensOfEach, List.length_append, List.length_cons] at hfuel
    have hothers := readEvery_tokens (List.cons_ne_nil next others) hc.2 hrest fuel (by omega)
    have hchild := readNegation_tokens hc.1
      (.word "AND" :: (tokensOfEach "AND" (next :: others) ++ rest)) fuel (by omega)
    have hword : (Token.word "AND").isWord "AND" = true := rfl
    rw [tokensOfEach, List.append_assoc, List.cons_append, readEvery, hchild]
    simp [hword, hothers, formulaOfEach]

theorem readAny_tokens {children : List Condition} (hne : children ≠ [])
    (hc : EachWritable children) {rest : List Token} (hand : Unjoined "AND" rest)
    (hor : Unjoined "OR" rest) (fuel : Nat)
    (hfuel : 3 * (tokensOfEach "OR" children).length + 3 ≤ fuel) :
    readAny fuel (tokensOfEach "OR" children ++ rest) =
      some (formulaOfEach .disj children, rest) := by
  obtain ⟨fuel, rfl⟩ : ∃ less, fuel = less + 2 := ⟨fuel - 2, by omega⟩
  match children with
  | [] => exact absurd rfl hne
  | [child] =>
    rw [tokensOfEach] at hfuel
    have hchild := readNegation_tokens hc.1 rest fuel (by omega)
    exact readAny_of_readEvery (readEvery_of_readNegation hchild hand) hor
  | child :: next :: others =>
    rw [tokensOfEach, List.length_append, List.length_cons] at hfuel
    have hothers := readAny_tokens (List.cons_ne_nil next others) hc.2 hand hor (fuel + 1)
      (by omega)
    have hchild := readNegation_tokens hc.1
      (.word "OR" :: (tokensOfEach "OR" (next :: others) ++ rest)) fuel (by omega)
    have hword : (Token.word "OR").isWord "OR" = true := rfl
    -- The OR behind the child ends the conjunction that the child is alone in.
    have hfirst := readEvery_of_readNegation hchild (by rintro token ⟨⟩; rfl)
    rw [tokensOfEach, List.append_assoc, List.cons_append, readAny, hfirst]
    simp [hword, hothers, formulaOfEach]

end

/-- A written condition reads as the condition. -/
theorem read_render {c : Condition} (hc : c.Writable) : read c.render = some c.formula := by
  have hchild := readNegation_tokens hc [] (3 * c.tokens.length + 1) (Nat.le_refl _)
  have hnone (word : String) : Unjoined word [] := nofun
  have hany := readAny_of_readEvery (readEvery_of_readNegation hchild (hnone _)) (hnone _)
  rw [List.append_nil] at hany
  rw [read, readAll_render hc]
  simp [hany]

end Formula

end InventoryFeed.Sql

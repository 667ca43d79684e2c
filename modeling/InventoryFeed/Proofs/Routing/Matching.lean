import InventoryFeed.Document
import InventoryFeed.Proofs.Query.Wildcard
import InventoryFeed.Proofs.Routing.Condition
import InventoryFeed.Proofs.Sql.Order
import InventoryFeed.Proofs.Text.Digits
import InventoryFeed.Routing.Kind

/-!
# Equal to a literal and like it

A literal is bound as a value for a comparison and as a text for a match. An integer or a text that a value of
its kind is equal to is matched by it too. A truth value is not: it is bound as a number and as a word, and the
store, which keeps the number, compares the word with the number's text.
-/

namespace InventoryFeed

open Sql Routing

/-! ## Integers of a document -/

namespace Binary64

theorem toRat_withSign (x : Binary64) : (x.withSign false).toRat = x.size := by
  rw [toRat, size, signedMantissa, withSign, if_neg Bool.false_ne_true, Int.cast_natCast]

/-- The first number past the signed integers is a double. -/
theorem ofNat?_signedEnd : ofNat? Word.signedEnd = some ⟨false, leastMantissa, 11⟩ := rfl

theorem size_signedEnd : size ⟨false, leastMantissa, 11⟩ = Word.signedEnd := by
  norm_num [size]

/-- A number past the signed integers is not rounded to one of them. -/
theorem signedEnd_le_size {n : Nat} {x : Binary64} (h : Word.signedEnd ≤ n) (hx : ofNat? n = some x) :
    (Word.signedEnd : ℚ) ≤ x.size := by
  obtain ⟨y, hy, hle⟩ := ofNat?_mono h hx
  cases hy.symm.trans ofNat?_signedEnd
  rwa [size_signedEnd] at hle

end Binary64

namespace Json.Numeral

/-- The double of a number without fraction and exponent is the one nearest to its digits. -/
theorem nearest?_of_whole {n : Numeral} (hfraction : n.fraction = []) (hexponent : n.exponent = none)
    (hdigits : Ascii.ofDigits 10 n.whole ≠ 0) :
    n.nearest? = (Binary64.ofNat? (Ascii.ofDigits 10 n.whole)).map (Binary64.withSign n.negative) := by
  have hlong : ¬ ((n.whole.length : Int) < -400) := by omega
  simp [nearest?, hfraction, hexponent, hdigits, hlong, Binary64.ofNat?]

/-- The integer that is written without fraction and exponent. -/
def integer (n : Numeral) : Int :=
  if n.negative then -(Ascii.ofDigits 10 n.whole : Int) else Ascii.ofDigits 10 n.whole

theorem integer_of_toNumber? {n : Numeral} {value : Int} (h : n.toNumber? = some (.int value)) :
    n.fraction = [] ∧ n.exponent = none ∧ value = n.integer ∧ -(Word.signedEnd : Int) ≤ value := by
  have hreal : ∀ {x : Option Binary64}, x.map Number.real ≠ some (.int value) := by
    rintro (_ | x) hx <;> cases hx
  rw [toNumber?] at h
  split at h
  · rename_i hwhole
    obtain ⟨hfraction, hexponent⟩ := hwhole
    refine ⟨List.isEmpty_iff.mp hfraction, Option.isNone_iff_eq_none.mp hexponent, ?_⟩
    rw [integer]
    cases hnegative : n.negative with
    | true =>
      simp only [hnegative, if_true] at h ⊢
      split at h
      · rename_i hsize
        cases h
        exact ⟨rfl, Int.neg_le_neg (Int.ofNat_le.mpr hsize.2)⟩
      · exact absurd h hreal
    | false =>
      simp only [hnegative, Bool.false_eq_true, if_false] at h ⊢
      split at h
      · cases h
        exact ⟨rfl, Int.le_trans (by decide) (Int.natCast_nonneg _)⟩
      · exact absurd h hreal
  · exact absurd h hreal

theorem positive_of_past {n : Numeral} (h : (Word.signedEnd : Int) ≤ n.integer) :
    n.negative = false ∧ Word.signedEnd ≤ Ascii.ofDigits 10 n.whole := by
  have hend : (0 : Int) < Word.signedEnd := by decide
  rw [integer] at h
  cases hnegative : n.negative with
  | true =>
    rw [hnegative, if_pos rfl] at h
    omega
  | false =>
    rw [hnegative, if_neg Bool.false_ne_true] at h
    exact ⟨rfl, Int.ofNat_le.mp h⟩

/-- An integer is read as such by the store, or it is past the signed integers and at best a double that is
past them. -/
theorem ofNumeral_of_int {n : Numeral} {value : Int} (h : n.toNumber? = some (.int value)) :
    ofNumeral n = .integer value ∨
      ofNumeral n = .null ∨ ∃ x, ofNumeral n = .real x ∧ (Word.signedEnd : ℚ) ≤ x.toRat := by
  obtain ⟨hfraction, hexponent, hvalue, hlow⟩ := integer_of_toNumber? h
  have hmade : ofNumeral n = if Word.isSigned value then .integer value else
      (n.nearest?.map Value.real).getD .null := by
    rw [hvalue, ofNumeral, integer]
    simp only [hfraction, hexponent, List.isEmpty_nil, Option.isNone_none, Bool.true_and]
    cases n.nearest? <;> rfl
  rw [hmade]
  by_cases hsigned : Word.isSigned value = true
  · exact .inl (if_pos hsigned)
  · have hpast : (Word.signedEnd : Int) ≤ value := by
      simp only [Word.isSigned, Bool.and_eq_true, decide_eq_true_eq, not_and, not_lt] at hsigned
      exact hsigned hlow
    obtain ⟨hpositive, hdigits⟩ := positive_of_past (hvalue ▸ hpast)
    have hnonzero : Ascii.ofDigits 10 n.whole ≠ 0 :=
      Nat.ne_of_gt (Nat.lt_of_lt_of_le (by decide) hdigits)
    rw [if_neg hsigned, nearest?_of_whole hfraction hexponent hnonzero, hpositive]
    cases hnearest : Binary64.ofNat? (Ascii.ofDigits 10 n.whole) with
    | none => exact .inr (.inl rfl)
    | some x =>
      refine .inr (.inr ⟨x.withSign false, rfl, ?_⟩)
      rw [Binary64.toRat_withSign]
      exact Binary64.signedEnd_le_size hdigits hnearest

end Json.Numeral

namespace Literal

theorem plain_of_isDigit {c : Char} (h : Ascii.isDigit c = true) : Wildcard.IsPlain c := by
  refine ⟨?_, ?_, ?_⟩ <;> rintro rfl <;> exact absurd h (by decide)

/-- The text of an integer has no wildcard in it. -/
theorem plain_toString (n : Int) : ∀ c ∈ (toString n).toList, Wildcard.IsPlain c := by
  have hdigits (m : Nat) : ∀ c ∈ (toString m).toList, Wildcard.IsPlain c := by
    intro c hc
    rw [Nat.toString_eq_ofList_toDigits] at hc
    exact plain_of_isDigit (Ascii.isDigit_of_mem_toDigits (by simpa using hc))
  cases n with
  | ofNat m => exact hdigits m
  | negSucc m =>
    change ∀ c ∈ ("-" ++ toString (m + 1)).toList, Wildcard.IsPlain c
    rw [String.toList_append]
    exact List.forall_mem_append.mpr ⟨by simp [Wildcard.IsPlain], hdigits (m + 1)⟩

variable {v : Literal} {part : Json.Tree}

/-- An integer of a document that an integer is equal to is stored as that integer. -/
theorem ofNumeral_of_eq {n : Int64} {m : Json.Numeral} {value : Int}
    (hm : m.toNumber? = some (.int value))
    (h : compareBy .eq (ofNumeral m) (.integer n.toInt) = some true) :
    ofNumeral m = .integer n.toInt := by
  rcases m.ofNumeral_of_int hm with hmade | hmade | ⟨x, hmade, hx⟩
  · rw [hmade] at h ⊢
    have heq : Ord.compare value n.toInt = .eq := of_decide_eq_true (Option.some.inj h)
    rw [Std.compare_eq_iff_eq.mp heq]
  · rw [hmade] at h
    cases h
  · rw [hmade] at h
    have heq : x.compareInt n.toInt = .eq := of_decide_eq_true (Option.some.inj h)
    rw [Binary64.compareInt_eq, Std.compare_eq_iff_eq] at heq
    rw [heq] at hx
    have hsmall : n.toInt < Word.signedEnd := n.toInt_lt
    exact absurd (Int.cast_le.mp (by exact_mod_cast hx)) (not_le.mpr hsmall)

theorem int_of_sameKind {n : Int64} {m : Json.Numeral} (h : (int n).sameKind (.number m) = true) :
    ∃ value, m.toNumber? = some (.int value) := by
  rw [sameKind] at h
  split at h
  · exact ⟨_, ‹_›⟩
  · cases h

/-- A part that is equal to a literal of its kind is like it, truth values apart. -/
theorem compareBy_like_of_eq (hplain : v.Plain) (hkind : v.sameKind part = true)
    (h : compareBy .eq (ofTree part) v.value = some true) :
    compareBy .like (ofTree part) (v.operand .like) = some (!v.isBool) := by
  cases v with
  | bool b =>
    cases part with
    | bool b' =>
      -- The number is one digit, the word is not.
      have hnot : ∀ b b' : Bool,
          compareBy .like (ofTree (.bool b')) ((bool b).operand .like) = some false := by
        decide +kernel
      exact hnot b b'
    | _ => cases hkind
  | int n =>
    cases part with
    | number m =>
      obtain ⟨value, hm⟩ := int_of_sameKind hkind
      rw [ofTree, ofNumeral_of_eq hm h]
      exact congrArg some (Wildcard.like_self (plain_toString n.toInt))
    | _ => cases hkind
  | real x => exact hplain.elim
  | text s =>
    cases part with
    | string raw =>
      have heq : Ord.compare (String.ofList ((Json.unescape raw).getD raw)) s = .eq :=
        of_decide_eq_true (Option.some.inj h)
      rw [ofTree, Std.compare_eq_iff_eq.mp heq]
      exact congrArg some (Wildcard.like_self hplain)
    | _ => cases hkind

end Literal

/-! ## The routed comparison -/

section

variable {catalog : Catalog} {field : FieldRef} {v : Literal}

/-- The query that a comparison is routed to tests one column against the literal's operand. -/
structure Routing.Compared (field : FieldRef) (op : CompareOp) (v : Literal) (column : Sql.Column)
    (q : RoutedQuery) : Prop where
  condition : q.select.condition = .test column 1 op 2
  params : q.params = [pathValue field.path, v.operand op]

/-- A comparison is routed whatever its operator is, and always to a test of the same column. -/
theorem compared_of_route {op : CompareOp} {q : RoutedQuery}
    (h : (Request.ofPredicate (.compare field op v)).route catalog = .ok q) :
    ∃ column, Compared field op v column q ∧
      ∀ other, ∃ q', (Request.ofPredicate (.compare field other v)).route catalog = .ok q' ∧
        Compared field other v column q' := by
  obtain ⟨levels, c, params, doc, order, orderParams, hlevels, hcondition, hdoc, horder, rfl⟩ :=
    route_eq_ok.mp h
  obtain ⟨column, hcolumn, hmade⟩ := bind_eq_ok.mp hcondition
  cases hmade
  cases horder
  refine ⟨column, ⟨rfl, rfl⟩, fun other => ⟨_, route_eq_ok.mpr ⟨levels, .test column 1 other 2,
    [pathValue field.path, v.operand other], doc, [], [], hlevels, ?_, hdoc, rfl, rfl⟩, rfl, rfl⟩⟩
  exact bind_eq_ok.mpr ⟨column, hcolumn, rfl⟩

/-- On a row such a test compares the value of the part at the field's path. -/
theorem Routing.Compared.is_eq {op : CompareOp} {column : Sql.Column} {q : RoutedQuery}
    (h : Compared field op v column q) {relation : Relation} {row : List Value} {part : Json.Tree}
    (hpart : relation.partAt? row column field.path = some part) :
    q.select.condition.is ⟨relation, q.params⟩ row true =
      .ok (compareBy op (ofTree part) (v.operand op) = some true) := by
  simp only [Relation.partAt?, Option.bind_eq_bind, Option.bind_eq_some_iff] at hpart
  obtain ⟨doc, hdoc, tree, htree, hat⟩ := hpart
  have hextracted : Scope.extracted ⟨relation, q.params⟩ row column 1 = .ok (ofTree part) := by
    have hpath : Scope.param ⟨relation, q.params⟩ 1 = pathValue field.path := by
      rw [h.params]
      rfl
    rw [Scope.extracted, hpath, hdoc, pathValue]
    simp only [Value.text?, extract?, htree, Option.map_some, hat]
  have hoperand : Scope.param ⟨relation, q.params⟩ 2 = v.operand op := by
    rw [h.params]
    rfl
  rw [h.condition, Condition.is, hextracted, hoperand]
  rfl

/-- A record whose value at a field's path is of the kind of a literal and equal to it is matched by it if the
literal is an integer, or a text without wildcards and backslashes. If the literal is a truth value, such a
record is not matched by it. -/
theorem matches_of_eq (hplain : v.Plain) {q : RoutedQuery}
    (h : (Request.ofPredicate (.compare field .eq v)).route catalog = .ok q) :
    ∃ q', (Request.ofPredicate (.compare field .like v)).route catalog = .ok q' ∧
      ∀ (relation : Relation) (row : List Value),
        (∀ column ∈ q.select.condition.columns,
          ∃ part ∈ relation.partAt? row column field.path, v.sameKind part) →
        q.select.condition.is ⟨relation, q.params⟩ row true = .ok true →
        q'.select.condition.is ⟨relation, q'.params⟩ row true = .ok !v.isBool := by
  obtain ⟨column, hcompared, hothers⟩ := compared_of_route h
  obtain ⟨q', hroute, hlike⟩ := hothers .like
  refine ⟨q', hroute, fun relation row hkinds heq => ?_⟩
  have hmem : column ∈ q.select.condition.columns := by
    rw [hcompared.condition]
    exact .head _
  obtain ⟨part, hpart, hkind⟩ := hkinds column hmem
  rw [hcompared.is_eq hpart] at heq
  have heq : compareBy .eq (ofTree part) v.value = some true := of_decide_eq_true (Except.ok.inj heq)
  rw [hlike.is_eq hpart, Literal.compareBy_like_of_eq hplain hkind heq]
  cases v.isBool <;> rfl

end

/-- What is a wildcard in the store's patterns only is none in a query's. -/
theorem matches_of_eq_percent :
    let relation : Relation := ⟨[⟨"id", 0⟩, ⟨"jsonb", 0⟩], []⟩
    let row : List Value := [.text "a", .text (Document.object [("title", .text "5%_")]).compact]
    ∃ q, (Request.ofPredicate (.compare ⟨none, "title"⟩ .like (.text "5%_"))).route Catalog.inventory =
      .ok q ∧ q.select.condition.is ⟨relation, q.params⟩ row true = .ok true := by
  intro relation row
  have hplain : (Literal.text "5%_").Plain := by simp [Literal.Plain, Wildcard.IsPlain]
  have heq : (Request.ofPredicate (.compare ⟨none, "title"⟩ .eq (.text "5%_"))).route
    Catalog.inventory = .ok _ := rfl
  obtain ⟨q, hq, hmatches⟩ := matches_of_eq hplain heq
  exact ⟨q, hq, hmatches relation row (by decide +kernel) (eq_ok_of_toOption (by decide +kernel))⟩

/-- A truth value is equal to the one in a document and does not match it. -/
theorem eq_true_not_matched :
    let relation : Relation := ⟨[⟨"id", 0⟩, ⟨"jsonb", 0⟩], []⟩
    let row : List Value := [.text "a", .text (Document.object [("sent", .bool true)]).compact]
    ∃ q q', (Request.ofPredicate (.compare ⟨none, "sent"⟩ .eq (.bool true))).route Catalog.inventory =
        .ok q ∧
      (Request.ofPredicate (.compare ⟨none, "sent"⟩ .like (.bool true))).route Catalog.inventory =
        .ok q' ∧
      (∀ column ∈ q.select.condition.columns,
        ∃ part ∈ relation.partAt? row column "sent", (Literal.bool true).sameKind part) ∧
      q.select.condition.is ⟨relation, q.params⟩ row true = .ok true ∧
      q'.select.condition.is ⟨relation, q'.params⟩ row true = .ok false :=
  ⟨_, _, rfl, rfl, by decide +kernel, eq_ok_of_toOption (by decide +kernel),
    eq_ok_of_toOption (by decide +kernel)⟩

end InventoryFeed

import InventoryFeed.Proofs.Sql.Reading

/-!
# The tokens of a query

A query whose names are identifiers is cut into its tokens. In the tokens stand, from left to right, the
placeholders of the tests, those of the order and those of the page, and the values that tests and order
look up in documents.
-/

namespace InventoryFeed.Sql

namespace Token

@[simp] theorem placeholders_nil : placeholders [] = [] := rfl

@[simp] theorem placeholders_cons (token : Token) (rest : List Token) :
    placeholders (token :: rest) = token.placeholder?.toList ++ placeholders rest := by
  cases token <;> rfl

@[simp] theorem placeholders_append (tokens more : List Token) :
    placeholders (tokens ++ more) = placeholders tokens ++ placeholders more :=
  List.filterMap_append

/-- No value of a document is at the front where another word stands, or no word. -/
theorem extractions_of_other (token : Token) (rest : List Token)
    (h : token.isWord "json_extract" = false) : extractions (token :: rest) = extractions rest := by
  have hnone : extraction? (token :: rest) = none := by
    unfold extraction?
    split
    · rename_i heq
      cases heq
      rw [if_neg (by simp [h])]
    · rfl
  rw [extractions, hnone]
  rfl

/-- No value of a document is at the front where a name is not called. -/
theorem extractions_of_uncalled (token : Token) {rest : List Token}
    (h : rest.head? ≠ some .opening) : extractions (token :: rest) = extractions rest := by
  have hnone : extraction? (token :: rest) = none := by
    unfold extraction?
    split
    · rename_i heq
      cases heq
      exact absurd rfl h
    · rfl
  rw [extractions, hnone]
  rfl

end Token

open Token

namespace Column

/-- A column whose names are identifiers. -/
def Plain (c : Column) : Prop :=
  Ascii.isIdentifier c.view = true ∧ Ascii.isIdentifier c.name = true

def tokens (c : Column) : List Token := [.word c.view, .point, .word c.name]

theorem cuts_render {c : Column} (hc : c.Plain) {rest : List Char} {more : List Token}
    (hrest : EndsRun Ascii.isWord rest) (h : Cuts rest more) :
    Cuts (c.render.toList ++ rest) (c.tokens ++ more) := by
  have htext : c.render.toList ++ rest = c.view.toList ++ '.' :: (c.name.toList ++ rest) := by
    simp [Column.render]
  have hname := h.word c.name hc.2 hrest
  have hpoint : Cuts ('.' :: (c.name.toList ++ rest)) (.point :: .word c.name :: more) :=
    hname.token rfl (by decide) (Nat.le_refl _)
  rw [htext]
  exact hpoint.word c.view hc.1 (endsRun_cons _ (by decide))

theorem placeholders_tokens (c : Column) : placeholders c.tokens = [] := rfl

/-- A column that is not called is no value of a document. -/
theorem extractions_tokens (c : Column) {rest : List Token} (h : rest.head? ≠ some .opening) :
    extractions (c.tokens ++ rest) = extractions rest := by
  change extractions (.word c.view :: .point :: .word c.name :: rest) = _
  rw [extractions_of_uncalled _ (by simp), extractions_of_other _ _ rfl, extractions_of_uncalled _ h]

end Column

/-- The tokens of a document's value at a path. -/
def valueTokens (column : Column) (path : Nat) : List Token :=
  .word "json_extract" :: .opening :: (column.tokens ++ [.comma, .placeholder path, .closing])

theorem placeholders_valueTokens (column : Column) (path : Nat) :
    placeholders (valueTokens column path) = [path] := rfl

/-- A document's value at a path is found in its tokens. -/
theorem extractions_valueTokens (column : Column) (path : Nat) (rest : List Token) :
    extractions (valueTokens column path ++ rest) = (column, path) :: extractions rest := by
  have hfront : extraction? (valueTokens column path ++ rest) = some (column, path) := rfl
  have hsplit : valueTokens column path ++ rest = .word "json_extract" :: .opening ::
      (column.tokens ++ .comma :: .placeholder path :: .closing :: rest) := by simp [valueTokens]
  rw [hsplit] at hfront ⊢
  rw [extractions, hfront, extractions_of_other _ _ rfl, column.extractions_tokens (by simp),
    extractions_of_other _ _ rfl, extractions_of_other _ _ rfl, extractions_of_other _ _ rfl]
  rfl

namespace Condition

theorem placeholders_operandTokens (op : CompareOp) (operand : Nat) :
    placeholders (operandTokens op operand) = [operand] := by
  cases op <;> rfl

theorem extractions_operandTokens (op : CompareOp) (operand : Nat) (rest : List Token) :
    extractions (operandTokens op operand ++ rest) = extractions rest := by
  cases op with
  | like =>
    change extractions (.word "LIKE" :: .placeholder operand :: .word "ESCAPE" :: .quoted ['\\'] ::
      rest) = _
    rw [extractions_of_other _ _ rfl, extractions_of_other _ _ rfl, extractions_of_other _ _ rfl,
      extractions_of_other _ _ rfl]
  | _ => exact (extractions_of_other _ _ rfl).trans (extractions_of_other _ _ rfl)

theorem tokens_test (column : Column) (path : Nat) (op : CompareOp) (operand : Nat) :
    (Condition.test column path op operand).tokens =
      valueTokens column path ++ operandTokens op operand := by
  simp [tokens, valueTokens, Column.tokens]

mutual

/-- The placeholders in the tokens of a condition are those of its tests, the path before the operand. -/
theorem placeholders_tokens (c : Condition) :
    placeholders c.tokens = c.tests.flatMap fun t => [t.path, t.operand] := by
  cases c with
  | constant b => rfl
  | test column path op operand =>
    rw [tokens_test, placeholders_append, placeholders_valueTokens, placeholders_operandTokens]
    rfl
  | conj children =>
    have hchildren := placeholders_tokensOfEach "AND" children
    simp [tokens, tests, placeholder?, hchildren]
  | disj children =>
    have hchildren := placeholders_tokensOfEach "OR" children
    simp [tokens, tests, placeholder?, hchildren]
  | neg child =>
    have hchild := placeholders_tokens child
    simp [tokens, tests, placeholder?, hchild]

theorem placeholders_tokensOfEach (between : String) (children : List Condition) :
    placeholders (tokensOfEach between children) =
      (testsOfEach children).flatMap fun t => [t.path, t.operand] := by
  match children with
  | [] => rfl
  | [child] =>
    have hchild := placeholders_tokens child
    simpa [tokensOfEach, testsOfEach] using hchild
  | child :: next :: others =>
    have hothers := placeholders_tokensOfEach between (next :: others)
    have hsplit : testsOfEach (child :: next :: others) = child.tests ++ testsOfEach (next :: others) :=
      rfl
    rw [tokensOfEach, placeholders_append, placeholders_tokens child, placeholders_cons, hothers,
      hsplit, List.flatMap_append]
    rfl

end

mutual

/-- The values in the tokens of a condition are those that its tests look up. -/
theorem extractions_tokens (c : Condition) (rest : List Token) :
    extractions (c.tokens ++ rest) =
      (c.tests.map fun t => (t.column, t.path)) ++ extractions rest := by
  cases c with
  | constant b =>
    cases b <;> exact (extractions_of_other _ _ rfl).trans
      ((extractions_of_other _ _ rfl).trans (extractions_of_other _ _ rfl))
  | test column path op operand =>
    rw [tokens_test, List.append_assoc, extractions_valueTokens, extractions_operandTokens]
    rfl
  | conj children =>
    have hchildren := extractions_tokensOfEach "AND" rfl children (.closing :: rest)
    rw [extractions_of_other .closing rest rfl] at hchildren
    rw [tokens, List.append_assoc, List.cons_append, extractions_of_other _ _ rfl]
    exact hchildren
  | disj children =>
    have hchildren := extractions_tokensOfEach "OR" rfl children (.closing :: rest)
    rw [extractions_of_other .closing rest rfl] at hchildren
    rw [tokens, List.append_assoc, List.cons_append, extractions_of_other _ _ rfl]
    exact hchildren
  | neg child =>
    have hchild := extractions_tokens child (.closing :: rest)
    rw [extractions_of_other .closing rest rfl] at hchild
    rw [tokens, List.append_assoc, List.cons_append, extractions_of_other _ _ rfl,
      List.cons_append, extractions_of_other _ _ rfl]
    exact hchild

theorem extractions_tokensOfEach (between : String)
    (hbetween : (Token.word between).isWord "json_extract" = false) (children : List Condition)
    (rest : List Token) :
    extractions (tokensOfEach between children ++ rest) =
      ((testsOfEach children).map fun t => (t.column, t.path)) ++ extractions rest := by
  match children with
  | [] => rfl
  | [child] =>
    have hchild := extractions_tokens child rest
    simpa [tokensOfEach, testsOfEach] using hchild
  | child :: next :: others =>
    have hothers := extractions_tokensOfEach between hbetween (next :: others) rest
    have hsplit : testsOfEach (child :: next :: others) = child.tests ++ testsOfEach (next :: others) :=
      rfl
    rw [tokensOfEach, List.append_assoc, List.cons_append, extractions_tokens child,
      extractions_of_other _ _ hbetween, hothers, hsplit, List.map_append, List.append_assoc]

end

end Condition

namespace OrderTerm

/-- The tokens of a sort key. -/
def tokens (grouped : Bool) (term : OrderTerm) : List Token :=
  let value := valueTokens term.column term.path
  match grouped, term.descending with
  | true, true => .word "MAX" :: .opening :: (value ++ [.closing, .word "DESC"])
  | true, false => .word "MIN" :: .opening :: (value ++ [.closing, .word "ASC"])
  | false, true => value ++ [.word "DESC"]
  | false, false => value ++ [.word "ASC"]

def tokensOfEach (grouped : Bool) : List OrderTerm → List Token
  | [] => []
  | [term] => term.tokens grouped
  | term :: next :: rest => term.tokens grouped ++ .comma :: tokensOfEach grouped (next :: rest)

theorem cuts_value {column : Column} (hcolumn : column.Plain) (path : Nat) {rest : List Char}
    {more : List Token} (h : Cuts rest more) :
    Cuts ((renderValue column path).toList ++ rest) (valueTokens column path ++ more) := by
  simpa [valueTokens, Column.tokens] using
    Condition.cuts_renderValue column path hcolumn.1 hcolumn.2 h

theorem cuts_render (grouped : Bool) {term : OrderTerm} (hterm : term.column.Plain)
    {rest : List Char} {more : List Token} (hrest : EndsRun Ascii.isWord rest) (h : Cuts rest more) :
    Cuts ((term.render grouped).toList ++ rest) (term.tokens grouped ++ more) := by
  have hdesc := (h.word "DESC" rfl hrest).blank
  have hasc := (h.word "ASC" rfl hrest).blank
  unfold render tokens
  cases grouped <;> cases term.descending
  · simpa using cuts_value hterm term.path hasc
  · simpa using cuts_value hterm term.path hdesc
  · have hvalue := (cuts_value hterm term.path hasc.closing).opening
    simpa using hvalue.word "MIN" rfl (endsRun_cons _ (by decide))
  · have hvalue := (cuts_value hterm term.path hdesc.closing).opening
    simpa using hvalue.word "MAX" rfl (endsRun_cons _ (by decide))

theorem placeholders_tokens (grouped : Bool) (term : OrderTerm) :
    placeholders (term.tokens grouped) = [term.path] := by
  unfold tokens
  cases grouped <;> cases term.descending <;> rfl

theorem extractions_tokens (grouped : Bool) (term : OrderTerm) (rest : List Token) :
    extractions (term.tokens grouped ++ rest) = (term.column, term.path) :: extractions rest := by
  have hclosing (direction : Token) (h : direction.isWord "json_extract" = false) :
      extractions (.closing :: direction :: rest) = extractions rest :=
    (extractions_of_other _ _ rfl).trans (extractions_of_other _ _ h)
  unfold tokens
  cases grouped <;> cases term.descending <;>
    simp only [List.append_assoc, List.cons_append, List.nil_append]
  · rw [extractions_valueTokens, extractions_of_other _ _ rfl]
  · rw [extractions_valueTokens, extractions_of_other _ _ rfl]
  · rw [extractions_of_other _ _ rfl, extractions_of_other _ _ rfl, extractions_valueTokens,
      hclosing _ rfl]
  · rw [extractions_of_other _ _ rfl, extractions_of_other _ _ rfl, extractions_valueTokens,
      hclosing _ rfl]

theorem cuts_renderEach (grouped : Bool) {terms : List OrderTerm}
    (hterms : ∀ term ∈ terms, term.column.Plain) {rest : List Char} {more : List Token}
    (hrest : EndsRun Ascii.isWord rest) (h : Cuts rest more) :
    Cuts ((String.intercalate ", " (terms.map (render grouped))).toList ++ rest)
      (tokensOfEach grouped terms ++ more) := by
  rw [String.toList_intercalate, List.map_map]
  match terms with
  | [] => exact h
  | [term] => simpa [tokensOfEach] using cuts_render grouped (hterms term (.head _)) hrest h
  | term :: next :: others =>
    have hothers := cuts_renderEach grouped (fun other hother => hterms other (.tail _ hother)) hrest h
    have hcomma : Cuts (',' :: ' ' :: _) (.comma :: _) :=
      hothers.blank.token rfl (by decide) (Nat.le_refl _)
    rw [String.toList_intercalate, List.map_map] at hcomma
    have hterm := cuts_render grouped (hterms term (.head _)) (endsRun_cons _ (by decide)) hcomma
    simpa [tokensOfEach] using hterm

theorem placeholders_tokensOfEach (grouped : Bool) (terms : List OrderTerm) :
    placeholders (tokensOfEach grouped terms) = terms.map (·.path) := by
  match terms with
  | [] => rfl
  | [term] => exact placeholders_tokens grouped term
  | term :: next :: others =>
    have hothers := placeholders_tokensOfEach grouped (next :: others)
    rw [tokensOfEach, placeholders_append, placeholders_tokens, placeholders_cons, hothers]
    rfl

theorem extractions_tokensOfEach (grouped : Bool) (terms : List OrderTerm) (rest : List Token) :
    extractions (tokensOfEach grouped terms ++ rest) =
      (terms.map fun term => (term.column, term.path)) ++ extractions rest := by
  match terms with
  | [] => rfl
  | [term] => exact extractions_tokens grouped term rest
  | term :: next :: others =>
    have hothers := extractions_tokensOfEach grouped (next :: others) rest
    rw [tokensOfEach, List.append_assoc, List.cons_append, extractions_tokens,
      extractions_of_other _ _ rfl, hothers]
    rfl

end OrderTerm

namespace Select

/-- A query whose names are identifiers. -/
structure Writable (s : Select) : Prop where
  view : Ascii.isIdentifier s.view = true
  id : s.id.Plain
  doc : s.doc.Plain
  condition : s.condition.Writable
  order : ∀ term ∈ s.order, term.column.Plain

def groupText (s : Select) : String := if s.grouped then " GROUP BY " ++ s.id.render else ""

def orderText (s : Select) : String :=
  if s.order.isEmpty then "" else
    " ORDER BY " ++ String.intercalate ", " (s.order.map (OrderTerm.render s.grouped))

def pageText (s : Select) : String :=
  match s.page with
  | some page => " LIMIT " ++ placeholder page.limit ++ " OFFSET " ++ placeholder page.offset
  | none => ""

theorem render_eq (s : Select) :
    s.render = "SELECT " ++ s.id.render ++ ", " ++ s.doc.render ++ " FROM " ++ s.view ++ " WHERE " ++
      s.condition.render ++ s.groupText ++ s.orderText ++ s.pageText := rfl

def groupTokens (s : Select) : List Token :=
  if s.grouped then .word "GROUP" :: .word "BY" :: s.id.tokens else []

def orderTokens (s : Select) : List Token :=
  if s.order.isEmpty then []
  else .word "ORDER" :: .word "BY" :: OrderTerm.tokensOfEach s.grouped s.order

def pageTokens (s : Select) : List Token :=
  match s.page with
  | some page => [.word "LIMIT", .placeholder page.limit, .word "OFFSET", .placeholder page.offset]
  | none => []

/-- The tokens of a query's text. -/
def tokens (s : Select) : List Token :=
  .word "SELECT" :: (s.id.tokens ++ .comma :: (s.doc.tokens ++ .word "FROM" :: .word s.view ::
    .word "WHERE" :: (s.condition.tokens ++ (s.groupTokens ++ (s.orderTokens ++ s.pageTokens)))))

variable {s : Select} {rest : List Char} {more : List Token}

-- A clause that is there begins with a blank, so that it ends the word before it.

theorem cuts_page (s : Select) :
    EndsRun Ascii.isWord s.pageText.toList ∧ Cuts s.pageText.toList s.pageTokens := by
  unfold pageText pageTokens
  cases s.page with
  | none => exact ⟨endsRun_nil _, cuts_nil⟩
  | some page =>
    have hoffset := (cuts_nil.placeholder page.offset (endsRun_nil _)).blank.word "OFFSET" rfl
      (endsRun_cons _ (by decide))
    have hlimit := (hoffset.blank.placeholder page.limit (endsRun_cons _ (by decide))).blank.word
      "LIMIT" rfl (endsRun_cons _ (by decide))
    exact ⟨by simpa using endsRun_cons _ (by decide), by simpa using hlimit.blank⟩

theorem cuts_order (hs : s.Writable) (hrest : EndsRun Ascii.isWord rest) (h : Cuts rest more) :
    EndsRun Ascii.isWord (s.orderText.toList ++ rest) ∧
      Cuts (s.orderText.toList ++ rest) (s.orderTokens ++ more) := by
  unfold orderText orderTokens
  split
  · exact ⟨hrest, h⟩
  · have hterms := OrderTerm.cuts_renderEach s.grouped hs.order hrest h
    have hby := hterms.blank.word "BY" rfl (endsRun_cons _ (by decide))
    have horder := hby.blank.word "ORDER" rfl (endsRun_cons _ (by decide))
    exact ⟨by simpa using endsRun_cons _ (by decide), by simpa using horder.blank⟩

theorem cuts_group (hs : s.Writable) (hrest : EndsRun Ascii.isWord rest) (h : Cuts rest more) :
    EndsRun Ascii.isWord (s.groupText.toList ++ rest) ∧
      Cuts (s.groupText.toList ++ rest) (s.groupTokens ++ more) := by
  unfold groupText groupTokens
  split
  · have hby := (Column.cuts_render hs.id hrest h).blank.word "BY" rfl (endsRun_cons _ (by decide))
    have hgroup := hby.blank.word "GROUP" rfl (endsRun_cons _ (by decide))
    exact ⟨by simpa using endsRun_cons _ (by decide), by simpa using hgroup.blank⟩
  · exact ⟨hrest, h⟩

/-- The text of a query is cut into its tokens. -/
theorem readAll_render (hs : s.Writable) : Token.readAll s.render.toList = some s.tokens := by
  obtain ⟨hpageEnds, hpage⟩ := cuts_page s
  obtain ⟨horderEnds, horder⟩ := cuts_order hs hpageEnds hpage
  obtain ⟨hgroupEnds, hgroup⟩ := cuts_group hs horderEnds horder
  have hwhere := (Condition.cuts_render hs.condition hgroupEnds hgroup).blank.word "WHERE" rfl
    (endsRun_cons _ (by decide))
  have hview := hwhere.blank.word s.view hs.view (endsRun_cons _ (by decide))
  have hfrom := hview.blank.word "FROM" rfl (endsRun_cons _ (by decide))
  have hdoc := Column.cuts_render hs.doc (endsRun_cons _ (by decide)) hfrom.blank
  have hcomma : Cuts (',' :: ' ' :: _) (.comma :: _) :=
    hdoc.blank.token rfl (by decide) (Nat.le_refl _)
  have hid := Column.cuts_render hs.id (endsRun_cons _ (by decide)) hcomma
  have hselect := hid.blank.word "SELECT" rfl (endsRun_cons _ (by decide))
  rw [render_eq]
  refine Eq.trans ?_ (hselect _ (Nat.le_refl _))
  rw [Token.readAll]
  simp

/-- The placeholders in a query's text are those of the tests, of the order and of the page. -/
theorem placeholders_tokens (s : Select) :
    placeholders s.tokens = (s.condition.tests.flatMap fun t => [t.path, t.operand]) ++
      s.order.map (·.path) ++ (s.page.map fun page => [page.limit, page.offset]).getD [] := by
  have hgroup : placeholders s.groupTokens = [] := by
    unfold groupTokens
    split <;> rfl
  have horder : placeholders s.orderTokens = s.order.map (·.path) := by
    unfold orderTokens
    split
    · rename_i hempty
      rw [List.isEmpty_iff.mp hempty]
      rfl
    · exact OrderTerm.placeholders_tokensOfEach s.grouped s.order
  have hpage : placeholders s.pageTokens =
      (s.page.map fun page => [page.limit, page.offset]).getD [] := by
    unfold pageTokens
    cases s.page <;> rfl
  simp [tokens, placeholder?, Column.placeholders_tokens, Condition.placeholders_tokens, hgroup,
    horder, hpage]

theorem extractions_pageTokens (s : Select) : extractions s.pageTokens = [] := by
  unfold pageTokens
  cases s.page with
  | none => rfl
  | some page =>
    dsimp only
    rw [extractions_of_other _ _ rfl, extractions_of_other _ _ rfl, extractions_of_other _ _ rfl,
      extractions_of_other _ _ rfl]
    rfl

theorem extractions_orderTokens (s : Select) (rest : List Token) :
    extractions (s.orderTokens ++ rest) =
      (s.order.map fun term => (term.column, term.path)) ++ extractions rest := by
  unfold orderTokens
  split
  · rename_i hempty
    rw [List.isEmpty_iff.mp hempty]
    rfl
  · rw [List.cons_append, List.cons_append, extractions_of_other _ _ rfl,
      extractions_of_other _ _ rfl, OrderTerm.extractions_tokensOfEach]

theorem extractions_groupTokens (s : Select) {rest : List Token}
    (h : rest.head? ≠ some .opening) : extractions (s.groupTokens ++ rest) = extractions rest := by
  unfold groupTokens
  split
  · rw [List.cons_append, List.cons_append, extractions_of_other _ _ rfl,
      extractions_of_other _ _ rfl, s.id.extractions_tokens h]
  · rfl

/-- The values of documents in a query's text are those that its tests and its order look up. -/
theorem extractions_tokens (s : Select) : extractions s.tokens =
    (s.condition.tests.map fun t => (t.column, t.path)) ++
      s.order.map fun term => (term.column, term.path) := by
  -- After the column of a group stands nothing or the word of a clause, no parenthesis.
  have hclause : (s.orderTokens ++ s.pageTokens).head? ≠ some .opening := by
    unfold orderTokens pageTokens
    split <;> cases s.page <;> simp
  rw [tokens, extractions_of_other _ _ rfl, s.id.extractions_tokens (by simp),
    extractions_of_other _ _ rfl, s.doc.extractions_tokens (by simp), extractions_of_other _ _ rfl,
    extractions_of_uncalled _ (by simp), extractions_of_other _ _ rfl, Condition.extractions_tokens,
    s.extractions_groupTokens hclause, extractions_orderTokens, extractions_pageTokens,
    List.append_nil]

end Select

end InventoryFeed.Sql

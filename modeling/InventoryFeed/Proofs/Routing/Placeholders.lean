import InventoryFeed.Proofs.Routing.Route

/-!
# The placeholders of a routed request

Cut into tokens, the text of a routed query has the placeholders from number one to the number of its
values, in this order and each once: two for each comparison of the predicate, one for each sort key, two
for a page. The text looks into documents at those columns only that the view has for the levels of the
request's fields.
-/

namespace InventoryFeed

theorem map_mapIdx {α β γ : Type} (f : Nat → α → β) (g : β → γ) (items : List α) :
    (items.mapIdx f).map g = items.mapIdx fun i a => g (f i a) :=
  List.ext_getElem (by simp) fun i _ _ => by simp

namespace Routing

theorem flatMap_test (column : FieldRef → Sql.Column) (comparisons : List Comparison) (k : Nat) :
    ((comparisons.mapIdx fun i c => c.test column (i + k)).flatMap fun t => [t.path, t.operand]) =
      List.range' (2 * k + 1) (2 * comparisons.length) := by
  induction comparisons generalizing k with
  | nil => rfl
  | cons first rest ih =>
    have hnext : (fun i (c : Comparison) => c.test column (i + 1 + k)) =
        fun i c => c.test column (i + (k + 1)) := by
      funext i c
      rw [Nat.add_assoc, Nat.add_comm 1]
    have hlength : 2 * (first :: rest).length = 2 * rest.length + 2 := by
      rw [List.length_cons]
      omega
    rw [List.mapIdx_cons, List.flatMap_cons, hnext, ih, hlength, List.range'_succ, List.range'_succ,
      Comparison.test, Nat.zero_add]
    rfl

theorem map_path_orderTerm (column : FieldRef → Sql.Column) (n : Nat) (sort : List SortKey) :
    ((sort.mapIdx (orderTerm column n)).map (·.path)) = List.range' n sort.length := by
  refine List.ext_getElem (by simp) fun i _ _ => ?_
  simp [orderTerm]

/-- The placeholders of a page are as many as its values, and follow one another. -/
theorem paged_placeholders (r : Request) (n : Nat) :
    ((page n r).1.map fun page => [page.limit, page.offset]).getD [] =
      List.range' n (page n r).2.length := by
  unfold page
  split <;> rfl

end Routing

open Routing

/-- The placeholders in the text of a routed query are `?1` to `?n` from left to right, `n` being the number
of its values, and those in its condition are `?1` to `?m`. The values are, for each comparison, the path
and what its literal stands for, then the path of each sort key, then, if there is a limit or an offset,
the two of them cut off at the greatest integer of the store, with `-1` for no limit. Each value of a
document is looked up in the column that the chosen view has for the level of the field. -/
theorem placeholders_of_route {catalog : Catalog} (hcatalog : catalog.Accepted) {r : Request}
    {q : RoutedQuery} (h : r.route catalog = .ok q) :
    q.view = (catalog.views.get q.level).name ∧
    ∃ column : FieldRef → Sql.Column,
      (∀ field ∈ r.fields, ∃ level name, catalog.levelOf field.qualifier = some level ∧
        (catalog.views.get q.level).columns.get level = some name ∧ column field = ⟨q.view, name⟩) ∧
      (∃ tokens, Sql.Token.readAll q.text.toList = some tokens ∧
        Sql.Token.placeholders tokens = List.range' 1 q.params.length ∧
        Sql.Token.extractions tokens =
          r.predicate.comparisons.mapIdx (fun i c => (column c.field, 2 * i + 1)) ++
            r.sort.mapIdx fun i key =>
              (column key.field, 2 * r.predicate.comparisons.length + 1 + i)) ∧
      (∃ tokens m, Sql.Token.readAll q.whereText.toList = some tokens ∧ m ≤ q.params.length ∧
        Sql.Token.placeholders tokens = List.range' 1 m) ∧
      q.params =
        (r.predicate.comparisons.flatMap fun c =>
          [.text ("$." ++ c.field.path), c.value.comparand c.op]) ++
        (r.sort.map fun key => .text ("$." ++ key.field.path)) ++
        if r.limit.isSome ∨ 0 < r.offset then
          [(r.limit.map fun n => .integer (min (n.toNat : Int) (Word.signedEnd - 1))).getD
              (.integer (-1)),
            .integer (min (r.offset.toNat : Int) (Word.signedEnd - 1))]
        else [] := by
  have hrouted := routedAs_of_route hcatalog h
  let column := Routing.column catalog (catalog.views.get q.level)
  have htests : q.select.condition.tests = r.predicate.comparisons.mapIdx fun i c =>
      c.test column (i + 0) := hrouted.condition.tests
  have hwhere : (q.select.condition.tests.flatMap fun t => [t.path, t.operand]) =
      List.range' 1 (2 * r.predicate.comparisons.length) := by
    rw [htests, flatMap_test]
  have horder : q.select.order.map (·.path) =
      List.range' (2 * r.predicate.comparisons.length + 1) r.sort.length := by
    rw [hrouted.order, map_path_orderTerm]
  refine ⟨hrouted.view, column, fun field => column_of_field hrouted, ?_, ?_, ?_⟩
  · refine ⟨q.select.tokens, Sql.Select.readAll_render (hrouted.writable hcatalog), ?_, ?_⟩
    · have hpage := paged_placeholders r (2 * r.predicate.comparisons.length + r.sort.length + 1)
      rw [Sql.Select.placeholders_tokens, hwhere, horder, hrouted.page, hpage, hrouted.params,
        List.length_append, List.length_append, length_bound, List.length_map,
        ← List.range'_append_1, ← List.range'_append_1, Nat.add_comm 1, Nat.add_comm 1]
    · rw [Sql.Select.extractions_tokens, htests, hrouted.order, map_mapIdx, map_mapIdx]
      rfl
  · refine ⟨q.select.condition.tokens, 2 * r.predicate.comparisons.length,
      Sql.Condition.readAll_render hrouted.condition.writable, ?_, ?_⟩
    · rw [hrouted.params, List.length_append, List.length_append, length_bound]
      omega
    · rw [Sql.Condition.placeholders_tokens, hwhere]
  · rw [hrouted.params, page, Request.paged]
    simp only [Bool.or_eq_true, decide_eq_true_eq]
    split <;> rfl

/-- A conjunction of a match and a comparison for each kind of literal. -/
def literalKinds : Predicate :=
  let field : FieldRef := ⟨none, "f"⟩
  .conj [.compare field .like (.text "5%*"), .compare field .eq (.text "5%*"),
    .compare field .like (.bool true), .neg (.compare ⟨some "item", "f"⟩ .ne (.bool true)),
    .compare field .like (.int (-12)), .compare field .lt (.int (-12)),
    .compare field .like (.real ⟨false, 6755399441055744, -52⟩),
    .compare field .ge (.real ⟨false, 6755399441055744, -52⟩)]

/-- Its values, with those of a sort key and of a limit beyond the store's integers: nineteen of them for
nineteen placeholders. -/
theorem placeholders_of_route_paged : ∃ q,
    (Request.mk literalKinds [⟨⟨some "item", "barcode"⟩, true⟩] (some 18446744073709551615) 0).route
      Catalog.inventory = .ok q ∧
    (∃ tokens, Sql.Token.readAll q.text.toList = some tokens ∧
      Sql.Token.placeholders tokens = List.range' 1 19) ∧
    q.params = [.text "$.f", .text "5\\%%", .text "$.f", .text "5%*", .text "$.f", .text "true", .text "$.f",
      .integer 1, .text "$.f", .text "-12", .text "$.f", .integer (-12), .text "$.f", .text "1.5",
      .text "$.f", .real ⟨false, 6755399441055744, -52⟩, .text "$.barcode",
      .integer 9223372036854775807, .integer 0] := by
  refine ⟨_, rfl, ?_⟩
  obtain ⟨-, -, -, ⟨tokens, hread, hplaceholders, -⟩, -, hparams⟩ := placeholders_of_route .bundled
    (r := Request.mk literalKinds [⟨⟨some "item", "barcode"⟩, true⟩] (some 18446744073709551615) 0) rfl
  exact ⟨⟨tokens, hread, hplaceholders⟩, hparams.trans (by decide +kernel)⟩

end InventoryFeed

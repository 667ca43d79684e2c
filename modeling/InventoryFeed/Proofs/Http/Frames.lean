import InventoryFeed.Proofs.Http.Chunks
import InventoryFeed.Proofs.Http.Course
import InventoryFeed.Proofs.Json.Nesting
import Mathlib.Data.List.Basic
import Mathlib.Data.List.Induction

/-!
# The frames of rows

The frames of accepted rows are the parts of the body, each in a chunk of its own with the head before the
first, or bare. Together these parts are the text of an array without its last bracket, so no first part of
the frames alone is ever taken for a whole response.
-/

namespace InventoryFeed.Http.Response

/-- The text of what an array holds for rows, the array not being closed. -/
def opened (rows : List Row) : List Char :=
  if rows.isEmpty then [] else '[' :: Document.writeItems (rows.map shown)

theorem ne_nil_of_mem_bodies (rows : List Row) : ∀ body ∈ bodies rows, body ≠ [] := by
  intro body hbody
  obtain ⟨k, row, -, rfl⟩ := List.mem_mapIdx.mp hbody
  exact bytes_ne_nil _ _

theorem writeItems_append (items : List Document) (item : Document) :
    Document.writeItems (items ++ [item]) =
      Document.writeItems items ++ (if items.isEmpty then [] else [',']) ++ item.write := by
  induction items with
  | nil => rfl
  | cons first rest ih =>
    cases rest with
    | nil => simp [Document.writeItems]
    | cons next rest =>
      rw [List.cons_append, List.cons_append, Document.writeItems, ← List.cons_append, ih,
        Document.writeItems]
      simp

/-- The parts of the body are together this text. -/
theorem flatten_bodies (rows : List Row) : (bodies rows).flatten = bytes (opened rows) := by
  induction rows using List.reverseRecOn with
  | nil => rfl
  | append_singleton rows row ih =>
    rw [bodies_append, List.flatten_append, ih, List.flatten_singleton, elementBody, element_eq_shown,
      ← bytes_append]
    congr 1
    unfold opened
    rw [List.map_append, List.map_singleton, writeItems_append]
    cases rows <;> simp [Document.writeItems]

theorem streamHead_ne_nil : streamHead ≠ [] := bytes_ne_nil 'H' _

/-- Frames of rows alone are no whole response, nor is any first part of them. -/
theorem wholeBody_of_unended {framing : Framing} {rows : List Row} {wire : List UInt8}
    (h : wire <+: rowFrames framing rows) : wholeBody? framing wire = none := by
  cases framing with
  | chunked =>
    rw [rowFrames] at h
    cases hhead : streamHead.isPrefixOf? wire with
    | none => simp [wholeBody?, hhead]
    | some rest =>
      have hwire : streamHead ++ rest = wire := List.isPrefixOf?_eq_some_iff_append_eq.mp hhead
      have hchunks : readChunks rest = none := by
        refine readChunks_of_unended (ne_nil_of_mem_bodies rows) ?_
        -- Without rows there is not even a head; with rows, the head is taken off both.
        cases hrows : rows.isEmpty with
        | true =>
          rw [List.isEmpty_iff.mp hrows, ← hwire] at h
          exact absurd (List.append_eq_nil_iff.mp (List.prefix_nil.mp h)).1 streamHead_ne_nil
        | false =>
          rw [hrows, if_neg Bool.false_ne_true, ← hwire] at h
          exact (List.prefix_append_right_inj streamHead).mp h
      simp [wholeBody?, hhead, hchunks]
  | bare =>
    rw [rowFrames, flatten_bodies] at h
    cases htext : textOf? wire with
    | none => simp [wholeBody?, htext]
    | some text =>
      -- As bytes come first exactly where characters do, the text lacks the last bracket.
      rw [eq_bytes_of_textOf htext] at h
      have hfront := prefix_of_bytes_prefix h
      have hopened : opened rows <+: '[' :: Document.writeItems (rows.map shown) := by
        unfold opened
        split
        · exact List.nil_prefix
        · exact List.prefix_rfl
      have hread := Json.read_of_unclosed (hfront.trans hopened)
      simp [wholeBody?, htext, hread]

end InventoryFeed.Http.Response

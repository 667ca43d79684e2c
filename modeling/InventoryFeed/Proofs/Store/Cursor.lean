import InventoryFeed.Proofs.Stream.Cursor
import InventoryFeed.Store.Query

/-!
# The cursor over the rows of a query

As long as each row can be read and the query does not fail, the cursor hands out all its rows in their
order, whatever the size of its batches, if there is room for one. It never hands out more at once than a
batch may hold.
-/

namespace InventoryFeed

/-- Rows in batches: none is empty, none is too large, and all are full but the last. -/
structure Pull.Cut (size : Nat) (batches : List (List Row)) : Prop where
  filled : ∀ batch ∈ batches, batch ≠ []
  room : ∀ batch ∈ batches, batch.length ≤ size
  full : ∀ batch ∈ batches.dropLast, batch.length = size

theorem Pull.Cut.nil (size : Nat) : Cut size [] := ⟨nofun, nofun, nofun⟩

theorem Pull.Cut.last {size : Nat} {batch : List Row} (hfilled : batch ≠ [])
    (hroom : batch.length ≤ size) : Cut size [batch] :=
  ⟨List.forall_mem_singleton.mpr hfilled, List.forall_mem_singleton.mpr hroom, nofun⟩

theorem Pull.Cut.cons {size : Nat} {batch : List Row} {batches : List (List Row)}
    (h : Cut size batches) (hfilled : batch ≠ []) (hfull : batch.length = size) :
    Cut size (batch :: batches) := by
  refine ⟨List.forall_mem_cons.mpr ⟨hfilled, h.filled⟩,
    List.forall_mem_cons.mpr ⟨hfull.le, h.room⟩, ?_⟩
  cases batches with
  | nil => exact nofun
  | cons next rest => exact List.forall_mem_cons.mpr ⟨hfull, h.full⟩

/-- The cursor hands out the batch that was begun and all rows after it, cut into batches. The induction is
on the rows to come. -/
theorem exists_cut_pullRows {size : Nat} {raws : List RawRow} {rows : List Row}
    (h : List.Forall₂ (fun raw row => raw.decode = .ok row) raws rows) (shipped : Bool)
    {batch : List Row} (hbatch : batch.length < size) :
    ∃ batches, pullRows size none shipped batch raws = batches.map .rows ∧
      Pull.Cut size batches ∧ batches.flatten = batch.reverse ++ rows := by
  induction h generalizing shipped batch with
  | nil =>
    rw [pullRows]
    cases batch with
    | nil => exact ⟨[], rfl, .nil size, rfl⟩
    | cons row batch =>
      refine ⟨[(row :: batch).reverse], rfl, .last (by simp) ?_, by simp⟩
      simpa using hbatch.le
  | @cons raw row raws rows hdecode _ ih =>
    rw [pullRows, hdecode]
    dsimp only
    split
    · rename_i hfull
      have hempty : ([] : List Row).length < size := Nat.zero_lt_of_lt hbatch
      obtain ⟨batches, hpulls, hcut, hrows⟩ := ih true hempty
      refine ⟨(row :: batch).reverse :: batches, by rw [hpulls, List.map_cons],
        hcut.cons (by simp) (by simpa using hfull), ?_⟩
      rw [List.flatten_cons, hrows]
      simp
    · have hroom : (row :: batch).length < size := by
        rw [List.length_cons]
        omega
      obtain ⟨batches, hpulls, hcut, hrows⟩ := ih shipped hroom
      exact ⟨batches, hpulls, hcut, by simpa using hrows⟩

/-- With room for a batch the rows of a query that could be prepared are read. -/
theorem pullsOf_ok {batchSize : Nat} (hroom : batchSize ≤ Row.batchLimit) (r : Sql.Rows RawRow) :
    pullsOf batchSize (.ok r) = pullRows (max batchSize 1) r.failure false [] r.rows :=
  if_neg (Nat.not_lt.mpr hroom)

/-- Without it the reader is gone before the first row. -/
theorem pullsOf_of_no_room {batchSize : Nat} (hnone : Row.batchLimit < batchSize)
    (r : Sql.Rows RawRow) : pullsOf batchSize (.ok r) = [.failed .readerGone] :=
  if_pos hnone

/-- A cursor over rows that can be read hands out these rows, cut into batches. -/
theorem exists_cut_pullsOf {batchSize : Nat} (hroom : batchSize ≤ Row.batchLimit) {raws : List RawRow}
    {rows : List Row} (h : List.Forall₂ (fun raw row => raw.decode = .ok row) raws rows) :
    ∃ batches, pullsOf batchSize (.ok ⟨raws, none⟩) = batches.map .rows ∧
      Pull.Cut (max batchSize 1) batches ∧ batches.flatten = rows := by
  rw [pullsOf_ok hroom]
  exact exists_cut_pullRows h false (Nat.lt_of_lt_of_le Nat.one_pos (Nat.le_max_right batchSize 1))

/-- Whatever the rows are, the cursor hands out batches of one row at least, and then has no more rows or
fails. -/
theorem pullRows_eq_handedOut (size : Nat) (failure : Option Sql.QueryError) (shipped : Bool)
    (batch : List Row) (raws : List RawRow) :
    ∃ batches ending, (∀ b ∈ batches, b ≠ []) ∧
      pullRows size failure shipped batch raws = Pull.handedOut batches ending := by
  induction raws generalizing shipped batch with
  | nil =>
    cases failure with
    | some e => exact ⟨[], some _, nofun, rfl⟩
    | none =>
      cases batch with
      | nil => exact ⟨[], none, nofun, rfl⟩
      | cons row rest => exact ⟨[(row :: rest).reverse], none, by simp, rfl⟩
  | cons raw raws ih =>
    rw [pullRows]
    cases raw.decode with
    | error cause => exact ⟨[], some cause, nofun, rfl⟩
    | ok row =>
      dsimp only
      split
      · obtain ⟨batches, ending, hne, hpulls⟩ := ih true []
        refine ⟨(row :: batch).reverse :: batches, ending, ?_, ?_⟩
        · exact List.forall_mem_cons.mpr ⟨by simp, hne⟩
        · rw [hpulls, Pull.handedOut_cons]
      · exact ih shipped (row :: batch)

/-- So does the cursor over the answer of a query, which may be rejected, or too large to be read. -/
theorem Store.queryCursor_eq_handedOut (s : Store) (q : RoutedQuery) (batchSize : Nat) :
    ∃ batches ending, (∀ b ∈ batches, b ≠ []) ∧
      s.queryCursor q batchSize = Pull.handedOut batches ending := by
  unfold Store.queryCursor pullsOf
  split
  · exact ⟨[], some _, nofun, rfl⟩
  · split
    · exact ⟨[], some _, nofun, rfl⟩
    · exact pullRows_eq_handedOut _ _ _ _ _

/-- No batch grows beyond its size. The induction is on the rows to come. -/
theorem batched_pullRows {size : Nat} (failure : Option Sql.QueryError) (shipped : Bool)
    {batch : List Row} (hbatch : batch.length < size) (raws : List RawRow) :
    Pull.Batched size (pullRows size failure shipped batch raws) := by
  induction raws generalizing shipped batch with
  | nil =>
    cases failure with
    | some e => simp [Pull.Batched, pullRows]
    | none =>
      cases batch with
      | nil => simp [Pull.Batched, pullRows]
      | cons row rest => simpa [Pull.Batched, pullRows] using hbatch.le
  | cons raw raws ih =>
    rw [pullRows]
    cases raw.decode with
    | error cause => simp [Pull.Batched]
    | ok row =>
      dsimp only
      split
      · rename_i hfull
        have hsize : ([] : List Row).length < size := Nat.zero_lt_of_lt hbatch
        intro handed hmem
        rcases List.mem_cons.mp hmem with heq | hmem
        · cases heq
          rw [List.length_reverse, List.length_cons, hfull]
        · exact ih true hsize handed hmem
      · refine ih shipped ?_
        rw [List.length_cons]
        omega

/-- The cursor over the rows of a query hands out no more of them at once than a batch may hold. -/
theorem batched_pullsOf (batchSize : Nat) (answer : Except Sql.QueryError (Sql.Rows RawRow)) :
    Pull.Batched (max batchSize 1) (pullsOf batchSize answer) := by
  cases answer with
  | error e => simp [Pull.Batched, pullsOf]
  | ok r =>
    rcases Nat.lt_or_ge Row.batchLimit batchSize with hnone | hroom
    · rw [pullsOf_of_no_room hnone]
      simp [Pull.Batched]
    · have hsize : ([] : List Row).length < max batchSize 1 :=
        Nat.lt_of_lt_of_le Nat.one_pos (Nat.le_max_right batchSize 1)
      rw [pullsOf_ok hroom]
      exact batched_pullRows r.failure false hsize r.rows

end InventoryFeed

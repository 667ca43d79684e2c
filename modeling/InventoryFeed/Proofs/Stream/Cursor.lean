import InventoryFeed.Stream.Cursor
import Mathlib.Data.List.TakeWhile
import Mathlib.Tactic.Common

/-!
# What a cursor hands out

The answers of the cursor over items at hand are these items, cut into batches: as long as it answers
rows, it has left out no item and changed no order, whatever the size of its batches. The rows before
the first failure are all handed out before it.
-/

namespace InventoryFeed

/-- The rows of an answer. -/
def Pull.batch : Pull → List Row
  | rows batch => batch
  | _ => []

/-- The rows of several answers in order. -/
def Pull.carried (pulls : List Pull) : List Row := pulls.flatMap batch

/-- Whether an answer is neither a failure nor a crash. -/
def Pull.isRows : Pull → Bool
  | rows _ => true
  | _ => false

/-- The answers of a cursor that hands out batches and then has no more rows, or fails. -/
def Pull.handedOut (batches : List (List Row)) (failure : Option CursorError) : List Pull :=
  batches.map rows ++ (failure.map failed).toList

theorem Pull.handedOut_cons (batch : List Row) (batches : List (List Row))
    (failure : Option CursorError) :
    handedOut (batch :: batches) failure = .rows batch :: handedOut batches failure := rfl

theorem Pull.carried_batches (batches : List (List Row)) :
    carried (batches.map rows) = batches.flatten := by
  rw [carried, List.flatMap_map]
  exact congrArg List.flatten (List.map_id _)

/-- Answers that are rows are batches. -/
theorem Pull.exists_batches {pulls : List Pull} (h : ∀ pull ∈ pulls, pull.isRows = true) :
    ∃ batches : List (List Row), pulls = batches.map rows := by
  induction pulls with
  | nil => exact ⟨[], rfl⟩
  | cons pull rest ih =>
    obtain ⟨hpull, hrest⟩ := List.forall_mem_cons.mp h
    obtain ⟨batches, rfl⟩ := ih hrest
    cases pull with
    | rows batch => exact ⟨batch :: batches, rfl⟩
    | failed cause => exact absurd hpull Bool.false_ne_true
    | crashed crash => exact absurd hpull Bool.false_ne_true

/-- No answer holds more than so many rows. -/
def Pull.Batched (size : Nat) (pulls : List Pull) : Prop :=
  ∀ batch, .rows batch ∈ pulls → batch.length ≤ size

/-- The rows that are answered before the first failure or crash. -/
def Pull.readable (pulls : List Pull) : List Row := carried (pulls.takeWhile isRows)

@[simp] theorem Pull.readable_nil : readable [] = [] := rfl

@[simp] theorem Pull.readable_rows (batch : List Row) (rest : List Pull) :
    readable (.rows batch :: rest) = batch ++ readable rest := rfl

@[simp] theorem Pull.readable_failed (cause : CursorError) (rest : List Pull) :
    readable (.failed cause :: rest) = [] := rfl

@[simp] theorem Pull.readable_crashed (crash : Crash) (rest : List Pull) :
    readable (.crashed crash :: rest) = [] := rfl

theorem Pull.readable_within (pulls : List Pull) : readable pulls <+: carried pulls := by
  obtain ⟨rest, hrest⟩ := List.takeWhile_prefix (l := pulls) isRows
  refine ⟨carried rest, ?_⟩
  rw [readable, carried, carried, ← List.flatMap_append, hrest, carried]

/-- Answers that are all rows are readable to their end. -/
theorem Pull.readable_eq_carried {pulls : List Pull} (h : ∀ pull ∈ pulls, pull.isRows = true) :
    readable pulls = carried pulls := by
  rw [readable, List.takeWhile_eq_self_iff.mpr h]

/-- The rows that are answered before the first failure, and that failure. -/
def Pull.untilFailure : List Pull → List Row × Option CursorError
  | .rows batch :: rest => (batch ++ (untilFailure rest).1, (untilFailure rest).2)
  | .failed cause :: _ => ([], some cause)
  | _ => ([], none)

theorem Pull.untilFailure_fst (pulls : List Pull) : (untilFailure pulls).1 = readable pulls := by
  induction pulls with
  | nil => rfl
  | cons pull rest ih =>
    cases pull with
    | rows batch => rw [untilFailure, ih, readable_rows]
    | failed cause => rfl
    | crashed crash => rfl

/-- The rows at the front of a sequence, and the failure behind them. -/
def RowItem.untilFailure : List RowItem → List Row × Option CursorError
  | .row r :: rest => (r :: (untilFailure rest).1, (untilFailure rest).2)
  | .failed cause :: _ => ([], some cause)
  | _ => ([], none)

theorem RowItem.untilFailure_rows (batch : List Row) (rest : List RowItem) :
    untilFailure (batch.map row ++ rest) =
      (batch ++ (untilFailure rest).1, (untilFailure rest).2) := by
  induction batch with
  | nil => rfl
  | cons r batch ih => rw [List.map_cons, List.cons_append, untilFailure, ih, List.cons_append]

/-- The item at which the reading of a batch ended, if it ended at one. -/
def BatchEnd.item? : BatchEnd → Option RowItem
  | failed cause => some (.failed cause)
  | crashed crash => some (.crashed crash)
  | _ => none

/-- The reading of a batch takes the rows at the front and the item at which it ends. -/
theorem RowItem.readBatch_append {room : Nat} {items rest : List RowItem} {batch : List Row}
    {ended : BatchEnd} (h : readBatch room items = (batch, ended, rest)) :
    items = batch.map row ++ ended.item?.toList ++ rest ∧
      (batch = [] → ended.item? = none → 0 < room → items = []) := by
  induction room generalizing items batch with
  | zero =>
    cases h
    exact ⟨rfl, fun _ _ hroom => absurd hroom (Nat.lt_irrefl 0)⟩
  | succ room ih =>
    match items with
    | [] =>
      cases h
      exact ⟨rfl, fun _ _ _ => rfl⟩
    | .row r :: items =>
      rw [readBatch] at h
      rcases hread : readBatch room items with ⟨batch', ended', rest'⟩
      rw [hread] at h
      cases h
      obtain ⟨hitems, -⟩ := ih hread
      exact ⟨congrArg (row r :: ·) hitems, nofun⟩
    | .failed cause :: items =>
      cases h
      exact ⟨rfl, nofun⟩
    | .crashed crash :: items =>
      cases h
      exact ⟨rfl, nofun⟩

/-- The reading of a batch takes no more rows than there is room for. -/
theorem RowItem.length_readBatch_le (room : Nat) (items : List RowItem) :
    (readBatch room items).1.length ≤ room := by
  induction room generalizing items with
  | zero => exact Nat.le_refl 0
  | succ room ih =>
    match items with
    | [] => exact Nat.zero_le _
    | .row r :: items => exact Nat.succ_le_succ (ih items)
    | .failed cause :: items => exact Nat.zero_le _
    | .crashed crash :: items => exact Nat.zero_le _

namespace RowCursor

/-- The items that a cursor has not handed out, a failure that waits being the first. -/
def ahead (c : RowCursor) : List RowItem :=
  (c.deferred.map RowItem.failed).toList ++ c.items.getD []

@[simp] theorem ahead_ofItems (items : List RowItem) (batchSize : Nat) :
    (ofItems items batchSize).ahead = items := rfl

/-- Up to the limit there is room for a batch, one row being the least that it holds. -/
theorem max_le_batchLimit {batchSize : Nat} :
    max batchSize 1 ≤ Row.batchLimit ↔ batchSize ≤ Row.batchLimit := by
  rw [Nat.max_le]
  exact and_iff_left (by decide)

theorem length_ahead {c : RowCursor} (hroom : c.batchSize ≤ Row.batchLimit) :
    c.ahead.length = c.size := by
  rw [size, if_neg (Nat.not_lt.mpr hroom)]
  rcases c with ⟨items, batchSize, _ | cause⟩ <;> simp [ahead, Nat.add_comm]

/-- A cursor that has no room for a batch crashes, and stays as it is. -/
theorem next_of_no_room {items : List RowItem} {batchSize : Nat} (h : Row.batchLimit < batchSize) :
    next ⟨some items, batchSize, none⟩ = (some (.crashed .noRoom), ⟨some items, batchSize, none⟩) :=
  if_pos h

/-- Its only answer is that crash. -/
theorem answers_of_no_room {items : List RowItem} {batchSize : Nat} (h : Row.batchLimit < batchSize) :
    (ofItems items batchSize).answers = [.crashed .noRoom] := by
  have hmax : Row.batchLimit < max batchSize 1 := h.trans_le (Nat.le_max_left batchSize 1)
  have hsize : (ofItems items batchSize).size = 1 := by
    rw [size, ofItems, if_pos hmax]
    rfl
  rw [answers, hsize, answersWithin, ofItems, next_of_no_room hmax]
  rfl

/-- A cursor over items at hand reads one row at least at a time. -/
theorem batchSize_ofItems_pos (items : List RowItem) (batchSize : Nat) :
    0 < (ofItems items batchSize).batchSize :=
  Nat.lt_of_lt_of_le Nat.one_pos (Nat.le_max_right batchSize 1)

/-- What a question does to the items ahead, by its answer. Rows and failures are those at the front. A
crash was ahead if there is room for a batch, and there are no more rows only if nothing was ahead. -/
def HandsOut (c rest : RowCursor) : Option Pull → Prop
  | none => 0 < c.batchSize → c.ahead = []
  | some (.rows batch) =>
    c.ahead = batch.map RowItem.row ++ rest.ahead ∧ batch ≠ [] ∧ batch.length ≤ c.batchSize
  | some (.failed cause) => c.ahead = .failed cause :: rest.ahead
  | some (.crashed crash) => c.batchSize ≤ Row.batchLimit → .crashed crash ∈ c.ahead

/-- The reading of a batch hands out its rows, or the item at which it ended. -/
theorem handsOut_of_read {items : List RowItem} {batchSize : Nat} {answer : Option Pull}
    {rest : RowCursor} (h : read ⟨some items, batchSize, none⟩ items = (answer, rest)) :
    HandsOut ⟨some items, batchSize, none⟩ rest answer ∧ rest.batchSize = batchSize ∧
      rest.isClosed = false := by
  have hahead : ahead ⟨some items, batchSize, none⟩ = items := rfl
  have hle := RowItem.length_readBatch_le batchSize items
  unfold read at h
  rcases hread : RowItem.readBatch batchSize items with ⟨front, ended, items'⟩
  obtain ⟨hsplit, hnone⟩ := RowItem.readBatch_append hread
  rw [hread] at h hle
  cases ended with
  | full | exhausted =>
    cases front <;> cases h
    · exact ⟨hnone rfl rfl, rfl, rfl⟩
    · exact ⟨⟨by simpa [ahead, BatchEnd.item?] using hsplit, List.cons_ne_nil _ _, hle⟩, rfl, rfl⟩
  | failed cause =>
    cases front <;> cases h
    · exact ⟨hsplit, rfl, rfl⟩
    · exact ⟨⟨by simpa [ahead, BatchEnd.item?] using hsplit, List.cons_ne_nil _ _, hle⟩, rfl, rfl⟩
  | crashed crash =>
    cases h
    refine ⟨fun _ => ?_, rfl, rfl⟩
    rw [hahead, hsplit]
    simp [BatchEnd.item?]

/-- A question hands out what its answer says. The cursor stays open, and keeps the size of its batches. -/
theorem handsOut_of_next {c rest : RowCursor} {answer : Option Pull} (h : c.next = (answer, rest)) :
    c.HandsOut rest answer ∧ rest.batchSize = c.batchSize ∧ rest.isClosed = c.isClosed := by
  rcases c with ⟨_ | items, batchSize, _ | cause⟩
  · cases h
    exact ⟨fun _ => rfl, rfl, rfl⟩
  · cases h
    exact ⟨rfl, rfl, rfl⟩
  · rcases Nat.lt_or_ge Row.batchLimit batchSize with hnone | hroom
    · rw [next_of_no_room hnone] at h
      cases h
      exact ⟨fun hroom => absurd hnone (Nat.not_lt.mpr hroom), rfl, rfl⟩
    · exact handsOut_of_read ((next_eq_read hroom).symm.trans h)
  · cases h
    exact ⟨rfl, rfl, rfl⟩

/-- The cursor over items at hand answers no more rows at once than a batch may hold. -/
theorem batched_answers (items : List RowItem) (batchSize : Nat) :
    Pull.Batched (max batchSize 1) (ofItems items batchSize).answers := by
  have hwithin (count : Nat) (c : RowCursor) : Pull.Batched c.batchSize (answersWithin count c) := by
    induction count generalizing c with
    | zero => exact fun batch hmem => absurd hmem List.not_mem_nil
    | succ count ih =>
      rw [answersWithin]
      rcases hnext : c.next with ⟨_ | answer, rest⟩
      · exact fun batch hmem => absurd hmem List.not_mem_nil
      · obtain ⟨hfirst, hsize, -⟩ := handsOut_of_next hnext
        intro batch hmem
        rcases List.mem_cons.mp hmem with rfl | hmem
        · exact hfirst.2.2
        · exact hsize ▸ ih rest batch hmem
  exact hwithin _ _

/-- A cursor that answers rows only has handed out all that was ahead, in its order. -/
theorem ahead_eq_carried {count : Nat} {c : RowCursor} (hsize : 0 < c.batchSize)
    (hcount : c.ahead.length ≤ count) (h : ∀ pull ∈ answersWithin count c, pull.isRows) :
    c.ahead = (Pull.carried (answersWithin count c)).map RowItem.row := by
  induction count generalizing c with
  | zero => simpa [answersWithin, Pull.carried] using hcount
  | succ count ih =>
    rw [answersWithin] at h ⊢
    rcases hnext : c.next with ⟨answer, rest⟩
    rw [hnext] at h
    cases answer with
    | none => simpa [Pull.carried] using (handsOut_of_next hnext).1 hsize
    | some answer =>
      cases answer with
      | rows batch =>
        obtain ⟨⟨hahead, hbatch, -⟩, hrest, -⟩ := handsOut_of_next hnext
        have hlength := congrArg List.length hahead
        have hpos := List.length_pos_iff.mpr hbatch
        simp only [List.length_append, List.length_map] at hlength
        have hlater := ih (hrest ▸ hsize) (by omega) fun pull hpull => h pull (.tail _ hpull)
        rw [hahead, hlater]
        simp [Pull.carried, Pull.batch]
      | failed cause => exact absurd (h _ (.head _)) nofun
      | crashed crash => exact absurd (h _ (.head _)) nofun

/-- A cursor over items at hand that do not crash hands out all rows before the first failure. -/
theorem untilFailure_answersWithin {count : Nat} {c : RowCursor} (hsize : 0 < c.batchSize)
    (hroom : c.batchSize ≤ Row.batchLimit) (hcount : c.ahead.length ≤ count)
    (hcrash : ∀ crash, RowItem.crashed crash ∉ c.ahead) :
    Pull.untilFailure (answersWithin count c) = RowItem.untilFailure c.ahead := by
  induction count generalizing c with
  | zero =>
    rw [List.length_eq_zero_iff.mp (Nat.le_zero.mp hcount)]
    rfl
  | succ count ih =>
    rw [answersWithin]
    rcases hnext : c.next with ⟨answer, rest⟩
    cases answer with
    | none =>
      rw [(handsOut_of_next hnext).1 hsize]
      rfl
    | some answer =>
      cases answer with
      | rows batch =>
        obtain ⟨⟨hahead, hbatch, -⟩, hrest, -⟩ := handsOut_of_next hnext
        have hlength := congrArg List.length hahead
        have hpos := List.length_pos_iff.mpr hbatch
        simp only [List.length_append, List.length_map] at hlength
        have hlater := ih (hrest ▸ hsize) (hrest ▸ hroom) (by omega) fun crash hmem =>
          hcrash crash (hahead ▸ List.mem_append_right _ hmem)
        rw [hahead, RowItem.untilFailure_rows, Pull.untilFailure, hlater]
      | failed cause =>
        obtain ⟨hahead, -⟩ := handsOut_of_next hnext
        rw [hahead]
        rfl
      | crashed crash => exact absurd ((handsOut_of_next hnext).1 hroom) (hcrash crash)

/-- The cursor over items at hand that do not crash hands out all rows before the first failure. -/
theorem untilFailure_answers_ofItems {items : List RowItem}
    (hcrash : ∀ crash, RowItem.crashed crash ∉ items) {batchSize : Nat}
    (hroom : batchSize ≤ Row.batchLimit) :
    Pull.untilFailure (ofItems items batchSize).answers = RowItem.untilFailure items :=
  have hmax : (ofItems items batchSize).batchSize ≤ Row.batchLimit := max_le_batchLimit.mpr hroom
  untilFailure_answersWithin (batchSize_ofItems_pos items batchSize) hmax (length_ahead hmax).le hcrash

/-- The items of a cursor that answers rows only are the rows that it answers. -/
theorem items_eq_carried {items : List RowItem} {batchSize : Nat}
    (h : ∀ pull ∈ (ofItems items batchSize).answers, pull.isRows) :
    items = (Pull.carried (ofItems items batchSize).answers).map RowItem.row := by
  rcases Nat.lt_or_ge Row.batchLimit batchSize with hnone | hroom
  · rw [answers_of_no_room hnone] at h
    exact absurd (h _ (.head _)) Bool.false_ne_true
  · have hmax : (ofItems items batchSize).batchSize ≤ Row.batchLimit := max_le_batchLimit.mpr hroom
    exact ahead_eq_carried (batchSize_ofItems_pos items batchSize) (length_ahead hmax).le h

end RowCursor

end InventoryFeed

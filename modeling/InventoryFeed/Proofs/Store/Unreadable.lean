import InventoryFeed.Proofs.Job.Published
import InventoryFeed.Proofs.Store.Cursor
import Mathlib.Data.List.TakeDrop

/-!
# What is handed out before a failure

A cursor over items that are at hand keeps a failure back until the rows before it are handed out. The
cursor of the store does not: a row that cannot be read and a step that fails end the batch that was
begun, and its rows are lost. So only the rows of full batches come before the failure, and the two
cursors agree on them exactly if the failure stands between two batches. What a pass publishes before a
failure, and the count that it stores, are these rows.
-/

namespace InventoryFeed

open Sql Happening

/-- The rows of a query as items, and the failure of its last step. `begun` says whether a row was read
before them: a query that fails before its first row is rejected. -/
def RawRow.items (failure : Option QueryError) : Bool → List RawRow → List RowItem
  | begun, [] =>
    (failure.map fun e => .failed (if begun then .read e.text else .rejected e.text)).toList
  | _, raw :: rest =>
    (match raw.decode with
      | .ok row => .row row
      | .error cause => .failed cause) :: items failure true rest

/-- The answer of a query as items. -/
def resultItems : Except QueryError (Rows RawRow) → List RowItem
  | .error e => [.failed (.rejected e.text)]
  | .ok r => RawRow.items r.failure false r.rows

/-- The rows that fill whole batches. -/
def wholeBatches (size : Nat) (rows : List Row) : List Row := rows.take (rows.length / size * size)

/-- A full batch is handed out before the whole batches of the rest. -/
theorem wholeBatches_append {size : Nat} {batch : List Row} (hbatch : batch.length = size)
    (hsize : 0 < size) (rows : List Row) :
    wholeBatches size (batch ++ rows) = batch ++ wholeBatches size rows := by
  have hcount : (batch ++ rows).length / size * size = batch.length + rows.length / size * size := by
    rw [List.length_append, hbatch, Nat.add_div_left _ hsize, Nat.succ_mul, Nat.add_comm]
  rw [wholeBatches, hcount, List.take_length_add_append, wholeBatches]

/-- A batch that is not full is lost. -/
theorem wholeBatches_of_lt {size : Nat} {batch : List Row} (h : batch.length < size) :
    wholeBatches size batch = [] := by
  rw [wholeBatches, Nat.div_eq_of_lt h, Nat.zero_mul, List.take_zero]

/-- Rows fill whole batches exactly if the size of a batch divides their number. -/
theorem wholeBatches_eq_self_iff {size : Nat} {rows : List Row} :
    wholeBatches size rows = rows ↔ size ∣ rows.length := by
  rw [wholeBatches, List.take_eq_self_iff]
  constructor
  · exact fun h => ⟨_, (Nat.le_antisymm h (Nat.div_mul_le_self _ _)).trans (Nat.mul_comm _ _)⟩
  · exact fun h => (Nat.div_mul_cancel h).ge

/-- The rows that the cursor of the store hands out: all of them, or those of full batches if a failure
comes. -/
def handedRows (size : Nat) (read : List Row × Option CursorError) : List Row :=
  if read.2.isSome then wholeBatches size read.1 else read.1

/-- The cursor of the store hands out the full batches of the one that was begun and of the rows to come. The
induction is on these rows. -/
theorem untilFailure_pullRows {size : Nat} (failure : Option QueryError) (shipped : Bool)
    {batch : List Row} (hbatch : batch.length < size) (raws : List RawRow) :
    let read := RowItem.untilFailure (RawRow.items failure (shipped || !batch.isEmpty) raws)
    Pull.untilFailure (pullRows size failure shipped batch raws) =
      (handedRows size (batch.reverse ++ read.1, read.2), read.2) := by
  have hreverse : batch.reverse.length < size := by rwa [List.length_reverse]
  induction raws generalizing shipped batch with
  | nil =>
    cases failure with
    | some e =>
      simp [pullRows, RawRow.items, Pull.untilFailure, RowItem.untilFailure, handedRows,
        wholeBatches_of_lt hreverse]
    | none =>
      cases batch <;>
        simp [pullRows, RawRow.items, Pull.untilFailure, RowItem.untilFailure, handedRows]
  | cons raw rest ih =>
    rw [pullRows, RawRow.items]
    cases raw.decode with
    | error cause =>
      simp [Pull.untilFailure, RowItem.untilFailure, handedRows, wholeBatches_of_lt hreverse]
    | ok row =>
      have hsplit (rows : List Row) : batch.reverse ++ row :: rows = (row :: batch).reverse ++ rows := by
        simp
      dsimp only
      split
      · rename_i hfull
        have hlength : (row :: batch).reverse.length = size := by simpa using hfull
        have hempty : ([] : List Row).length < size := Nat.zero_lt_of_lt hbatch
        rw [Pull.untilFailure, ih true hempty hempty, RowItem.untilFailure, hsplit]
        simp only [Bool.true_or, List.reverse_nil, List.nil_append, handedRows]
        split
        · rw [wholeBatches_append hlength hempty]
        · rfl
      · have hlt : (row :: batch).length < size := by
          rw [List.length_cons]
          omega
        rw [ih shipped hlt (by rwa [List.length_reverse]), RowItem.untilFailure, hsplit]
        simp

/-- So it does over the answer of any query, if there is room for a batch. -/
theorem untilFailure_pullsOf {batchSize : Nat} (hroom : batchSize ≤ Row.batchLimit)
    (answer : Except QueryError (Rows RawRow)) :
    Pull.untilFailure (pullsOf batchSize answer) =
      (handedRows (max batchSize 1) (RowItem.untilFailure (resultItems answer)),
        (RowItem.untilFailure (resultItems answer)).2) := by
  cases answer with
  | error e =>
    simp [pullsOf, resultItems, Pull.untilFailure, RowItem.untilFailure, handedRows, wholeBatches]
  | ok r =>
    have hsize : ([] : List Row).length < max batchSize 1 :=
      Nat.lt_of_lt_of_le Nat.one_pos (Nat.le_max_right batchSize 1)
    rw [pullsOf_ok hroom]
    exact untilFailure_pullRows r.failure false hsize r.rows

/-- The answer of a query holds no crash. -/
theorem not_crashed_resultItems (answer : Except QueryError (Rows RawRow)) (crash : Crash) :
    RowItem.crashed crash ∉ resultItems answer := by
  have hitems (failure : Option QueryError) (begun : Bool) (raws : List RawRow) :
      RowItem.crashed crash ∉ RawRow.items failure begun raws := by
    induction raws generalizing begun with
    | nil => cases failure <;> simp [RawRow.items]
    | cons raw rest ih =>
      rw [RawRow.items, List.mem_cons]
      rintro (h | h)
      · split at h <;> cases h
      · exact ih true h
  cases answer with
  | error e => simp [resultItems]
  | ok r => exact hitems _ _ _

namespace RowCursor

/-- The cursor over the answer of a query at hand hands out all rows before the first failure. -/
theorem untilFailure_answers {batchSize : Nat} (hroom : batchSize ≤ Row.batchLimit)
    (answer : Except QueryError (Rows RawRow)) :
    Pull.untilFailure (ofItems (resultItems answer) batchSize).answers =
      RowItem.untilFailure (resultItems answer) :=
  untilFailure_answers_ofItems (not_crashed_resultItems answer) hroom

end RowCursor

namespace Passes

variable {β : Type} {bus : EventBus Id β} {p : Passes β} {tuning : PassTuning} {moves : List PassMove}

/-- A pass whose bus refuses no message, and that is not cancelled before a batch, counts the rows before
the first failure of its corpus. -/
theorem counts_readable {job : Job} {pulls : List Pull}
    (hbegun : p.Begun tuning (.opened pulls) job)
    (hended : (p.moves bus moves).hasEnded job.id = true)
    (hfine : refusals (p.course bus job.id moves) = [])
    (hflags : some true ∉ (reads (p.course bus job.id moves)).dropLast) :
    ∃ stored, (p.moves bus moves).shared.jobs.find? job.id = some stored ∧
      stored.published = .ofCount (Pull.untilFailure pulls).1.length := by
  obtain ⟨completed, rows, writing, settling, flag, status, stored, h, -, hstores⟩ :=
    ended_of_moves hbegun hended
  rw [h.refusals_eq, refusals_append] at hfine
  rw [h.reads_eq, List.dropLast_concat] at hflags
  obtain ⟨rfl, -⟩ := h.of_smooth (List.append_eq_nil_iff.mp hfine).1 hflags
  rw [Pull.untilFailure_fst]
  exact ⟨stored, hstores.found, hstores.published_eq⟩

/-- Before the failure of a query's answer, the cursor over items at hand hands out every row that can be
read, the cursor of the store those of full batches, if there is room for a batch. They hand out the same
exactly if there is no failure or it stands between two batches. What a pass that no one disturbs counts are
these rows. -/
theorem unreadable_loses_batch (answer : Except QueryError (Rows RawRow)) (batchSize : Nat)
    (hroom : batchSize ≤ Row.batchLimit) :
    let size := max batchSize 1
    let items := resultItems answer
    let read := RowItem.untilFailure items
    let atHand := (RowCursor.ofItems items batchSize).answers
    let stored := pullsOf batchSize answer
    Pull.untilFailure atHand = read ∧
      Pull.untilFailure stored = (handedRows size read, read.2) ∧
      (Pull.untilFailure stored = Pull.untilFailure atHand ↔ read.2 = none ∨ size ∣ read.1.length) ∧
      ∀ {β : Type} (bus : EventBus Id β) (p : Passes β) (tuning : PassTuning) (job : Job)
        (pulls : List Pull) (moves : List PassMove), p.Begun tuning (.opened pulls) job →
        (p.moves bus moves).hasEnded job.id = true →
        refusals (p.course bus job.id moves) = [] →
        some true ∉ (reads (p.course bus job.id moves)).dropLast →
        ∃ row, (p.moves bus moves).shared.jobs.find? job.id = some row ∧
          (pulls = atHand → row.published = .ofCount read.1.length) ∧
          (pulls = stored → row.published = .ofCount (handedRows size read).length) := by
  intro size items read atHand stored
  have hhand : Pull.untilFailure atHand = read := RowCursor.untilFailure_answers hroom answer
  have hstored : Pull.untilFailure stored = (handedRows size read, read.2) :=
    untilFailure_pullsOf hroom answer
  refine ⟨hhand, hstored, ?_, ?_⟩
  · rw [hstored, hhand]
    rcases hread : read with ⟨rows, _ | cause⟩
    · simp [handedRows]
    · simp [handedRows, wholeBatches_eq_self_iff]
  · intro β bus p tuning job pulls moves hbegun hended hfine hflags
    obtain ⟨row, hrow, hcount⟩ := counts_readable hbegun hended hfine hflags
    refine ⟨row, hrow, ?_, ?_⟩
    · rintro rfl
      rw [hcount, hhand]
    · rintro rfl
      rw [hcount, hstored]

/-- The answer of a query with two rows, of which the second cannot be read. -/
def unreadableAnswer : Except QueryError (Rows RawRow) :=
  .ok ⟨[⟨.text "a", some (.text "1")⟩, ⟨.text "b", some (.text "\x7bbroken")⟩], none⟩

/-- A pass over them, with batches of two rows, counts none. -/
theorem unreadable_loses_batch_sample :
    let corpus := CorpusOpening.opened (pullsOf 2 unreadableAnswer)
    let p : Passes KeptMessages :=
      { sample with going := [("job", sampleJob.pass sampleTuning corpus)] }
    let moves := List.replicate 4 (PassMove.step "job")
    (p.moves KeptMessages.bus moves).hasEnded "job" = true ∧
      ∃ row, (p.moves KeptMessages.bus moves).shared.jobs.find? "job" = some row ∧
        row.published = .ofCount 0 := by
  intro corpus p moves
  have hended : (p.moves KeptMessages.bus moves).hasEnded sampleJob.id = true := by decide +kernel
  have hcourse : refusals (p.course KeptMessages.bus sampleJob.id moves) = [] ∧
      some true ∉ (reads (p.course KeptMessages.bus sampleJob.id moves)).dropLast := by
    decide +kernel
  have hbegun : p.Begun sampleTuning corpus sampleJob :=
    ⟨rfl, sampleJob, rfl, ⟨rfl, rfl⟩, rfl, rfl⟩
  obtain ⟨-, -, -, hcount⟩ := unreadable_loses_batch unreadableAnswer 2 (by decide)
  obtain ⟨row, hrow, -, hpublished⟩ :=
    hcount KeptMessages.bus p sampleTuning sampleJob _ moves hbegun hended hcourse.1 hcourse.2
  have hnone : (handedRows (max 2 1)
      (RowItem.untilFailure (resultItems unreadableAnswer))).length = 0 := by
    decide +kernel
  exact ⟨hended, row, hrow, hnone ▸ hpublished rfl⟩

/-- A store with the two rows as authorities. -/
def unreadableStore : Store :=
  let authorities := [⟨1, "a", none, "1"⟩, ⟨2, "b", none, "\x7bbroken"⟩]
  { Store.empty with inventory := { Store.empty.inventory with authorities } }

/-- The cursor over these authorities hands out none of them before the failure if batches hold a hundred
rows, but the first if they hold one, and so does the cursor over items at hand. -/
theorem authority_lost_before_failure :
    unreadableStore.corpusCursor .authorities = (pullsOf · unreadableAnswer) ∧
      let handed (pulls : List Pull) := (Pull.untilFailure pulls).1.map (·.id)
      let atHand := (RowCursor.ofItems (resultItems unreadableAnswer) 100).answers
      handed atHand = ["a"] ∧
        handed (unreadableStore.corpusCursor .authorities 1) = ["a"] ∧
        handed (unreadableStore.corpusCursor .authorities 100) = [] :=
  ⟨rfl, by decide +kernel⟩

end Passes

end InventoryFeed

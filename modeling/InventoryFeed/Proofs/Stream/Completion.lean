import InventoryFeed.Proofs.Stream.Pump

/-!
# Runs that complete

A sink that accepts every row and ends well is written to the end: a run over a cursor that answers rows
only completes, and has written all of them. The cursor over rows that are at hand is such a cursor,
whatever the size of its batches, as long as there is room for one.
-/

namespace InventoryFeed

namespace RowItem

/-- A batch of rows is read without a failure. -/
theorem readBatch_rows (room : Nat) (rows : List Row) :
    ∃ ended, readBatch room (rows.map row) =
      (rows.take room, ended, (rows.drop room).map row) ∧ (ended = .full ∨ ended = .exhausted) := by
  induction room generalizing rows with
  | zero => exact ⟨.full, by simp [readBatch], .inl rfl⟩
  | succ room ih =>
    cases rows with
    | nil => exact ⟨.exhausted, rfl, .inr rfl⟩
    | cons first rest =>
      obtain ⟨ended, hread, hended⟩ := ih rest
      refine ⟨ended, ?_, hended⟩
      rw [List.map_cons, readBatch, hread]
      rfl

end RowItem

namespace RowCursor

theorem next_rows (rows : List Row) {batchSize : Nat} (hroom : batchSize ≤ Row.batchLimit) :
    next ⟨some (rows.map .row), batchSize, none⟩ =
      (if (rows.take batchSize).isEmpty then none else some (.rows (rows.take batchSize)),
        ⟨some ((rows.drop batchSize).map .row), batchSize, none⟩) := by
  obtain ⟨ended, hread, hended⟩ := RowItem.readBatch_rows batchSize rows
  rw [next_eq_read hroom, read]
  dsimp only
  rw [hread]
  cases rows.take batchSize <;> rcases hended with rfl | rfl <;> rfl

/-- The cursor over rows answers rows only. -/
theorem isRows_of_mem_answers (rows : List Row) {batchSize : Nat} (hroom : batchSize ≤ Row.batchLimit) :
    ∀ pull ∈ (ofItems (rows.map .row) batchSize).answers, pull.isRows = true := by
  -- The bound on the number of answers is of no account, and the rows left change from answer to answer.
  suffices hwithin : ∀ count rows, ∀ pull ∈
      answersWithin count ⟨some (List.map RowItem.row rows), max batchSize 1, none⟩,
      pull.isRows = true from hwithin _ rows
  intro count
  induction count with
  | zero => exact fun _ => nofun
  | succ count ih =>
    intro rows pull hpull
    rw [answersWithin, next_rows rows (max_le_batchLimit.mpr hroom)] at hpull
    split at hpull
    · cases hpull
    · rename_i answer rest heq
      obtain ⟨hanswer, rfl⟩ := Prod.mk.inj heq
      rcases hpull with _ | ⟨_, hpull⟩
      · split at hanswer
        · cases hanswer
        · cases hanswer
          rfl
      · exact ih _ pull hpull

/-- The answers of the cursor over rows are these rows. -/
theorem carried_answers (rows : List Row) {batchSize : Nat} (hroom : batchSize ≤ Row.batchLimit) :
    Pull.carried (ofItems (rows.map .row) batchSize).answers = rows := by
  have hitems := items_eq_carried (isRows_of_mem_answers rows hroom)
  exact ((List.map_inj_right fun _ _ h => RowItem.row.inj h).mp hitems).symm

end RowCursor

namespace Pump

variable {m : Type → Type} [Monad m] {γ : Type} [Historied m γ] {σ : Type}

/-- A sink that accepts every row and ends well, by the rows that it has accepted: `holds` before its end,
and `done` after it. -/
structure Welcomes (sink : Sink m σ) (holds done : List Row → σ → γ → Prop) : Prop where
  write : ∀ {rows s g}, holds rows s g → ∀ row, Ensures (sink.write row s) g fun r g' =>
    Script.accepts r.1 = true ∧ holds (rows ++ [row]) r.2 g'
  awaitDrain : ∀ {rows s g}, holds rows s g → Ensures (sink.awaitDrain s) g fun r g' =>
    Script.accepts r.1 = true ∧ holds rows r.2 g'
  finish : ∀ {rows s g}, holds rows s g → Ensures (sink.finish s) g fun r g' =>
    r.1 = .ok () ∧ done rows r.2 g'

variable {sink : Sink m σ} {holds done : List Row → σ → γ → Prop} {rows : List Row}
  {session : Session} {s : σ} {g : γ}

/-- Every row of a batch is accepted. -/
theorem writeBatch_completes (w : Welcomes sink holds done) {batch : List Row} (hs : holds rows s g) :
    Ensures (writeBatch sink batch session s) g fun r g' => r.1 = none ∧
      r.2.1.rowsEmitted = session.rowsEmitted + batch.length ∧ holds (rows ++ batch) r.2.2 g' := by
  induction batch generalizing rows session s g with
  | nil => exact .pure ⟨rfl, rfl, by simpa using hs⟩
  | cons row rest ih =>
    have hrest {next : Session} {s : σ} {g : γ} (hs : holds (rows ++ [row]) s g)
        (hnext : next.rowsEmitted = session.rowsEmitted + 1) :
        Ensures (writeBatch sink rest next s) g fun r g' => r.1 = none ∧
          r.2.1.rowsEmitted = session.rowsEmitted + (row :: rest).length ∧
          holds (rows ++ row :: rest) r.2.2 g' := by
      refine (ih hs).mono ?_
      rintro r g' ⟨hnone, hcount, hholds⟩
      have hsplit : rows ++ row :: rest = rows ++ [row] ++ rest := by simp
      refine ⟨hnone, ?_, hsplit ▸ hholds⟩
      rw [hcount, hnext, List.length_cons]
      omega
    rw [writeBatch]
    refine (w.write hs row).bind ?_
    rintro ⟨answer, s₁⟩ g₁ ⟨haccepts, hs₁⟩
    rcases answer with cause | ⟨⟨⟩⟩
    · cases haccepts
    · exact hrest hs₁ rfl
    · refine (w.awaitDrain hs₁).bind ?_
      rintro ⟨answer, s₂⟩ g₂ ⟨haccepts, hs₂⟩
      rcases answer with cause | ⟨⟨⟩⟩
      · cases haccepts
      · exact hrest hs₂ rfl
      · exact hrest hs₂ rfl
      · cases haccepts
    · cases haccepts

/-- The hook that never stops a run says so. -/
theorem always_goesOn (session : Session) (g : γ) :
    Ensures (Hook.always session () : m (Decision × Unit)) g fun r g' => r = (.goOn, ()) ∧ g' = g :=
  .pure ⟨rfl, rfl⟩

/-- A run over batches goes on with what the cursor answers behind them, all rows having been accepted. -/
theorem run_batches (w : Welcomes sink holds done) {batches : List (List Row)} {rest : List Pull}
    {post : PumpResult σ Unit → γ → Prop} (hs : holds rows s g)
    (hrest : ∀ next s' g', next.rowsEmitted = session.rowsEmitted + batches.flatten.length →
      holds (rows ++ batches.flatten) s' g' → Ensures (run sink Hook.always rest next s' ()) g' post) :
    Ensures (run sink Hook.always (batches.map .rows ++ rest) session s ()) g post := by
  induction batches generalizing rows session s g with
  | nil => exact hrest session s g rfl (by simpa using hs)
  | cons batch batches ih =>
    rw [List.map_cons, List.cons_append, run]
    refine (always_goesOn session g).bind ?_
    rintro _ _ ⟨rfl, rfl⟩
    refine (writeBatch_completes w hs).bind ?_
    rintro ⟨outcome, session₁, s₁⟩ g₁ ⟨rfl, hcount, hs₁⟩
    refine ih hs₁ fun next s' g' hnext hs' => hrest next s' g' ?_ ?_
    · rw [hnext, hcount, List.flatten_cons, List.length_append, Nat.add_assoc]
    · rwa [List.flatten_cons, ← List.append_assoc]

/-- A run over rows only completes, and has written all of them. -/
theorem run_completes (w : Welcomes sink holds done) {pulls : List Pull}
    (hpulls : ∀ pull ∈ pulls, pull.isRows = true) (hs : holds rows s g) :
    Ensures (run sink Hook.always pulls session s ()) g fun r g' =>
      (∃ waits, r.report =
        .ok ⟨.completed, session.rowsEmitted + (Pull.carried pulls).length, waits⟩) ∧
      done (rows ++ Pull.carried pulls) r.sink g' := by
  obtain ⟨batches, rfl⟩ := Pull.exists_batches hpulls
  rw [Pull.carried_batches, ← List.append_nil (batches.map Pull.rows)]
  refine run_batches w hs fun next s' g' hnext hs' => ?_
  rw [run, ← hnext]
  refine (always_goesOn next g').bind ?_
  rintro _ _ ⟨rfl, rfl⟩
  refine (w.finish hs').bind ?_
  rintro ⟨answer, s₁⟩ g₁ ⟨rfl, hdone⟩
  exact .pure ⟨⟨_, rfl⟩, hdone⟩

end Pump

end InventoryFeed

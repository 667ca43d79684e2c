import InventoryFeed.Proofs.Stream.Reading
import InventoryFeed.Stream.Dialogue

/-!
# Batches are not seen by the sink

Where no hook is asked between two batches, they are written as one batch is (`run_rows_rows`). So a
run is the run over one batch that holds all rows before the first failure, with that failure behind
it, if there is one (`run_eq_wholeBatch`), and two cursors over the same items make the same run.
-/

namespace InventoryFeed

/-- The answers that say as much as those given in one batch: all rows before the first failure, then
that failure. -/
def Pull.wholeBatch (front : List Row × Option CursorError) : List Pull := handedOut [front.1] front.2

namespace Pump

variable {m : Type → Type} [Monad m] [LawfulMonad m] {σ η : Type} (sink : Sink m σ)

/-- Two batches are written one after the other as their rows are in one batch. -/
theorem writeBatch_append (batch more : List Row) (session : Session) (s : σ) :
    writeBatch sink (batch ++ more) session s = (do
      let (outcome, session, s) ← writeBatch sink batch session s
      match outcome with
      | some outcome => pure (some outcome, session, s)
      | none => writeBatch sink more session s) := by
  induction batch generalizing session s with
  | nil => simp [writeBatch]
  | cons row batch ih =>
    simp only [List.cons_append, writeBatch, bind_assoc]
    refine congrArg _ (funext fun (answer, s₁) => ?_)
    rcases answer with cause | status
    · simp [failInBatch]
    cases status with
    | closed => simp [disconnect]
    | ready => exact ih _ _
    | saturated =>
      simp only [bind_assoc]
      refine congrArg _ (funext fun (answer, s₂) => ?_)
      rcases answer with cause | status
      · simp [failInBatch]
      cases status with
      | closed => simp [disconnect]
      | ready => exact ih _ _
      | saturated => exact ih _ _

/-- A run without a hook writes the batch that comes next and goes on. -/
theorem run_rows (batch : List Row) (rest : List Pull) (session : Session) (s : σ) (h : η) :
    run sink (Hook.ofOption none) (.rows batch :: rest) session s h = (do
      let (outcome, session, s) ← writeBatch sink batch session s
      match outcome with
      | some outcome => pure ⟨report outcome session, s, h⟩
      | none => run sink (Hook.ofOption none) rest session s h) := by
  rw [run]
  exact pure_bind _ _

/-- A batch without rows makes no difference to a run without a hook. -/
theorem run_rows_nil (rest : List Pull) (session : Session) (s : σ) (h : η) :
    run sink (Hook.ofOption none) (.rows [] :: rest) session s h =
      run sink (Hook.ofOption none) rest session s h := by
  rw [run_rows, writeBatch, pure_bind]

/-- Without a hook a run over two batches is the run over one with the rows of both. -/
theorem run_rows_rows (batch more : List Row) (rest : List Pull) (session : Session) (s : σ) (h : η) :
    run sink (Hook.ofOption none) (.rows batch :: .rows more :: rest) session s h =
      run sink (Hook.ofOption none) (.rows (batch ++ more) :: rest) session s h := by
  rw [run_rows, run_rows, writeBatch_append, bind_assoc]
  refine congrArg _ (funext fun (outcome, session, s) => ?_)
  cases outcome with
  | none => exact run_rows sink more rest session s h
  | some outcome => rw [pure_bind]

/-- A run without a hook hangs on the rows before the first failure and on that failure alone. -/
theorem run_eq_wholeBatch {pulls : List Pull} (hcrash : ∀ crash, Pull.crashed crash ∉ pulls)
    (session : Session) (s : σ) (h : η) :
    run sink (Hook.ofOption none) pulls session s h =
      run sink (Hook.ofOption none) (Pull.wholeBatch (Pull.untilFailure pulls)) session s h := by
  induction pulls generalizing session s with
  | nil => exact (run_rows_nil sink [] session s h).symm
  | cons pull rest ih =>
    cases pull with
    | crashed crash => exact absurd (.head _) (hcrash crash)
    | failed cause =>
      -- what is behind a failure is never asked for
      have hrest : run sink (Hook.ofOption none) (.failed cause :: rest) session s h =
          run sink (Hook.ofOption none) [.failed cause] session s h := by rw [run, run]
      exact hrest.trans (run_rows_nil sink [.failed cause] session s h).symm
    | rows batch =>
      have hlater := ih fun crash hmem => hcrash crash (.tail _ hmem)
      calc run sink (Hook.ofOption none) (.rows batch :: rest) session s h
        _ = run sink (Hook.ofOption none)
              (.rows batch :: Pull.wholeBatch (Pull.untilFailure rest)) session s h := by
            simp only [run_rows, hlater]
        _ = run sink (Hook.ofOption none)
              (Pull.wholeBatch (Pull.untilFailure (.rows batch :: rest))) session s h :=
            run_rows_rows sink batch _ _ session s h

/-- A run without a hook over a cursor on results, each a row or an error, is the run over one batch of
all rows before the first error, whatever the size of the batches, as long as there is room for one. -/
theorem run_answers (results : List (Except CursorError Row)) {batchSize : Nat}
    (hroom : batchSize ≤ Row.batchLimit) (session : Session) (s : σ) (h : η) :
    let items := results.map RowItem.ofResult
    run sink (Hook.ofOption none) (RowCursor.ofItems items batchSize).answers session s h =
      run sink (Hook.ofOption none) (Pull.wholeBatch (RowItem.untilFailure items)) session s h := by
  intro items
  have hcrash := RowItem.crashed_notMem_ofResult results
  obtain ⟨hitems, -⟩ := RowCursor.answers_ofItems hcrash hroom
  have hpulls (crash : Crash) : Pull.crashed crash ∉ (RowCursor.ofItems items batchSize).answers :=
    fun hmem => hcrash crash (hitems ▸ List.mem_flatMap.mpr ⟨_, hmem, .head _⟩)
  rw [run_eq_wholeBatch sink hpulls, RowCursor.untilFailure_answers_ofItems hcrash hroom]

/-- Where there is no room for a batch a run crashes before any call on the sink. -/
theorem run_of_no_room (items : List RowItem) {batchSize : Nat} (hnone : Row.batchLimit < batchSize)
    (session : Session) (s : σ) (h : η) :
    run sink (Hook.ofOption none) (RowCursor.ofItems items batchSize).answers session s h =
      pure ⟨.error .noRoom, s, h⟩ := by
  rw [RowCursor.answers_of_no_room hnone, run]
  exact pure_bind _ _

end Pump

/-- A run without a hook over a cursor on results, each a row or an error, is the same for every two
sizes of batches that there is room for, whatever state the sink has and however it answers from it: the
same calls are made on the sink in the same order, with the same answers, and the run ends with the same
report. Where there is no room for a batch the run crashes before any call on the sink. -/
theorem pump_regrouped {m : Type → Type} [Monad m] [LawfulMonad m] {σ η : Type} (sink : Sink m σ)
    (results : List (Except CursorError Row)) (first second : Nat) (s : σ) (h : η) :
    let pulls (batchSize : Nat) :=
      (RowCursor.ofItems (results.map RowItem.ofResult) batchSize).answers
    (first ≤ Row.batchLimit → second ≤ Row.batchLimit →
      (pump sink.noted (Hook.ofOption none) (pulls first) s h).run [] =
          (pump sink.noted (Hook.ofOption none) (pulls second) s h).run [] ∧
        pump sink (Hook.ofOption none) (pulls first) s h =
          pump sink (Hook.ofOption none) (pulls second) s h) ∧
      (Row.batchLimit < first →
        (pump sink.noted (Hook.ofOption none) (pulls first) s h).run [] =
          pure (⟨.error .noRoom, s, h⟩, [])) := by
  intro pulls
  refine ⟨fun hfirst hsecond => ⟨?_, ?_⟩, fun hnone => ?_⟩
  · have hnoted : pump sink.noted (Hook.ofOption none) (pulls first) s h =
        pump sink.noted (Hook.ofOption none) (pulls second) s h :=
      (Pump.run_answers sink.noted results hfirst _ s h).trans
        (Pump.run_answers sink.noted results hsecond _ s h).symm
    exact congrArg (·.run []) hnoted
  · exact (Pump.run_answers sink results hfirst _ s h).trans
      (Pump.run_answers sink results hsecond _ s h).symm
  · exact congrArg (·.run []) (Pump.run_of_no_room sink.noted _ hnone _ s h)

/-- Three rows and an error, the sink being saturated by the second row, in four answers or in two. -/
theorem pump_regrouped_sample :
    let results : List (Except CursorError Row) :=
      [.ok (.idOnly "a"), .ok (.idOnly "b"), .ok (.idOnly "c"), .error (.read "broken")]
    let pulls (batchSize : Nat) :=
      (RowCursor.ofItems (results.map RowItem.ofResult) batchSize).answers
    let s : Script := ⟨[.ok .ready, .ok .saturated], [], .ok (), .onceAccepted, false, []⟩
    let sink : Sink Id Script := Script.sink
    ((pulls 1).length = 4 ∧ (pulls 100).length = 2) ∧
      (pump sink.noted (Hook.ofOption none) (pulls 1) s ()).run [] =
          (pump sink.noted (Hook.ofOption none) (pulls 100) s ()).run [] ∧
        pump sink (Hook.ofOption none) (pulls 1) s () =
          pump sink (Hook.ofOption none) (pulls 100) s () := by
  intro results pulls s sink
  obtain ⟨hsame, -⟩ := pump_regrouped sink results 1 100 s ()
  exact ⟨by decide, hsame (by decide) (by decide)⟩

/-- A row reaches the sink in batches of one, and not in batches of the greatest size that a word can say. -/
theorem regrouping_seen_without_room :
    let pulls (batchSize : Nat) :=
      (RowCursor.ofItems ([.ok (.idOnly "a")].map RowItem.ofResult) batchSize).answers
    let s : Script := ⟨[], [], .ok (), .onceAccepted, false, []⟩
    let sink : Sink Id Script := Script.sink
    (pump sink.noted (Hook.ofOption none) (pulls 1) s ()).run [] ≠
      (pump sink.noted (Hook.ofOption none) (pulls (Word.unsignedEnd - 1)) s ()).run [] := by
  intro pulls s sink hsame
  have hlast : ((pump sink.noted (Hook.ofOption none) (pulls (Word.unsignedEnd - 1)) s ()).run []).2 = [] := by
    rw [pump, Pump.run_of_no_room sink.noted _ (by decide)]
    rfl
  have hfirst : ((pump sink.noted (Hook.ofOption none) (pulls 1) s ()).run []).2 ≠ [] := by decide +kernel
  exact hfirst (hsame ▸ hlast)

end InventoryFeed

import InventoryFeed.Proofs.Stream.Pump

/-!
# Sinks with a record

A sink can be watched: the watched sink answers as the sink does and keeps every call with its
answer. A run of the pump into it is the run into the sink itself, so the record says which rows the
sink accepted in that run.
-/

namespace InventoryFeed

variable {m : Type → Type} [Monad m] {σ η : Type}

/-- The calls on a sink with its answers. -/
abbrev SinkRecord := List (SinkCall × SinkAnswer)

/-- The rows that a sink accepted in order. -/
def SinkRecord.accepted (record : SinkRecord) : List Row :=
  record.filterMap fun
    | (.write row, .status answer) => if Script.accepts answer then some row else none
    | _ => none

/-- A write that was accepted adds its row. -/
theorem SinkRecord.accepted_append_write (record : SinkRecord) (row : Row)
    (answer : Except SinkError WriteStatus) :
    accepted (record ++ [(.write row, .status answer)]) =
      if Script.accepts answer then record.accepted ++ [row] else record.accepted := by
  unfold accepted
  rw [List.filterMap_append]
  split <;> simp_all

/-- Any other call adds none. -/
theorem SinkRecord.accepted_append_other (record : SinkRecord) (call : SinkCall)
    (answer : SinkAnswer) (h : ∀ row, call ≠ .write row) :
    accepted (record ++ [(call, answer)]) = record.accepted := by
  unfold accepted
  rw [List.filterMap_append]
  cases call with
  | write row => exact absurd rfl (h row)
  | _ => exact List.append_nil _

/-- A sink that keeps the calls on it and its answers. -/
def Sink.recorded (sink : Sink m σ) : Sink m (σ × SinkRecord) where
  write row s := do
    let (answer, s₁) ← sink.write row s.1
    pure (answer, s₁, s.2 ++ [(.write row, .status answer)])
  awaitDrain s := do
    let (answer, s₁) ← sink.awaitDrain s.1
    pure (answer, s₁, s.2 ++ [(.awaitDrain, .status answer)])
  headerSent s := sink.headerSent s.1
  finish s := do
    let (answer, s₁) ← sink.finish s.1
    pure (answer, s₁, s.2 ++ [(.finish, .ended answer)])
  forceClose s := do
    let s₁ ← sink.forceClose s.1
    pure (s₁, s.2 ++ [(.forceClose, .ok)])

/-- What a run into a watched sink leaves behind, without the record. -/
def PumpResult.unwatched (r : PumpResult (σ × SinkRecord) η) : PumpResult σ η :=
  ⟨r.report, r.sink.1, r.hook⟩

namespace Pump

variable [LawfulMonad m] (sink : Sink m σ) (hook : Hook m η)

theorem fail_recorded (cause : StreamError) (session : Session) (s : σ × SinkRecord) :
    (fun r => (r.1, r.2.1, r.2.2.1)) <$> fail sink.recorded cause session s =
      fail sink cause session s.1 := by
  unfold fail
  dsimp only [Sink.recorded]
  split <;> simp

theorem failInBatch_recorded (cause : SinkError) (session : Session) (s : σ × SinkRecord) :
    (fun r => (r.1, r.2.1, r.2.2.1)) <$> failInBatch sink.recorded cause session s =
      failInBatch sink cause session s.1 := by
  simp only [failInBatch, ← fail_recorded, map_bind, bind_map_left, map_pure]

theorem disconnect_recorded (session : Session) (s : σ × SinkRecord) :
    (fun r => (r.1, r.2.1, r.2.2.1)) <$> disconnect sink.recorded session s =
      disconnect sink session s.1 := by
  simp [disconnect, Sink.recorded]

theorem writeBatch_recorded (batch : List Row) (session : Session) (s : σ × SinkRecord) :
    (fun r => (r.1, r.2.1, r.2.2.1)) <$> writeBatch sink.recorded batch session s =
      writeBatch sink batch session s.1 := by
  induction batch generalizing session s with
  | nil => simp [writeBatch]
  | cons row rest ih =>
    simp only [writeBatch, map_bind]
    simp only [Sink.recorded, bind_assoc, pure_bind]
    refine congrArg _ (funext fun r => ?_)
    rcases r with ⟨answer, s₁⟩
    rcases answer with cause | status
    · exact failInBatch_recorded sink cause session _
    cases status with
    | closed => exact disconnect_recorded sink _ _
    | ready => exact ih _ _
    | saturated =>
      simp only [map_bind]
      refine congrArg _ (funext fun r => ?_)
      rcases r with ⟨answer, s₂⟩
      rcases answer with cause | status
      · exact failInBatch_recorded sink cause _ _
      cases status with
      | closed => exact disconnect_recorded sink _ _
      | ready => exact ih _ _
      | saturated => exact ih _ _

theorem failedRun_recorded (cause : StreamError) (session : Session) (s : σ × SinkRecord) (h : η) :
    PumpResult.unwatched <$> (do
        let (outcome, session, s) ← fail sink.recorded cause session s
        pure (⟨report outcome session, s, h⟩ : PumpResult (σ × SinkRecord) η)) =
      (do
        let (outcome, session, s) ← fail sink cause session s.1
        pure (⟨report outcome session, s, h⟩ : PumpResult σ η)) := by
  simp only [← fail_recorded, map_bind, bind_map_left, map_pure]
  rfl

/-- A run into a watched sink is the run into the sink itself. -/
theorem run_recorded (pulls : List Pull) (session : Session) (s : σ × SinkRecord) (h : η) :
    PumpResult.unwatched <$> run sink.recorded hook pulls session s h =
      run sink hook pulls session s.1 h := by
  induction pulls generalizing session s h with
  | nil =>
    unfold run
    simp only [map_bind]
    refine congrArg _ (funext fun r => ?_)
    rcases r with ⟨decision, h₁⟩
    cases decision with
    | stop => exact map_pure _ _
    | goOn =>
      simp only [Sink.recorded, map_bind, bind_assoc, pure_bind]
      refine congrArg _ (funext fun r => ?_)
      rcases r with ⟨cause | ⟨⟩, s₁⟩
      · exact failedRun_recorded sink _ _ _ _
      · exact map_pure _ _
  | cons pull rest ih =>
    unfold run
    simp only [map_bind]
    refine congrArg _ (funext fun r => ?_)
    rcases r with ⟨decision, h₁⟩
    cases decision with
    | stop => exact map_pure _ _
    | goOn =>
      cases pull with
      | crashed crash => exact map_pure _ _
      | failed cause => exact failedRun_recorded sink _ _ _ _
      | rows batch =>
        simp only [← writeBatch_recorded sink batch session s, map_bind, bind_map_left]
        refine congrArg _ (funext fun r => ?_)
        rcases r with ⟨_ | outcome, session₂, s₂⟩
        · exact ih _ _ _
        · exact map_pure _ _

variable {γ : Type} [Historied m γ] {sink hook} {S : Stages σ η γ}

/-- The stages of a run into a watched sink, the rows that were accepted being those of the record. -/
def Stages.recorded (S : Stages σ η γ) : Stages (σ × SinkRecord) η γ where
  on rows s h g := S.on rows s.1 h g ∧ s.2.accepted = rows
  halted rows s h g := S.halted rows s.1 h g ∧ s.2.accepted = rows
  done rows s h g := S.done rows s.1 h g ∧ s.2.accepted = rows
  refused rows s h g := S.refused rows s.1 h g ∧ s.2.accepted = rows
  unread rows s h g := S.unread rows s.1 h g ∧ s.2.accepted = rows

omit [LawfulMonad m] in
/-- A run that is watched goes through the same stages. -/
theorem Tracks.recorded (t : Tracks sink hook S) : Tracks sink.recorded hook S.recorded where
  write := by
    rintro rows s h g ⟨hs, rfl⟩ row
    refine (t.write hs row).bind ?_
    rintro ⟨answer, s₁⟩ g₁ hs₁
    refine .pure ?_
    have haccepted := s.2.accepted_append_write row answer
    cases ha : Script.accepts answer <;> simp only [ha] at hs₁ haccepted ⊢ <;>
      exact ⟨hs₁, haccepted⟩
  awaitDrain := by
    rintro rows s h g ⟨hs, rfl⟩
    refine (t.awaitDrain hs).bind ?_
    rintro ⟨answer, s₁⟩ g₁ hs₁
    refine .pure ?_
    have haccepted := s.2.accepted_append_other .awaitDrain (.status answer) nofun
    cases ha : Script.accepts answer <;> simp only [ha] at hs₁ ⊢ <;> exact ⟨hs₁, haccepted⟩
  hook := by
    rintro rows s h g ⟨hs, rfl⟩ session hcount
    refine (t.hook hs session hcount).mono ?_
    rintro ⟨decision, h₁⟩ g₁ h₁
    cases decision <;> exact ⟨h₁, rfl⟩
  finish := by
    rintro rows s h g ⟨hs, rfl⟩
    refine (t.finish hs).bind ?_
    rintro ⟨answer, s₁⟩ g₁ hs₁
    refine .pure ?_
    have haccepted := s.2.accepted_append_other .finish (.ended answer) nofun
    cases answer <;> exact ⟨hs₁, haccepted⟩
  unread_of_on := fun hs => ⟨t.unread_of_on hs.1, hs.2⟩
  closeRefused := by
    rintro rows s h g ⟨hs, rfl⟩
    exact (t.closeRefused hs).bind fun s₁ g₁ hs₁ =>
      .pure ⟨hs₁, s.2.accepted_append_other .forceClose .ok nofun⟩
  closeUnread := by
    rintro rows s h g ⟨hs, rfl⟩
    exact (t.closeUnread hs).bind fun s₁ g₁ hs₁ =>
      .pure ⟨hs₁, s.2.accepted_append_other .forceClose .ok nofun⟩

end Pump

end InventoryFeed

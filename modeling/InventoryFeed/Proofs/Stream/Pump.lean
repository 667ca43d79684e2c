import InventoryFeed.Proofs.History
import InventoryFeed.Proofs.Stream.Cursor
import InventoryFeed.Stream.Call

/-!
# The stages of a run of the pump

A run is known by the rows that the sink has accepted so far and by the stage that it is at: it goes
on, or it was ended by the hook, by the sink or by the cursor. What every call on the sink and on the
hook says of the next stage, by these rows, holds of the stage at which the whole run ends. The rows
that were accepted by then are the first of those that the cursor hands out, the report counts them,
and a run that completed has written them all.
-/

namespace InventoryFeed

namespace Pump

variable {m : Type → Type} [Monad m] {γ : Type} [Historied m γ] {σ η : Type}

/-- What is known at each stage of a run, by the rows that the sink has accepted. -/
structure Stages (σ η γ : Type) where
  /-- While the run goes on. -/
  on : List Row → σ → η → γ → Prop
  /-- Once the hook has ended it. -/
  halted : List Row → σ → η → γ → Prop
  /-- Once the sink has ended well. -/
  done : List Row → σ → η → γ → Prop
  /-- Once the sink took no more or did not end well. -/
  refused : List Row → σ → η → γ → Prop
  /-- Once the cursor failed. -/
  unread : List Row → σ → η → γ → Prop

/-- Every call leads from a stage of a run to the stage that its answer says. -/
structure Tracks (sink : Sink m σ) (hook : Hook m η) (S : Stages σ η γ) : Prop where
  write : ∀ {rows s h g}, S.on rows s h g → ∀ row, Ensures (sink.write row s) g fun r g' =>
    if Script.accepts r.1 then S.on (rows ++ [row]) r.2 h g' else S.refused rows r.2 h g'
  awaitDrain : ∀ {rows s h g}, S.on rows s h g → Ensures (sink.awaitDrain s) g fun r g' =>
    if Script.accepts r.1 then S.on rows r.2 h g' else S.refused rows r.2 h g'
  hook : ∀ {rows s h g}, S.on rows s h g → ∀ session : Session,
    session.rowsEmitted = rows.length → Ensures (hook session h) g fun r g' =>
      if r.1 = .stop then S.halted rows s r.2 g' else S.on rows s r.2 g'
  finish : ∀ {rows s h g}, S.on rows s h g → Ensures (sink.finish s) g fun r g' =>
    if r.1.isOk then S.done rows r.2 h g' else S.refused rows r.2 h g'
  unread_of_on : ∀ {rows s h g}, S.on rows s h g → S.unread rows s h g
  closeRefused : ∀ {rows s h g}, S.refused rows s h g → Ensures (sink.forceClose s) g fun s' g' =>
    S.refused rows s' h g'
  closeUnread : ∀ {rows s h g}, S.unread rows s h g → Ensures (sink.forceClose s) g fun s' g' =>
    S.unread rows s' h g'

/-- The stages at all of which the same is known of the sink. -/
def Stages.always (inv : σ → γ → Prop) : Stages σ η γ where
  on _ s _ := inv s
  halted _ s _ := inv s
  done _ s _ := inv s
  refused _ s _ := inv s
  unread _ s _ := inv s

/-- An outcome of a run that was broken off, neither completed nor stopped by the hook. -/
def Broken (outcome : Outcome) : Prop := outcome ≠ .completed ∧ outcome ≠ .cancelled

variable {sink : Sink m σ} {hook : Hook m η} {S : Stages σ η γ} {rows : List Row}
  {session : Session} {s : σ} {h : η} {g : γ}

/-- A failure leaves the sink alone or closes it by force. -/
theorem fail_keeps {left : σ → γ → Prop}
    (forceClose : ∀ {s g}, left s g → Ensures (sink.forceClose s) g left) (hs : left s g)
    (cause : StreamError) :
    Ensures (fail sink cause session s) g fun r g' =>
      Broken r.1 ∧ r.2.1.rowsEmitted = session.rowsEmitted ∧ left r.2.2 g' := by
  unfold fail
  dsimp only
  split
  · refine (forceClose hs).bind fun s' g' hleft => .pure ⟨⟨nofun, nofun⟩, rfl, hleft⟩
  · exact .pure ⟨⟨nofun, nofun⟩, rfl, hs⟩

/-- How a batch leaves a run: all its rows accepted, or broken off after some of them. -/
def BatchEnds (S : Stages σ η γ) (rows batch : List Row) (h : η)
    (r : Option Outcome × Session × σ) (g : γ) : Prop :=
  ∃ more, more <+: batch ∧ r.2.1.rowsEmitted = (rows ++ more).length ∧
    match r.1 with
    | none => more = batch ∧ S.on (rows ++ more) r.2.2 h g
    | some outcome => Broken outcome ∧ S.refused (rows ++ more) r.2.2 h g

/-- A batch that goes on after its first row was accepted ends as a batch with that row. -/
theorem BatchEnds.cons {row : Row} {rest : List Row} {r : Option Outcome × Session × σ}
    (ends : BatchEnds S (rows ++ [row]) rest h r g) : BatchEnds S rows (row :: rest) h r g := by
  obtain ⟨more, hmore, hcount, hends⟩ := ends
  have hsplit : rows ++ row :: more = rows ++ [row] ++ more := by simp
  refine ⟨row :: more, List.cons_prefix_cons.mpr ⟨rfl, hmore⟩, by rw [hsplit, hcount], ?_⟩
  rcases r with ⟨_ | outcome, r⟩
  · exact ⟨congrArg (row :: ·) hends.1, hsplit ▸ hends.2⟩
  · exact ⟨hends.1, hsplit ▸ hends.2⟩

/-- A failure in the middle of a batch breaks the run off after the rows accepted before. -/
theorem failInBatch_ends (t : Tracks sink hook S) {accepted batch : List Row}
    (haccepted : accepted <+: batch) (hs : S.refused (rows ++ accepted) s h g)
    (hcount : session.rowsEmitted = (rows ++ accepted).length) (cause : SinkError) :
    Ensures (failInBatch sink cause session s) g (BatchEnds S rows batch h) := by
  refine (fail_keeps t.closeRefused hs (.sink cause)).bind ?_
  rintro ⟨outcome, session', s'⟩ g' ⟨hbroken, hsession, hrefused⟩
  exact .pure ⟨accepted, haccepted, hsession.trans hcount, hbroken, hrefused⟩

/-- So does a consumer that left. -/
theorem disconnect_ends (t : Tracks sink hook S) {accepted batch : List Row}
    (haccepted : accepted <+: batch) (hs : S.refused (rows ++ accepted) s h g)
    (hcount : session.rowsEmitted = (rows ++ accepted).length) :
    Ensures (disconnect sink session s) g (BatchEnds S rows batch h) := by
  refine (t.closeRefused hs).bind ?_
  intro s' g' hrefused
  exact .pure ⟨accepted, haccepted, hcount, ⟨nofun, nofun⟩, hrefused⟩

/-- The rows of a batch are accepted in their order, each counted, until one of them ends the run. -/
theorem writeBatch_ends (t : Tracks sink hook S) {batch : List Row} (hs : S.on rows s h g)
    (hcount : session.rowsEmitted = rows.length) :
    Ensures (writeBatch sink batch session s) g (BatchEnds S rows batch h) := by
  induction batch generalizing rows session s g with
  | nil => exact .pure ⟨[], List.prefix_rfl, by simpa using hcount, rfl, by simpa using hs⟩
  | cons row rest ih =>
    have hnone : rows = rows ++ [] := (List.append_nil rows).symm
    have hfirst : [row] <+: row :: rest := ⟨rest, rfl⟩
    rw [writeBatch]
    refine (t.write hs row).bind ?_
    rintro ⟨answer, s₁⟩ g₁ hs₁
    rcases answer with cause | status
    · exact failInBatch_ends t List.nil_prefix (hnone ▸ hs₁) (hnone ▸ hcount) cause
    cases status with
    | closed => exact disconnect_ends t List.nil_prefix (hnone ▸ hs₁) (hnone ▸ hcount)
    | ready =>
      exact (ih hs₁ (by simp [hcount])).mono fun _ _ => .cons
    | saturated =>
      have hcount₁ : session.rowsEmitted + 1 = (rows ++ [row]).length := by simp [hcount]
      refine (t.awaitDrain hs₁).bind ?_
      rintro ⟨answer, s₂⟩ g₂ hs₂
      rcases answer with cause | status
      · exact failInBatch_ends t hfirst hs₂ hcount₁ cause
      cases status with
      | closed => exact disconnect_ends t hfirst hs₂ hcount₁
      | ready => exact (ih hs₂ hcount₁).mono fun _ _ => .cons
      | saturated => exact (ih hs₂ hcount₁).mono fun _ _ => .cons

/-- How a run ends over the answers that the cursor has left. -/
inductive RunEnds (S : Stages σ η γ) (rows : List Row) (pulls : List Pull) :
    PumpResult σ η → γ → Prop
  /-- All rows were written, and the sink ended well. -/
  | completed {session : Session} {s : σ} {h : η} {g : γ}
      (hcount : session.rowsEmitted = (rows ++ Pull.carried pulls).length)
      (hpulls : ∀ pull ∈ pulls, pull.isRows) (hdone : S.done (rows ++ Pull.carried pulls) s h g) :
      RunEnds S rows pulls ⟨report .completed session, s, h⟩ g
  /-- The hook ended it behind some of the rows. -/
  | halted {more : List Row} {session : Session} {s : σ} {h : η} {g : γ}
      (hmore : more <+: Pull.readable pulls) (hcount : session.rowsEmitted = (rows ++ more).length)
      (hhalted : S.halted (rows ++ more) s h g) :
      RunEnds S rows pulls ⟨report .cancelled session, s, h⟩ g
  /-- The sink took no more behind some of the rows. -/
  | refused {more : List Row} {outcome : Outcome} {session : Session} {s : σ} {h : η} {g : γ}
      (hbroken : Broken outcome) (hmore : more <+: Pull.readable pulls)
      (hcount : session.rowsEmitted = (rows ++ more).length)
      (hrefused : S.refused (rows ++ more) s h g) :
      RunEnds S rows pulls ⟨report outcome session, s, h⟩ g
  /-- The cursor failed behind all rows that could be read. -/
  | unread {outcome : Outcome} {session : Session} {s : σ} {h : η} {g : γ} (hbroken : Broken outcome)
      (hpulls : ∃ pull ∈ pulls, pull.isRows = false)
      (hcount : session.rowsEmitted = (rows ++ Pull.readable pulls).length)
      (hunread : S.unread (rows ++ Pull.readable pulls) s h g) :
      RunEnds S rows pulls ⟨report outcome session, s, h⟩ g
  /-- So did a cursor that crashed. -/
  | crashed {crash : Crash} {s : σ} {h : η} {g : γ} (hpulls : ∃ pull ∈ pulls, pull.isRows = false)
      (hunread : S.unread (rows ++ Pull.readable pulls) s h g) :
      RunEnds S rows pulls ⟨.error crash, s, h⟩ g

/-- A run that goes on after a batch ends as a run over that batch too. -/
theorem RunEnds.cons {batch : List Row} {rest : List Pull} {r : PumpResult σ η}
    (ends : RunEnds S (rows ++ batch) rest r g) : RunEnds S rows (.rows batch :: rest) r g := by
  have hsplit (more : List Row) : rows ++ (batch ++ more) = rows ++ batch ++ more := by simp
  have hfailed (hpulls : ∃ pull ∈ rest, pull.isRows = false) :
      ∃ pull ∈ Pull.rows batch :: rest, pull.isRows = false := by
    obtain ⟨pull, hmem, hpull⟩ := hpulls
    exact ⟨pull, .tail _ hmem, hpull⟩
  cases ends with
  | completed hcount hpulls hdone =>
    have hall : rows ++ Pull.carried (.rows batch :: rest) = rows ++ batch ++ Pull.carried rest :=
      hsplit _
    exact .completed (hall ▸ hcount) (List.forall_mem_cons.mpr ⟨rfl, hpulls⟩) (hall ▸ hdone)
  | halted hmore hcount hhalted =>
    rw [← hsplit] at hcount hhalted
    exact .halted ((List.prefix_append_right_inj batch).mpr hmore) hcount hhalted
  | refused hbroken hmore hcount hrefused =>
    rw [← hsplit] at hcount hrefused
    exact .refused hbroken ((List.prefix_append_right_inj batch).mpr hmore) hcount hrefused
  | unread hbroken hpulls hcount hunread =>
    rw [← hsplit] at hcount hunread
    exact .unread hbroken (hfailed hpulls) hcount hunread
  | crashed hpulls hunread =>
    rw [← hsplit] at hunread
    exact .crashed (hfailed hpulls) hunread

/-- A batch that is broken off ends the run. -/
theorem RunEnds.of_batch {batch more : List Row} {rest : List Pull} {outcome : Outcome}
    (hbroken : Broken outcome) (hmore : more <+: batch)
    (hcount : session.rowsEmitted = (rows ++ more).length)
    (hrefused : S.refused (rows ++ more) s h g) :
    RunEnds S rows (.rows batch :: rest) ⟨report outcome session, s, h⟩ g :=
  .refused hbroken (hmore.trans (List.prefix_append _ _)) hcount hrefused

/-- A cursor that fails breaks the run off. -/
theorem failedRun_ends (t : Tracks sink hook S) {cause : CursorError} {rest : List Pull}
    (hs : S.on rows s h g) (hcount : session.rowsEmitted = rows.length) :
    Ensures (do
      let (outcome, session, s) ← fail sink (.cursor cause) session s
      pure (⟨report outcome session, s, h⟩ : PumpResult σ η)) g
      (RunEnds S rows (.failed cause :: rest)) := by
  have hnone : rows = rows ++ Pull.readable (.failed cause :: rest) := (List.append_nil rows).symm
  refine (fail_keeps t.closeUnread (t.unread_of_on hs) _).bind ?_
  rintro ⟨outcome, session', s'⟩ g' ⟨hbroken, hsession, hunread⟩
  exact .pure (.unread hbroken ⟨_, .head _, rfl⟩ (hnone ▸ hsession.trans hcount) (hnone ▸ hunread))

/-- A sink that does not end well breaks the run off. -/
theorem unfinishedRun_ends (t : Tracks sink hook S) (hs : S.refused rows s h g)
    (hcount : session.rowsEmitted = rows.length) (cause : SinkError) :
    Ensures (do
      let (outcome, session, s) ← fail sink (.sink cause) session s
      pure (⟨report outcome session, s, h⟩ : PumpResult σ η)) g (RunEnds S rows []) := by
  have hnone : rows = rows ++ [] := (List.append_nil rows).symm
  refine (fail_keeps t.closeRefused hs _).bind ?_
  rintro ⟨outcome, session', s'⟩ g' ⟨hbroken, hsession, hrefused⟩
  exact .pure (.refused hbroken List.nil_prefix (hnone ▸ hsession.trans hcount) (hnone ▸ hrefused))

/-- A run goes through the stages that its calls lead to. -/
theorem run_ends (t : Tracks sink hook S) {pulls : List Pull} (hs : S.on rows s h g)
    (hcount : session.rowsEmitted = rows.length) :
    Ensures (run sink hook pulls session s h) g (RunEnds S rows pulls) := by
  have hnone : rows = rows ++ [] := (List.append_nil rows).symm
  induction pulls generalizing rows session s h g with
  | nil =>
    rw [run]
    refine (t.hook hs session hcount).bind ?_
    rintro ⟨decision, h₁⟩ g₁ hs₁
    cases decision with
    | stop => exact .pure (.halted List.nil_prefix (hnone ▸ hcount) (hnone ▸ hs₁))
    | goOn =>
      refine (t.finish hs₁).bind ?_
      rintro ⟨answer, s₂⟩ g₂ hs₂
      rcases answer with cause | ⟨⟩
      · exact unfinishedRun_ends t hs₂ hcount cause
      · exact .pure (.completed (hnone ▸ hcount) nofun (hnone ▸ hs₂))
  | cons pull rest ih =>
    rw [run]
    refine (t.hook hs session hcount).bind ?_
    rintro ⟨decision, h₁⟩ g₁ hs₁
    cases decision with
    | stop => exact .pure (.halted List.nil_prefix (hnone ▸ hcount) (hnone ▸ hs₁))
    | goOn =>
      cases pull with
      | crashed crash =>
        exact .pure (.crashed ⟨_, .head _, rfl⟩ (hnone ▸ t.unread_of_on hs₁))
      | failed cause => exact failedRun_ends t hs₁ hcount
      | rows batch =>
        refine (writeBatch_ends t hs₁ hcount).bind ?_
        rintro ⟨outcome, session₂, s₂⟩ g₂ ⟨more, hmore, hcount₂, hends⟩
        cases outcome with
        | some outcome => exact .pure (.of_batch hends.1 hmore hcount₂ hends.2)
        | none =>
          obtain ⟨rfl, hs₂⟩ := hends
          exact (ih hs₂ hcount₂ (List.append_nil _).symm).mono fun _ _ => .cons

/-- What every call on the sink keeps, whatever it answers, holds at the end of a run. -/
theorem run_invariant {I : σ → γ → Prop}
    (write : ∀ {s g}, I s g → ∀ row, Ensures (sink.write row s) g fun r => I r.2)
    (awaitDrain : ∀ {s g}, I s g → Ensures (sink.awaitDrain s) g fun r => I r.2)
    (ask : ∀ {s g}, I s g → ∀ session (h : η), Ensures (hook session h) g fun _ => I s)
    (finish : ∀ {s g}, I s g → Ensures (sink.finish s) g fun r => I r.2)
    (forceClose : ∀ {s g}, I s g → Ensures (sink.forceClose s) g I) {pulls : List Pull}
    (hs : I s g) : Ensures (run sink hook pulls .start s h) g fun r => I r.sink := by
  have htracks : Tracks sink hook (.always I) := {
    write := fun hs row => (write hs row).mono fun _ _ h => by simpa [Stages.always] using h
    awaitDrain := fun hs => (awaitDrain hs).mono fun _ _ h => by simpa [Stages.always] using h
    hook := fun hs session _ => (ask hs session _).mono fun _ _ h => by
      simpa [Stages.always] using h
    finish := fun hs => (finish hs).mono fun _ _ h => by simpa [Stages.always] using h
    unread_of_on := id
    closeRefused := forceClose
    closeUnread := forceClose }
  have hbegun : (Stages.always I : Stages σ η γ).on [] s h g := hs
  refine (run_ends htracks hbegun rfl).mono ?_
  rintro _ _ (⟨_, _, h⟩ | ⟨_, _, h⟩ | ⟨_, _, _, h⟩ | ⟨_, _, _, h⟩ | ⟨_, h⟩) <;> exact h

end Pump

end InventoryFeed

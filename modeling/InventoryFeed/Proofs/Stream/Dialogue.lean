import InventoryFeed.Proofs.Stream.Pump
import InventoryFeed.Stream.Dialogue

/-!
# What a run of the pump says

A run whose sink and hook are noted is the run itself, and what was noted has the form of a dialogue.
This holds of every sink and every hook, whatever they answer: the answers are those of the noted calls.
-/

namespace InventoryFeed

variable {m : Type → Type} [Monad m] {γ σ η α β : Type}

/-- What is noted beside a computation leaves the computation as it is. -/
def Erases (x : Noted m α) (y : m α) : Prop := ∀ log, Prod.fst <$> x.run log = y

section

variable [LawfulMonad m]

theorem Erases.pure (a : α) : Erases (Pure.pure a : Noted m α) (Pure.pure a) := by
  intro log
  rw [StateT.run_pure, map_pure]

theorem Erases.bind {x : Noted m α} {y : m α} {f : α → Noted m β} {k : α → m β}
    (first : Erases x y) (next : ∀ a, Erases (f a) (k a)) : Erases (x >>= f) (y >>= k) := by
  intro log
  rw [StateT.run_bind, map_bind, ← first log, bind_map_left]
  exact congrArg _ (funext fun r => next r.1 r.2)

/-- Noting an answer does not change it. -/
theorem erases_note (x : m α) (event : α → PumpEvent) : Erases (Noted.note x event) x := by
  intro log
  simp [Noted.note]

end

/-- What holds of an answer holds where it is noted, and the note is added at the end. -/
theorem Ensures.noted [Historied m γ] {x : m α} {g : γ} {post : α → γ → Prop} (h : Ensures x g post)
    (event : α → PumpEvent) {log : List PumpEvent} :
    Ensures (Noted.note x event) (g, log) fun a g' => post a g'.1 ∧ g'.2 = log ++ [event a] := by
  refine h.lift.bind ?_
  rintro a ⟨g', _⟩ ⟨ha, rfl⟩
  refine (Ensures.modified _).bind ?_
  rintro _ _ rfl
  exact .pure ⟨ha, rfl⟩

/-- Whatever is noted before, what is noted at an end of a computation is as stated. -/
def Notes [Historied m γ] (x : Noted m α) (log : List PumpEvent)
    (post : α → List PumpEvent → Prop) : Prop :=
  ∀ g : γ, Ensures x (g, log) fun a g' => post a g'.2

namespace Notes

variable [Historied m γ] {x : Noted m α} {log : List PumpEvent}
  {post other : α → List PumpEvent → Prop} {after : β → List PumpEvent → Prop}

theorem pure {a : α} (h : post a log) : Notes (Pure.pure a : Noted m α) log post :=
  fun _ => .pure h

theorem bind {f : α → Noted m β} (first : Notes x log post)
    (next : ∀ a log', post a log' → Notes (f a) log' after) : Notes (x >>= f) log after :=
  fun g => (first g).bind fun a g' h => next a g'.2 h g'.1

theorem mono (h : Notes x log post) (imp : ∀ a log', post a log' → other a log') :
    Notes x log other :=
  fun g => (h g).mono fun a g' => imp a g'.2

/-- What is noted of an answer is added at the end. -/
theorem note (x : m α) (event : α → PumpEvent) (log : List PumpEvent) :
    Notes (Noted.note x event) log fun a log' => log' = log ++ [event a] := by
  intro g
  have hany : Ensures x g fun _ _ => True := fun _ _ _ => trivial
  exact (hany.noted event).mono fun a g' h => h.2

end Notes

namespace Session

theorem after_asked (log : List PumpEvent) (session : Session) (decision : Decision) :
    after (log ++ [.asked session decision]) = after log := by
  simp [after, PumpEvent.isAccepted, PumpEvent.isWait]

theorem after_question (hooked : Bool) (log : List PumpEvent) :
    after (log ++ Dialogue.question hooked log) = after log := by
  cases hooked
  · exact congrArg after (List.append_nil log)
  · exact after_asked log _ _

theorem after_write (log : List PumpEvent) (row : Row) (answer : Except SinkError WriteStatus)
    (headed : Bool) :
    after (log ++ [.called (.write row) (.status answer) headed]) =
      { after log with
        rowsEmitted := (after log).rowsEmitted + if Script.accepts answer then 1 else 0
        headerSent := headed } := by
  cases h : Script.accepts answer <;>
    simp [after, PumpEvent.isAccepted, PumpEvent.isWait, h]

theorem after_awaitDrain (log : List PumpEvent) (answer : SinkAnswer) (headed : Bool) :
    after (log ++ [.called .awaitDrain answer headed]) =
      { after log with drainWaits := (after log).drainWaits + 1 } := by
  simp [after, PumpEvent.isAccepted, PumpEvent.isWait]

end Session

namespace Dialogue

theorem lastHeaded_asked (headed : Bool) (log : List PumpEvent) (session : Session)
    (decision : Decision) :
    lastHeaded headed (log ++ [.asked session decision]) = lastHeaded headed log := by
  simp [lastHeaded]

theorem lastHeaded_question (hooked headed : Bool) (log : List PumpEvent) :
    lastHeaded headed (log ++ question hooked log) = lastHeaded headed log := by
  cases hooked
  · exact congrArg (lastHeaded headed) (List.append_nil log)
  · exact lastHeaded_asked headed log _ _

theorem lastHeaded_called (headed now : Bool) (log : List PumpEvent) (call : SinkCall)
    (answer : SinkAnswer) :
    lastHeaded headed (log ++ [.called call answer now]) = now := by
  simp [lastHeaded]

end Dialogue

namespace Pump

variable [Historied m γ] (sink : Sink m σ) (hook : Option (Hook m η))

theorem write_noted (row : Row) (s : σ) (log : List PumpEvent) :
    Notes (sink.noted.write row s) log fun r log' =>
      log' = log ++ [.called (.write row) (.status r.1) (sink.headerSent r.2)] := .note _ _ log

theorem awaitDrain_noted (s : σ) (log : List PumpEvent) :
    Notes (sink.noted.awaitDrain s) log fun r log' =>
      log' = log ++ [.called .awaitDrain (.status r.1) (sink.headerSent r.2)] := .note _ _ log

theorem finish_noted (s : σ) (log : List PumpEvent) :
    Notes (sink.noted.finish s) log fun r log' =>
      log' = log ++ [.called .finish (.ended r.1) (sink.headerSent r.2)] := .note _ _ log

theorem forceClose_noted (s : σ) (log : List PumpEvent) :
    Notes (sink.noted.forceClose s) log fun s' log' =>
      log' = log ++ [.called .forceClose .ok (sink.headerSent s')] := .note _ _ log

theorem hook_noted (h : η) (log : List PumpEvent) :
    Notes (Hook.ofOption (hook.map Hook.noted) (Session.after log) h) log fun r log' =>
      match r.1 with
        | .goOn => log' = log ++ Dialogue.question hook.isSome log
        | .stop => hook.isSome = true ∧ log' = log ++ [.asked (Session.after log) .stop] := by
  cases hook with
  | none => exact .pure (by simp [Dialogue.question])
  | some hook =>
    refine (Notes.note _ _ log).mono ?_
    rintro ⟨_ | _, h₁⟩ log₁ rfl
    · rfl
    · exact ⟨rfl, rfl⟩

/-- The counts that a report takes from a session are those of what was said. -/
def Counts (session : Session) (log : List PumpEvent) : Prop :=
  session.rowsEmitted = log.countP PumpEvent.isAccepted ∧
    session.drainWaits = log.countP PumpEvent.isWait

theorem Counts.after (log : List PumpEvent) : Counts (Session.after log) log := ⟨rfl, rfl⟩

theorem Counts.other {session : Session} {log more : List PumpEvent} (h : Counts session log)
    (hmore : ∀ event ∈ more, event.isAccepted = false ∧ event.isWait = false) :
    Counts session (log ++ more) := by
  have haccepted : more.countP PumpEvent.isAccepted = 0 :=
    List.countP_eq_zero.mpr fun event hevent => by simp [(hmore event hevent).1]
  have hwaits : more.countP PumpEvent.isWait = 0 :=
    List.countP_eq_zero.mpr fun event hevent => by simp [(hmore event hevent).2]
  refine ⟨?_, ?_⟩
  · rw [List.countP_append, haccepted]
    exact h.1
  · rw [List.countP_append, hwaits]
    exact h.2

variable {sink hook}

theorem fail_noted {cause : StreamError} {session : Session} {s : σ} {log : List PumpEvent}
    (hcounts : Counts session log) :
    Notes (fail sink.noted cause session s) log fun r log' =>
      ∃ last, log' = log ++ last ∧ Dialogue.Breaks cause (sink.headerSent s) last r.1 ∧
        Counts r.2.1 log' := by
  unfold fail
  dsimp only
  rw [show sink.noted.headerSent s = sink.headerSent s from rfl]
  split
  · rename_i hheaded
    refine (forceClose_noted sink s log).bind ?_
    rintro s' log' rfl
    refine .pure ⟨_, rfl, hheaded ▸ .seen _, ?_⟩
    exact Counts.other hcounts (by simp [PumpEvent.isAccepted, PumpEvent.isWait])
  · rename_i hheaded
    refine .pure ⟨[], by simp, ?_, hcounts⟩
    rw [Bool.not_eq_true] at hheaded
    exact hheaded ▸ .unseen

/-- How a batch ends: what was said about it, and the session that it leaves. -/
def BatchSaid (sink : Sink m σ) (headed : Bool) (log : List PumpEvent) (batch : List Row)
    (r : Option Outcome × Session × σ) (log' : List PumpEvent) : Prop :=
  ∃ steps, log' = log ++ steps ∧ Dialogue.Batch batch steps r.1 ∧ Counts r.2.1 log' ∧
    (r.1 = none → r.2.1 = Session.after log' ∧
      Dialogue.lastHeaded headed log' = sink.headerSent r.2.2)

variable {headed : Bool} {row : Row} {rest : List Row} {session : Session} {s : σ}
  {log first : List PumpEvent}

/-- A failure at a row ends the run with what was said about the row before. -/
theorem failInBatch_noted {cause : SinkError}
    (hstops : ∀ last outcome, Dialogue.Breaks (.sink cause) (sink.headerSent s) last outcome →
      Dialogue.Stops row (first ++ last) outcome)
    (hcounts : Counts session (log ++ first)) :
    Notes (failInBatch sink.noted cause session s)
      (log ++ first) (BatchSaid sink headed log (row :: rest)) := by
  refine (fail_noted hcounts).bind ?_
  rintro ⟨outcome, session', s'⟩ log' ⟨last, rfl, hbreaks, hcounts'⟩
  refine .pure ⟨first ++ last, List.append_assoc .., ?_, hcounts', nofun⟩
  exact .stops (hstops last outcome hbreaks)

theorem disconnect_noted
    (hstops : ∀ last, Dialogue.Stops row (first ++ [.called .forceClose .ok last]) .disconnected)
    (hcounts : Counts session (log ++ first)) :
    Notes (disconnect sink.noted session s) (log ++ first)
      (BatchSaid sink headed log (row :: rest)) := by
  refine (forceClose_noted sink s _).bind ?_
  rintro s' log' rfl
  refine .pure ⟨_, List.append_assoc .., .stops (hstops _), ?_, nofun⟩
  exact Counts.other hcounts (by simp [PumpEvent.isAccepted, PumpEvent.isWait])

omit [Monad m] in
/-- A batch that goes on after a row is said as a batch with that row. -/
theorem BatchSaid.cons {r : Option Outcome × Session × σ} {log' : List PumpEvent}
    (hfirst : Dialogue.Passes row first) (h : BatchSaid sink headed (log ++ first) rest r log') :
    BatchSaid sink headed log (row :: rest) r log' := by
  obtain ⟨steps, rfl, hbatch, hend⟩ := h
  exact ⟨first ++ steps, List.append_assoc .., .row hfirst hbatch, hend⟩

/-- What is said about a batch, row by row. -/
theorem writeBatch_noted {batch : List Row} (hsession : session = Session.after log)
    (hheaded : Dialogue.lastHeaded headed log = sink.headerSent s) :
    Notes (writeBatch sink.noted batch session s) log
      (BatchSaid sink headed log batch) := by
  induction batch generalizing session s log with
  | nil =>
    subst hsession
    exact .pure ⟨[], by simp, .done, .after log, fun _ => ⟨rfl, hheaded⟩⟩
  | cons row rest ih =>
    rw [writeBatch]
    refine (write_noted sink row s log).bind ?_
    rintro ⟨answer, s₁⟩ log₁ rfl
    have hafter := Session.after_write log row answer (sink.headerSent s₁)
    have hlast := Dialogue.lastHeaded_called headed (sink.headerSent s₁) log (.write row)
      (.status answer)
    rw [← hsession] at hafter
    rcases answer with cause | status
    · refine failInBatch_noted (fun last outcome h => .refused h) ?_
      exact Counts.other (hsession ▸ Counts.after log)
        (by simp [PumpEvent.isAccepted, PumpEvent.isWait, Script.accepts])
    cases status with
    | closed => exact disconnect_noted (fun last => .left _ last) (hafter ▸ Counts.after _)
    | ready => exact (ih hafter.symm hlast).mono fun _ _ => .cons (.ready _)
    | saturated =>
      -- No room is left: the wait is part of what is said about the row, whatever is answered to it.
      refine (awaitDrain_noted sink s₁ _).bind ?_
      rintro ⟨answer, s₂⟩ log₂ rfl
      have hafter₂ := Session.after_awaitDrain
        (log ++ [.called (.write row) (.status (.ok .saturated)) (sink.headerSent s₁)])
        (.status answer) (sink.headerSent s₂)
      have hlast₂ := Dialogue.lastHeaded_called headed (sink.headerSent s₂)
        (log ++ [.called (.write row) (.status (.ok .saturated)) (sink.headerSent s₁)])
        .awaitDrain (.status answer)
      rw [hafter, List.append_assoc] at hafter₂
      rw [List.append_assoc] at hlast₂ ⊢
      have hcounts := hafter₂ ▸ Counts.after _
      rcases answer with cause | status
      · exact failInBatch_noted (fun last outcome h => .refusedWaiting _ h) hcounts
      cases status with
      | closed => exact disconnect_noted (fun last => .leftWaiting _ _ last) hcounts
      | ready => exact (ih hafter₂.symm hlast₂).mono fun _ _ => .cons (.waited _ _ (by decide))
      | saturated => exact (ih hafter₂.symm hlast₂).mono fun _ _ => .cons (.waited _ _ (by decide))

/-- How a run ends: what was said from `log` on, and the report, whose counts are those of all that was
said. -/
def RunSaid (hooked headed : Bool) (log : List PumpEvent) (pulls : List Pull) (r : PumpResult σ η)
    (log' : List PumpEvent) : Prop :=
  ∃ events result, log' = log ++ events ∧ Dialogue.Run hooked headed log pulls events result ∧
    r.report = result.map fun outcome =>
      ⟨outcome, log'.countP PumpEvent.isAccepted, log'.countP PumpEvent.isWait⟩

theorem counts_question {hooked : Bool} (log : List PumpEvent) :
    Counts (Session.after log) (log ++ Dialogue.question hooked log) :=
  Session.after_question hooked log ▸ Counts.after _

theorem counts_stop (log : List PumpEvent) :
    Counts (Session.after log) (log ++ [.asked (Session.after log) .stop]) :=
  (Counts.after log).other (by simp [PumpEvent.isAccepted, PumpEvent.isWait])

theorem report_of_counts {outcome : Outcome} (h : Counts session log) :
    report outcome session = .ok ⟨outcome, log.countP PumpEvent.isAccepted,
      log.countP PumpEvent.isWait⟩ := by
  rw [report, h.1, h.2]

/-- A failure between two batches ends the run with what was said before it. -/
theorem failedRun_noted {hooked : Bool} {pulls : List Pull} {cause : StreamError} {h : η}
    (hrun : ∀ last outcome, Dialogue.Breaks cause (sink.headerSent s) last outcome →
      Dialogue.Run hooked headed log pulls (first ++ last) (.ok outcome))
    (hcounts : Counts session (log ++ first)) :
    Notes (do
        let (outcome, session, s) ← fail sink.noted cause session s
        pure (⟨report outcome session, s, h⟩ : PumpResult σ η))
      (log ++ first) (RunSaid hooked headed log pulls) := by
  refine (fail_noted hcounts).bind ?_
  rintro ⟨outcome, session', s'⟩ log' ⟨last, rfl, hbreaks, hcounts'⟩
  exact .pure ⟨_, _, List.append_assoc .., hrun last outcome hbreaks, report_of_counts hcounts'⟩

/-- What is said in a run, answer by answer of the cursor. -/
theorem run_noted {pulls : List Pull} {h : η} (hsession : session = Session.after log)
    (hheaded : Dialogue.lastHeaded headed log = sink.headerSent s) :
    Notes (run sink.noted (Hook.ofOption (hook.map Hook.noted)) pulls session s h) log
      (RunSaid hook.isSome headed log pulls) := by
  induction pulls generalizing session s h log with
  | nil =>
    subst hsession
    rw [run]
    refine (hook_noted hook h log).bind ?_
    rintro ⟨_ | _, h₁⟩ log₁ hlog₁
    · subst hlog₁
      refine (finish_noted sink s _).bind ?_
      rintro ⟨cause | ⟨⟩, s₂⟩ log₂ rfl
      · rw [List.append_assoc]
        refine failedRun_noted (fun last outcome hlast => ?_) ?_
        · rw [List.append_assoc]
          exact .unfinished hlast
        · rw [← List.append_assoc]
          exact (counts_question log).other (by simp [PumpEvent.isAccepted, PumpEvent.isWait])
      · refine .pure ⟨_, _, List.append_assoc .., .completed _, report_of_counts ?_⟩
        exact (counts_question log).other (by simp [PumpEvent.isAccepted, PumpEvent.isWait])
    · obtain ⟨hhooked, rfl⟩ := hlog₁
      exact .pure ⟨_, _, rfl, .stopped hhooked, report_of_counts (counts_stop log)⟩
  | cons pull rest ih =>
    subst hsession
    rw [run]
    refine (hook_noted hook h log).bind ?_
    rintro ⟨_ | _, h₁⟩ log₁ hlog₁
    · subst hlog₁
      have hafter := Session.after_question hook.isSome log
      have hlast := (Dialogue.lastHeaded_question hook.isSome headed log).trans hheaded
      cases pull with
      | crashed crash => exact .pure ⟨_, _, rfl, .crashed, rfl⟩
      | failed cause =>
        refine failedRun_noted (fun last outcome hbreaks => ?_) (counts_question log)
        exact .failed (hheaded ▸ hbreaks)
      | rows batch =>
        refine (writeBatch_noted hafter.symm hlast).bind ?_
        rintro ⟨_ | outcome, session₂, s₂⟩ log₂ ⟨steps, rfl, hbatch, hcounts, hnext⟩
        · obtain ⟨hsession₂, hheaded₂⟩ := hnext rfl
          refine (ih hsession₂ hheaded₂).mono ?_
          rintro r log₃ ⟨events, result, rfl, hrun, hreport⟩
          rw [List.append_assoc] at hrun
          exact ⟨_, _, by simp only [List.append_assoc], .batch hbatch hrun, hreport⟩
        · exact .pure ⟨_, _, List.append_assoc .., .stops hbatch, report_of_counts hcounts⟩
    · obtain ⟨hhooked, rfl⟩ := hlog₁
      exact .pure ⟨_, _, rfl, .stopped hhooked, report_of_counts (counts_stop log)⟩

section

variable [LawfulMonad m] (sink : Sink m σ) (hook : Option (Hook m η))

theorem erases_fail (cause : StreamError) (session : Session) (s : σ) :
    Erases (fail sink.noted cause session s) (fail sink cause session s) := by
  unfold fail
  dsimp only
  rw [show sink.noted.headerSent s = sink.headerSent s from rfl]
  split
  · exact (erases_note _ _).bind fun _ => .pure _
  · exact .pure _

theorem erases_failInBatch (cause : SinkError) (session : Session) (s : σ) :
    Erases (failInBatch sink.noted cause session s) (failInBatch sink cause session s) :=
  (erases_fail sink _ session s).bind fun _ => .pure _

theorem erases_disconnect (session : Session) (s : σ) :
    Erases (disconnect sink.noted session s) (disconnect sink session s) :=
  (erases_note _ _).bind fun _ => .pure _

theorem erases_writeBatch (batch : List Row) (session : Session) (s : σ) :
    Erases (writeBatch sink.noted batch session s) (writeBatch sink batch session s) := by
  induction batch generalizing session s with
  | nil => exact .pure _
  | cons row rest ih =>
    rw [writeBatch, writeBatch]
    refine (erases_note _ _).bind ?_
    rintro ⟨cause | ⟨⟨⟩⟩, s₁⟩
    · exact erases_failInBatch sink cause _ _
    · exact ih _ _
    · refine (erases_note _ _).bind ?_
      rintro ⟨cause | ⟨⟨⟩⟩, s₂⟩
      · exact erases_failInBatch sink cause _ _
      · exact ih _ _
      · exact ih _ _
      · exact erases_disconnect sink _ _
    · exact erases_disconnect sink _ _

theorem erases_hook (session : Session) (h : η) :
    Erases (Hook.ofOption (hook.map Hook.noted) session h) (Hook.ofOption hook session h) := by
  cases hook with
  | none => exact .pure _
  | some hook => exact erases_note _ _

/-- A run whose sink and hook are noted is the run itself. -/
theorem erases_run (pulls : List Pull) (session : Session) (s : σ) (h : η) :
    Erases (run sink.noted (Hook.ofOption (hook.map Hook.noted)) pulls session s h)
      (run sink (Hook.ofOption hook) pulls session s h) := by
  have hfailed (cause : StreamError) (session : Session) (s : σ) (h : η) :=
    (erases_fail sink cause session s).bind fun r =>
      Erases.pure (⟨report r.1 r.2.1, r.2.2, h⟩ : PumpResult σ η)
  induction pulls generalizing session s h with
  | nil =>
    rw [run, run]
    refine (erases_hook hook session h).bind ?_
    rintro ⟨_ | _, h₁⟩
    · refine (erases_note _ _).bind ?_
      rintro ⟨cause | ⟨⟩, s₁⟩
      · exact hfailed (.sink cause) _ _ _
      · exact .pure _
    · exact .pure _
  | cons pull rest ih =>
    rw [run, run]
    refine (erases_hook hook session h).bind ?_
    rintro ⟨_ | _, h₁⟩
    · cases pull with
      | crashed crash => exact .pure _
      | failed cause => exact hfailed (.cursor cause) _ _ _
      | rows batch =>
        refine (erases_writeBatch sink batch session s).bind ?_
        rintro ⟨_ | outcome, session₁, s₁⟩
        · exact ih _ _ _
        · exact .pure _
    · exact .pure _

end

end Pump

namespace Dialogue

/-- Nothing that was said is an end. -/
def Calm (events : List PumpEvent) : Prop :=
  ∀ event ∈ events, event.isForce = false ∧ event.isFinish = false

/-- The ends and the waits stand where they may stand. -/
def Orderly (events : List PumpEvent) : Prop :=
  events.Pairwise PumpEvent.Precedes ∧ WaitsFollow false events

theorem written_append (first more : List PumpEvent) :
    written (first ++ more) = written first ++ written more := List.filterMap_append

theorem WaitsFollow.append {due : Bool} {first more : List PumpEvent} (hfirst : WaitsFollow due first)
    (hmore : WaitsFollow false more) : WaitsFollow due (first ++ more) := by
  induction first generalizing due with
  | nil =>
    obtain rfl : due = false := hfirst
    exact hmore
  | cons event rest ih => exact ⟨hfirst.1, ih hfirst.2⟩

/-- What is orderly stays so after what has no end in it. -/
theorem Orderly.after {first more : List PumpEvent} (h : Orderly more) (hcalm : Calm first)
    (hwaits : WaitsFollow false first) : Orderly (first ++ more) := by
  have hprecedes : ∀ event ∈ first, ∀ later, event.Precedes later := by
    intro event hevent later
    obtain ⟨hforce, hfinish⟩ := hcalm event hevent
    exact ⟨hforce, fun h => absurd h (by simp [hfinish])⟩
  refine ⟨List.pairwise_append.mpr ⟨?_, h.1, fun e he later _ => hprecedes e he later⟩,
    hwaits.append h.2⟩
  exact List.pairwise_of_forall_mem_list fun event hevent later _ => hprecedes event hevent later

theorem Orderly.of_calm {events : List PumpEvent} (hcalm : Calm events)
    (hwaits : WaitsFollow false events) : Orderly events := by
  have h : Orderly [] := ⟨.nil, rfl⟩
  simpa using h.after hcalm hwaits

theorem Calm.unfinished {events : List PumpEvent} (h : Calm events) :
    events.any PumpEvent.isFinish = false :=
  List.any_eq_false.mpr fun event hevent => by simp [(h event hevent).2]

theorem calm_question (hooked : Bool) (before : List PumpEvent) : Calm (question hooked before) := by
  cases hooked <;> simp [Calm, question, PumpEvent.isForce, PumpEvent.isFinish]

theorem waitsFollow_question (hooked : Bool) (before : List PumpEvent) :
    WaitsFollow false (question hooked before) := by
  cases hooked <;> simp [question, WaitsFollow, PumpEvent.isWait, PumpEvent.isSaturated]

theorem written_question (hooked : Bool) (before : List PumpEvent) :
    written (question hooked before) = [] := by
  cases hooked <;> rfl

/-- Before an answer of the cursor there is nothing but the question. -/
theorem Orderly.after_question {events : List PumpEvent} (h : Orderly events) (hooked : Bool)
    (before : List PumpEvent) : Orderly (question hooked before ++ events) :=
  h.after (calm_question hooked before) (waitsFollow_question hooked before)

section

variable {row : Row} {batch : List Row} {cause : StreamError} {headed hooked : Bool}
  {before events last : List PumpEvent} {outcome : Outcome} {pulls : List Pull}

-- A row and an end are said in a few known events, so it is seen at once where the waits and ends stand.
attribute [local simp] Orderly Calm PumpEvent.Precedes WaitsFollow PumpEvent.isForce
  PumpEvent.isFinish PumpEvent.isWait PumpEvent.isSaturated

theorem Breaks.orderly (h : Breaks cause headed last outcome) : Orderly last := by
  cases h <;> simp

theorem Breaks.written_eq (h : Breaks cause headed last outcome) : written last = [] := by
  cases h <;> rfl

theorem Breaks.unfinished (h : Breaks cause headed last outcome) :
    last.any PumpEvent.isFinish = false := by
  cases h <;> rfl

theorem Passes.calm (h : Passes row events) : Calm events := by
  cases h <;> simp

theorem Passes.waitsFollow (h : Passes row events) : WaitsFollow false events := by
  cases h <;> simp

theorem Passes.written_eq (h : Passes row events) : written events = [row] := by
  cases h <;> rfl

theorem Stops.orderly (h : Stops row events outcome) : Orderly events := by
  cases h with
  | left => simp
  | leftWaiting => simp
  | refused hlast => cases hlast <;> simp
  | refusedWaiting _ hlast => cases hlast <;> simp

theorem Stops.written_eq (h : Stops row events outcome) : written events = [row] := by
  cases h with
  | left => rfl
  | leftWaiting => rfl
  | refused hlast => cases hlast <;> rfl
  | refusedWaiting _ hlast => cases hlast <;> rfl

theorem Stops.unfinished (h : Stops row events outcome) : events.any PumpEvent.isFinish = false := by
  cases h with
  | left => rfl
  | leftWaiting => rfl
  | refused hlast => cases hlast <;> rfl
  | refusedWaiting _ hlast => cases hlast <;> rfl

/-- A batch that is written to its end has no end of the run in it. -/
theorem Batch.calm (h : Batch batch events none) : Calm events ∧ WaitsFollow false events := by
  generalize hnone : (none : Option Outcome) = ended at h
  induction h with
  | done => exact ⟨nofun, rfl⟩
  | row hfirst _ ih =>
    obtain ⟨hcalm, hwaits⟩ := ih hnone
    refine ⟨?_, hfirst.waitsFollow.append hwaits⟩
    exact List.forall_mem_append.mpr ⟨hfirst.calm, hcalm⟩
  | stops => cases hnone

theorem Batch.orderly {ended : Option Outcome} (h : Batch batch events ended) : Orderly events := by
  induction h with
  | done => exact ⟨.nil, rfl⟩
  | row hfirst _ ih => exact ih.after hfirst.calm hfirst.waitsFollow
  | stops h => exact h.orderly

theorem Batch.unfinished {ended : Option Outcome} (h : Batch batch events ended) :
    events.any PumpEvent.isFinish = false := by
  induction h with
  | done => rfl
  | row hfirst _ ih => rw [List.any_append, hfirst.calm.unfinished, ih, Bool.or_false]
  | stops h => exact h.unfinished

/-- The rows of a batch are written in their order, up to the one with which the run ends. -/
theorem Batch.written_prefix {ended : Option Outcome} (h : Batch batch events ended) :
    written events <+: batch ∧ (ended = none → written events = batch) := by
  induction h with
  | done => exact ⟨List.prefix_rfl, fun _ => rfl⟩
  | @row row rest first more ended hfirst _ ih =>
    have hsplit : written (first ++ more) = row :: written more := by
      rw [written_append, hfirst.written_eq]
      rfl
    rw [hsplit]
    exact ⟨List.cons_prefix_cons.mpr ⟨rfl, ih.1⟩, fun h => congrArg (row :: ·) (ih.2 h)⟩
  | @stops row rest events outcome h =>
    rw [h.written_eq]
    exact ⟨⟨rest, rfl⟩, nofun⟩

variable {result : Except Crash Outcome}

/-- The ends and the waits of a run stand where they may stand. -/
theorem Run.orderly (h : Run hooked headed before pulls events result) : Orderly events := by
  induction h with
  | stopped => simp
  | completed now =>
    refine Orderly.after_question ?_ hooked _
    simp
  | unfinished hlast =>
    refine Orderly.after_question ?_ hooked _
    cases hlast <;> simp
  | failed hlast => exact hlast.orderly.after_question hooked _
  | crashed => exact .of_calm (calm_question hooked _) (waitsFollow_question hooked _)
  | stops hbatch => exact hbatch.orderly.after_question hooked _
  | batch hbatch _ ih =>
    rw [List.append_assoc]
    exact (ih.after hbatch.calm.1 hbatch.calm.2).after_question hooked _

/-- A run writes the rows of the cursor in their order, up to the one with which it ends, and all of
them before it makes an end. -/
theorem Run.written_prefix (h : Run hooked headed before pulls events result) :
    written events <+: Pull.carried pulls ∧
      (events.any PumpEvent.isFinish = true →
        written events = Pull.carried pulls ∧ ∀ pull ∈ pulls, pull.isRows = true) := by
  have hasked (before : List PumpEvent) := (calm_question hooked before).unfinished
  induction h with
  | stopped => exact ⟨List.nil_prefix, nofun⟩
  | completed now =>
    rw [written_append, written_question]
    exact ⟨List.prefix_rfl, fun _ => ⟨rfl, nofun⟩⟩
  | unfinished hlast =>
    rw [written_append, written_question, written, List.filterMap_cons_none rfl, ← written,
      hlast.written_eq]
    exact ⟨List.prefix_rfl, fun _ => ⟨rfl, nofun⟩⟩
  | failed hlast =>
    rw [written_append, written_question, hlast.written_eq, List.any_append, hasked, hlast.unfinished]
    exact ⟨List.nil_prefix, nofun⟩
  | crashed =>
    rw [written_question, hasked]
    exact ⟨List.nil_prefix, nofun⟩
  | stops hbatch =>
    rw [written_append, written_question, List.any_append, hasked, hbatch.unfinished]
    exact ⟨hbatch.written_prefix.1.trans (List.prefix_append _ _), nofun⟩
  | @batch before events more batch rest result hbatch _ ih =>
    have hcarried : Pull.carried (.rows batch :: rest) = batch ++ Pull.carried rest := rfl
    rw [written_append, written_append, written_question, hbatch.written_prefix.2 rfl,
      List.any_append, List.any_append, hasked, hbatch.unfinished, hcarried]
    refine ⟨(List.prefix_append_right_inj batch).mpr ih.1, fun hfinish => ?_⟩
    obtain ⟨hwritten, hrows⟩ := ih.2 hfinish
    refine ⟨congrArg (batch ++ ·) hwritten, ?_⟩
    rintro pull (_ | ⟨_, hpull⟩)
    · rfl
    · exact hrows pull hpull

end

end Dialogue

section

variable [LawfulMonad m] [Historied m γ]

/-- What a run says to its hook and to its sink is a dialogue over the answers of its cursor, and its report
tells how that dialogue ends and counts what was said in it. To note what is said changes nothing. -/
theorem pump_dialogue (sink : Sink m σ) (hook : Option (Hook m η)) (pulls : List Pull) (s : σ) (h : η)
    (g : γ) :
    let noted := (pump sink.noted (Hook.ofOption (hook.map Hook.noted)) pulls s h).run []
    Prod.fst <$> noted = pump sink (Hook.ofOption hook) pulls s h ∧
    Ensures noted g fun (answer, said) _ =>
      (∃ result, Dialogue.Run hook.isSome (sink.headerSent s) [] pulls said result ∧
        answer.report = result.map fun outcome =>
          ⟨outcome, said.countP PumpEvent.isAccepted, said.countP PumpEvent.isWait⟩) ∧
      said.Pairwise PumpEvent.Precedes ∧ Dialogue.WaitsFollow false said ∧
      Dialogue.written said <+: Pull.carried pulls ∧
      (said.any PumpEvent.isFinish = true →
        Dialogue.written said = Pull.carried pulls ∧ ∀ pull ∈ pulls, pull.isRows = true) := by
  intro noted
  refine ⟨Pump.erases_run sink hook pulls .start s h [], ?_⟩
  rintro ⟨answer, said⟩ g' hends
  have hnoted : Notes (pump sink.noted (Hook.ofOption (hook.map Hook.noted)) pulls s h) []
      (Pump.RunSaid hook.isSome (sink.headerSent s) [] pulls) := Pump.run_noted rfl rfl
  obtain ⟨events, result, rfl, hrun, hreport⟩ := hnoted g answer (g', said) hends
  obtain ⟨horder, hwaits⟩ := hrun.orderly
  exact ⟨⟨result, hrun, hreport⟩, horder, hwaits, hrun.written_prefix⟩

end

/-- A sink that takes a row when it has room no more, takes another, and refuses the third. -/
private def refusing : Script where
  writes := [.ok .saturated, .ok .ready, .error .finished]
  drains := []
  ending := .ok ()
  header := .onceAccepted
  accepted := false
  calls := []

private def threeRows : List Pull :=
  [.rows [.idOnly "a", .idOnly "b"], .rows [], .rows [.idOnly "c", .idOnly "d"]]

private def refusedRun : PumpResult Script Unit × List PumpEvent :=
  (pump (Script.sink (m := Id)).noted (Hook.ofOption (some (Hook.noted (m := Id) Hook.always)))
    threeRows refusing ()).run []

theorem pump_dialogue_refused :
    ∃ said, Dialogue.Run true false [] threeRows said (.ok (.failedMidStream (.sink .finished))) ∧
      said.countP PumpEvent.isAccepted = 2 ∧ said.countP PumpEvent.isWait = 1 ∧
      said.Pairwise PumpEvent.Precedes ∧ Dialogue.WaitsFollow false said := by
  have hended : refusedRun.1.report = .ok ⟨.failedMidStream (.sink .finished), 2, 1⟩ := by
    decide +kernel
  obtain ⟨-, hends⟩ := pump_dialogue (m := Id) Script.sink (some Hook.always) threeRows refusing () ()
  obtain ⟨⟨result, hrun, hreport⟩, horder, hwaits, -⟩ := hends refusedRun () rfl
  have hreport := hended.symm.trans hreport
  cases result with
  | error crash => cases hreport
  | ok outcome =>
    obtain ⟨houtcome, hrows, hcount⟩ := Report.mk.inj (Except.ok.inj hreport)
    exact ⟨_, houtcome ▸ hrun, hrows.symm, hcount.symm, horder, hwaits⟩

end InventoryFeed

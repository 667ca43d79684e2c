import InventoryFeed.Job.Pass
import InventoryFeed.Proofs.Event.Publisher
import InventoryFeed.Proofs.Job.Process
import InventoryFeed.Proofs.Stream.Recorded

/-!
# What a pass goes through

Whatever a pass is answered, it stores one end, as its last step and right after a read of the cancel
flag. Before that it stores counts that are no greater than the one it ends with, and that one counts
the rows that the publisher accepted. What the bus took by then are the first messages of these rows,
all of them if the pump completed.
-/

namespace InventoryFeed

namespace Happening

/-- The message that a happening put on the bus. -/
def message? : Happening → Option EventMessage
  | ⟨.append message, none⟩ => some message
  | _ => none

/-- The answer of a happening that read the cancel flag. -/
def read? : Happening → Option (Option Bool)
  | ⟨.readCancel, flag⟩ => some flag
  | _ => none

/-- The failure by which the bus refused a message. -/
def refusal? : Happening → Option String
  | ⟨.append _, failure⟩ => failure
  | _ => none

/-- The end that a happening was to store. -/
def completion? : Happening → Option (JobStatus × Nat)
  | ⟨.complete status published, _⟩ => some (status, published)
  | _ => none

/-- Whether a happening concerns the bus only. -/
def onBus : Happening → Bool
  | ⟨.append _, _⟩ => true
  | ⟨.flush, _⟩ => true
  | _ => false

/-- The messages that the bus took in a course. -/
def taken (t : List Happening) : List EventMessage := t.filterMap message?

/-- The answers that a course got for the cancel flag. -/
def reads (t : List Happening) : List (Option Bool) := t.filterMap read?

/-- The failures by which the bus refused messages in a course. -/
def refusals (t : List Happening) : List String := t.filterMap refusal?

/-- The ends that a course was to store. -/
def completions (t : List Happening) : List (JobStatus × Nat) := t.filterMap completion?

/-- What a course did apart from the bus. -/
def offBus (t : List Happening) : List Happening := t.filter fun e => !e.onBus

/-- A happening of a pass that has not ended yet and has accepted no more rows than these. -/
def Early (rows : Nat) (e : Happening) : Prop :=
  match e.step with
  | .recordProgress published => published ≤ rows
  | .complete _ _ => False
  | _ => True

theorem Early.mono {rows more : Nat} {e : Happening} (h : e.Early rows) (hle : rows ≤ more) :
    e.Early more := by
  rcases e with ⟨_ | _ | _ | _ | _, answer⟩
  · trivial
  · trivial
  · exact Nat.le_trans h hle
  · trivial
  · exact h

theorem early_of_onBus {rows : Nat} {e : Happening} (h : e.onBus = true) : e.Early rows := by
  rcases e with ⟨_ | _ | _ | _ | _, answer⟩
  · trivial
  · trivial
  · cases h
  · trivial
  · cases h

/-- Whether a course is early shows apart from the bus. -/
theorem early_of_offBus {rows : Nat} {t t' : List Happening} (h : offBus t' = offBus t)
    (early : ∀ e ∈ t, e.Early rows) : ∀ e ∈ t', e.Early rows := by
  intro e he
  cases hbus : e.onBus with
  | true => exact early_of_onBus hbus
  | false =>
    have hoff : e ∈ offBus t' := List.mem_filter.mpr ⟨he, by simp [hbus]⟩
    rw [h] at hoff
    exact early e (List.mem_filter.mp hoff).1

/-- The flags that a course read show apart from the bus. -/
theorem reads_offBus (t : List Happening) : reads (offBus t) = reads t := by
  have hread (e : Happening) : (if (!e.onBus) = true then e.read? else none) = e.read? := by
    rcases e with ⟨_ | _ | _ | _ | _, answer⟩ <;> rfl
  rw [reads, offBus, List.filterMap_filter]
  exact congrArg (List.filterMap · t) (funext hread)

theorem reads_of_offBus {t t' : List Happening} (h : offBus t' = offBus t) : reads t' = reads t := by
  rw [← reads_offBus, h, reads_offBus]

@[simp] theorem taken_append (t t' : List Happening) : taken (t ++ t') = taken t ++ taken t' :=
  List.filterMap_append

@[simp] theorem reads_append (t t' : List Happening) : reads (t ++ t') = reads t ++ reads t' :=
  List.filterMap_append

@[simp] theorem refusals_append (t t' : List Happening) :
    refusals (t ++ t') = refusals t ++ refusals t' :=
  List.filterMap_append

@[simp] theorem completions_append (t t' : List Happening) :
    completions (t ++ t') = completions t ++ completions t' :=
  List.filterMap_append

/-- An early course stores no end. -/
theorem completions_of_early {rows : Nat} {t : List Happening} (h : ∀ e ∈ t, e.Early rows) :
    completions t = [] := by
  refine List.filterMap_eq_nil_iff.mpr fun e he => ?_
  have hearly := h e he
  rcases e with ⟨_ | _ | _ | _ | _, answer⟩
  · rfl
  · rfl
  · rfl
  · rfl
  · exact hearly.elim

end Happening

open Happening

/-- The bus of a pass logs the messages that were not answered by a failure. -/
theorem Process.bus_logs : Process.bus.Logs (fun _ => taken) offBus where
  append := by
    intro message k g
    refine ensures_perform_bind ?_
    rintro (_ | text)
    · exact .pure ⟨taken_append g _, by simp [offBus, onBus]⟩
    · exact .pure ⟨(taken_append g _).trans (List.append_nil _), by simp [offBus, onBus]⟩
  flush := by
    intro k g
    refine ensures_perform_bind fun failure => ?_
    exact .pure ⟨(taken_append g _).trans (List.append_nil _), by simp [offBus, onBus]⟩

/-- It refuses a message if it answers it by a failure, and not by what it answers to a flush. -/
theorem Process.bus_tells : Process.bus.Tells fun t => refusals t = [] where
  append := by
    intro message k g
    refine ensures_perform_bind ?_
    intro (failure : Option String)
    have hrefusals : refusals (g ++ [⟨.append message, failure⟩]) = refusals g ++ failure.toList :=
      (refusals_append g _).trans (congrArg _ (by cases failure <;> rfl))
    refine .pure ?_
    rw [hrefusals, List.append_eq_nil_iff, Option.toList_eq_nil_iff]
  flush := by
    intro k g
    refine ensures_perform_bind fun failure => .pure ?_
    have hrefusals : refusals (g ++ [⟨.flush, failure⟩]) = refusals g :=
      (refusals_append g _).trans (List.append_nil _)
    rw [hrefusals]

/-- The rows of a corpus, as far as it can be read. -/
def CorpusOpening.rows : CorpusOpening → List Row
  | opened pulls => Pull.carried pulls
  | _ => []

/-- Whether a run of the pump completed. -/
def PumpResult.completed {σ η : Type} (r : PumpResult σ η) : Bool :=
  match r.report with
  | .ok report => report.outcome = .completed
  | .error _ => false

/-- Unless the hook stopped the pump, the status is the one of a pass that completed or failed. -/
theorem Outcome.finalStatus_eq (outcome : Outcome) (flag : Bool) :
    outcome.finalStatus flag =
        (if outcome = .completed then .idsPublished else failureStatus flag) ∨
      outcome = .cancelled ∧ outcome.finalStatus flag = .cancelled := by
  cases outcome with
  | completed => exact .inl rfl
  | cancelled => exact .inr ⟨rfl, rfl⟩
  | failedBeforeStart cause => exact .inl rfl
  | failedMidStream cause => exact .inl rfl
  | disconnected => exact .inl rfl

namespace Pass

/-- The pump of a pass, the publisher being watched. -/
def watched (tuning : PassTuning) (job : Job) (pulls : List Pull) :
    Process (PumpResult (Publisher Unit × SinkRecord) Nat) :=
  pump (Publisher.sink Process.bus).recorded (hook tuning.progressEvery) pulls
    (Publisher.start job tuning.marks tuning.pace (), []) 0

/-- The first part of a pass, that in which rows are written, ending with whether the pump completed
and the rows that the publisher accepted. -/
def account (tuning : PassTuning) (job : Job) : CorpusOpening → Process (Bool × List Row)
  | .opened pulls => (fun r => (r.completed, r.sink.2.accepted)) <$> watched tuning job pulls
  | _ => pure (false, [])

/-- Watching the publisher does not change the pump. -/
theorem unwatched_watched (tuning : PassTuning) (job : Job) (pulls : List Pull) :
    PumpResult.unwatched <$> watched tuning job pulls = pumped tuning job pulls :=
  Pump.run_recorded _ _ _ _ _ _

/-- What a question to the hook makes happen, and the flag that it reads: unless the count that is
shown was stored before, it is to be stored first. -/
def Asked (rows : Nat) (flag : Option Bool) (t : List Happening) : Prop :=
  t = [⟨.readCancel, flag⟩] ∨ ∃ ran, t = [⟨.recordProgress rows, ran⟩, ⟨.readCancel, flag⟩]

/-- The hook stops the pump exactly if the flag that it reads is raised. -/
theorem hook_ensures (every : Nat) (session : Session) (stored : Nat) (g : List Happening) :
    Ensures (hook every session stored) g fun r g' =>
      ∃ flag added, Asked session.rowsEmitted flag added ∧ g' = g ++ added ∧
        (r.1 = .stop ↔ flag = some true) := by
  have hstop (flag : Option Bool) :
      (if flag = some true then Decision.stop else .goOn) = .stop ↔ flag = some true := by
    split <;> simp_all
  unfold hook
  dsimp only
  split
  · exact Process.ensures_perform_bind fun flag => .pure ⟨flag, _, .inl rfl, rfl, hstop flag⟩
  · refine Ensures.bind (Process.ensures_perform _ g) ?_
    rintro ran _ rfl
    exact Process.ensures_perform_bind fun flag =>
      .pure ⟨flag, _, .inr ⟨ran, rfl⟩, List.append_assoc g _ _, hstop flag⟩

section

variable {rows : Nat} {flag : Option Bool} {t : List Happening}

theorem Asked.taken_eq (h : Asked rows flag t) : taken t = [] := by
  rcases h with rfl | ⟨ran, rfl⟩ <;> rfl

theorem Asked.refusals_eq (h : Asked rows flag t) : refusals t = [] := by
  rcases h with rfl | ⟨ran, rfl⟩ <;> rfl

theorem Asked.reads_eq (h : Asked rows flag t) : reads t = [flag] := by
  rcases h with rfl | ⟨ran, rfl⟩ <;> rfl

theorem Asked.early (h : Asked rows flag t) : ∀ e ∈ t, e.Early rows := by
  rcases h with rfl | ⟨ran, rfl⟩ <;> simp [Early]

end

/-- What holds while a pass writes rows. -/
def Writing (job : Job) (rows : List Row) (p : Publisher Unit) (g : List Happening) : Prop :=
  p.Sound job False rows (taken g) ∧ p.finished = false ∧ ∀ e ∈ g, e.Early rows.length

/-- What holds of the rows that a pass has written, however the publisher was left. -/
def Written (job : Job) (rows : List Row) (p : Publisher Unit) (g : List Happening) : Prop :=
  (∃ cut, p.Sound job cut rows (taken g)) ∧ ∀ e ∈ g, e.Early rows.length

/-- The stages of a pass that writes rows. While it goes on, the bus has refused no message and the
hook has read no raised flag. -/
def stages (job : Job) : Pump.Stages (Publisher Unit) Nat (List Happening) where
  on rows p _ g :=
    Writing job rows p g ∧ p.out.Open ∧ refusals g = [] ∧ some true ∉ reads g
  halted rows p _ g :=
    Writing job rows p g ∧ p.out.Open ∧ refusals g = [] ∧ (reads g).getLast? = some (some true)
  done rows p _ g :=
    Written job rows p g ∧ refusals g = [] ∧ some true ∉ reads g ∧
      taken g = Publisher.messages job rows
  refused rows p _ g := Written job rows p g ∧ refusals g ≠ []
  unread rows p _ g := Written job rows p g ∧ some true ∉ reads g

theorem Writing.written {job : Job} {rows : List Row} {p : Publisher Unit} {g : List Happening}
    (h : Writing job rows p g) : Written job rows p g := ⟨⟨_, h.1⟩, h.2.2⟩

/-- A question to the hook with the number of these rows keeps this. -/
theorem Writing.asked {job : Job} {rows : List Row} {p : Publisher Unit} {g added : List Happening}
    {flag : Option Bool} (h : Writing job rows p g) (hasked : Asked rows.length flag added) :
    Writing job rows p (g ++ added) := by
  refine ⟨?_, h.2.1, fun e he => (List.mem_append.mp he).elim (h.2.2 e) (hasked.early e)⟩
  rw [taken_append, hasked.taken_eq, List.append_nil]
  exact h.1

/-- The pump of a pass goes through these stages. -/
theorem pump_tracks (every : Nat) (job : Job) :
    Pump.Tracks (Publisher.sink Process.bus) (hook every) (stages job) where
  write := by
    rintro rows p h g ⟨⟨hp, hfinished, hearly⟩, hopen, hfine, hflags⟩ row
    refine ((Publisher.write_sound Process.bus_logs row hp).and
      (Publisher.write_tells Process.bus_tells row hfinished hopen hfine)).mono ?_
    rintro ⟨answer, p'⟩ g' ⟨⟨hp', hside, hfinished'⟩, htold⟩
    have hearly' := early_of_offBus hside hearly
    have hreads := reads_of_offBus hside
    cases ha : Script.accepts answer <;> simp only [ha] at hp' htold ⊢
    · exact ⟨⟨⟨_, hp'⟩, hearly'⟩, htold⟩
    · refine ⟨⟨hp', hfinished'.trans hfinished, fun e he => ?_⟩, htold.1, htold.2, hreads ▸ hflags⟩
      exact (hearly' e he).mono (by simp)
  awaitDrain := by
    rintro rows p h g ⟨⟨hp, hfinished, hearly⟩, hopen, hfine, hflags⟩
    refine ((Publisher.awaitDrain_sound Process.bus_logs hp).and
      (Publisher.awaitDrain_tells Process.bus_tells hopen hfine)).mono ?_
    rintro ⟨answer, p'⟩ g' ⟨⟨hp', hside, hfinished'⟩, htold⟩
    have hwriting : Writing job rows p' g' :=
      ⟨hp', hfinished'.trans hfinished, early_of_offBus hside hearly⟩
    have hreads := reads_of_offBus hside
    cases ha : Script.accepts answer <;> simp only [ha] at htold ⊢
    · exact ⟨hwriting.written, htold⟩
    · exact ⟨hwriting, htold.1, htold.2, hreads ▸ hflags⟩
  hook := by
    rintro rows p h g ⟨hwriting, hopen, hfine, hflags⟩ session hcount
    refine (hook_ensures every session h g).mono ?_
    rintro ⟨decision, h'⟩ _ ⟨flag, added, hasked, rfl, hstop⟩
    have hwriting' : Writing job rows p (g ++ added) := hwriting.asked (hcount ▸ hasked)
    have hrefusals : refusals (g ++ added) = [] := by
      rw [refusals_append, hfine, hasked.refusals_eq]
      rfl
    cases decision with
    | stop =>
      refine ⟨hwriting', hopen, hrefusals, ?_⟩
      rw [reads_append, hasked.reads_eq, List.getLast?_concat, hstop.mp rfl]
    | goOn =>
      refine ⟨hwriting', hopen, hrefusals, ?_⟩
      rw [reads_append, hasked.reads_eq, List.mem_append, List.mem_singleton]
      exact fun hraised => hraised.elim hflags fun h => absurd (hstop.mpr h.symm) nofun
  finish := by
    rintro rows p h g ⟨⟨hp, hfinished, hearly⟩, hopen, hfine, hflags⟩
    refine ((Publisher.finish_sound Process.bus_logs hp).and
      (Publisher.finish_tells Process.bus_tells hfinished hopen hfine)).mono ?_
    rintro ⟨answer, p'⟩ g' ⟨⟨hp', hside, hall⟩, htold⟩
    have hwritten : Written job rows p' g' := ⟨⟨_, hp'⟩, early_of_offBus hside hearly⟩
    cases answer with
    | error cause => exact ⟨hwritten, fun h => absurd (htold.mpr h) nofun⟩
    | ok u =>
      exact ⟨hwritten, htold.mp rfl, reads_of_offBus hside ▸ hflags, hall rfl hfinished id⟩
  unread_of_on := fun ⟨hwriting, _, _, hflags⟩ => ⟨hwriting.written, hflags⟩
  closeRefused := by
    rintro rows p h g ⟨⟨⟨cut, hp⟩, hearly⟩, hlost⟩
    refine ((Publisher.forceClose_sound Process.bus_logs hp).and
      (Process.ensures_extends _ g)).mono ?_
    rintro p' _ ⟨⟨hp', hside⟩, ⟨added, rfl⟩⟩
    refine ⟨⟨⟨True, hp'⟩, early_of_offBus hside hearly⟩, fun hnone => hlost ?_⟩
    rw [refusals_append] at hnone
    exact (List.append_eq_nil_iff.mp hnone).1
  closeUnread := by
    rintro rows p h g ⟨⟨⟨cut, hp⟩, hearly⟩, hflags⟩
    refine (Publisher.forceClose_sound Process.bus_logs hp).mono ?_
    rintro p' g' ⟨hp', hside⟩
    exact ⟨⟨⟨True, hp'⟩, early_of_offBus hside hearly⟩, reads_of_offBus hside ▸ hflags⟩

/-- What publishing comes to behind a pump, when these rows were accepted and this happened. -/
structure Settled (job : Job) (rows : List Row) (r : PumpResult (Publisher Unit) Nat)
    (published : Published) (t : List Happening) : Prop where
  /-- The bus took the first messages of the rows. -/
  taken_within : taken t <+: Publisher.messages job rows
  /-- The rows are counted. -/
  accepted_eq : published.accepted = rows.length
  /-- A report is the one of the pump. -/
  report_eq : ∀ report, published.report = some report → r.report = .ok report
  /-- The report of a pump that completed is kept, and the bus took every message. -/
  whole : r.completed = true →
    published.report = r.report.toOption ∧ taken t = Publisher.messages job rows

/-- The end of the messages delivers what is left, unless the pump has seen to that. -/
theorem settle_ensures {job : Job} {rows : List Row} {r : PumpResult (Publisher Unit) Nat}
    {g : List Happening} (hwritten : Written job rows r.sink g)
    (hdone : r.completed = true → taken g = Publisher.messages job rows) :
    Ensures (settle r) g fun published g' =>
      Settled job rows r published g' ∧ offBus g' = offBus g := by
  obtain ⟨⟨cut, hp⟩, -⟩ := hwritten
  unfold settle
  split
  · rename_i crash hreport
    have hnot : r.completed ≠ true := by simp [PumpResult.completed, hreport]
    refine (Publisher.release_sound Process.bus_logs hp).bind ?_
    rintro p g' ⟨hp', hside⟩
    exact .pure ⟨⟨hp'.delivered_within, hp'.accepted_eq, nofun, fun hc => absurd hc hnot⟩, hside⟩
  · rename_i report hreport
    have hsame : ∀ other, some report = some other → r.report = .ok other := by
      rintro _ ⟨⟩
      exact hreport
    split
    · rename_i hopen
      have hnot : r.completed ≠ true := by
        rcases report with ⟨_ | _ | _ | _ | _, emitted, waits⟩ <;>
          simp_all [PumpResult.completed, leavesOpen]
      refine (Publisher.finish_sound Process.bus_logs hp).bind ?_
      rintro ⟨answer, p⟩ g' ⟨hp', hside, -⟩
      cases answer with
      | ok u =>
        exact .pure ⟨⟨hp'.delivered_within, hp'.accepted_eq, hsame, fun hc => absurd hc hnot⟩, hside⟩
      | error cause =>
        exact .pure ⟨⟨hp'.delivered_within, hp'.accepted_eq, nofun, fun hc => absurd hc hnot⟩, hside⟩
    · refine .pure ⟨⟨hp.delivered_within, hp.accepted_eq, hsame, fun hc => ⟨?_, hdone hc⟩⟩, rfl⟩
      rw [hreport]
      rfl

/-- The end of a pass is a read of the flag and the end that is stored. -/
theorem follows_conclude {published : Published} {t : List Happening}
    (h : (conclude published).Follows t ()) :
    ∃ (flag : Option Bool) (status : JobStatus) (count : Nat),
      t = [⟨.readCancel, flag⟩, ⟨.complete status count, ()⟩] ∧
        match published.report with
        | some report =>
          status = report.outcome.finalStatus (flag = some true) ∧ count = report.rowsEmitted
        | none => status = failureStatus (flag = some true) ∧ count = published.accepted := by
  obtain ⟨flag, rest, rfl, hrest⟩ := Process.follows_step.mp h
  rcases hreport : published.report with _ | report
  · simp only [hreport] at hrest
    obtain ⟨⟨⟩, _, rfl, hend⟩ := Process.follows_step.mp hrest
    obtain ⟨-, rfl⟩ := Process.follows_done.mp hend
    exact ⟨flag, _, _, rfl, rfl, rfl⟩
  · simp only [hreport] at hrest
    obtain ⟨⟨⟩, _, rfl, hend⟩ := Process.follows_step.mp hrest
    obtain ⟨-, rfl⟩ := Process.follows_done.mp hend
    exact ⟨flag, _, _, rfl, rfl, rfl⟩

/-- The status that a pass ends with: that of a pass that completed or failed, by the flag that it
read last, or that of one whose pump was stopped by a flag. -/
def EndsWith (completed stopped : Prop) [Decidable completed] (flag : Option Bool)
    (status : JobStatus) : Prop :=
  status = (if completed then .idsPublished else failureStatus (flag = some true)) ∨
    ¬completed ∧ stopped ∧ status = .cancelled

/-- The end that is stored counts the accepted rows, and its status is that of the pump unless that
broke off or the messages could not be ended. -/
theorem Settled.stores {job : Job} {rows : List Row} {r : PumpResult (Publisher Unit) Nat}
    {published : Published} {t : List Happening} {stopped : Prop} {flag : Option Bool}
    {status : JobStatus} {count : Nat} (h : Settled job rows r published t)
    (hreport : ∀ report, r.report = .ok report →
      report.rowsEmitted = rows.length ∧ (report.outcome = .cancelled → stopped))
    (hend : match published.report with
      | some report =>
        status = report.outcome.finalStatus (flag = some true) ∧ count = report.rowsEmitted
      | none => status = failureStatus (flag = some true) ∧ count = published.accepted) :
    count = rows.length ∧ EndsWith (r.completed = true) stopped flag status := by
  rcases hpublished : published.report with _ | report
  · simp only [hpublished] at hend
    have hnot : r.completed ≠ true := by
      intro hc
      have hnone : none = r.report.toOption := hpublished ▸ (h.whole hc).1
      rcases hr : r.report with crash | report
      · simp [PumpResult.completed, hr] at hc
      · rw [hr] at hnone
        cases hnone
    exact ⟨hend.2.trans h.accepted_eq, .inl (by rw [hend.1, if_neg hnot])⟩
  · simp only [hpublished] at hend
    have hr := h.report_eq report hpublished
    obtain ⟨hemitted, hstopped⟩ := hreport report hr
    have hc : r.completed = true ↔ report.outcome = .completed := by
      simp [PumpResult.completed, hr]
    refine ⟨hend.2.trans hemitted, ?_⟩
    rcases report.outcome.finalStatus_eq (flag = some true) with heq | ⟨hcancelled, heq⟩
    · refine .inl ?_
      rw [hend.1, heq]
      simp only [hc]
    · refine .inr ⟨?_, hstopped hcancelled, hend.1.trans heq⟩
      rw [hc, hcancelled]
      nofun

/-- How a course of a pass is made up: one part in which rows are written, one in which the messages
that are left are delivered, a last read of the flag, and the end that is stored. -/
structure Ended (tuning : PassTuning) (job : Job) (corpus : CorpusOpening) (t : List Happening)
    (completed : Bool) (rows : List Row) (writing settling : List Happening) (flag : Option Bool)
    (status : JobStatus) : Prop where
  /-- The count that is stored is that of the accepted rows. -/
  parts : t = writing ++ settling ++ [⟨.readCancel, flag⟩, ⟨.complete status rows.length, ()⟩]
  /-- The rows are those that the publisher accepted. -/
  account : (account tuning job corpus).Follows writing (completed, rows)
  /-- No other end is stored, and no greater count. -/
  early : ∀ e ∈ writing ++ settling, e.Early rows.length
  /-- While messages are delivered the flag is not read. -/
  settling_reads : reads settling = []
  /-- The status follows from how the pump ended and from the flag. -/
  status_eq : EndsWith (completed = true) ((reads writing).getLast? = some (some true)) flag status
  /-- Rows are accepted in the order of the corpus. -/
  rows_within : rows <+: corpus.rows
  /-- The bus took the messages of the first of them. -/
  taken_within : taken t <+: Publisher.messages job rows
  /-- A pump that completed has left out nothing. -/
  whole : completed = true → rows = corpus.rows ∧ taken t = Publisher.messages job rows ∧
    ∃ pulls, corpus = .opened pulls ∧ ∀ pull ∈ pulls, pull.isRows

variable {tuning : PassTuning} {job : Job} {t : List Happening}

/-- A pass over a corpus that cannot be read writes no rows. -/
theorem ended_of_conclude {corpus : CorpusOpening} (hrows : corpus.rows = [])
    (haccount : account tuning job corpus = pure (false, []))
    (h : (conclude ⟨none, 0⟩).Follows t ()) :
    ∃ flag status, Ended tuning job corpus t false [] [] [] flag status := by
  obtain ⟨flag, status, count, rfl, rfl, rfl⟩ := follows_conclude h
  refine ⟨flag, _, rfl, ?_, nofun, rfl, .inl rfl, hrows ▸ List.prefix_rfl, List.prefix_rfl, nofun⟩
  rw [haccount]
  exact .done _

/-- The pump of a pass ends at one of the stages. -/
theorem watched_stage {pulls : List Pull} {r : PumpResult (Publisher Unit × SinkRecord) Nat}
    (h : (watched tuning job pulls).Follows t r) :
    Pump.RunEnds (stages job).recorded [] pulls r t := by
  have hstart : (stages job).on [] (Publisher.start job tuning.marks tuning.pace ()) 0 [] :=
    ⟨⟨Publisher.start_sound job tuning.marks tuning.pace (), rfl, nofun⟩, ⟨rfl, rfl, rfl⟩, rfl, nofun⟩
  have htracks := (pump_tracks tuning.progressEvery job).recorded
  exact h.ensured (Pump.run_ends htracks ⟨hstart, rfl⟩ rfl)

/-- What the pump of a pass comes to. -/
theorem watched_ends {pulls : List Pull} {r : PumpResult (Publisher Unit × SinkRecord) Nat}
    (h : (watched tuning job pulls).Follows t r) :
    r.sink.2.accepted <+: Pull.carried pulls ∧ Written job r.sink.2.accepted r.sink.1 t ∧
      (∀ report, r.report = .ok report → report.rowsEmitted = r.sink.2.accepted.length ∧
        (report.outcome = .cancelled → (reads t).getLast? = some (some true))) ∧
      (r.completed = true → r.sink.2.accepted = Pull.carried pulls ∧
        (∀ pull ∈ pulls, pull.isRows) ∧ taken t = Publisher.messages job r.sink.2.accepted) := by
  have hreadable := Pull.readable_within pulls
  have hbroken {outcome : Outcome} {session : Session} {s : Publisher Unit × SinkRecord} {h : Nat}
      (hb : Pump.Broken outcome) :
      (⟨Pump.report outcome session, s, h⟩ : PumpResult _ _).completed ≠ true := by
    simp [PumpResult.completed, Pump.report, hb.1]
  cases watched_stage h with
  | completed hcount hpulls hdone =>
    obtain ⟨⟨hwritten, -, -, htaken⟩, haccepted⟩ := hdone
    rw [← haccepted] at hwritten htaken hcount
    refine ⟨haccepted ▸ List.prefix_rfl, hwritten, ?_, fun _ => ⟨haccepted, hpulls, htaken⟩⟩
    rintro report ⟨⟩
    exact ⟨hcount, nofun⟩
  | halted hmore hcount hhalted =>
    obtain ⟨⟨hwriting, -, -, hraised⟩, haccepted⟩ := hhalted
    rw [← haccepted] at hwriting hcount
    refine ⟨haccepted ▸ hmore.trans hreadable, hwriting.written, ?_, nofun⟩
    rintro report ⟨⟩
    exact ⟨hcount, fun _ => hraised⟩
  | refused hb hmore hcount hrefused =>
    obtain ⟨⟨hwritten, -⟩, haccepted⟩ := hrefused
    rw [← haccepted] at hwritten hcount
    refine ⟨haccepted ▸ hmore.trans hreadable, hwritten, ?_, fun hc => absurd hc (hbroken hb)⟩
    rintro report ⟨⟩
    exact ⟨hcount, fun hc => absurd hc hb.2⟩
  | unread hb hpulls hcount hunread =>
    obtain ⟨⟨hwritten, -⟩, haccepted⟩ := hunread
    rw [← haccepted] at hwritten hcount
    refine ⟨haccepted ▸ hreadable, hwritten, ?_, fun hc => absurd hc (hbroken hb)⟩
    rintro report ⟨⟩
    exact ⟨hcount, fun hc => absurd hc hb.2⟩
  | crashed hpulls hunread =>
    obtain ⟨⟨hwritten, -⟩, haccepted⟩ := hunread
    rw [← haccepted] at hwritten
    exact ⟨haccepted ▸ hreadable, hwritten, nofun, nofun⟩

/-- A pass over an open corpus ends as its pump and the delivery of what is left have it. -/
theorem ended_of_publish {pulls : List Pull}
    (h : (publish tuning job pulls >>= conclude).Follows t ()) :
    ∃ completed rows writing settling flag status,
      Ended tuning job (.opened pulls) t completed rows writing settling flag status := by
  obtain ⟨_, ending, published, rfl, hpublish, hconclude⟩ := Process.follows_bind.mp h
  obtain ⟨writing, settling, result, rfl, hpumped, hsettle⟩ := Process.follows_bind.mp hpublish
  rw [← unwatched_watched] at hpumped
  obtain ⟨r, hwatched, rfl⟩ := Process.follows_map.mp hpumped
  obtain ⟨hrows, hwritten, hreport, hcompleted⟩ := watched_ends hwatched
  obtain ⟨hsettled, hoff⟩ := settle_ensures hwritten (fun hc => (hcompleted hc).2.2)
    published (writing ++ settling) ⟨settling, rfl, hsettle⟩
  obtain ⟨flag, status, count, rfl, hend⟩ := follows_conclude hconclude
  obtain ⟨rfl, hstatus⟩ := hsettled.stores hreport hend
  have htaken : taken (writing ++ settling ++ [⟨.readCancel, flag⟩,
      ⟨.complete status r.sink.2.accepted.length, ()⟩]) = taken (writing ++ settling) := by
    rw [taken_append]
    exact List.append_nil _
  have hreads : reads settling = [] := by
    have hsplit : reads writing ++ reads settling = reads writing ++ [] := by
      rw [← reads_append, ← reads_offBus, hoff, reads_offBus, List.append_nil]
    exact List.append_cancel_left hsplit
  refine ⟨r.completed, r.sink.2.accepted, writing, settling, flag, status, rfl, ?_,
    early_of_offBus hoff hwritten.2, hreads, hstatus, hrows, ?_, fun hc => ?_⟩
  · exact Process.follows_map.mpr ⟨r, hwatched, rfl⟩
  · rw [htaken]
    exact hsettled.taken_within
  · obtain ⟨hall, hpulls, -⟩ := hcompleted hc
    exact ⟨hall, htaken.trans (hsettled.whole hc).2, pulls, rfl, hpulls⟩

/-- Every course of a pass is made up in this way. -/
theorem ended_of_follows {corpus : CorpusOpening} (h : (job.pass tuning corpus).Follows t ()) :
    ∃ completed rows writing settling flag status,
      Ended tuning job corpus t completed rows writing settling flag status := by
  cases corpus with
  | opened pulls => exact ended_of_publish h
  | refused cause => exact ⟨_, _, _, _, ended_of_conclude rfl rfl h⟩
  | crashed crash => exact ⟨_, _, _, _, ended_of_conclude rfl rfl h⟩

end Pass

end InventoryFeed

import InventoryFeed.Proofs.Job.Passes

/-!
# When a pass leaves its job published

A pass leaves its job published exactly if its corpus could be read to the end, the bus refused no
message, and no flag was raised that was read before a batch. The stages at which its pump can end say
so, together with what is left to deliver then. What the bus answers to the flush at the end is of no
account: a bus that holds messages back and loses them at the flush leaves its job published.
-/

namespace InventoryFeed

open Happening

/-- Whether a happening is a flush that was answered by a failure. -/
def Happening.flushFailed : Happening → Bool
  | ⟨.flush, some _⟩ => true
  | _ => false

namespace Pass

variable {tuning : PassTuning} {job : Job} {corpus : CorpusOpening} {pulls : List Pull}
  {t writing settling : List Happening} {completed : Bool} {rows : List Row} {flag : Option Bool}
  {status : JobStatus}

section

variable (h : Ended tuning job corpus t completed rows writing settling flag status)

include h

theorem Ended.taken_eq : taken t = taken (writing ++ settling) := by
  rw [h.parts, taken_append]
  exact List.append_nil _

theorem Ended.refusals_eq : refusals t = refusals (writing ++ settling) := by
  rw [h.parts, refusals_append]
  exact List.append_nil _

/-- The flag that is read last is the one that follows those of the hook. -/
theorem Ended.reads_eq : reads t = reads writing ++ [flag] := by
  rw [h.parts, reads_append, reads_append, h.settling_reads, List.append_nil]
  rfl

/-- Before its last step a pass is early. -/
theorem Ended.early_of_append {early late : List Happening} (hsplit : t = early ++ late)
    (hlate : late ≠ []) : ∀ e ∈ early, e.Early rows.length := by
  obtain ⟨more, last, rfl⟩ := (List.eq_nil_or_concat late).resolve_left hlate
  have hparts : early ++ more ++ [last] = writing ++ settling ++ [⟨.readCancel, flag⟩] ++
      [⟨.complete status rows.length, ()⟩] := by
    simpa using hsplit.symm.trans h.parts
  have hbefore := (List.append_inj' hparts rfl).1
  intro e he
  have hmem : e ∈ writing ++ settling ++ [⟨.readCancel, flag⟩] :=
    hbefore ▸ List.mem_append_left _ he
  rcases List.mem_append.mp hmem with hmem | hmem
  · exact h.early e hmem
  · rw [List.mem_singleton.mp hmem]
    trivial

end

section

variable (h : Ended tuning job (.opened pulls) t completed rows writing settling flag status)

include h

/-- The first part of a course is one of the pump, which tells how it ended. -/
theorem Ended.watched : ∃ r, (watched tuning job pulls).Follows writing r ∧
    r.completed = completed ∧ r.sink.2.accepted = rows := by
  obtain ⟨r, hr, heq⟩ := Process.follows_map.mp h.account
  obtain ⟨rfl, rfl⟩ := Prod.mk.inj heq
  exact ⟨r, hr, rfl, rfl⟩

/-- A pump that completed was refused no message and read no raised flag. -/
theorem Ended.smooth (hcompleted : completed = true) :
    refusals writing = [] ∧ some true ∉ reads writing := by
  obtain ⟨r, hr, rfl, -⟩ := h.watched
  have hbroken {outcome : Outcome} (hb : Pump.Broken outcome)
      (hc : decide (outcome = .completed) = true) : False := hb.1 (of_decide_eq_true hc)
  cases watched_stage hr with
  | completed _ _ hdone => exact ⟨hdone.1.2.1, hdone.1.2.2.1⟩
  | halted => cases hcompleted
  | refused hb => exact (hbroken hb hcompleted).elim
  | unread hb => exact (hbroken hb hcompleted).elim
  | crashed => cases hcompleted

/-- A pump that was refused no message and read no raised flag has written all rows that can be read, and
has completed if these are all. -/
theorem Ended.of_smooth (hfine : refusals writing = []) (hflags : some true ∉ reads writing) :
    rows = Pull.readable pulls ∧ (completed = true ↔ ∀ pull ∈ pulls, pull.isRows) := by
  obtain ⟨r, hr, rfl, rfl⟩ := h.watched
  have hbroken {outcome : Outcome} (hb : Pump.Broken outcome)
      (hc : decide (outcome = .completed) = true) : False := hb.1 (of_decide_eq_true hc)
  have hfailed (hpulls : ∃ pull ∈ pulls, pull.isRows = false)
      (hall : ∀ pull ∈ pulls, pull.isRows = true) : False := by
    obtain ⟨pull, hmem, hnot⟩ := hpulls
    exact absurd (hnot.symm.trans (hall pull hmem)) nofun
  cases watched_stage hr with
  | completed _ hpulls hdone =>
    rw [hdone.2, Pull.readable_eq_carried hpulls]
    exact ⟨rfl, fun _ => hpulls, fun _ => rfl⟩
  | halted _ _ hhalted => exact absurd (List.mem_of_getLast? hhalted.1.2.2.2) hflags
  | refused _ _ _ hrefused => exact absurd hfine hrefused.1.2
  | unread hb hpulls _ hunread =>
    exact ⟨hunread.2, fun hc => (hbroken hb hc).elim, fun hall => (hfailed hpulls hall).elim⟩
  | crashed hpulls hunread => exact ⟨hunread.2, nofun, fun hall => (hfailed hpulls hall).elim⟩

/-- The second part of a course ends the messages of the pump. -/
theorem Ended.settles (hpass : (job.pass tuning (.opened pulls)).Follows t ())
    {r : PumpResult (Publisher Unit × SinkRecord) Nat}
    (hr : (Pass.watched tuning job pulls).Follows writing r) :
    ∃ published, (settle r.unwatched).Follows settling published := by
  obtain ⟨publishing, ending, published, hsplit, hpublish, hconclude⟩ := Process.follows_bind.mp hpass
  obtain ⟨_, _, _, rfl, -⟩ := follows_conclude hconclude
  obtain ⟨rfl, -⟩ := List.append_inj' (h.parts.symm.trans hsplit) rfl
  have hpumped : (pumped tuning job pulls).Follows writing r.unwatched := by
    rw [← unwatched_watched]
    exact Process.follows_map.mpr ⟨r, hr, rfl⟩
  exact ⟨published, hpumped.rest hpublish⟩

/-- Behind a pump that completed there is nothing left to deliver. -/
theorem Ended.settling_eq_nil (hpass : (job.pass tuning (.opened pulls)).Follows t ())
    (hcompleted : completed = true) : settling = [] := by
  obtain ⟨r, hr, rfl, -⟩ := h.watched
  obtain ⟨published, hsettle⟩ := h.settles hpass hr
  obtain ⟨report, hreport, houtcome⟩ : ∃ report, r.report = .ok report ∧ report.outcome = .completed := by
    rcases hr : r.report with crash | report
    · simp [PumpResult.completed, hr] at hcompleted
    · exact ⟨report, rfl, by simpa [PumpResult.completed, hr] using hcompleted⟩
  have hpure : settle r.unwatched = pure ⟨some report, r.sink.1.accepted⟩ := by
    simp [settle, PumpResult.unwatched, hreport, houtcome, leavesOpen]
  rw [hpure] at hsettle
  exact (Process.follows_done.mp hsettle).2

end

end Pass

namespace Passes

variable {β : Type} {bus : EventBus Id β} {p : Passes β} {tuning : PassTuning} {corpus : CorpusOpening}
  {moves : List PassMove}

/-- A pass leaves its job published exactly if its corpus was read to the end, the bus refused no message
and no flag was raised of those that were read before a batch. So a refused message is never passed
over; what the bus answers to a flush does not count. -/
theorem published_iff_unrefused {job : Job} (hbegun : p.Begun tuning corpus job)
    (hended : (p.moves bus moves).hasEnded job.id = true) :
    ∃ stored, (p.moves bus moves).shared.jobs.find? job.id = some stored ∧
      (stored.status = JobStatus.idsPublished.name ↔
        (∃ pulls, corpus = .opened pulls ∧ ∀ pull ∈ pulls, pull.isRows) ∧
          refusals (p.course bus job.id moves) = [] ∧
          some true ∉ (reads (p.course bus job.id moves)).dropLast) := by
  obtain ⟨completed, rows, writing, settling, flag, status, stored, h, hstatus, hstores⟩ :=
    ended_of_moves hbegun hended
  have hpass := follows_of_ended hbegun hended
  have hname : stored.status = JobStatus.idsPublished.name ↔ completed = true := by
    rw [hstores.status_eq, JobStatus.name_inj, hstatus]
    cases completed with
    | true => simp
    | false => cases flag <;> simp [failureStatus]
  refine ⟨stored, hstores.found, hname.trans ⟨fun hc => ?_, ?_⟩⟩
  · obtain ⟨-, -, pulls, rfl, hpulls⟩ := h.whole hc
    obtain ⟨hfine, hflags⟩ := h.smooth hc
    refine ⟨⟨pulls, rfl, hpulls⟩, ?_, ?_⟩
    · rw [h.refusals_eq, h.settling_eq_nil hpass hc, List.append_nil, hfine]
    · rwa [h.reads_eq, List.dropLast_concat]
  · rintro ⟨⟨pulls, rfl, hpulls⟩, hfine, hflags⟩
    rw [h.refusals_eq, refusals_append] at hfine
    rw [h.reads_eq, List.dropLast_concat] at hflags
    exact (h.of_smooth (List.append_eq_nil_iff.mp hfine).1 hflags).2.mpr hpulls

/-- The bus of a pass that no one disturbs and that leaves its job published refused no message. -/
theorem published_iff_unrefused_sample :
    (sample.moves KeptMessages.bus sampleMoves).hasEnded "job" = true ∧
      refusals (sample.course KeptMessages.bus "job" sampleMoves) = [] := by
  have hended : (sample.moves KeptMessages.bus sampleMoves).hasEnded sampleJob.id = true := by
    decide +kernel
  have hname : ((sample.moves KeptMessages.bus sampleMoves).shared.jobs.find? sampleJob.id).map
      (·.status) = some JobStatus.idsPublished.name := by
    decide +kernel
  obtain ⟨stored, hstored, hiff⟩ := published_iff_unrefused sample_begun hended
  rw [hstored] at hname
  exact ⟨hended, (hiff.mp (Option.some.inj hname)).2.1⟩

/-- The pass of a job over one row, its messages going to a log on a device without room. -/
def fullSample : Passes EventLog where
  shared := ⟨⟨[.ofJob sampleJob], false⟩, { full := true }⟩
  prepared := .none
  going := [("job", sampleJob.pass sampleTuning (.opened [.rows [.idOnly "a"]]))]

/-- A log that loses its one message at the flush leaves its job published nevertheless. -/
theorem published_despite_lost_flush :
    fullSample.Begun sampleTuning (.opened [.rows [.idOnly "a"]]) sampleJob ∧
      let moves := List.replicate 7 (PassMove.step "job")
      let last := fullSample.moves EventLog.bus moves
      last.hasEnded "job" = true ∧
        (fullSample.course EventLog.bus "job" moves).any flushFailed = true ∧
        last.shared.bus.text = [] ∧
        (last.shared.jobs.find? "job").map (·.status) = some JobStatus.idsPublished.name :=
  ⟨⟨rfl, sampleJob, rfl, ⟨rfl, rfl⟩, rfl, rfl⟩, by decide +kernel⟩

end Passes

end InventoryFeed

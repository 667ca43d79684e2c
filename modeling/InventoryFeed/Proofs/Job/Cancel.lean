import InventoryFeed.Proofs.Job.Published
import InventoryFeed.Proofs.Store.Cursor
import InventoryFeed.Proofs.Stream.Halted

/-!
# What a pass still does after a cancel was requested

A cancel may be requested at any moment. The pass does not notice it before the hook reads the flag the
next time, and there it stops. What the pump says to its hook and to the publisher shows where the request
falls: behind as many questions to the hook as the pass had read flags by then. At most the rows of one
batch are accepted from there on.
-/

namespace InventoryFeed

open Happening

/-- What the hook decides by the flag that it reads. -/
def Decision.ofFlag (flag : Option Bool) : Decision := if flag = some true then .stop else .goOn

/-- No answer of its cursor holds more than so many rows. -/
def CorpusOpening.Batched (size : Nat) (corpus : CorpusOpening) : Prop :=
  ∀ pulls, corpus = .opened pulls → Pull.Batched size pulls

namespace Pass

variable {tuning : PassTuning} {job : Job} {pulls : List Pull} {corpus : CorpusOpening}

/-- The pump of a pass, what it says being noted. -/
def heard (tuning : PassTuning) (job : Job) (pulls : List Pull) :
    Noted Process (PumpResult (Publisher Unit × SinkRecord) Nat) :=
  pump (Publisher.sink Process.bus).recorded.noted (hook tuning.progressEvery).noted pulls
    (Publisher.start job tuning.marks tuning.pace (), []) 0

/-- The first part of a pass as `account` has it, with what its pump says. -/
def told (tuning : PassTuning) (job : Job) :
    CorpusOpening → Process ((Bool × List Row) × List PumpEvent)
  | .opened pulls =>
    (fun r => ((r.1.completed, r.1.sink.2.accepted), r.2)) <$> (heard tuning job pulls).run []
  | _ => pure ((false, []), [])

/-- To note what the pump says changes nothing. -/
theorem account_told (tuning : PassTuning) (job : Job) (corpus : CorpusOpening) :
    Prod.fst <$> told tuning job corpus = account tuning job corpus := by
  cases corpus with
  | opened pulls =>
    have herased : Prod.fst <$> (heard tuning job pulls).run [] = watched tuning job pulls :=
      Pump.erases_run (Publisher.sink Process.bus).recorded (some (hook tuning.progressEvery)) pulls
        .start (Publisher.start job tuning.marks tuning.pace (), []) 0 []
    rw [account, ← herased, told]
    simp only [Functor.map_map]
  | refused cause => exact map_pure _ _
  | crashed crash => exact map_pure _ _

/-- What the pump of a pass says is a dialogue over the answers of its cursor. -/
theorem heard_dialogue (tuning : PassTuning) (job : Job) (pulls : List Pull) :
    Notes (heard tuning job pulls) [] (Pump.RunSaid true false [] pulls) := by
  have hnoted : Notes (Pump.run (Publisher.sink Process.bus).recorded.noted
      (Hook.ofOption ((some (hook tuning.progressEvery)).map Hook.noted)) pulls .start
      (Publisher.start job tuning.marks tuning.pace (), []) 0) []
      (Pump.RunSaid true false [] pulls) := Pump.run_noted rfl rfl
  exact hnoted

/-- What holds of a publisher with its record, of what happened and of what was said. -/
structure Told (job : Job) (s : Publisher Unit × SinkRecord) (g : List Happening)
    (said : List PumpEvent) : Prop where
  /-- The publisher accounts for the rows of the record. -/
  sound : ∃ cut, s.1.Sound job cut s.2.accepted (taken g)
  /-- These are the rows whose writes were accepted. -/
  accepted : s.2.accepted.length = said.countP PumpEvent.isAccepted
  /-- The hook was asked whenever a flag was read, and decided by the flag. -/
  decided : Dialogue.decisions said = (reads g).map Decision.ofFlag

/-- A call that concerns the bus only, and adds no row, keeps this. -/
theorem Told.called {s : Publisher Unit × SinkRecord} {g g' : List Happening} {said : List PumpEvent}
    (h : Told job s g said) {p : Publisher Unit} {call : SinkCall} {answer : SinkAnswer}
    (headed : Bool) (hcall : ∀ row, call ≠ .write row)
    (hsound : ∃ cut, p.Sound job cut s.2.accepted (taken g')) (hside : offBus g' = offBus g) :
    Told job (p, s.2 ++ [(call, answer)]) g' (said ++ [.called call answer headed]) := by
  have hsame := s.2.accepted_append_other call answer hcall
  have hnone : PumpEvent.isAccepted (.called call answer headed) = false := by
    cases call with
    | write row => exact absurd rfl (hcall row)
    | _ => rfl
  refine ⟨?_, ?_, ?_⟩
  · rw [hsame]
    exact hsound
  · rw [hsame, h.accepted]
    simp [hnone]
  · rw [Dialogue.decisions_append, h.decided, reads_of_offBus hside]
    exact List.append_nil _

/-- So does a row, which is counted if it is accepted. -/
theorem Told.wrote {s : Publisher Unit × SinkRecord} {g g' : List Happening} {said : List PumpEvent}
    (h : Told job s g said) {p : Publisher Unit} {row : Row} {answer : Except SinkError WriteStatus}
    (headed : Bool) {cut : Prop}
    (hsound : p.Sound job cut (if Script.accepts answer then s.2.accepted ++ [row] else s.2.accepted)
      (taken g')) (hside : offBus g' = offBus g) :
    Told job (p, s.2 ++ [(.write row, .status answer)]) g'
      (said ++ [.called (.write row) (.status answer) headed]) := by
  have haccepted := s.2.accepted_append_write row answer
  refine ⟨⟨cut, haccepted ▸ hsound⟩, ?_, ?_⟩
  · rw [haccepted, List.countP_append, ← h.accepted]
    cases ha : Script.accepts answer <;> simp [PumpEvent.isAccepted, ha]
  · rw [Dialogue.decisions_append, h.decided, reads_of_offBus hside]
    exact List.append_nil _

/-- So does a question to the hook. -/
theorem Told.asked {s : Publisher Unit × SinkRecord} {g added : List Happening}
    {said : List PumpEvent} (h : Told job s g said) {rows : Nat} {flag : Option Bool}
    (hasked : Asked rows flag added) {decision : Decision}
    (hstop : decision = .stop ↔ flag = some true) (session : Session) :
    Told job s (g ++ added) (said ++ [.asked session decision]) := by
  have hdecision : decision = .ofFlag flag := by
    rw [Decision.ofFlag]
    split <;> cases decision <;> simp_all
  refine ⟨?_, ?_, ?_⟩
  · rw [taken_append, hasked.taken_eq, List.append_nil]
    exact h.sound
  · rw [h.accepted, List.countP_append]
    rfl
  · rw [Dialogue.decisions_append, h.decided, reads_append, hasked.reads_eq, List.map_append, hdecision]
    rfl

/-- It holds behind a call that is noted if it holds once the call is added to what was said. -/
theorem told_noted {α : Type} {x : Process α} {g : List Happening} {said : List PumpEvent}
    {event : α → PumpEvent} {state : α → Publisher Unit × SinkRecord}
    (h : Ensures x g fun a g' => Told job (state a) g' (said ++ [event a])) :
    Ensures (Noted.note x event) (g, said) fun a g' => Told job (state a) g'.1 g'.2 :=
  (h.noted event).mono fun _ _ hsaid => hsaid.2 ▸ hsaid.1

/-- So it holds at the end of the pump. -/
theorem told_run (tuning : PassTuning) (job : Job) (pulls : List Pull) :
    Ensures (heard tuning job pulls) (([], []) : List Happening × List PumpEvent) fun r g =>
      Told job r.sink g.1 g.2 := by
  have hlogs := Process.bus_logs
  have hbegun : Told job (Publisher.start job tuning.marks tuning.pace (), []) [] [] :=
    ⟨⟨False, Publisher.start_sound job tuning.marks tuning.pace ()⟩, rfl, rfl⟩
  refine Pump.run_invariant (I := fun s (g : List Happening × List PumpEvent) => Told job s g.1 g.2)
    ?_ ?_ ?_ ?_ ?_ hbegun
  · rintro s ⟨g, said⟩ h row
    obtain ⟨cut, hp⟩ := h.sound
    exact told_noted ((Publisher.write_sound hlogs row hp).bind fun r g' hr =>
      .pure (h.wrote _ hr.1 hr.2.1))
  · rintro s ⟨g, said⟩ h
    obtain ⟨cut, hp⟩ := h.sound
    exact told_noted ((Publisher.awaitDrain_sound hlogs hp).bind fun r g' hr =>
      .pure (h.called _ nofun ⟨cut, hr.1⟩ hr.2.1))
  · rintro s ⟨g, said⟩ h session stored
    refine told_noted ((hook_ensures tuning.progressEvery session stored g).mono ?_)
    rintro ⟨decision, stored'⟩ _ ⟨flag, added, hasked, rfl, hstop⟩
    exact h.asked hasked hstop session
  · rintro s ⟨g, said⟩ h
    obtain ⟨cut, hp⟩ := h.sound
    exact told_noted ((Publisher.finish_sound hlogs hp).bind fun r g' hr =>
      .pure (h.called _ nofun ⟨cut, hr.1⟩ hr.2.1))
  · rintro s ⟨g, said⟩ h
    obtain ⟨cut, hp⟩ := h.sound
    exact told_noted ((Publisher.forceClose_sound hlogs hp).bind fun p' g' hr =>
      .pure (h.called _ nofun ⟨True, hr.1⟩ hr.2))

/-- What is known at the end of a pump that counts some rows, of what happened and of what was said. -/
structure Spoken (size : Nat) (rows : List Row) (t : List Happening) (said : List PumpEvent) :
    Prop where
  /-- The rows are those whose writes were accepted. -/
  accepted : rows.length = said.countP PumpEvent.isAccepted
  /-- The hook was asked whenever a flag was read, and decided by the flag. -/
  decided : Dialogue.decisions said = (reads t).map Decision.ofFlag
  /-- Where no more batches are to come, the rows of one batch are accepted at most. -/
  isLate : ∀ late, late <:+ said → .goOn ∉ Dialogue.decisions late → Dialogue.Late size late

/-- This is known of the pump of a pass. -/
theorem spoken_of_told {t : List Happening} {completed : Bool} {rows : List Row}
    {said : List PumpEvent} {size : Nat} (hbatched : corpus.Batched size)
    (h : (told tuning job corpus).Follows t ((completed, rows), said)) : Spoken size rows t said := by
  have hsilent : Spoken size [] [] [] := by
    refine ⟨rfl, rfl, fun late hlate _ => ?_⟩
    rw [List.suffix_nil.mp hlate]
    exact ⟨Nat.zero_le size, .inl rfl⟩
  cases corpus with
  | refused cause =>
    cases h
    exact hsilent
  | crashed crash =>
    cases h
    exact hsilent
  | opened pulls =>
    obtain ⟨⟨r, said⟩, hr, heq⟩ := Process.follows_map.mp h
    cases heq
    have htold := told_run tuning job pulls r (t, said) ⟨t, rfl, hr⟩
    obtain ⟨events, result, rfl, hrun, -⟩ := heard_dialogue tuning job pulls [] r (t, said) ⟨t, rfl, hr⟩
    exact ⟨htold.accepted, htold.decided, fun late => hrun.isLate (hbatched pulls rfl)⟩

/-- Behind a pump that the hook stopped, all messages are delivered unless the bus refuses one. -/
theorem settle_delivers {rows : List Row} {r : PumpResult (Publisher Unit) Nat} {session : Session} {g : List Happening}
    (hwriting : Writing job rows r.sink g) (hopen : r.sink.out.Open) (hfine : refusals g = [])
    (hreport : r.report = Pump.report .cancelled session) :
    Ensures (settle r) g fun _ g' => refusals g' = [] → taken g' = Publisher.messages job rows := by
  obtain ⟨hp, hfinished, -⟩ := hwriting
  simp only [settle, hreport, Pump.report, leavesOpen, if_true]
  refine ((Publisher.finish_sound Process.bus_logs hp).and
    (Publisher.finish_tells Process.bus_tells hfinished hopen hfine)).bind ?_
  rintro ⟨answer, p⟩ g' ⟨⟨-, -, hall⟩, htold⟩
  cases answer with
  | ok u => exact .pure fun _ => hall rfl hfinished id
  | error cause => exact .pure fun hnone => absurd (htold.mpr hnone) Bool.false_ne_true

/-- If the flag that the hook read last is raised, the pump did not complete, and if the bus refused no
message, it took one for every row that was accepted. -/
theorem Ended.of_raised {t writing settling : List Happening} {completed : Bool} {rows : List Row}
    {flag : Option Bool} {status : JobStatus}
    (h : Ended tuning job corpus t completed rows writing settling flag status)
    (hpass : (job.pass tuning corpus).Follows t ())
    (hraised : (reads writing).getLast? = some (some true)) :
    completed = false ∧ (refusals t = [] → taken t = Publisher.messages job rows) := by
  have hsilent (haccount : (pure (false, []) : Process (Bool × List Row)).Follows writing
      (completed, rows)) : False := by
    obtain ⟨-, rfl⟩ := Process.follows_done.mp haccount
    cases hraised
  cases corpus with
  | refused cause => exact (hsilent h.account).elim
  | crashed crash => exact (hsilent h.account).elim
  | opened pulls =>
    have hmem := List.mem_of_getLast? hraised
    refine ⟨Bool.eq_false_iff.mpr fun hcompleted => (h.smooth hcompleted).2 hmem, fun hfine => ?_⟩
    obtain ⟨r, hr, rfl, rfl⟩ := h.watched
    obtain ⟨published, hsettle⟩ := h.settles hpass hr
    rw [h.refusals_eq] at hfine
    have hwriting : refusals writing = [] := by
      rw [refusals_append] at hfine
      exact (List.append_eq_nil_iff.mp hfine).1
    rw [h.taken_eq]
    cases watched_stage hr with
    | completed _ _ hdone => exact absurd hmem hdone.1.2.2.1
    | @halted more session s count _ _ _ hhalted =>
      obtain ⟨⟨hwrote, hopen, -, -⟩, haccepted⟩ := hhalted
      rw [haccepted]
      exact settle_delivers (r := ⟨Pump.report .cancelled session, s.1, count⟩) hwrote hopen hwriting
        rfl published _ ⟨settling, rfl, hsettle⟩ hfine
    | refused _ _ _ hrefused => exact absurd hwriting hrefused.1.2
    | unread _ _ _ hunread => exact absurd hmem hunread.1.2
    | crashed _ hunread => exact absurd hmem hunread.1.2

end Pass

namespace Passes

variable {β : Type} {bus : EventBus Id β} {p : Passes β} {tuning : PassTuning} {corpus : CorpusOpening}

/-- What a pass goes through along some moves and then others. -/
theorem course_append (job : String) (first more : List PassMove) :
    p.course bus job (first ++ more) =
      p.course bus job first ++ (p.moves bus first).course bus job more := by
  induction first generalizing p with
  | nil => rfl
  | cons move rest ih =>
    rw [List.cons_append, course, ih, course, List.append_assoc]
    rfl

/-- Every flag that a pass reads behind a request to cancel its job is raised. -/
theorem raised_after_cancel {job : Job} {before after : List PassMove}
    (hbegun : p.Begun tuning corpus job)
    (hended : (p.moves bus (before ++ .cancel job.id :: after)).hasEnded job.id = true) :
    ∀ flag ∈ reads ((p.moves bus before).course bus job.id (.cancel job.id :: after)),
      flag = some true := by
  obtain ⟨j, hid, hholds, hrunning, hnone⟩ := hbegun.stored
  obtain ⟨completed, rows, writing, settling, flag, status, h⟩ :=
    Pass.ended_of_follows (follows_of_ended hbegun hended)
  by_cases hlate : (p.moves bus before).course bus job.id (.cancel job.id :: after) = []
  · rw [hlate]
    nofun
  · -- The job is in progress still, so that the request is stored.
    have hearly := h.early_of_append (course_append job.id before _) hlate
    obtain ⟨j₁, hid₁, hholds₁, hnoted, -⟩ := holds_moves bus before hholds
    rw [hid] at hnoted hid₁
    obtain ⟨count, hcount, -⟩ := noted_of_early hearly (Nat.zero_le _)
    rw [hrunning, hnone, hcount] at hnoted
    have hraised : j₁.after [.raiseCancel job.id] = { j₁ with cancelRequested := true } := by
      simp [Job.after, JobStatement.onJob, JobStatement.id?, hid₁, (Prod.mk.inj hnoted).1]
    have hholds₂ : ((p.moves bus before).move bus (.cancel job.id)).shared.jobs.Holds
        { j₁ with cancelRequested := true } := by
      rw [move_jobs, ← hraised]
      exact hholds₁.after _
    obtain ⟨-, -, -, -, flags, hreads, hflags⟩ := holds_moves bus after hholds₂
    have hall := (List.pairwise_cons.mp hflags).1
    rw [hid₁] at hreads
    intro flag hflag
    have hmem : flag ∈ flags.map some := hreads ▸ hflag
    obtain ⟨raised, hraised, rfl⟩ := List.mem_map.mp hmem
    rw [hall raised hraised rfl]

/-- The flags that the hook reads behind a request to cancel are raised. If it reads one there, so is the flag
that the pass reads at its end. -/
theorem flags_after_cancel {job : Job} {before after : List PassMove}
    (hbegun : p.Begun tuning corpus job)
    (hended : (p.moves bus (before ++ .cancel job.id :: after)).hasEnded job.id = true)
    {completed : Bool} {rows : List Row} {writing settling : List Happening} {flag : Option Bool}
    {status : JobStatus}
    (h : Pass.Ended tuning job corpus (p.course bus job.id (before ++ .cancel job.id :: after)) completed
      rows writing settling flag status) :
    let late := (reads writing).drop (reads (p.course bus job.id before)).length
    (∀ read ∈ late, read = some true) ∧
      (late ≠ [] → (reads writing).getLast? = some (some true) ∧ flag = some true) := by
  intro late
  let asked := (reads (p.course bus job.id before)).length
  -- The flags that are read behind the request are those of the hook that are left, and the last.
  have hflags : late ++ [flag].drop (asked - (reads writing).length) =
      reads ((p.moves bus before).course bus job.id (.cancel job.id :: after)) := by
    rw [← List.drop_append, ← h.reads_eq, course_append, reads_append, List.drop_left]
  have hraised := raised_after_cancel hbegun hended
  rw [← hflags] at hraised
  have hlate : ∀ read ∈ late, read = some true :=
    fun read hread => hraised read (List.mem_append_left _ hread)
  refine ⟨hlate, fun hsome => ?_⟩
  have hmore : asked < (reads writing).length := by simpa [late] using hsome
  constructor
  · have hdrop : late.getLast? = (reads writing).getLast? := by
      rw [List.getLast?_drop, if_neg (Nat.not_le.mpr hmore)]
    obtain ⟨read, hread⟩ := Option.isSome_iff_exists.mp (List.getLast?_isSome.mpr hsome)
    rw [← hdrop, hread, hlate read (List.mem_of_getLast? hread)]
  · refine hraised flag (List.mem_append_right _ ?_)
    rw [Nat.sub_eq_zero_of_le hmore.le]
    exact .head _

/-- A cancel may be requested at any moment of a pass: whatever was said by then is a cut behind as many
answers of the hook as flags were read. From there on the rows of one batch are accepted at most, and the
first question to the hook is the last thing that the pump says, so it takes nothing more from the cursor. If
there is such a question, the job is left cancelled with every accepted row delivered; it is left published
only if there is none. Neither of the cursors hands out more rows at once than a batch may hold. -/
theorem one_batch_after_cancel {job : Job} {before after : List PassMove}
    (hbegun : p.Begun tuning corpus job)
    (hended : (p.moves bus (before ++ .cancel job.id :: after)).hasEnded job.id = true)
    (hbatched : corpus.Batched (max tuning.batchSize 1)) :
    (∀ items size, Pull.Batched (max size 1) (RowCursor.ofItems items size).answers) ∧
      (∀ answer size, Pull.Batched (max size 1) (pullsOf size answer)) ∧
      let moves := before ++ .cancel job.id :: after
      let t := p.course bus job.id moves
      let asked := (reads (p.course bus job.id before)).length
      ∃ completed rows said writing rest status stored,
        t = writing ++ rest ∧
        (Pass.told tuning job corpus).Follows writing ((completed, rows), said) ∧
        (p.moves bus moves).shared.jobs.find? job.id = some stored ∧
        stored.status = JobStatus.name status ∧ stored.published = .ofCount rows.length ∧
        rows.length = said.countP PumpEvent.isAccepted ∧
        Dialogue.decisions said = (reads writing).map Decision.ofFlag ∧
        ∀ early late, Dialogue.Cut asked said early late →
          rows.length ≤ early.countP PumpEvent.isAccepted + max tuning.batchSize 1 ∧
          (Dialogue.decisions late = [] ∨ ∃ quiet session,
            late = quiet ++ [.asked session .stop] ∧ Dialogue.decisions quiet = []) ∧
          (Dialogue.decisions late ≠ [] → status = .cancelled ∧
            (refusals t = [] → taken t = Publisher.messages job rows)) ∧
          (status = .idsPublished → Dialogue.decisions late = []) := by
  refine ⟨RowCursor.batched_answers, fun answer size => batched_pullsOf size answer, ?_⟩
  intro moves t asked
  obtain ⟨completed, rows, writing, settling, flag, status, stored, h, hstatus, hstores⟩ :=
    ended_of_moves hbegun hended
  have haccount := h.account
  rw [← Pass.account_told] at haccount
  obtain ⟨⟨_, said⟩, htold, rfl⟩ := Process.follows_map.mp haccount
  have hspoken := Pass.spoken_of_told hbatched htold
  refine ⟨completed, rows, said, writing, _, status, stored, h.parts.trans (List.append_assoc ..), htold,
    hstores.found, hstores.status_eq, hstores.published_eq, hspoken.accepted, hspoken.decided,
    fun early late hcut => ?_⟩
  have hlate : late <:+ said := ⟨early, hcut.split.symm⟩
  have hdecided : Dialogue.decisions late = ((reads writing).drop asked).map Decision.ofFlag := by
    rw [hcut.decisions_late, hspoken.decided, List.map_drop]
  obtain ⟨hraised, hlast⟩ := flags_after_cancel hbegun hended h
  have hstops : .goOn ∉ Dialogue.decisions late := by
    rw [hdecided]
    intro hmem
    obtain ⟨read, hread, hgoOn⟩ := List.mem_map.mp hmem
    rw [hraised read hread] at hgoOn
    cases hgoOn
  have hcancelled (hasked : Dialogue.decisions late ≠ []) : status = .cancelled ∧
      (refusals t = [] → taken t = Publisher.messages job rows) := by
    obtain ⟨hhook, hflag⟩ := hlast fun hnone => hasked (by rw [hdecided, hnone, List.map_nil])
    obtain ⟨rfl, hdelivered⟩ := h.of_raised (follows_of_ended hbegun hended) hhook
    obtain rfl := Option.some.inj hflag
    exact ⟨hstatus, hdelivered⟩
  obtain ⟨haccepted, hends⟩ := hspoken.isLate late hlate hstops
  refine ⟨?_, hends, hcancelled, fun hpublished => ?_⟩
  · rw [hspoken.accepted, hcut.split, List.countP_append]
    exact Nat.add_le_add_left haccepted _
  · by_contra hasked
    exact absurd (hpublished.symm.trans (hcancelled hasked).1) nofun

/-- A cancel that is requested behind the second read of the flag lets the row of that batch pass. -/
theorem one_batch_after_cancel_sample :
    (sample.moves KeptMessages.bus sampleCancel).hasEnded "job" = true ∧
      ∃ said early late stored, Dialogue.Cut 2 said early late ∧
        (sample.moves KeptMessages.bus sampleCancel).shared.jobs.find? "job" = some stored ∧
        stored.status = JobStatus.cancelled.name ∧
        stored.published = .ofCount (said.countP PumpEvent.isAccepted) ∧
        said.countP PumpEvent.isAccepted ≤ early.countP PumpEvent.isAccepted + 1 := by
  have hended : (sample.moves KeptMessages.bus sampleCancel).hasEnded sampleJob.id = true := by
    decide +kernel
  have hasked : (reads (sample.course KeptMessages.bus "job" (List.replicate 4 (.step "job")))).length =
      2 := by
    decide +kernel
  have hname : ((sample.moves KeptMessages.bus sampleCancel).shared.jobs.find? sampleJob.id).map
      (·.status) = some JobStatus.cancelled.name := by
    decide +kernel
  have hbatched : sampleCorpus.Batched (max sampleTuning.batchSize 1) := by
    rintro _ ⟨⟩
    exact RowCursor.batched_answers [.row (.idOnly "a"), .row (.idOnly "b")] 1
  obtain ⟨-, -, _, rows, said, _, _, _, stored, -, -, hstored, -, hcount, haccepted, -, hcuts⟩ :=
    one_batch_after_cancel sample_begun hended hbatched
  obtain ⟨early, late, hcut⟩ := Dialogue.exists_cut 2 said
  obtain ⟨hbound, -⟩ := hcuts early late (hasked.symm ▸ hcut)
  have hcancelled := (congrArg (Option.map (·.status)) hstored).symm.trans hname
  exact ⟨hended, said, early, late, stored, hcut, hstored, Option.some.inj hcancelled,
    haccepted ▸ hcount, haccepted ▸ hbound⟩

end Passes

end InventoryFeed

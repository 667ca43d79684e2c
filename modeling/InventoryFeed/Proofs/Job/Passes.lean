import InventoryFeed.Job.Passes
import InventoryFeed.Proofs.Job.Pass
import InventoryFeed.Proofs.Job.Table

/-!
# What becomes of a pass among others

Whatever the other passes do and whoever asks for a cancel, the steps that a pass makes with the
answers that it gets are a course of it alone, and only they touch the status and the count that are
stored under its id. A cancel flag may be raised at any moment and is never taken back. So what holds
of every course of a pass holds of what is stored and of what the bus took.
-/

namespace InventoryFeed

open Happening

namespace PassStep

/-- The statements that a step of a job's pass runs. -/
def statements (job : String) : PassStep → List JobStatement
  | append _ => []
  | flush => []
  | recordProgress published => [.recordProgress job published]
  | readCancel => [.cancelRequested job]
  | complete status published => [.complete job status published]

/-- They name the job. -/
theorem id?_of_mem_statements {job : String} {step : PassStep} {s : JobStatement}
    (h : s ∈ step.statements job) : s.id? = some job := by
  cases step with
  | append message => cases h
  | flush => cases h
  | recordProgress published => exact List.mem_singleton.mp h ▸ rfl
  | readCancel => exact List.mem_singleton.mp h ▸ rfl
  | complete status published => exact List.mem_singleton.mp h ▸ rfl

variable {β : Type} {bus : EventBus Id β}

/-- What a step makes of the table of jobs its statements make of it. -/
theorem answer_jobs (s : PassStep) (job : String) (w : Surroundings β) :
    (s.answer bus job w).2.jobs = w.jobs.after (s.statements job) := by
  cases s with
  | append message => rfl
  | flush => rfl
  | recordProgress published =>
    simp only [answer, statements, JobTable.after_cons, JobTable.after_nil, JobStatement.run]
    cases w.jobs.recordProgress job published <;> rfl
  | readCancel =>
    simp only [answer, statements, JobTable.after_cons, JobTable.after_nil, JobStatement.run]
    cases w.jobs.cancelRequested job <;> rfl
  | complete status published =>
    simp only [answer, statements, JobTable.after_cons, JobTable.after_nil, JobStatement.run]
    cases w.jobs.complete job status published <;> rfl

end PassStep

namespace Happening

/-- What a happening makes of the status and the count that are stored for its job. -/
def note (l : JobStatus × Nat) (e : Happening) : JobStatus × Nat :=
  match e.step with
  | .recordProgress published => if l.1 = .inProgress then (l.1, max l.2 published) else l
  | .complete status published =>
    if l.1 = .inProgress ∧ status.isTerminal then (status, max l.2 published) else l
  | _ => l

/-- What a course makes of them. -/
def noted (t : List Happening) (l : JobStatus × Nat) : JobStatus × Nat := t.foldl note l

theorem noted_append (t t' : List Happening) (l : JobStatus × Nat) :
    noted (t ++ t') l = noted t' (noted t l) :=
  List.foldl_append ..

/-- While a pass has not ended, its job stays in progress and its count within the accepted rows. -/
theorem noted_of_early {rows : Nat} {t : List Happening} (h : ∀ e ∈ t, e.Early rows) {count : Nat}
    (hcount : count ≤ rows) :
    ∃ count', noted t (.inProgress, count) = (.inProgress, count') ∧ count' ≤ rows := by
  induction t generalizing count with
  | nil => exact ⟨count, rfl, hcount⟩
  | cons e t ih =>
    have hrest : ∀ e ∈ t, e.Early rows := fun e he => h e (.tail _ he)
    have hearly := h e (.head _)
    rcases e with ⟨_ | _ | published | _ | _, answer⟩
    · exact ih hrest hcount
    · exact ih hrest hcount
    · exact ih hrest (Nat.max_le.mpr ⟨hcount, hearly⟩)
    · exact ih hrest hcount
    · exact hearly.elim

end Happening

namespace Passes

variable {β : Type}

/-- What a move makes happen in the pass of a job. -/
def happening? (bus : EventBus Id β) (job : String) (p : Passes β) : PassMove → Option Happening
  | .step other =>
    if other = job then
      match p.left? job with
      | some (.step s _) => some ⟨s, (s.answer bus job p.shared).1⟩
      | _ => none
    else none
  | .cancel _ => none

/-- What the pass of a job goes through along moves. -/
def course (bus : EventBus Id β) (job : String) : List PassMove → Passes β → List Happening
  | [], _ => []
  | move :: rest, p => (p.happening? bus job move).toList ++ course bus job rest (p.move bus move)

variable (bus : EventBus Id β) {p : Passes β} {job : String}

/-- What is left of a pass is replaced for its own job only. -/
theorem left?_withLeft (other : String) (rest : Process Unit) :
    (p.withLeft other rest).left? job =
      if other = job then (p.left? job).map fun _ => rest else p.left? job := by
  have hkey : (fun entry : String × Process Unit => decide (entry.1 = job)) ∘
      (fun entry => if entry.1 = other then (other, rest) else entry) =
        fun entry => decide (entry.1 = job) := by
    ext entry
    simp only [Function.comp_apply]
    split
    · rename_i heq
      rw [heq]
    · rfl
  unfold left? withLeft
  rw [List.find?_map, hkey, Option.map_map]
  split
  · rename_i heq
    subst heq
    rw [Option.map_map]
    cases hfound : p.going.find? fun entry => entry.1 = other with
    | none => rfl
    | some entry =>
      have hentry : entry.1 = other := by simpa using List.find?_some hfound
      simp [hentry]
  · rename_i hne
    cases hfound : p.going.find? fun entry => entry.1 = job with
    | none => rfl
    | some entry =>
      have hentry : entry.1 = job := by simpa using List.find?_some hfound
      simp [hentry, Ne.symm hne]

/-- A step leaves of the pass that makes it what follows the answer. -/
theorem left?_step (other : String) :
    (p.move bus (.step other)).left? job =
      if other = job then
        match p.left? job with
        | some (.step s next) => some (next (s.answer bus job p.shared).1)
        | rest => rest
      else p.left? job := by
  simp only [move, advance]
  by_cases hother : other = job
  · subst hother
    rw [if_pos rfl]
    rcases hleft : p.left? other with _ | _ | ⟨s, next⟩
    · exact hleft
    · exact hleft
    · have hbefore : ({ p with shared := (s.answer bus other p.shared).2 } : Passes β).left? other =
          some (.step s next) := hleft
      rw [left?_withLeft, if_pos rfl, hbefore]
      rfl
  · rw [if_neg hother]
    split
    · rw [left?_withLeft, if_neg hother]
      rfl
    · rfl

/-- A move leaves of a pass what follows the happening that it makes, and all of it otherwise. -/
theorem follows_of_move (move : PassMove) {q : Process Unit} (h : p.left? job = some q) :
    ∃ q', (p.move bus move).left? job = some q' ∧ ∀ t, q'.Follows t () →
      q.Follows ((p.happening? bus job move).toList ++ t) () := by
  cases move with
  | cancel other => exact ⟨q, h, fun t ht => ht⟩
  | step other =>
    rw [left?_step, happening?, h]
    by_cases hother : other = job
    · rw [if_pos hother, if_pos hother]
      cases q with
      | done value => exact ⟨.done value, rfl, fun t ht => ht⟩
      | step s next => exact ⟨_, rfl, fun t ht => .step ht⟩
    · rw [if_neg hother, if_neg hother]
      exact ⟨q, rfl, fun t ht => ht⟩

/-- What a pass goes through along moves is a course of it, as far as it has come. -/
theorem follows_of_moves (moves : List PassMove) {q : Process Unit} (h : p.left? job = some q) :
    ∃ q', (p.moves bus moves).left? job = some q' ∧ ∀ t, q'.Follows t () →
      q.Follows (p.course bus job moves ++ t) () := by
  induction moves generalizing p q with
  | nil => exact ⟨q, h, fun t ht => ht⟩
  | cons move rest ih =>
    obtain ⟨q₁, hq₁, hfirst⟩ := follows_of_move bus move h
    obtain ⟨q₂, hq₂, hrest⟩ := ih hq₁
    refine ⟨q₂, hq₂, fun t ht => ?_⟩
    rw [course, List.append_assoc]
    exact hfirst _ (hrest t ht)

/-- The statements that a move runs on the table of jobs. -/
def statements (p : Passes β) : PassMove → List JobStatement
  | .step other =>
    match p.left? other with
    | some (.step s _) => s.statements other
    | _ => []
  | .cancel other => [.raiseCancel other]

/-- What a move makes of the table of jobs its statements make of it. -/
theorem move_jobs (move : PassMove) :
    (p.move bus move).shared.jobs = p.shared.jobs.after (p.statements move) := by
  cases move with
  | cancel other =>
    simp only [move, requestCancel, withDesk, desk, JobDesk.cancel, PreparedLookups.requestCancel,
      JobTable.requestCancel, statements, JobTable.after_cons, JobTable.after_nil, JobStatement.run]
    cases p.shared.jobs.raiseCancel other <;> rfl
  | step other =>
    simp only [move, advance, statements]
    rcases p.left? other with _ | _ | ⟨s, next⟩
    · rfl
    · rfl
    · exact PassStep.answer_jobs s other p.shared

/-- A step of a pass changes the stored job as the step's happening says, and reads the flag that is
stored. -/
theorem step_noted {w : Surroundings β} {j : Job} (h : w.jobs.Holds j) (s : PassStep) :
    let e : Happening := ⟨s, (s.answer bus j.id w).1⟩
    let j' := j.after (s.statements j.id)
    (j'.status, j'.published) = note (j.status, j.published) e ∧
      j'.cancelRequested = j.cancelRequested ∧
      (e.read? = none ∨ e.read? = some (some j.cancelRequested)) := by
  cases s with
  | append message => exact ⟨rfl, rfl, .inl rfl⟩
  | flush => exact ⟨rfl, rfl, .inl rfl⟩
  | recordProgress published =>
    refine ⟨?_, ?_, .inl rfl⟩
    · simp only [PassStep.statements, Job.after, List.foldl, JobStatement.onJob, JobStatement.id?,
        note, true_and]
      split <;> rfl
    · simp only [PassStep.statements, Job.after, List.foldl, JobStatement.onJob]
      split <;> rfl
  | readCancel =>
    have hsame : j.after (PassStep.readCancel.statements j.id) = j := ite_self j
    refine ⟨by rw [hsame]; rfl, by rw [hsame], .inr ?_⟩
    simp only [PassStep.answer, h.cancelRequested]
    rfl
  | complete status published =>
    refine ⟨?_, ?_, .inl rfl⟩
    · simp only [PassStep.statements, Job.after, List.foldl, JobStatement.onJob, JobStatement.id?,
        note, true_and]
      by_cases hrunning : j.status = .inProgress <;> by_cases hterminal : status.isTerminal <;>
        simp [hrunning, hterminal]
    · simp only [PassStep.statements, Job.after, List.foldl, JobStatement.onJob]
      split
      · split <;> rfl
      · rfl

/-- The statements of a step name the job of its pass. -/
theorem id?_of_mem_statements {other : String} {s : JobStatement}
    (h : s ∈ p.statements (.step other)) : s.id? = some other := by
  rw [statements] at h
  split at h
  · exact PassStep.id?_of_mem_statements h
  · cases h

/-- A move changes a job that is stored as the happening that it makes in the job's pass says, and a
flag that is read is the one that is stored. -/
theorem holds_move (move : PassMove) {j : Job} (h : p.shared.jobs.Holds j) :
    ∃ j', j'.id = j.id ∧ (p.move bus move).shared.jobs.Holds j' ∧
      (j'.status, j'.published) =
        noted (p.happening? bus j.id move).toList (j.status, j.published) ∧
      (j.cancelRequested = true → j'.cancelRequested = true) ∧
      (reads (p.happening? bus j.id move).toList = [] ∨
        reads (p.happening? bus j.id move).toList = [some j.cancelRequested]) := by
  have hholds : (p.move bus move).shared.jobs.Holds (j.after (p.statements move)) := by
    rw [move_jobs]
    exact h.after _
  refine ⟨_, Job.after_id _ _, hholds, ?_⟩
  cases move with
  | cancel other =>
    refine ⟨?_, ?_, .inl rfl⟩
    · simp only [statements, Job.after, List.foldl, JobStatement.onJob]
      split <;> rfl
    · simp only [statements, Job.after, List.foldl, JobStatement.onJob]
      split
      · exact fun _ => rfl
      · exact id
  | step other =>
    by_cases hother : other = j.id
    · subst hother
      simp only [happening?, if_true, statements]
      rcases p.left? j.id with _ | _ | ⟨s, next⟩
      · exact ⟨rfl, id, .inl rfl⟩
      · exact ⟨rfl, id, .inl rfl⟩
      · obtain ⟨hnoted, hflag, hread⟩ := step_noted bus h s
        refine ⟨hnoted, fun hj => hflag.trans hj, ?_⟩
        rcases hread with hread | hread
        · exact .inl (by simp [reads, hread])
        · exact .inr (by simp [reads, hread])
    · have hsame : j.after (p.statements (.step other)) = j := by
        refine Job.after_of_others fun s hs => ?_
        rw [id?_of_mem_statements hs]
        exact fun heq => hother (Option.some.inj heq)
      simp only [happening?, if_neg hother]
      rw [hsame]
      exact ⟨rfl, id, .inl rfl⟩

/-- Moves change a job that is stored as the course of its pass says, and the flags that are read in
it are never taken back. -/
theorem holds_moves (moves : List PassMove) {j : Job} (h : p.shared.jobs.Holds j) :
    ∃ j', j'.id = j.id ∧ (p.moves bus moves).shared.jobs.Holds j' ∧
      (j'.status, j'.published) = noted (p.course bus j.id moves) (j.status, j.published) ∧
      ∃ flags, reads (p.course bus j.id moves) = flags.map some ∧
        (j.cancelRequested :: flags).Pairwise fun before after => before = true → after = true := by
  induction moves generalizing p j with
  | nil => exact ⟨j, rfl, h, rfl, [], rfl, List.pairwise_singleton _ _⟩
  | cons move rest ih =>
    obtain ⟨j₁, hid₁, h₁, hnoted₁, hkept, hreads₁⟩ := holds_move bus move h
    obtain ⟨j₂, hid₂, h₂, hnoted₂, flags, hreads₂, hflags⟩ := ih h₁
    rw [hid₁] at hnoted₂ hreads₂
    refine ⟨j₂, hid₂.trans hid₁, h₂, ?_, ?_⟩
    · rw [hnoted₂, hnoted₁, course, noted_append]
    · obtain ⟨hfirst, hrest⟩ := List.pairwise_cons.mp hflags
      have hlater : ∀ flag ∈ flags, j.cancelRequested = true → flag = true :=
        fun flag hflag hj => hfirst flag hflag (hkept hj)
      rcases hreads₁ with hnone | hread
      · refine ⟨flags, ?_, List.pairwise_cons.mpr ⟨hlater, hrest⟩⟩
        rw [course, reads_append, hnone, hreads₂]
        rfl
      · refine ⟨j.cancelRequested :: flags, ?_, List.pairwise_cons.mpr ⟨?_, ?_⟩⟩
        · rw [course, reads_append, hread, hreads₂]
          rfl
        · rintro flag (_ | ⟨_, hflag⟩)
          · exact id
          · exact hlater flag hflag
        · exact List.pairwise_cons.mpr ⟨hlater, hrest⟩

/-- A pass is about to begin: the store answers and holds its job, in progress and with nothing
published. -/
structure Begun (tuning : PassTuning) (corpus : CorpusOpening) (job : Job) (p : Passes β) :
    Prop where
  /-- The whole pass is ahead. -/
  ahead : p.left? job.id = some (job.pass tuning corpus)
  /-- The job is stored; a cancel may have been requested already. -/
  stored : ∃ j, j.id = job.id ∧ p.shared.jobs.Holds j ∧ j.status = .inProgress ∧ j.published = 0

/-- Whether the pass of a job has ended. -/
def hasEnded (job : String) (p : Passes β) : Bool :=
  match p.left? job with
  | some (.done _) => true
  | _ => false

/-- Nothing is left of a pass that has ended. -/
theorem left?_of_hasEnded (h : p.hasEnded job = true) : p.left? job = some (.done ()) := by
  unfold hasEnded at h
  split at h
  · assumption
  · cases h

/-- A new job whose pass is started is about to begin. -/
theorem begun_of_launch {tuning : PassTuning} {corpus : CorpusOpening} {job : Job} {p' : Passes β}
    (hnew : p.left? job.id = none) (hstatus : job.status = .inProgress)
    (hpublished : job.published = 0) (h : p.launch tuning corpus job = .ok p') : p'.Begun tuning corpus job := by
  rcases hinsert : p.shared.jobs.insert job with e | jobs
  · simp [launch, desk, JobDesk.submit, hinsert, bind, Except.bind] at h
  · simp only [launch, desk, JobDesk.submit, hinsert, bind, Except.bind, pure, Except.pure,
      Except.ok.injEq] at h
    subst h
    refine ⟨?_, job, rfl, JobTable.holds_of_insert hinsert, hstatus, hpublished⟩
    have hnone : p.going.find? (fun entry => entry.1 = job.id) = none :=
      Option.map_eq_none_iff.mp hnew
    simp [left?, List.find?_append, hnone]

variable {bus} {tuning : PassTuning} {corpus : CorpusOpening} {moves : List PassMove}

/-- What is stored for a job when its pass has ended with a status and a count. -/
structure Stores (job : String) (status : JobStatus) (count : Nat) (stored : StoredJob)
    (p : Passes β) : Prop where
  /-- The row is the one of the job. -/
  found : p.shared.jobs.find? job = some stored
  /-- Its status is the one that the pass ended with. -/
  status_eq : stored.status = status.name
  /-- So is its count. -/
  published_eq : stored.published = .ofCount count
  /-- A count that fits is read as it is. -/
  count_eq : count < Word.signedEnd → StoredJob.readCount stored.published = some count

/-- What is stored for a job shows in its row. -/
theorem stores_of_holds {j : Job} (h : p.shared.jobs.Holds j) (hid : j.id = job) :
    p.Stores job j.status j.published (.ofJob j) where
  found := hid ▸ h.2
  status_eq := rfl
  published_eq := rfl
  count_eq := StoredJob.readCount_ofCount_of_lt

/-- If the flag is never taken back, the one that is read last decides how a pass that did not complete
has ended. -/
theorem status_of_reads {job : Job} {t writing settling : List Happening} {completed : Bool}
    {rows : List Row} {answer : Option Bool} {status : JobStatus} {flags : List Bool}
    (h : Pass.Ended tuning job corpus t completed rows writing settling answer status)
    (hreads : reads t = flags.map some)
    (hflags : flags.Pairwise fun before after => before = true → after = true) :
    ∃ flag, answer = some flag ∧
      status = if completed then .idsPublished else failureStatus flag := by
  have hlast : flags.map some = reads writing ++ [answer] := by
    rw [← hreads, h.parts, reads_append, reads_append, h.settling_reads, List.append_nil]
    rfl
  obtain ⟨before, last, rfl, hbefore, hanswer⟩ := List.map_eq_append_iff.mp hlast
  obtain ⟨flag, rfl, rfl⟩ := List.map_eq_singleton_iff.mp hanswer
  refine ⟨flag, rfl, ?_⟩
  rcases h.status_eq with heq | ⟨hnot, hwriting, heq⟩
  · simpa using heq
  · -- The pump was stopped by a raised flag, so the one at the end is raised too.
    have hmem : true ∈ before := by
      rw [← hbefore, List.getLast?_map] at hwriting
      obtain ⟨raised, hraised, hsome⟩ := Option.map_eq_some_iff.mp hwriting
      exact Option.some.inj hsome ▸ List.mem_of_getLast? hraised
    have hpairs := (List.pairwise_append.mp hflags).2.2
    have hraised : flag = true := hpairs true hmem flag (.head _) rfl
    rw [heq, if_neg hnot, hraised]
    rfl

/-- A pass that has ended went through a course of the whole pass. -/
theorem follows_of_ended {job : Job} (hbegun : p.Begun tuning corpus job)
    (hended : (p.moves bus moves).hasEnded job.id = true) :
    (job.pass tuning corpus).Follows (p.course bus job.id moves) () := by
  obtain ⟨q, hq, hfollows⟩ := follows_of_moves bus moves hbegun.ahead
  obtain rfl : q = .done () := Option.some.inj (hq.symm.trans (left?_of_hasEnded hended))
  have hcourse := hfollows [] (.done ())
  rwa [List.append_nil] at hcourse

/-- A pass that has ended went through a course of it, and what is stored is what the course says. -/
theorem ended_of_moves {job : Job} (hbegun : p.Begun tuning corpus job)
    (hended : (p.moves bus moves).hasEnded job.id = true) :
    ∃ completed rows writing settling flag status stored,
      Pass.Ended tuning job corpus (p.course bus job.id moves) completed rows writing settling
          (some flag) status ∧
        status = (if completed then .idsPublished else failureStatus flag) ∧
        (p.moves bus moves).Stores job.id status rows.length stored := by
  obtain ⟨j, hid, hholds, hrunning, hnone⟩ := hbegun.stored
  obtain ⟨completed, rows, writing, settling, answer, status, h⟩ :=
    Pass.ended_of_follows (follows_of_ended hbegun hended)
  obtain ⟨j', hid', hholds', hnoted, flags, hreads, hflags⟩ := holds_moves bus moves hholds
  rw [hid] at hnoted hreads
  obtain ⟨flag, rfl, hstatus⟩ := status_of_reads h hreads (List.pairwise_cons.mp hflags).2
  have hterminal : status.isTerminal := by
    rw [hstatus]
    cases completed <;> cases flag <;> rfl
  obtain ⟨count, hcount, hle⟩ := noted_of_early h.early (Nat.zero_le rows.length)
  have hfinal : (j'.status, j'.published) = (status, rows.length) := by
    rw [hnoted, hrunning, hnone, h.parts, noted_append, hcount]
    simp [noted, note, hterminal, hle]
  obtain ⟨rfl, hpublished⟩ := Prod.mk.inj hfinal
  have hstores := stores_of_holds hholds' (hid'.trans hid)
  rw [hpublished] at hstores
  exact ⟨completed, rows, writing, settling, flag, _, _, h, hstatus, hstores⟩

/-- A pass that leaves its job published has read the whole corpus, and the bus took one message for
each of its rows, in their order and numbered from one; the count that is stored is that of the
rows. -/
theorem published_whole {job : Job} (hbegun : p.Begun tuning corpus job)
    (hended : (p.moves bus moves).hasEnded job.id = true) {stored : StoredJob}
    (hstored : (p.moves bus moves).shared.jobs.find? job.id = some stored)
    (hpublished : stored.status = JobStatus.idsPublished.name) :
    ∃ pulls, corpus = .opened pulls ∧ (∀ pull ∈ pulls, pull.isRows) ∧
      (∀ items, pulls = (RowCursor.ofItems items tuning.batchSize).answers →
        items = (Pull.carried pulls).map RowItem.row) ∧
      (taken (p.course bus job.id moves)).length = (Pull.carried pulls).length ∧
      (∀ k, (taken (p.course bus job.id moves))[k]? = (Pull.carried pulls)[k]?.map fun row =>
        ({ topic := job.topic
           key := row.id
           resource := job.resource
           headers := [(job.kind.header, job.id)]
           payload := {
             id := row.id
             eventType := job.eventType
             ts := k + 1
             record :=
               if job.kind = .reindex ∧ job.resource = .authorities then row.doc else none } } :
          EventMessage)) ∧
      stored.published = .ofCount (Pull.carried pulls).length ∧
      ((Pull.carried pulls).length < Word.signedEnd →
        StoredJob.readCount stored.published = some (Pull.carried pulls).length) := by
  obtain ⟨completed, rows, writing, settling, flag, status, row, h, hstatus, hstores⟩ :=
    ended_of_moves hbegun hended
  obtain rfl : row = stored := Option.some.inj (hstores.found.symm.trans hstored)
  have hcompleted : completed = true := by
    have hname := JobStatus.name_inj.mp (hstores.status_eq.symm.trans hpublished)
    rw [hstatus] at hname
    cases completed with
    | true => rfl
    | false => cases flag <;> cases hname
  obtain ⟨rfl, htaken, pulls, rfl, hpulls⟩ := h.whole hcompleted
  refine ⟨pulls, rfl, hpulls, ?_, ?_, fun k => ?_, hstores.published_eq, hstores.count_eq⟩
  · rintro items rfl
    exact RowCursor.items_eq_carried hpulls
  · rw [htaken, Publisher.length_messages]
    rfl
  · rw [htaken, Publisher.getElem?_messages]
    rfl

/-- A new reindex of the authorities. -/
def sampleJob : Job := .reindex "job" .authorities "now"

/-- A tuning under which every message is waited for. -/
def sampleTuning : PassTuning := ⟨1, .clamp 0 0, 1, []⟩

/-- A corpus of two rows. -/
def sampleCorpus : CorpusOpening := .opened [.rows [.idOnly "a"], .rows [.idOnly "b"]]

/-- The pass of that job over that corpus before its first step. -/
def sample : Passes KeptMessages where
  shared := ⟨⟨[.ofJob sampleJob], false⟩, default⟩
  prepared := .none
  going := [("job", sampleJob.pass sampleTuning sampleCorpus)]

/-- Its steps, to the end. -/
def sampleMoves : List PassMove := List.replicate 10 (.step "job")

/-- Its steps when a cancel is requested behind the first row. -/
def sampleCancel : List PassMove :=
  List.replicate 4 (.step "job") ++ .cancel "job" :: List.replicate 6 (.step "job")

theorem sample_begun : sample.Begun sampleTuning sampleCorpus sampleJob :=
  ⟨rfl, sampleJob, rfl, ⟨rfl, rfl⟩, rfl, rfl⟩

/-- A pass over two rows that no one disturbs puts two messages on the bus. -/
theorem published_whole_sample :
    (sample.moves KeptMessages.bus sampleMoves).hasEnded "job" = true ∧
      (taken (sample.course KeptMessages.bus "job" sampleMoves)).length = 2 := by
  have hended : (sample.moves KeptMessages.bus sampleMoves).hasEnded sampleJob.id = true := by
    decide +kernel
  have hstored : (sample.moves KeptMessages.bus sampleMoves).shared.jobs.find? sampleJob.id =
      some { StoredJob.ofJob sampleJob with
        status := "IDS_PUBLISHED", published := .integer 2 } := by
    decide +kernel
  obtain ⟨pulls, hcorpus, -, -, hlength, -⟩ := published_whole sample_begun hended hstored rfl
  cases hcorpus
  exact ⟨hended, hlength⟩

/-- A pass that has ended stored one end: published if its pump completed, else cancelled if the flag
that it read last was raised, else failed. The count that is stored is that of the rows that the
publisher accepted, and the bus took the messages of the first of them. -/
theorem ended_once {job : Job} (hbegun : p.Begun tuning corpus job)
    (hended : (p.moves bus moves).hasEnded job.id = true) :
    ∃ completed rows writing rest flag status stored,
      p.course bus job.id moves = writing ++ rest ∧
      (Pass.account tuning job corpus).Follows writing (completed, rows) ∧
      rows <+: corpus.rows ∧
      (reads (p.course bus job.id moves)).getLast? = some (some flag) ∧
      status = (if completed then .idsPublished else if flag then .cancelled else .failed) ∧
      completions (p.course bus job.id moves) = [(status, rows.length)] ∧
      taken (p.course bus job.id moves) <+: Publisher.messages job rows ∧
      (p.moves bus moves).shared.jobs.find? job.id = some stored ∧
      stored.status = status.name ∧ stored.published = .ofCount rows.length ∧
      (rows.length < Word.signedEnd → StoredJob.readCount stored.published = some rows.length) := by
  obtain ⟨completed, rows, writing, settling, flag, status, stored, h, hstatus, hstores⟩ :=
    ended_of_moves hbegun hended
  have hparts := h.parts.trans (List.append_assoc ..)
  refine ⟨completed, rows, writing, _, flag, status, stored, hparts, h.account, h.rows_within, ?_,
    hstatus, ?_, h.taken_within, hstores.found, hstores.status_eq, hstores.published_eq,
    hstores.count_eq⟩
  · rw [h.parts, reads_append, List.getLast?_append]
    rfl
  · rw [h.parts, completions_append, completions_of_early h.early]
    rfl

/-- A pass that is cancelled behind its first row stores that it was cancelled, once. -/
theorem ended_once_sample :
    (sample.moves KeptMessages.bus sampleCancel).hasEnded "job" = true ∧
      ∃ rows, completions (sample.course KeptMessages.bus "job" sampleCancel) =
        [(.cancelled, rows)] := by
  have hended : (sample.moves KeptMessages.bus sampleCancel).hasEnded sampleJob.id = true := by
    decide +kernel
  obtain ⟨completed, rows, writing, rest, flag, status, stored, -, -, -, -, -, hends, -, hstored,
    hstatus, -⟩ := ended_once sample_begun hended
  have hname : ((sample.moves KeptMessages.bus sampleCancel).shared.jobs.find? sampleJob.id).map
      (·.status) = some JobStatus.cancelled.name := by
    decide +kernel
  rw [hstored] at hname
  have hcancelled := hstatus.symm.trans (Option.some.inj hname)
  obtain rfl : status = .cancelled := JobStatus.name_inj.mp hcancelled
  exact ⟨hended, _, hends⟩

end Passes

end InventoryFeed

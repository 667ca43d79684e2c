import InventoryFeed.Proofs.Job.Passes

/-!
# Passes do not meet

Passes share a table of jobs and a bus, and their steps come in any order. Every statement of a pass
names the pass's own job, and every message does, so what is seen of a job (its row, its messages and
what is left of its pass) is changed by the events about that job alone. Along any events a job fares
as it would along its own, with nothing else going on.
-/

namespace InventoryFeed

open Happening

/-- Answered in whatever way, a process puts messages of one job on the bus only. -/
def Process.Names (job : String) (q : Process Unit) : Prop :=
  ∀ t, q.Follows t () → ∀ m ∈ taken t, m.jobId? = some job

/-- What comes next at a controller and its passes. -/
inductive PassEvent where
  /-- A job is launched; if it is refused, nothing comes of it. -/
  | launch (tuning : PassTuning) (corpus : CorpusOpening) (job : Job)
  /-- A pass makes a step, or a cancel is requested. -/
  | move (what : PassMove)

/-- The job that an event is about. -/
def PassEvent.job : PassEvent → String
  | launch _ _ job => job.id
  | move (.step job) => job
  | move (.cancel job) => job

variable {β : Type} {bus : EventBus Id β} {log : β → List EventMessage} {up : β → Prop}

namespace PassStep

variable {w w' : Surroundings β} {job : String}

/-- A bus that does not fail has behind a step what the step put on it. -/
theorem answer_log (hbus : bus.Unfailing log up) (hup : up w.bus) (s : PassStep) :
    up (s.answer bus job w).2.bus ∧
      log (s.answer bus job w).2.bus = log w.bus ++ taken [⟨s, (s.answer bus job w).1⟩] := by
  have hsame : up w.bus ∧ log w.bus = log w.bus ++ [] := ⟨hup, (List.append_nil _).symm⟩
  cases s with
  | append message =>
    obtain ⟨hanswer, hlog, hup'⟩ := hbus.append message w.bus hup
    refine ⟨hup', hlog.trans ?_⟩
    simp only [answer, hanswer]
    rfl
  | flush =>
    obtain ⟨hanswer, hlog, hup'⟩ := hbus.flush w.bus hup
    exact ⟨hup', hlog.trans (List.append_nil _).symm⟩
  | recordProgress published =>
    simp only [answer]
    cases w.jobs.recordProgress job published <;> exact hsame
  | readCancel =>
    simp only [answer]
    cases w.jobs.cancelRequested job <;> exact hsame
  | complete status published =>
    simp only [answer]
    cases w.jobs.complete job status published <;> exact hsame

/-- A step gets the same answer over tables that are alike in the job of its pass. -/
theorem answer_eq_of_alike (hbus : bus.Unfailing log up) (hup : up w.bus) (hup' : up w'.bus)
    (h : w.jobs.Alike job w'.jobs) (s : PassStep) :
    (s.answer bus job w).1 = (s.answer bus job w').1 := by
  cases s with
  | append message =>
    exact (hbus.append message w.bus hup).1.trans (hbus.append message w'.bus hup').1.symm
  | flush => exact (hbus.flush w.bus hup).1.trans (hbus.flush w'.bus hup').1.symm
  | recordProgress published =>
    simp only [answer, JobTable.recordProgress, h.dropped]
    cases w'.jobs.dropped <;> rfl
  | readCancel =>
    have hflag : w.jobs.cancelRequested job = w'.jobs.cancelRequested job := by
      rw [JobTable.cancelRequested, JobTable.cancelRequested, h.dropped, h.found]
    simp only [answer, hflag]
    cases w'.jobs.cancelRequested job <;> rfl
  | complete status published => rfl

end PassStep

namespace Passes

variable {p p' : Passes β} {job : String}

/-- A controller that is opened over a store and a bus. -/
def openedOn (w : Surroundings β) : Passes β := ⟨w, .none, []⟩

/-- What an event makes of the passes. -/
def event (bus : EventBus Id β) (p : Passes β) : PassEvent → Passes β
  | .launch tuning corpus job => (p.launch tuning corpus job).toOption.getD p
  | .move what => p.move bus what

/-- Events one after the other. -/
def events (bus : EventBus Id β) (all : List PassEvent) (p : Passes β) : Passes β :=
  all.foldl (event bus) p

/-- What an event makes happen in the pass of a job. -/
def occurring? (bus : EventBus Id β) (job : String) (p : Passes β) : PassEvent → Option Happening
  | .launch _ _ _ => none
  | .move what => p.happening? bus job what

/-- What the pass of a job goes through along events. -/
def courseOf (bus : EventBus Id β) (job : String) : List PassEvent → Passes β → List Happening
  | [], _ => []
  | e :: rest, p => (p.occurring? bus job e).toList ++ courseOf bus job rest (p.event bus e)

/-- The statements that an event runs on the table of jobs. -/
def eventStatements (p : Passes β) : PassEvent → List JobStatement
  | .launch _ _ job => [.insert job]
  | .move what => p.statements what

/-- They name the job that the event is about. -/
theorem id?_of_mem_eventStatements {e : PassEvent} {s : JobStatement}
    (h : s ∈ p.eventStatements e) : s.id? = some e.job := by
  cases e with
  | launch tuning corpus j => exact List.mem_singleton.mp h ▸ rfl
  | move what =>
    cases what with
    | step other => exact id?_of_mem_statements h
    | cancel other => exact List.mem_singleton.mp h ▸ rfl

/-- What a launch comes to. -/
theorem event_launch (tuning : PassTuning) (corpus : CorpusOpening) (j : Job) :
    p.event bus (.launch tuning corpus j) =
      match p.shared.jobs.insert j with
      | .ok jobs =>
        { p with
          shared := { p.shared with jobs }
          going := p.going ++ [(j.id, j.pass tuning corpus)] }
      | .error _ => p := by
  simp only [event, launch, desk, JobDesk.submit]
  cases p.shared.jobs.insert j <;> rfl

/-- What an event makes of the table of jobs its statements make of it. -/
theorem event_jobs (e : PassEvent) :
    (p.event bus e).shared.jobs = p.shared.jobs.after (p.eventStatements e) := by
  cases e with
  | launch tuning corpus j =>
    rw [event_launch]
    simp only [eventStatements, JobTable.after_cons, JobTable.after_nil, JobStatement.run]
    cases p.shared.jobs.insert j <;> rfl
  | move what => exact move_jobs bus what

/-- A launch begins the pass of its job if the job is new, and leaves the other passes alone. -/
theorem left?_launch (tuning : PassTuning) (corpus : CorpusOpening) (j : Job) :
    (p.event bus (.launch tuning corpus j)).left? job =
      (p.left? job).or
        (if j.id = job ∧ (p.shared.jobs.dropped || (p.shared.jobs.find? j.id).isSome) = false
          then some (j.pass tuning corpus) else none) := by
  rw [event_launch, JobTable.insert]
  cases p.shared.jobs.dropped || (p.shared.jobs.find? j.id).isSome with
  | true => simp
  | false =>
    simp only [Bool.false_eq_true, if_false, and_true, left?, List.find?_append,
      List.find?_singleton]
    cases p.going.find? fun entry => entry.1 = job with
    | some entry => rfl
    | none => by_cases hid : j.id = job <;> simp [hid]

/-- An event that is about another job makes nothing happen in the pass of a job. -/
theorem occurring?_of_ne {e : PassEvent} (h : e.job ≠ job) : p.occurring? bus job e = none := by
  cases e with
  | launch tuning corpus j => rfl
  | move what =>
    cases what with
    | step other => exact if_neg h
    | cancel other => rfl

/-- Nothing happens in a pass that was not begun. -/
theorem occurring?_of_left (h : p.left? job = none) (e : PassEvent) :
    p.occurring? bus job e = none := by
  cases e with
  | launch tuning corpus j => rfl
  | move what =>
    cases what with
    | step other => simp [occurring?, happening?, h]
    | cancel other => rfl

/-- Two controllers at which the same is seen of a job. -/
structure Alike (job : String) (p p' : Passes β) : Prop where
  /-- The tables are alike in the job. -/
  jobs : p.shared.jobs.Alike job p'.shared.jobs
  /-- The same is left of its pass. -/
  left : p.left? job = p'.left? job

/-- An event that is about another job changes nothing that is seen of a job. -/
theorem alike_event_of_ne (bus : EventBus Id β) {e : PassEvent} (h : e.job ≠ job) :
    (p.event bus e).Alike job p where
  jobs := by
    rw [event_jobs]
    refine JobTable.alike_after_of_others fun s hs => ?_
    rw [id?_of_mem_eventStatements hs]
    exact fun heq => h (Option.some.inj heq)
  left := by
    cases e with
    | launch tuning corpus j =>
      rw [left?_launch, if_neg fun hj => h hj.1, Option.or_none]
    | move what =>
      cases what with
      | step other => exact (left?_step bus other).trans (if_neg h)
      | cancel other => rfl

/-- Where the same is seen of a job, an event about it makes the same happen in its pass. -/
theorem Alike.occurring (h : p.Alike job p') (hbus : bus.Unfailing log up)
    (hup : up p.shared.bus) (hup' : up p'.shared.bus) (e : PassEvent) :
    p.occurring? bus job e = p'.occurring? bus job e := by
  cases e with
  | launch tuning corpus j => rfl
  | move what =>
    cases what with
    | cancel other => rfl
    | step other =>
      simp only [occurring?, happening?, h.left]
      split
      · split
        · rename_i s next _
          rw [PassStep.answer_eq_of_alike hbus hup hup' h.jobs]
        · rfl
      · rfl

/-- And the same is seen of it afterwards. -/
theorem Alike.event (h : p.Alike job p') (hbus : bus.Unfailing log up) (hup : up p.shared.bus)
    (hup' : up p'.shared.bus) {e : PassEvent} (he : e.job = job) :
    (p.event bus e).Alike job (p'.event bus e) where
  jobs := by
    have hstatements : p.eventStatements e = p'.eventStatements e := by
      cases e with
      | launch tuning corpus j => rfl
      | move what =>
        cases what with
        | cancel other => rfl
        | step other =>
          obtain rfl : other = job := he
          simp only [eventStatements, statements, h.left]
    rw [event_jobs, event_jobs, hstatements]
    exact h.jobs.after fun s hs => he ▸ id?_of_mem_eventStatements hs
  left := by
    cases e with
    | launch tuning corpus j =>
      obtain rfl : j.id = job := he
      rw [left?_launch, left?_launch, h.left, h.jobs.dropped, h.jobs.found]
    | move what =>
      cases what with
      | cancel other => exact h.left
      | step other =>
        simp only [Passes.event, left?_step, h.left]
        split
        · split
          · rw [PassStep.answer_eq_of_alike hbus hup hup' h.jobs]
          · rfl
        · rfl

/-- A bus that does not fail has behind an event the message that it put there. -/
theorem event_log (hbus : bus.Unfailing log up) (hup : up p.shared.bus) (e : PassEvent) :
    up (p.event bus e).shared.bus ∧
      log (p.event bus e).shared.bus =
        log p.shared.bus ++ taken (p.occurring? bus e.job e).toList := by
  have hsame : up p.shared.bus ∧ log p.shared.bus = log p.shared.bus ++ [] :=
    ⟨hup, (List.append_nil _).symm⟩
  cases e with
  | launch tuning corpus j =>
    rw [event_launch]
    cases p.shared.jobs.insert j <;> exact hsame
  | move what =>
    cases what with
    | cancel other => exact hsame
    | step other =>
      simp only [event, move, advance, occurring?, PassEvent.job, happening?, if_true]
      rcases p.left? other with _ | _ | ⟨s, next⟩
      · exact hsame
      · exact hsame
      · exact PassStep.answer_log hbus hup s

/-- Whatever is left of a pass puts messages of its own job on the bus only. -/
def Named (p : Passes β) : Prop := ∀ id q, p.left? id = some q → q.Names id

/-- The messages of a pass are those of the first rows of its corpus. -/
theorem taken_of_follows {tuning : PassTuning} {corpus : CorpusOpening} {j : Job}
    {t t' : List Happening} (h : (j.pass tuning corpus).Follows (t ++ t') ()) :
    taken t <+: Publisher.messages j corpus.rows := by
  obtain ⟨completed, rows, writing, settling, flag, status, hended⟩ := Pass.ended_of_follows h
  have hfirst : taken t <+: taken (t ++ t') := by
    rw [taken_append]
    exact List.prefix_append _ _
  exact hfirst.trans (hended.taken_within.trans (Publisher.messages_mono hended.rows_within))

/-- They name the job. -/
theorem names_pass (tuning : PassTuning) (corpus : CorpusOpening) (j : Job) :
    (j.pass tuning corpus).Names j.id := by
  intro t ht m hm
  rw [← List.append_nil t] at ht
  obtain ⟨k, hk, rfl⟩ := List.mem_iff_getElem.mp ((taken_of_follows ht).subset hm)
  simp only [Publisher.messages, List.getElem_mapIdx]
  exact Publisher.jobId?_announcement ..

theorem named_openedOn (w : Surroundings β) : (openedOn w).Named := by
  intro id q h
  cases h

/-- What an event leaves of a pass follows what it makes happen in it. -/
theorem follows_of_event (bus : EventBus Id β) (e : PassEvent) {q : Process Unit}
    (h : p.left? job = some q) :
    ∃ q', (p.event bus e).left? job = some q' ∧ ∀ t, q'.Follows t () →
      q.Follows ((p.occurring? bus job e).toList ++ t) () := by
  cases e with
  | launch tuning corpus j =>
    refine ⟨q, ?_, fun t ht => ht⟩
    rw [left?_launch, h]
    rfl
  | move what => exact follows_of_move bus what h

/-- A pass is begun by a launch of its job only. -/
theorem launched_of_left (e : PassEvent) (h : p.left? job = none) {q : Process Unit}
    (h' : (p.event bus e).left? job = some q) :
    ∃ tuning corpus j, e = .launch tuning corpus j ∧ j.id = job ∧ q = j.pass tuning corpus := by
  cases e with
  | launch tuning corpus j =>
    rw [left?_launch, h, Option.none_or] at h'
    split at h'
    · rename_i hnew
      exact ⟨tuning, corpus, j, rfl, hnew.1, (Option.some.inj h').symm⟩
    · cases h'
  | move what =>
    cases what with
    | cancel other => cases h.symm.trans h'
    | step other =>
      rw [event, left?_step, h] at h'
      simp at h'

/-- Events keep the passes to the messages of their own jobs. -/
theorem Named.event (h : p.Named) (e : PassEvent) : (p.event bus e).Named := by
  intro id q' hq'
  rcases hleft : p.left? id with _ | q
  · obtain ⟨tuning, corpus, j, -, rfl, rfl⟩ := launched_of_left e hleft hq'
    exact names_pass tuning corpus j
  · obtain ⟨q₁, hq₁, hfollows⟩ := follows_of_event bus e hleft
    obtain rfl : q₁ = q' := Option.some.inj (hq₁.symm.trans hq')
    intro t ht m hm
    refine h id q hleft _ (hfollows t ht) m ?_
    rw [taken_append]
    exact List.mem_append_right _ hm

/-- What happens in a pass puts messages of its own job on the bus only. -/
theorem Named.occurring (h : p.Named) (e : PassEvent) {m : EventMessage}
    (hm : m ∈ taken (p.occurring? bus job e).toList) : m.jobId? = some job := by
  rcases hleft : p.left? job with _ | q
  · rw [occurring?_of_left hleft] at hm
    cases hm
  · obtain ⟨q', -, hfollows⟩ := follows_of_event bus e hleft
    obtain ⟨t, ⟨⟩, ht⟩ := q'.exists_follows
    refine h job q hleft _ (hfollows t ht) m ?_
    rw [taken_append]
    exact List.mem_append_left _ hm

/-- The messages of a job on the bus grow by what happens in its pass. -/
theorem Named.own_event (job : String) (h : p.Named) (hbus : bus.Unfailing log up)
    (hup : up p.shared.bus) (e : PassEvent) :
    EventMessage.own job (log (p.event bus e).shared.bus) =
      EventMessage.own job (log p.shared.bus) ++ taken (p.occurring? bus job e).toList := by
  rw [(event_log hbus hup e).2, EventMessage.own, List.filter_append]
  refine congrArg (EventMessage.own job (log p.shared.bus) ++ ·) ?_
  by_cases he : e.job = job
  · subst he
    exact List.filter_eq_self.mpr fun m hm => by simp [h.occurring e hm]
  · rw [occurring?_of_ne he]
    refine List.filter_eq_nil_iff.mpr fun m hm => ?_
    simp [h.occurring e hm, he]

/-- Along events the messages of a job on the bus grow by what the bus took in its pass. -/
theorem Named.own_events (job : String) (h : p.Named) (hbus : bus.Unfailing log up)
    (hup : up p.shared.bus) (all : List PassEvent) :
    EventMessage.own job (log (p.events bus all).shared.bus) =
      EventMessage.own job (log p.shared.bus) ++ taken (p.courseOf bus job all) := by
  induction all generalizing p with
  | nil => exact (List.append_nil _).symm
  | cons e rest ih =>
    have hrest := ih (h.event e) (event_log hbus hup e).1
    rw [h.own_event job hbus hup e, List.append_assoc, ← taken_append] at hrest
    exact hrest

/-- Along events the same is seen of a job, and the same happens in its pass, as along those events
alone that are about the job. -/
theorem Alike.events (h : p.Alike job p') (hbus : bus.Unfailing log up) (hup : up p.shared.bus)
    (hup' : up p'.shared.bus) (all : List PassEvent) :
    (p.events bus all).Alike job (p'.events bus (all.filter fun e => e.job = job)) ∧
      p.courseOf bus job all = p'.courseOf bus job (all.filter fun e => e.job = job) := by
  induction all generalizing p p' with
  | nil => exact ⟨h, rfl⟩
  | cons e rest ih =>
    have hup₁ := (event_log hbus hup e).1
    by_cases he : e.job = job
    · obtain ⟨hrest, hcourse⟩ :=
        ih (h.event hbus hup hup' he) hup₁ (event_log hbus hup' e).1
      rw [List.filter_cons_of_pos (by simpa using he)]
      refine ⟨hrest, ?_⟩
      rw [courseOf, courseOf, hcourse, h.occurring hbus hup hup']
    · have hsame : (p.event bus e).Alike job p := alike_event_of_ne bus he
      have hnext : (p.event bus e).Alike job p' :=
        ⟨⟨hsame.jobs.dropped.trans h.jobs.dropped, hsame.jobs.found.trans h.jobs.found⟩,
          hsame.left.trans h.left⟩
      obtain ⟨hrest, hcourse⟩ := ih hnext hup₁ hup'
      rw [List.filter_cons_of_neg (by simpa using he)]
      refine ⟨hrest, ?_⟩
      rw [courseOf, occurring?_of_ne he]
      exact hcourse

/-- What happens in a pass along events is a course of it, as far as it has come. -/
theorem follows_of_events (bus : EventBus Id β) (all : List PassEvent) {q : Process Unit}
    (h : p.left? job = some q) :
    ∃ t, q.Follows (p.courseOf bus job all ++ t) () := by
  induction all generalizing p q with
  | nil =>
    obtain ⟨t, ⟨⟩, ht⟩ := q.exists_follows
    exact ⟨t, ht⟩
  | cons e rest ih =>
    obtain ⟨q', hq', hfollows⟩ := follows_of_event bus e h
    obtain ⟨t, ht⟩ := ih hq'
    refine ⟨t, ?_⟩
    rw [courseOf, List.append_assoc]
    exact hfollows _ ht

/-- What the bus took in the pass of a job are the first messages of the corpus with which the job was
launched. -/
theorem taken_of_events (bus : EventBus Id β) (all : List PassEvent) (h : p.left? job = none) :
    taken (p.courseOf bus job all) = [] ∨ ∃ tuning corpus j,
      .launch tuning corpus j ∈ all ∧ j.id = job ∧
        taken (p.courseOf bus job all) <+: Publisher.messages j corpus.rows := by
  induction all generalizing p with
  | nil => exact .inl rfl
  | cons e rest ih =>
    rw [courseOf, occurring?_of_left h]
    rcases hleft : (p.event bus e).left? job with _ | q
    · refine (ih hleft).imp id ?_
      rintro ⟨tuning, corpus, j, hmem, hrest⟩
      exact ⟨tuning, corpus, j, .tail _ hmem, hrest⟩
    · obtain ⟨tuning, corpus, j, rfl, hid, rfl⟩ := launched_of_left e h hleft
      obtain ⟨t, ht⟩ := follows_of_events bus rest hleft
      exact .inr ⟨tuning, corpus, j, .head _, hid, taken_of_follows ht⟩

/-- What shows of a job. -/
structure JobView where
  /-- The job as it is stored. -/
  record : Option StoredJob
  /-- Its messages on the bus. -/
  messages : List EventMessage
  /-- What is left of its pass. -/
  left : Option (Process Unit)

/-- What shows of a job at a controller. -/
def view (log : β → List EventMessage) (job : String) (p : Passes β) : JobView :=
  ⟨p.shared.jobs.find? job, EventMessage.own job (log p.shared.bus), p.left? job⟩

/-- The same shows of a job as if only the events about it had come. -/
theorem view_alone (hbus : bus.Unfailing log up) {w : Surroundings β} (hup : up w.bus)
    (all : List PassEvent) (job : String) :
    ((openedOn w).events bus all).view log job =
      ((openedOn w).events bus (all.filter fun e => e.job = job)).view log job := by
  have hstart : (openedOn w).Alike job (openedOn w) := ⟨⟨rfl, rfl⟩, rfl⟩
  obtain ⟨hview, hcourse⟩ := hstart.events hbus hup hup all
  have hown := (named_openedOn w).own_events job hbus hup all
  rw [hcourse, ← (named_openedOn w).own_events job hbus hup] at hown
  rw [view, view, hview.jobs.found, hview.left, hown]

/-- The messages of a course are numbered from one. -/
theorem ts_of_within {j : Job} {rows : List Row} {t : List Happening}
    (h : taken t <+: Publisher.messages j rows) :
    (taken t).map (·.payload.ts) = List.range' 1 (taken t).length := by
  obtain ⟨rest, hrest⟩ := h
  have hts := congrArg (List.map (·.payload.ts)) hrest
  rw [Publisher.map_ts_messages, List.map_append] at hts
  obtain ⟨count, -, hcount, -⟩ := List.range'_eq_append_iff.mp hts.symm
  have hlength := congrArg List.length hcount
  rw [List.length_map, List.length_range'] at hlength
  rw [hcount, hlength]

/-- Whatever jobs are launched over one store and one bus that does not fail, whatever cancels are
requested, and in whatever order the passes make their steps: the messages of a job on the bus are
those that its own pass put there, in their order and numbered from one, the first messages of the
corpus with which the job was launched; a cancel of another job changes nothing that shows of it; and
along the events about it alone the same shows of it and the same happens in its pass. -/
theorem passes_apart (hbus : bus.Unfailing log up) {w : Surroundings β} (hup : up w.bus)
    (all : List PassEvent) (job : String) :
    let p := (openedOn w).events bus all
    let course := (openedOn w).courseOf bus job all
    let own := all.filter fun e => e.job = job
    (p.view log job).messages = EventMessage.own job (log w.bus) ++ taken course ∧
      (taken course).map (·.payload.ts) = List.range' 1 (taken course).length ∧
      (taken course = [] ∨ ∃ tuning corpus j, .launch tuning corpus j ∈ all ∧ j.id = job ∧
        taken course <+: Publisher.messages j corpus.rows) ∧
      (∀ before after other, all = before ++ .move (.cancel other) :: after → other ≠ job →
        ((openedOn w).events bus (before ++ after)).view log job = p.view log job) ∧
      ((openedOn w).events bus own).view log job = p.view log job ∧
      (openedOn w).courseOf bus job own = course := by
  intro p course own
  have hstart : (openedOn w).Alike job (openedOn w) := ⟨⟨rfl, rfl⟩, rfl⟩
  have hnone : (openedOn w).left? job = none := rfl
  have htaken := taken_of_events bus all hnone
  refine ⟨(named_openedOn w).own_events job hbus hup all, ?_, htaken, ?_,
    (view_alone hbus hup all job).symm, (hstart.events hbus hup hup all).2.symm⟩
  · rcases htaken with hempty | ⟨tuning, corpus, j, -, -, hwithin⟩
    · rw [hempty]
      rfl
    · exact ts_of_within hwithin
  · intro before after other hall hother
    have hfilter : own = (before ++ after).filter fun e => e.job = job := by
      simp [own, hall, PassEvent.job, hother]
    rw [view_alone hbus hup, ← hfilter]
    exact (view_alone hbus hup all job).symm

/-- Two jobs whose passes take turns, the second of which is cancelled. -/
def sampleEvents : List PassEvent :=
  .launch sampleTuning sampleCorpus sampleJob ::
    .launch sampleTuning sampleCorpus (.iteration "other" ⟨"ids", none⟩ "now") ::
    (List.replicate 4 [.move (.step "job"), .move (.step "other")]).flatten ++
    .move (.cancel "other") ::
    (List.replicate 6 [.move (.step "other"), .move (.step "job")]).flatten

/-- Each of them has its own messages, and the first is stored as it would be without the second. -/
theorem passes_apart_sample :
    let p := (openedOn ⟨.empty, (default : KeptMessages)⟩).events KeptMessages.bus sampleEvents
    (p.view KeptMessages.messages "job").messages.map (·.payload.ts) = [1, 2] ∧
      ((openedOn ⟨.empty, (default : KeptMessages)⟩).events KeptMessages.bus
        (sampleEvents.filter fun e => e.job = "job")).view KeptMessages.messages "job" =
          p.view KeptMessages.messages "job" := by
  obtain ⟨hmessages, hts, -, -, halone, -⟩ :=
    passes_apart KeptMessages.unfailing (w := ⟨.empty, default⟩) rfl sampleEvents "job"
  have hlength : (taken ((openedOn ⟨.empty, (default : KeptMessages)⟩).courseOf KeptMessages.bus "job"
      sampleEvents)).length = 2 := by
    decide +kernel
  refine ⟨?_, halone⟩
  rw [hmessages]
  exact hts.trans (congrArg (List.range' 1) hlength)

end Passes

end InventoryFeed

import InventoryFeed.Job.Pass
import InventoryFeed.Proofs.Job.Process
import InventoryFeed.Proofs.Job.Table

/-!
# How far the stored count is behind

The hook of a pass is asked about the rows that were written so far, and stores their number at most
once for each interval. The number that the hook remembers is the one that is stored (`Progress.Kept`):
as long as no one else writes it, it is never ahead of the rows, and it lies in the same interval as they
do whenever the store takes writes.
-/

namespace InventoryFeed

/-- Run a process to its end by answers that are given with a state, and note what happened. -/
def Process.told {ω α : Type} (answer : ω → (s : PassStep) → s.Answer × ω) :
    Process α → ω → α × List Happening × ω
  | done a, w => (a, [], w)
  | step s next, w =>
    let (given, w) := answer w s
    let (a, t, w) := (next given).told answer w
    (a, ⟨s, given⟩ :: t, w)

/-- Answer a step of a pass from a store that takes a count or fails to. -/
def PassStep.answerIf {β : Type} (takes : Bool) (bus : EventBus Id β) (job : String)
    (w : Surroundings β) : (s : PassStep) → s.Answer × Surroundings β
  | recordProgress published =>
    if takes then (recordProgress published).answer bus job w else (false, w)
  | s => s.answer bus job w

/-- Answered from a store that takes every count, a process is run. -/
theorem Process.told_eq_run {α β : Type} (bus : EventBus Id β) (job : String) (p : Process α)
    (w : Surroundings β) :
    (p.told (PassStep.answerIf true bus job) w).1 = (p.run bus job w).1 ∧
      (p.told (PassStep.answerIf true bus job) w).2.2 = (p.run bus job w).2 := by
  have hanswer : PassStep.answerIf true bus job = PassStep.answer bus job := by
    funext w s
    cases s <;> rfl
  rw [hanswer]
  induction p generalizing w with
  | done a => exact ⟨rfl, rfl⟩
  | step s next ih => exact ih _ _

/-- The count that a happening stored, if it stored one. -/
def Happening.stored? : Happening → Option Nat
  | ⟨.recordProgress published, true⟩ => some published
  | _ => none

/-- The counts that were stored. -/
def Happening.stored (t : List Happening) : List Nat := t.filterMap stored?

theorem Happening.stored_append_readCancel (t : List Happening) (flag : Option Bool) :
    stored (t ++ [⟨.readCancel, flag⟩]) = stored t :=
  List.filterMap_append.trans (List.append_nil _)

theorem Happening.stored_append_failed (t : List Happening) (n : Nat) (flag : Option Bool) :
    stored (t ++ [⟨.recordProgress n, false⟩, ⟨.readCancel, flag⟩]) = stored t :=
  List.filterMap_append.trans (List.append_nil _)

theorem Happening.stored_append_written (t : List Happening) (n : Nat) (flag : Option Bool) :
    stored (t ++ [⟨.recordProgress n, true⟩, ⟨.readCancel, flag⟩]) = stored t ++ [n] :=
  List.filterMap_append

/-- Whether a statement may write the count of a job. -/
def JobStatement.WritesCount (id : String) : JobStatement → Prop
  | recordProgress id' _ => id' = id
  | complete id' _ _ => id' = id
  | _ => False

/-- A statement that does not write the count of a job leaves its status and its count. -/
theorem JobStatement.onJob_of_not_writes {s : JobStatement} {k : Job} (hs : ¬s.WritesCount k.id) :
    (s.onJob k).status = k.status ∧ (s.onJob k).published = k.published := by
  unfold onJob
  split
  · rename_i h
    cases s with
    | recordProgress id published => exact absurd (Option.some.inj h.1) hs
    | complete id status published => exact absurd (Option.some.inj h.1) hs
    | _ => exact ⟨rfl, rfl⟩
  · exact ⟨rfl, rfl⟩

/-- A statement leaves the row of a job that has ended. -/
theorem JobTable.find?_run_of_ended {t : JobTable} {id : String} {r : StoredJob}
    (h : t.find? id = some r) (hended : r.Ended) (s : JobStatement) :
    (s.run t).2.find? id = some r := by
  cases hdropped : t.dropped with
  | true => rw [JobStatement.run_of_dropped hdropped, h]
  | false =>
    have hrunning : r.running = false := by
      obtain ⟨status, hterminal, hname⟩ := hended
      rw [StoredJob.running, hname, decide_eq_false_iff_not, JobStatus.name_inj]
      rintro rfl
      cases hterminal
    have heffect : s.effect r = r := if_neg fun hs => Bool.false_ne_true (hrunning.symm.trans hs.2)
    rw [find?_run hdropped, h, Option.map_some, heffect, Option.some_or]

namespace Pass

/-- A number in an interval no later than that of another is less than a whole interval ahead. -/
theorem sub_lt_of_div_le {rows stored length : Nat} (hlength : 0 < length)
    (h : rows / length ≤ stored / length) : rows - stored < length := by
  have hrows := Nat.div_add_mod rows length
  have hrest := Nat.mod_lt rows hlength
  have hbelow := Nat.le_trans (Nat.mul_le_mul_left length h) (Nat.mul_div_le stored length)
  omega

/-- The hook of a pass at work. -/
structure Progress (β : Type) where
  /-- The table of jobs and the bus. -/
  shared : Surroundings β
  /-- The count that the hook remembers. -/
  stored : Nat
  /-- The steps that the hook made, with their answers. -/
  happened : List Happening

/-- One thing that happens while a hook is at work. -/
inductive ProgressMove where
  /-- The hook is asked, and the store takes a count or fails to. -/
  | ask (session : Session) (takes : Bool)
  /-- Someone runs a statement on the table of jobs. -/
  | other (s : JobStatement)

/-- The rows about which the hook is asked, if it is. -/
def ProgressMove.rows? : ProgressMove → Option Nat
  | ask session _ => some session.rowsEmitted
  | other _ => none

namespace Progress

variable {β : Type}

/-- A hook before it is asked for the first time. -/
def start (shared : Surroundings β) : Progress β := ⟨shared, 0, []⟩

variable (bus : EventBus Id β) (job : String) (every : Nat)

/-- The hook after it was asked. -/
def ask (session : Session) (takes : Bool) (p : Progress β) : Progress β :=
  let ((_, stored), t, shared) :=
    (hook every session p.stored).told (PassStep.answerIf takes bus job) p.shared
  ⟨shared, stored, p.happened ++ t⟩

/-- The hook after one more thing has happened. -/
def move (p : Progress β) : ProgressMove → Progress β
  | .ask session takes => p.ask bus job every session takes
  | .other s => { p with shared := { p.shared with jobs := (s.run p.shared.jobs).2 } }

/-- The hook after several things have happened. -/
def moves (all : List ProgressMove) (p : Progress β) : Progress β :=
  all.foldl (move bus job every) p

/-- The rows about which the hook is asked, in the order of the questions. -/
def asked (all : List ProgressMove) : List Nat := all.filterMap ProgressMove.rows?

/-- What becomes of a hook that is asked. -/
inductive Step (session : Session) (takes : Bool) (p : Progress β) : Progress β → Prop
  /-- The rows lie in the interval of the count that it remembers, or before it. -/
  | within (flag : Option Bool) (h : session.rowsEmitted / max every 1 ≤ p.stored / max every 1) :
      Step session takes p { p with happened := p.happened ++ [⟨.readCancel, flag⟩] }
  /-- The rows lie behind that interval, and the store fails to take their number. -/
  | failed (flag : Option Bool) (h : p.stored / max every 1 < session.rowsEmitted / max every 1)
      (hfails : takes = false ∨ p.shared.jobs.dropped = true) :
      Step session takes p { p with
        happened := p.happened ++
          [⟨.recordProgress session.rowsEmitted, false⟩, ⟨.readCancel, flag⟩] }
  /-- The rows lie behind that interval, and their number is stored and remembered. -/
  | written (flag : Option Bool) (h : p.stored / max every 1 < session.rowsEmitted / max every 1) :
      Step session takes p
        ⟨{ p.shared with
            jobs := ((JobStatement.recordProgress job session.rowsEmitted).run p.shared.jobs).2 },
          session.rowsEmitted,
          p.happened ++ [⟨.recordProgress session.rowsEmitted, true⟩, ⟨.readCancel, flag⟩]⟩

section

variable {bus job every}

/-- A read of the cancel flag changes nothing. -/
theorem answerIf_readCancel (takes : Bool) (w : Surroundings β) :
    (PassStep.answerIf takes bus job w .readCancel).2 = w := by
  simp only [PassStep.answerIf, PassStep.answer]
  split <;> rfl

/-- A store either fails to take a count, and is left as it is, or runs the statement that stores it. -/
theorem answerIf_recordProgress (bus : EventBus Id β) (job : String) (takes : Bool)
    (w : Surroundings β) (n : Nat) :
    (takes = false ∨ w.jobs.dropped = true) ∧
        PassStep.answerIf takes bus job w (.recordProgress n) = (false, w) ∨
      PassStep.answerIf takes bus job w (.recordProgress n) =
        (true, { w with jobs := ((JobStatement.recordProgress job n).run w.jobs).2 }) := by
  cases takes with
  | false => exact .inl ⟨.inl rfl, rfl⟩
  | true =>
    simp only [PassStep.answerIf, if_true, PassStep.answer, JobTable.recordProgress,
      JobStatement.run, JobStatement.flagged]
    cases hdropped : w.jobs.dropped with
    | true => exact .inl ⟨.inr rfl, rfl⟩
    | false => exact .inr rfl

/-- Within the interval of the count that it remembers a hook only reads the cancel flag. -/
theorem hook_of_le {session : Session} {stored : Nat}
    (h : session.rowsEmitted / max every 1 ≤ stored / max every 1) :
    hook every session stored = .step .readCancel fun (flag : Option Bool) =>
      .done (if flag = some true then .stop else .goOn, stored) := by
  simp only [hook, if_pos h]
  rfl

/-- Behind it the hook stores the rows first, and remembers them if it is told that they were stored. -/
theorem hook_of_lt {session : Session} {stored : Nat}
    (h : stored / max every 1 < session.rowsEmitted / max every 1) :
    hook every session stored =
      .step (.recordProgress session.rowsEmitted) fun (ran : Bool) =>
        (.step .readCancel fun (flag : Option Bool) =>
          .done (if flag = some true then .stop else .goOn,
            if ran then session.rowsEmitted else stored)) := by
  simp only [hook, if_neg (Nat.not_le.mpr h)]
  rfl

/-- A question is one of these steps. -/
theorem step_ask (session : Session) (takes : Bool) (p : Progress β) :
    Step job every session takes p (p.ask bus job every session takes) := by
  rcases Nat.lt_or_ge (p.stored / max every 1) (session.rowsEmitted / max every 1) with hlt | hge
  · rcases answerIf_recordProgress bus job takes p.shared session.rowsEmitted with
      ⟨hfails, hanswer⟩ | hanswer
    · simp only [ask, hook_of_lt hlt, Process.told, hanswer, answerIf_readCancel]
      exact .failed _ hlt hfails
    · simp only [ask, hook_of_lt hlt, Process.told, hanswer, answerIf_readCancel]
      exact .written _ hlt
  · simp only [ask, hook_of_le hge, Process.told, answerIf_readCancel]
    exact .within _ hge

variable {p p' : Progress β} {session : Session} {takes : Bool}

/-- A hook that is told that a count was not stored leaves the store and remembers what it did before,
and it had to write. -/
theorem Step.of_failed (h : Step job every session takes p p') {n : Nat} {rest : List Happening}
    (hfailed : p'.happened = p.happened ++ ⟨.recordProgress n, false⟩ :: rest) :
    p'.shared = p.shared ∧ p'.stored = p.stored ∧
      p.stored / max every 1 < session.rowsEmitted / max every 1 := by
  cases h with
  | within flag h => cases List.append_cancel_left hfailed
  | failed flag h hfails => exact ⟨rfl, rfl, h⟩
  | written flag h => cases List.append_cancel_left hfailed

/-- What is known of a hook that is the only one to write the count of a job, as long as it was asked
about these rows at most. -/
structure Kept (job : String) (every rows : Nat) (p : Progress β) : Prop where
  /-- The job is in progress, and its count is the one that the hook remembers. -/
  holds : ∃ k : Job, p.shared.jobs.Holds k ∧ k.id = job ∧ k.status = .inProgress ∧
    k.published = p.stored
  /-- The count is not ahead of the rows. -/
  stored_le : p.stored ≤ rows
  /-- No interval was written twice. -/
  writes_le : (Happening.stored p.happened).length ≤ p.stored / max every 1

theorem kept_start {w : Surroundings β} {k : Job} (hk : w.jobs.Holds k)
    (hrunning : k.status = .inProgress) (hnone : k.published = 0) :
    (start w).Kept k.id every 0 :=
  ⟨⟨k, hk, rfl, hrunning, hnone⟩, Nat.le_refl _, Nat.zero_le _⟩

/-- A question keeps what is known. -/
theorem Step.kept {rows : Nat} (hstep : Step job every session takes p p')
    (h : p.Kept job every rows) (hrows : rows ≤ session.rowsEmitted) :
    p'.Kept job every session.rowsEmitted := by
  obtain ⟨k, hk, rfl, hrunning, hpublished⟩ := h.holds
  have hle := Nat.le_trans h.stored_le hrows
  have hwrites := h.writes_le
  cases hstep with
  | within flag _ =>
    refine ⟨⟨k, hk, rfl, hrunning, hpublished⟩, hle, ?_⟩
    rwa [Happening.stored_append_readCancel]
  | failed flag _ _ =>
    refine ⟨⟨k, hk, rfl, hrunning, hpublished⟩, hle, ?_⟩
    rwa [Happening.stored_append_failed]
  | written flag hlt =>
    have hgrown : (JobStatement.recordProgress k.id session.rowsEmitted).onJob k =
        { k with published := session.rowsEmitted } := by
      simp [JobStatement.onJob, JobStatement.id?, hrunning, hpublished, hle]
    have hholds := hk.run (.recordProgress k.id session.rowsEmitted)
    rw [hgrown] at hholds
    refine ⟨⟨_, hholds, rfl, hrunning, rfl⟩, Nat.le_refl _, ?_⟩
    rw [Happening.stored_append_written, List.length_append]
    -- the write opens an interval behind all that were written before
    exact Nat.lt_of_le_of_lt hwrites hlt

/-- Behind a question the count lies in the interval of the rows if the store takes writes. -/
theorem Step.caught_up {rows : Nat} (hstep : Step job every session takes p p')
    (h : p.Kept job every rows) (htakes : takes = true) :
    session.rowsEmitted / max every 1 ≤ p'.stored / max every 1 := by
  cases hstep with
  | within flag hge => exact hge
  | failed flag _ hfails =>
    obtain ⟨k, hk, -⟩ := h.holds
    exact absurd hk.1 (by simp [hfails.resolve_left (by simp [htakes])])
  | written flag _ => exact Nat.le_refl _

/-- What others do keeps what is known, as long as they leave the count alone. -/
theorem Kept.other {rows : Nat} (h : p.Kept job every rows) {s : JobStatement}
    (hs : ¬s.WritesCount job) : (p.move bus job every (.other s)).Kept job every rows := by
  obtain ⟨k, hk, rfl, hrunning, hpublished⟩ := h.holds
  obtain ⟨hstatus, hcount⟩ := JobStatement.onJob_of_not_writes hs
  exact ⟨⟨s.onJob k, hk.run s, s.onJob_id k, hstatus.trans hrunning, hcount.trans hpublished⟩,
    h.stored_le, h.writes_le⟩

/-- What is known of a hook is kept as long as it is asked about no fewer rows than before. -/
theorem Kept.moves {rows more : Nat} {all : List ProgressMove} (h : p.Kept job every rows)
    (hothers : ∀ s, .other s ∈ all → ¬s.WritesCount job)
    (hrows : (rows :: (asked all ++ [more])).Pairwise (· ≤ ·)) :
    ∃ last ≤ more, (p.moves bus job every all).Kept job every last := by
  induction all generalizing p rows with
  | nil => exact ⟨rows, List.rel_of_pairwise_cons hrows (.head _), h⟩
  | cons m rest ih =>
    have hrest : ∀ s, .other s ∈ rest → ¬s.WritesCount job := fun s hs => hothers s (.tail _ hs)
    cases m with
    | ask session takes =>
      have hnext : rows ≤ session.rowsEmitted := List.rel_of_pairwise_cons hrows (.head _)
      exact ih ((step_ask session takes p).kept h hnext) hrest hrows.of_cons
    | other s => exact ih (h.other (hothers s (.head _))) hrest hrows

/-- A question leaves the row of a job that has ended. -/
theorem Step.find?_of_ended (hstep : Step job every session takes p p') {r : StoredJob}
    (h : p.shared.jobs.find? job = some r) (hended : r.Ended) :
    p'.shared.jobs.find? job = some r := by
  cases hstep with
  | within flag _ => exact h
  | failed flag _ _ => exact h
  | written flag _ => exact JobTable.find?_run_of_ended h hended _

theorem find?_moves_of_ended {r : StoredJob} (h : p.shared.jobs.find? job = some r)
    (hended : r.Ended) (all : List ProgressMove) :
    (p.moves bus job every all).shared.jobs.find? job = some r := by
  induction all generalizing p with
  | nil => exact h
  | cons m rest ih =>
    cases m with
    | ask session takes => exact ih ((step_ask session takes p).find?_of_ended h hended)
    | other s =>
      have hother : (p.move bus job every (.other s)).shared.jobs.find? job = some r :=
        JobTable.find?_run_of_ended h hended s
      exact ih hother

end

/-- A job in progress with no record published is read with the count that its hook remembers. -/
theorem Kept.get {job : String} {every rows : Nat} {p : Progress β} (h : p.Kept job every rows)
    (hfit : rows < Word.signedEnd) :
    ∃ found, p.shared.jobs.get job = .ok (some found) ∧ found.published = p.stored := by
  obtain ⟨k, hk, rfl, -, hpublished⟩ := h.holds
  have hmin : min k.published Sql.Value.maxInteger = k.published := by
    have hle := h.stored_le
    simp only [Sql.Value.maxInteger, Word.signedEnd] at hfit ⊢
    omega
  refine ⟨k, ?_, hpublished⟩
  rw [JobTable.get, hk.1, if_neg Bool.false_ne_true, hk.2]
  simp only [StoredJob.toJob_ofJob, hmin, Except.map]

/-- A job is in progress with no record published, and the hook of its pass is asked about more and more
rows. Whatever the interval, and whatever others do with the table of jobs as long as they leave the
count of the job alone: behind every question the stored count is not ahead of the rows, and at most as
many counts were stored as the rows have whole intervals; if the store takes counts at that question, the
stored count is behind by less than an interval, whether the store took those before or not. A hook that
is told that a count was not stored writes at the next question, whatever has become of the store. And
nothing that a hook is asked changes the row of a job that has ended. -/
theorem stored_within_interval (bus : EventBus Id β) (every : Nat) {w : Surroundings β} {job : Job}
    (hjob : w.jobs.Holds job) (hrunning : job.status = .inProgress) (hnone : job.published = 0)
    (all : List ProgressMove) (hothers : ∀ s, .other s ∈ all → ¬s.WritesCount job.id)
    (session : Session) (takes : Bool)
    (hrows : (asked (all ++ [.ask session takes])).Pairwise (· ≤ ·))
    (hfit : session.rowsEmitted < Word.signedEnd) :
    let before := (start w).moves bus job.id every all
    let after := before.ask bus job.id every session takes
    (∃ found, after.shared.jobs.get job.id = .ok (some found) ∧
        found.published ≤ session.rowsEmitted ∧
        (takes = true → session.rowsEmitted - found.published < max every 1) ∧
        (Happening.stored after.happened).length ≤ session.rowsEmitted / max every 1) ∧
      (∀ n rest, after.happened = before.happened ++ ⟨.recordProgress n, false⟩ :: rest →
        after.shared = before.shared ∧ after.stored = before.stored ∧
          ∀ later : Session, session.rowsEmitted ≤ later.rowsEmitted →
            (hook every later after.stored).step? = some (.recordProgress later.rowsEmitted)) ∧
      ∀ (p : Progress β) (r : StoredJob), p.shared.jobs.find? job.id = some r → r.Ended →
        ∀ more, (p.moves bus job.id every more).shared.jobs.find? job.id = some r := by
  intro before after
  have hstep : Step job.id every session takes before after := step_ask session takes before
  have hpairwise : (0 :: (asked all ++ [session.rowsEmitted])).Pairwise (· ≤ ·) := by
    rw [asked, List.filterMap_append] at hrows
    exact List.pairwise_cons.mpr ⟨fun _ _ => Nat.zero_le _, hrows⟩
  obtain ⟨last, hlast, hbefore⟩ : ∃ last ≤ session.rowsEmitted, before.Kept job.id every last :=
    (kept_start hjob hrunning hnone).moves hothers hpairwise
  have hafter := hstep.kept hbefore hlast
  refine ⟨?_, fun n rest hfailed => ?_, fun p r hr hended => find?_moves_of_ended hr hended⟩
  · obtain ⟨found, hget, hpublished⟩ := hafter.get hfit
    refine ⟨found, hget, hpublished ▸ hafter.stored_le, fun htakes => ?_, ?_⟩
    · rw [hpublished]
      exact sub_lt_of_div_le (Nat.lt_of_lt_of_le Nat.one_pos (Nat.le_max_right every 1))
        (hstep.caught_up hbefore htakes)
    · exact Nat.le_trans hafter.writes_le (Nat.div_le_div_right hafter.stored_le)
  · obtain ⟨hshared, hstored, hlt⟩ := hstep.of_failed hfailed
    refine ⟨hshared, hstored, fun later hlater => ?_⟩
    rw [hook_of_lt (hstored ▸ Nat.lt_of_lt_of_le hlt (Nat.div_le_div_right hlater))]
    rfl

/-- A count that the store failed to take is made good at the next question, a cancel being requested in
between. -/
theorem stored_within_interval_sample :
    let job : Job := .reindex "job" .authorities "now"
    let w : Surroundings KeptMessages := ⟨⟨[.ofJob job], false⟩, default⟩
    let about (rows : Nat) : Session := ⟨rows, false, false, 0⟩
    let all := [.ask (about 12) true, .ask (about 25) false, .other (.raiseCancel "job")]
    let before := (start w).moves KeptMessages.bus "job" 10 all
    let after := before.ask KeptMessages.bus "job" 10 (about 31) true
    (Happening.stored before.happened = [12] ∧ Happening.stored after.happened = [12, 31]) ∧
      ∃ found, after.shared.jobs.get "job" = .ok (some found) ∧ found.published ≤ 31 ∧
        31 - found.published < 10 := by
  intro job w about all before after
  have hothers : ∀ s, ProgressMove.other s ∈ all → ¬s.WritesCount job.id := by
    intro s hs
    obtain rfl : s = .raiseCancel "job" := by simpa [all] using hs
    exact id
  have hjob : w.jobs.Holds job := ⟨rfl, rfl⟩
  obtain ⟨⟨found, hget, hle, hbehind, -⟩, -⟩ := stored_within_interval KeptMessages.bus 10 hjob rfl rfl
    all hothers (about 31) true (by decide) (by decide)
  exact ⟨by decide +kernel, found, hget, hle, hbehind rfl⟩

end Progress

end Pass

end InventoryFeed

import InventoryFeed.Job.Table
import Mathlib.Data.List.Nodup
import Mathlib.Tactic.Common

/-!
# What becomes of a stored job

A call on the table of jobs is one statement, or two if it raises a cancel flag and reads the job
again; statements of several callers may come in any order. Whatever the order, a stored job keeps
its id and all that it was submitted with, it moves forward only, and once it has ended nothing of it
changes any more.
-/

namespace InventoryFeed

/-- A statement on the table of jobs, one step of a call. -/
inductive JobStatement where
  /-- Store a new job. -/
  | insert (job : Job)
  /-- Read the job of an id. -/
  | get (id : String)
  /-- Read all jobs. -/
  | list
  /-- Read a cancel flag. -/
  | cancelRequested (id : String)
  /-- Raise a cancel flag. -/
  | raiseCancel (id : String)
  /-- Store a count. -/
  | recordProgress (id : String) (published : Nat)
  /-- Store an end. -/
  | complete (id : String) (status : JobStatus) (published : Nat)
  deriving Repr

namespace JobStatement

/-- The id that a statement names, if it names one. -/
def id? : JobStatement → Option String
  | insert job => some job.id
  | get id => some id
  | list => none
  | cancelRequested id => some id
  | raiseCancel id => some id
  | recordProgress id _ => some id
  | complete id _ _ => some id

/-- The answer and the table of a change that may be refused. -/
def changed (t : JobTable) (answer : JobAnswer) :
    Except StoreError JobTable → Except StoreError JobAnswer × JobTable
  | .ok t' => (.ok answer, t')
  | .error e => (.error e, t)

/-- The answer and the table of a change that says whether there was a job in progress. -/
def flagged (t : JobTable) :
    Except StoreError (Bool × JobTable) → Except StoreError JobAnswer × JobTable
  | .ok (value, t') => (.ok (.flag value), t')
  | .error e => (.error e, t)

/-- Run a statement. -/
def run (t : JobTable) : JobStatement → Except StoreError JobAnswer × JobTable
  | insert job => changed t .done (t.insert job)
  | get id => ((t.get id).map .job, t)
  | list => (t.list.map .jobs, t)
  | cancelRequested id => ((t.cancelRequested id).map .flag, t)
  | raiseCancel id => changed t .done (t.raiseCancel id)
  | recordProgress id published => flagged t (t.recordProgress id published)
  | complete id status published => flagged t (t.complete id status published)

/-- What a statement makes of the row that it names while the job is in progress. -/
def change : JobStatement → StoredJob → StoredJob
  | raiseCancel _, r => { r with cancelRequested := .integer 1 }
  | recordProgress _ published, r => { r with published := StoredJob.grown r.published published }
  | complete _ status published, r =>
    if status.isTerminal then
      { r with status := status.name, published := StoredJob.grown r.published published }
    else r
  | _, r => r

/-- What a statement makes of a row. -/
def effect (s : JobStatement) (r : StoredJob) : StoredJob :=
  if s.id? = some r.id ∧ r.running then s.change r else r

/-- The row that a statement adds to a table, if it adds one. -/
def added (t : JobTable) : JobStatement → List StoredJob
  | insert job => if (t.find? job.id).isSome then [] else [.ofJob job]
  | _ => []

end JobStatement

/-- The table after some statements. -/
def JobTable.after (t : JobTable) (statements : List JobStatement) : JobTable :=
  statements.foldl (fun t s => (s.run t).2) t

@[simp] theorem JobTable.after_nil (t : JobTable) : t.after [] = t := rfl

@[simp] theorem JobTable.after_cons (t : JobTable) (s : JobStatement) (rest : List JobStatement) :
    t.after (s :: rest) = (s.run t).2.after rest := rfl

/-- The statements of a call before its last. -/
def JobCall.leading : JobCall → List JobStatement
  | requestCancel id => [.raiseCancel id]
  | _ => []

/-- The statement whose answer is the answer of a call. -/
def JobCall.answering : JobCall → JobStatement
  | insert job => .insert job
  | get id => .get id
  | list => .list
  | cancelRequested id => .cancelRequested id
  | requestCancel id => .get id
  | recordProgress id published => .recordProgress id published
  | complete id status published => .complete id status published

/-- Statuses have different names. -/
theorem JobStatus.name_inj {a b : JobStatus} : a.name = b.name ↔ a = b := by
  cases a <;> cases b <;> decide

namespace StoredJob

/-- A stored count is the count, or the greatest that a column holds. -/
@[simp] theorem readCount_ofCount (n : Nat) :
    readCount (.ofCount n) = some (min n Sql.Value.maxInteger) := by
  simp only [readCount, Sql.Value.ofCount, Option.some.injEq]
  omega

/-- A count that fits is stored as it is. -/
theorem readCount_ofCount_of_lt {n : Nat} (h : n < Word.signedEnd) :
    readCount (.ofCount n) = some n := by
  rw [readCount_ofCount, Nat.min_eq_left]
  simp only [Sql.Value.maxInteger, Word.signedEnd] at h ⊢
  omega

/-- The greater of two stored counts is that of the greater count. -/
theorem grown_ofCount (a b : Nat) : grown (.ofCount a) b = .ofCount (max a b) := by
  simp only [grown, Sql.Value.compare, Sql.Value.ofCount, Int.compare_eq_lt]
  split <;> exact congrArg Sql.Value.integer (by omega)

/-- The flag of a job is read as it was stored. -/
@[simp] theorem readFlag_ofJob (j : Job) :
    readFlag (ofJob j).cancelRequested = some j.cancelRequested := by
  cases hj : j.cancelRequested <;> simp [ofJob, hj, readFlag]

/-- A row is in progress if its job is. -/
theorem running_ofJob (j : Job) : (ofJob j).running = decide (j.status = .inProgress) := by
  simp only [running, ofJob, JobStatus.name_inj]

/-- A row that has ended. -/
def Ended (r : StoredJob) : Prop := ∃ status : JobStatus, status.isTerminal ∧ r.status = status.name

/-- What may become of a row. -/
structure Becomes (r r' : StoredJob) : Prop where
  /-- It keeps its id. -/
  id : r'.id = r.id
  /-- It keeps its kind. -/
  kind : r'.kind = r.kind
  /-- It keeps its resource. -/
  resource : r'.resource = r.resource
  /-- It keeps its topic. -/
  topic : r'.topic = r.topic
  /-- It keeps the type of its events. -/
  eventType : r'.eventType = r.eventType
  /-- It keeps the time of its submission. -/
  submitted : r'.submitted = r.submitted
  /-- Nothing changes once it has ended. -/
  ended : r.Ended → r' = r
  /-- It stays in progress or ends. -/
  status : r'.status = r.status ∨ r.running ∧ r'.Ended
  /-- Its count is never less. -/
  published : ∃ n n', readCount r.published = some n ∧ readCount r'.published = some n' ∧ n ≤ n'
  /-- Its cancel flag is never taken back. -/
  flag : ∃ f f', readFlag r.cancelRequested = some f ∧ readFlag r'.cancelRequested = some f' ∧
    (f = true → f' = true)

namespace Becomes

/-- A stored job may stay as it is. -/
theorem of_ofJob (j : Job) : (ofJob j).Becomes (ofJob j) where
  id := rfl
  kind := rfl
  resource := rfl
  topic := rfl
  eventType := rfl
  submitted := rfl
  ended := fun _ => rfl
  status := .inl rfl
  published := ⟨_, _, readCount_ofCount _, readCount_ofCount _, Nat.le_refl _⟩
  flag := ⟨_, _, rfl, rfl, fun hf => hf⟩

/-- What becomes of a row in two steps may become of it in one. -/
theorem trans {r r' r'' : StoredJob} (h : r.Becomes r') (h' : r'.Becomes r'') : r.Becomes r'' where
  id := h'.id.trans h.id
  kind := h'.kind.trans h.kind
  resource := h'.resource.trans h.resource
  topic := h'.topic.trans h.topic
  eventType := h'.eventType.trans h.eventType
  submitted := h'.submitted.trans h.submitted
  ended := by
    intro hended
    have heq := h.ended hended
    exact (h'.ended (heq ▸ hended)).trans heq
  status := by
    rcases h.status with heq | ⟨hrunning, hended⟩
    · rcases h'.status with heq' | ⟨hrunning', hended'⟩
      · exact .inl (heq'.trans heq)
      · exact .inr ⟨by simpa only [running, heq] using hrunning', hended'⟩
    · exact .inr ⟨hrunning, h'.ended hended ▸ hended⟩
  published := by
    obtain ⟨n, n', hn, hn', hle⟩ := h.published
    obtain ⟨m, m', hm, hm', hle'⟩ := h'.published
    obtain rfl : n' = m := Option.some.inj (hn'.symm.trans hm)
    exact ⟨n, m', hn, hm', Nat.le_trans hle hle'⟩
  flag := by
    obtain ⟨f, f', hf, hf', hkept⟩ := h.flag
    obtain ⟨e, e', he, he', hkept'⟩ := h'.flag
    obtain rfl : f' = e := Option.some.inj (hf'.symm.trans he)
    exact ⟨f, e', hf, he', hkept' ∘ hkept⟩

/-- A job in progress may get another end, a greater count and a raised flag. -/
theorem of_running {j : Job} (h : j.status = .inProgress) {status : JobStatus} {published : Nat}
    {flag : Bool} (hstatus : status = .inProgress ∨ status.isTerminal)
    (hpublished : j.published ≤ published) (hflag : j.cancelRequested = true → flag = true) :
    (ofJob j).Becomes (ofJob { j with status, published, cancelRequested := flag }) where
  id := rfl
  kind := rfl
  resource := rfl
  topic := rfl
  eventType := rfl
  submitted := rfl
  ended := by
    rintro ⟨other, hother, hname⟩
    obtain rfl : j.status = other := JobStatus.name_inj.mp hname
    rw [h] at hother
    cases hother
  status := by
    rcases hstatus with rfl | hterminal
    · exact .inl (congrArg JobStatus.name h.symm)
    · exact .inr ⟨by simp [running_ofJob, h], status, hterminal, rfl⟩
  published := by
    refine ⟨_, _, readCount_ofCount _, readCount_ofCount _, ?_⟩
    dsimp only
    omega
  flag := ⟨_, _, readFlag_ofJob _, readFlag_ofJob _, hflag⟩

end Becomes

end StoredJob

namespace JobStatement

variable {t : JobTable}

/-- A statement leaves a row alone that it would not change. -/
theorem effect_of_change_eq {s : JobStatement} {r : StoredJob} (h : s.change r = r) :
    s.effect r = r := by
  unfold effect
  split
  · exact h
  · rfl

/-- A statement keeps the id of a row. -/
@[simp] theorem effect_id (s : JobStatement) (r : StoredJob) : (s.effect r).id = r.id := by
  unfold effect
  split
  · cases s with
    | complete id status published => simp only [change]; split <;> rfl
    | _ => rfl
  · rfl

/-- A statement leaves the rows of other ids alone. -/
theorem effect_of_ne {s : JobStatement} {r : StoredJob} (h : s.id? ≠ some r.id) :
    s.effect r = r :=
  if_neg fun hs => h hs.1

/-- What a statement makes of a job. -/
def onJob (s : JobStatement) (j : Job) : Job :=
  if s.id? = some j.id ∧ j.status = .inProgress then
    match s with
    | raiseCancel _ => { j with cancelRequested := true }
    | recordProgress _ published => { j with published := max j.published published }
    | complete _ status published =>
      if status.isTerminal then { j with status, published := max j.published published } else j
    | _ => j
  else j

/-- A statement keeps the id of a job. -/
@[simp] theorem onJob_id (s : JobStatement) (j : Job) : (s.onJob j).id = j.id := by
  unfold onJob
  split
  · split
    · rfl
    · rfl
    · split <;> rfl
    · rfl
  · rfl

/-- A statement leaves the jobs of other ids alone. -/
theorem onJob_of_ne {s : JobStatement} {j : Job} (h : s.id? ≠ some j.id) : s.onJob j = j :=
  if_neg fun hs => h hs.1

/-- What a statement makes of the row of a job is the row of what it makes of the job. -/
theorem effect_ofJob (s : JobStatement) (j : Job) : s.effect (.ofJob j) = .ofJob (s.onJob j) := by
  unfold effect onJob
  by_cases hs : s.id? = some j.id ∧ j.status = .inProgress
  · have hrow : s.id? = some (StoredJob.ofJob j).id ∧ (StoredJob.ofJob j).running = true :=
      ⟨hs.1, by simpa [StoredJob.running_ofJob] using hs.2⟩
    rw [if_pos hs, if_pos hrow]
    cases s with
    | recordProgress id published => simp only [change, StoredJob.ofJob, StoredJob.grown_ofCount]
    | complete id status published =>
      simp only [change]
      split <;> simp only [StoredJob.ofJob, StoredJob.grown_ofCount]
    | _ => rfl
  · have hrow : ¬(s.id? = some (StoredJob.ofJob j).id ∧ (StoredJob.ofJob j).running = true) :=
      fun hrow => hs ⟨hrow.1, by simpa [StoredJob.running_ofJob] using hrow.2⟩
    rw [if_neg hs, if_neg hrow]

/-- A statement makes of a job what may become of it. -/
theorem becomes_onJob (s : JobStatement) (j : Job) :
    (StoredJob.ofJob j).Becomes (.ofJob (s.onJob j)) := by
  unfold onJob
  split
  · rename_i hs
    have hrunning := hs.2
    split
    · exact .of_running hrunning (.inl hrunning) (Nat.le_refl _) fun _ => rfl
    · exact .of_running hrunning (.inl hrunning) (Nat.le_max_left _ _) fun hf => hf
    · split
      · rename_i hterminal
        exact .of_running hrunning (.inr hterminal) (Nat.le_max_left _ _) fun hf => hf
      · exact .of_ofJob j
    · exact .of_ofJob j
  · exact .of_ofJob j

/-- A statement that changes no row and adds none leaves the table as it is. -/
theorem eq_of_change_eq (h : t.dropped = false) {s : JobStatement} (hchange : ∀ r, s.change r = r)
    (hadded : s.added t = []) : t = ⟨t.rows.map s.effect ++ s.added t, false⟩ := by
  have hrows : t.rows.map s.effect = t.rows :=
    (List.map_congr_left fun r _ => effect_of_change_eq (hchange r)).trans (List.map_id _)
  rw [hrows, hadded, List.append_nil, ← h]

/-- A change of the row of a job in progress is the effect of a statement that changes it so. -/
theorem updateRunning_eq (h : t.dropped = false) {s : JobStatement} {id : String}
    {changeRow : StoredJob → StoredJob} (hid : s.id? = some id)
    (hchange : ∀ r, s.change r = changeRow r) :
    t.updateRunning id changeRow =
      (t.rows.any fun r => r.id = id && r.running, ⟨t.rows.map s.effect, false⟩) := by
  have heffect : (fun r => if (r.id = id && r.running) = true then changeRow r else r) =
      s.effect := by
    ext r
    simp only [effect, hid, hchange, Bool.and_eq_true, decide_eq_true_eq, Option.some.injEq,
      @eq_comm _ id]
  simp only [JobTable.updateRunning, h, heffect]

/-- What a statement makes of a table that is there. -/
theorem run_table (h : t.dropped = false) (s : JobStatement) :
    (s.run t).2 = ⟨t.rows.map s.effect ++ s.added t, false⟩ := by
  have hnone {s : JobStatement} (hadded : s.added t = []) :
      (⟨t.rows.map s.effect, false⟩ : JobTable) = ⟨t.rows.map s.effect ++ s.added t, false⟩ := by
    rw [hadded, List.append_nil]
  cases s with
  | insert job =>
    have hrows : t.rows.map (insert job).effect = t.rows :=
      (List.map_congr_left fun r _ => effect_of_change_eq rfl).trans (List.map_id _)
    rw [hrows]
    cases hfound : (t.find? job.id).isSome with
    | true => simp [run, JobTable.insert, changed, added, hfound, ← h]
    | false => simp [run, JobTable.insert, changed, added, hfound, h]
  | get id => exact eq_of_change_eq h (fun _ => rfl) rfl
  | list => exact eq_of_change_eq h (fun _ => rfl) rfl
  | cancelRequested id => exact eq_of_change_eq h (fun _ => rfl) rfl
  | raiseCancel id =>
    have hupdate := updateRunning_eq (s := raiseCancel id) h rfl fun _ => rfl
    rw [run, JobTable.raiseCancel, h]
    exact (congrArg Prod.snd hupdate).trans (hnone rfl)
  | recordProgress id published =>
    have hupdate := updateRunning_eq (s := recordProgress id published) h rfl fun _ => rfl
    rw [run, JobTable.recordProgress, h]
    exact (congrArg Prod.snd hupdate).trans (hnone rfl)
  | complete id status published =>
    by_cases hterminal : status.isTerminal
    · have hupdate := updateRunning_eq (s := complete id status published) h rfl
        fun _ => if_pos hterminal
      rw [run, JobTable.complete, hterminal, h]
      exact (congrArg Prod.snd hupdate).trans (hnone rfl)
    · have hrun : (run t (complete id status published)).2 = t := by
        simp [run, JobTable.complete, hterminal, flagged]
      rw [hrun]
      exact eq_of_change_eq h (fun _ => if_neg hterminal) rfl

/-- No statement changes a table that is gone. -/
theorem run_of_dropped {t : JobTable} (h : t.dropped = true) (s : JobStatement) :
    (s.run t).2 = t := by
  cases s with
  | insert job => simp [run, JobTable.insert, changed, h]
  | get id => rfl
  | list => rfl
  | cancelRequested id => rfl
  | raiseCancel id => simp [run, JobTable.raiseCancel, changed, h]
  | recordProgress id published => simp [run, JobTable.recordProgress, flagged, h]
  | complete id status published =>
    cases hterminal : status.isTerminal <;> simp [run, JobTable.complete, flagged, h, hterminal]

end JobStatement

namespace StoredJob

/-- The row of a job holds that job, its count being cut to what a column holds. -/
theorem toJob_ofJob (j : Job) :
    (ofJob j).toJob = .ok { j with published := min j.published Sql.Value.maxInteger } := by
  have hkind : JobKind.read j.kind.name = .ok j.kind := by cases j.kind <;> rfl
  have hresource : Resource.read j.resource.name = .ok j.resource := by cases j.resource <;> rfl
  have hstatus : JobStatus.read j.status.name = .ok j.status := by cases j.status <;> rfl
  have hcount : readCount (ofJob j).published = some (min j.published Sql.Value.maxInteger) :=
    readCount_ofCount _
  simp only [toJob, hcount, readFlag_ofJob]
  simp [ofJob, hkind, hresource, hstatus, readName, bind, Except.bind, pure, Except.pure]

end StoredJob

/-- A job after some statements. -/
def Job.after (j : Job) (statements : List JobStatement) : Job :=
  statements.foldl (fun j s => s.onJob j) j

/-- Statements keep the id of a job. -/
@[simp] theorem Job.after_id (j : Job) (statements : List JobStatement) :
    (j.after statements).id = j.id := by
  induction statements generalizing j with
  | nil => rfl
  | cons s rest ih => exact (ih (s.onJob j)).trans (s.onJob_id j)

/-- Statements under other ids leave a job as it is. -/
theorem Job.after_of_others {j : Job} {statements : List JobStatement}
    (h : ∀ s ∈ statements, s.id? ≠ some j.id) : j.after statements = j := by
  induction statements with
  | nil => rfl
  | cons s rest ih =>
    have hs : s.onJob j = j := JobStatement.onJob_of_ne (h s (.head _))
    rw [after, List.foldl_cons, hs]
    exact ih fun s hs => h s (.tail _ hs)

namespace JobTable

/-- A table that is there holds a job under its id. -/
def Holds (t : JobTable) (j : Job) : Prop :=
  t.dropped = false ∧ t.find? j.id = some (.ofJob j)

/-- A table holds a job that was inserted. -/
theorem holds_of_insert {t t' : JobTable} {j : Job} (h : t.insert j = .ok t') : t'.Holds j := by
  unfold insert at h
  split at h
  · cases h
  · rename_i hfree
    simp only [Bool.or_eq_true, not_or, Bool.not_eq_true, Option.isSome_eq_false_iff,
      Option.isNone_iff_eq_none] at hfree
    cases h
    refine ⟨hfree.1, ?_⟩
    have hnew : t.rows.find? (fun r => decide (r.id = j.id)) = none := hfree.2
    unfold find?
    rw [List.find?_append, hnew]
    simp [StoredJob.ofJob]

/-- The row of an id behind a statement: what the statement makes of it, or what it adds. -/
theorem find?_run {t : JobTable} (h : t.dropped = false) (s : JobStatement) (id : String) :
    (s.run t).2.find? id =
      ((t.find? id).map s.effect).or ((s.added t).find? fun r => r.id = id) := by
  have hid : (fun r => decide (r.id = id)) ∘ s.effect = fun r => decide (r.id = id) := by
    ext r
    simp
  rw [JobStatement.run_table h]
  unfold find?
  rw [List.find?_append, List.find?_map, hid]

/-- A statement changes a job that a table holds. -/
theorem Holds.run {t : JobTable} {j : Job} (h : t.Holds j) (s : JobStatement) :
    (s.run t).2.Holds (s.onJob j) := by
  refine ⟨by rw [JobStatement.run_table h.1], ?_⟩
  rw [s.onJob_id, find?_run h.1, h.2]
  exact congrArg some (s.effect_ofJob j)

/-- So do several. -/
theorem Holds.after {t : JobTable} {j : Job} (h : t.Holds j) (statements : List JobStatement) :
    (t.after statements).Holds (j.after statements) := by
  induction statements generalizing t j with
  | nil => exact h
  | cons s rest ih => exact ih (h.run s)

/-- The flag of a job that a table holds can be read. -/
theorem Holds.cancelRequested {t : JobTable} {j : Job} (h : t.Holds j) :
    t.cancelRequested j.id = .ok j.cancelRequested := by
  rw [JobTable.cancelRequested, h.1, if_neg nofun, h.2]
  simp only [StoredJob.readFlag_ofJob]

/-- Two tables that are alike in the job of an id. -/
structure Alike (id : String) (t t' : JobTable) : Prop where
  /-- Either both tables are there or both are gone. -/
  dropped : t.dropped = t'.dropped
  /-- They hold the same row under the id. -/
  found : t.find? id = t'.find? id

section Alike

variable {t t' : JobTable} {id : String}

/-- A statement that does not name an id leaves a table that is alike in its job. -/
theorem alike_run_of_ne {s : JobStatement} (h : s.id? ≠ some id) : (s.run t).2.Alike id t := by
  cases hdropped : t.dropped with
  | true =>
    rw [JobStatement.run_of_dropped hdropped]
    exact ⟨rfl, rfl⟩
  | false =>
    refine ⟨by rw [JobStatement.run_table hdropped, hdropped], ?_⟩
    have hadded : (s.added t).find? (fun r => r.id = id) = none := by
      cases s with
      | insert job =>
        have hne : job.id ≠ id := fun heq => h (congrArg some heq)
        simp only [JobStatement.added]
        split <;> simp [StoredJob.ofJob, hne]
      | _ => rfl
    rw [find?_run hdropped, hadded, Option.or_none]
    cases hfound : t.find? id with
    | none => rfl
    | some r =>
      have hr : r.id = id := by simpa using List.find?_some hfound
      exact congrArg some (JobStatement.effect_of_ne (hr ▸ h))

/-- A statement that names an id keeps tables alike in its job. -/
theorem Alike.run (h : t.Alike id t') {s : JobStatement} (hs : s.id? = some id) :
    (s.run t).2.Alike id (s.run t').2 := by
  cases hdropped : t.dropped with
  | true =>
    rw [JobStatement.run_of_dropped hdropped, JobStatement.run_of_dropped (h.dropped ▸ hdropped)]
    exact h
  | false =>
    have hdropped' : t'.dropped = false := h.dropped ▸ hdropped
    have hadded : s.added t = s.added t' := by
      cases s with
      | insert job =>
        obtain rfl : job.id = id := Option.some.inj hs
        simp only [JobStatement.added, h.found]
      | _ => rfl
    refine ⟨?_, ?_⟩
    · rw [JobStatement.run_table hdropped, JobStatement.run_table hdropped']
    · rw [find?_run hdropped, find?_run hdropped', h.found, hadded]

/-- So do several. -/
theorem Alike.after (h : t.Alike id t') {statements : List JobStatement}
    (hs : ∀ s ∈ statements, s.id? = some id) :
    (t.after statements).Alike id (t'.after statements) := by
  induction statements generalizing t t' with
  | nil => exact h
  | cons s rest ih => exact ih (h.run (hs s (.head _))) fun s hs' => hs s (.tail _ hs')

/-- Statements that do not name an id leave a table that is alike in its job. -/
theorem alike_after_of_others {statements : List JobStatement}
    (hs : ∀ s ∈ statements, s.id? ≠ some id) : (t.after statements).Alike id t := by
  induction statements generalizing t with
  | nil => exact ⟨rfl, rfl⟩
  | cons s rest ih =>
    have hrest := ih (t := (s.run t).2) fun s hs' => hs s (.tail _ hs')
    have hfirst : (s.run t).2.Alike id t := alike_run_of_ne (hs s (.head _))
    exact ⟨hrest.dropped.trans hfirst.dropped, hrest.found.trans hfirst.found⟩

end Alike

/-- A table that is there and holds jobs, each under an id of its own. -/
structure Good (t : JobTable) : Prop where
  /-- The table is there. -/
  kept : t.dropped = false
  /-- No two rows have the same id. -/
  ids : (t.rows.map StoredJob.id).Nodup
  /-- Every row holds a job. -/
  jobs : ∀ r ∈ t.rows, ∃ j, r = .ofJob j

theorem good_empty : empty.Good := ⟨rfl, List.nodup_nil, nofun⟩

variable {t : JobTable}

/-- A statement leaves a good table. -/
theorem Good.run (h : t.Good) (s : JobStatement) : (s.run t).2.Good := by
  rw [JobStatement.run_table h.kept]
  have hids : (t.rows.map s.effect).map StoredJob.id = t.rows.map StoredJob.id := by
    simp [Function.comp_def]
  refine ⟨rfl, ?_, fun r hr => ?_⟩
  · rw [List.map_append, hids]
    cases s with
    | insert job =>
      simp only [JobStatement.added]
      split
      · simpa using h.ids
      · rename_i hfound
        have hnew : ∀ r ∈ t.rows, r.id ≠ job.id := by simpa [find?] using hfound
        refine List.nodup_append.mpr ⟨h.ids, List.nodup_singleton _, ?_⟩
        rintro _ hid _ hadded
        obtain ⟨r, hr, rfl⟩ := List.mem_map.mp hid
        obtain rfl := List.mem_singleton.mp hadded
        exact hnew r hr
    | _ => simpa [JobStatement.added] using h.ids
  · rcases List.mem_append.mp hr with hold | hadded
    · obtain ⟨r₀, hr₀, rfl⟩ := List.mem_map.mp hold
      obtain ⟨j, rfl⟩ := h.jobs r₀ hr₀
      exact ⟨_, s.effect_ofJob j⟩
    · cases s with
      | insert job =>
        simp only [JobStatement.added] at hadded
        split at hadded
        · cases hadded
        · exact ⟨job, List.mem_singleton.mp hadded⟩
      | _ => cases hadded

/-- So do several. -/
theorem Good.after (h : t.Good) (statements : List JobStatement) : (t.after statements).Good := by
  induction statements generalizing t with
  | nil => exact h
  | cons s rest ih => exact ih (h.run s)

/-- A row stays in the table over a statement, as what it may become. -/
theorem Good.becomes_run (h : t.Good) (s : JobStatement) {r : StoredJob} (hr : r ∈ t.rows) :
    s.effect r ∈ (s.run t).2.rows ∧ r.Becomes (s.effect r) := by
  rw [JobStatement.run_table h.kept]
  refine ⟨List.mem_append_left _ (List.mem_map_of_mem hr), ?_⟩
  obtain ⟨j, rfl⟩ := h.jobs r hr
  rw [s.effect_ofJob j]
  exact s.becomes_onJob j

/-- It stays in the table over all statements to come. -/
theorem Good.becomes_after (h : t.Good) (statements : List JobStatement) {r : StoredJob}
    (hr : r ∈ t.rows) : ∃ r' ∈ (t.after statements).rows, r.Becomes r' := by
  induction statements generalizing t r with
  | nil =>
    obtain ⟨j, rfl⟩ := h.jobs r hr
    exact ⟨_, hr, .of_ofJob j⟩
  | cons s rest ih =>
    obtain ⟨hmem, hbecomes⟩ := h.becomes_run s hr
    obtain ⟨r', hr', hbecomes'⟩ := ih (h.run s) hmem
    exact ⟨r', hr', hbecomes.trans hbecomes'⟩

/-- Every read of a good table is answered. -/
theorem Good.get_ok (h : t.Good) (id : String) : ∃ found, t.get id = .ok found := by
  rw [get, h.kept, if_neg nofun]
  rcases hfound : t.find? id with _ | r
  · exact ⟨none, rfl⟩
  · obtain ⟨j, rfl⟩ := h.jobs r (List.mem_of_find?_eq_some hfound)
    exact ⟨_, congrArg (Except.map some) (StoredJob.toJob_ofJob j)⟩

theorem Good.list_ok (h : t.Good) : ∃ jobs, t.list = .ok jobs := by
  rw [list, h.kept, if_neg nofun]
  have hjobs : ∀ r ∈ t.rows.mergeSort StoredJob.listedBefore, ∃ j, r = .ofJob j :=
    fun r hr => h.jobs r (List.mem_mergeSort.mp hr)
  generalize t.rows.mergeSort StoredJob.listedBefore = rows at hjobs ⊢
  induction rows with
  | nil => exact ⟨[], rfl⟩
  | cons r rest ih =>
    obtain ⟨j, rfl⟩ := hjobs r (.head _)
    obtain ⟨jobs, hrest⟩ := ih fun r hr => hjobs r (.tail _ hr)
    rw [List.mapM_cons, StoredJob.toJob_ofJob, hrest]
    exact ⟨_, rfl⟩

theorem Good.cancelRequested_ok (h : t.Good) (id : String) :
    ∃ flag, t.cancelRequested id = .ok flag := by
  rw [cancelRequested, h.kept, if_neg nofun]
  rcases hfound : t.find? id with _ | r
  · exact ⟨false, rfl⟩
  · obtain ⟨j, rfl⟩ := h.jobs r (List.mem_of_find?_eq_some hfound)
    exact ⟨_, rfl⟩

/-- A statement on a good table fails only if it inserts an id that is taken or stores an end that is
none, and then the table is left as it is. -/
theorem Good.run_error (h : t.Good) (s : JobStatement) :
    (∀ e, (s.run t).1 = .error e → (s.run t).2 = t) ∧
      ((∃ e, (s.run t).1 = .error e) ↔
        (∃ job, s = .insert job ∧ ∃ r ∈ t.rows, r.id = job.id) ∨
          ∃ id status published, s = .complete id status published ∧ ¬status.isTerminal) := by
  cases s with
  | insert job =>
    have hfound : (t.find? job.id).isSome ↔ ∃ r ∈ t.rows, r.id = job.id := by
      simp [find?]
    simp only [JobStatement.run, insert, h.kept, Bool.false_or]
    by_cases htaken : (t.find? job.id).isSome
    · simp [htaken, JobStatement.changed, hfound.mp htaken]
    · simp [htaken, JobStatement.changed, ← hfound]
  | get id =>
    obtain ⟨found, hget⟩ := h.get_ok id
    simp [JobStatement.run, hget, Except.map]
  | list =>
    obtain ⟨jobs, hlist⟩ := h.list_ok
    simp [JobStatement.run, hlist, Except.map]
  | cancelRequested id =>
    obtain ⟨flag, hflag⟩ := h.cancelRequested_ok id
    simp [JobStatement.run, hflag, Except.map]
  | raiseCancel id => simp [JobStatement.run, raiseCancel, h.kept, JobStatement.changed]
  | recordProgress id published =>
    simp [JobStatement.run, recordProgress, h.kept, JobStatement.flagged]
  | complete id status published =>
    by_cases hterminal : status.isTerminal
    · simp [JobStatement.run, complete, h.kept, hterminal, JobStatement.flagged]
    · simp [JobStatement.run, complete, hterminal, JobStatement.flagged]

/-- The two writes of a pass say whether they found the job in progress. -/
theorem Good.run_flag (h : t.Good) {s : JobStatement} {id : String} {published : Nat}
    (hs : s = .recordProgress id published ∨
      ∃ status : JobStatus, status.isTerminal ∧ s = .complete id status published) :
    ∃ value, (s.run t).1 = .ok (.flag value) ∧
      (value = true ↔ ∃ r ∈ t.rows, r.id = id ∧ r.running) := by
  refine ⟨t.rows.any fun r => r.id = id && r.running, ?_, by simp⟩
  rcases hs with rfl | ⟨status, hterminal, rfl⟩
  · simp [JobStatement.run, recordProgress, h.kept, JobStatement.flagged, updateRunning]
  · simp [JobStatement.run, complete, h.kept, hterminal, JobStatement.flagged, updateRunning]

/-- Rows of other ids are left as they are. -/
theorem Good.run_others (h : t.Good) {s : JobStatement} {id : String} (hid : s.id? = some id) :
    (s.run t).2.rows.filter (·.id ≠ id) = t.rows.filter (·.id ≠ id) := by
  rw [JobStatement.run_table h.kept, List.filter_append, List.filter_map]
  have hadded : (s.added t).filter (·.id ≠ id) = [] := by
    cases s with
    | insert job =>
      obtain rfl : job.id = id := Option.some.inj hid
      simp only [JobStatement.added]
      split <;> simp [StoredJob.ofJob]
    | _ => rfl
  have hothers : (t.rows.filter (·.id ≠ id)).map s.effect = t.rows.filter (·.id ≠ id) := by
    refine (List.map_congr_left fun r hr => ?_).trans (List.map_id _)
    have hne : r.id ≠ id := by simpa using (List.mem_filter.mp hr).2
    exact JobStatement.effect_of_ne (by simpa [hid] using hne.symm)
  rw [hadded, List.append_nil]
  simpa [Function.comp_def] using hothers

/-- Two rows of the same id are the same row. -/
theorem Good.eq_of_id_eq (h : t.Good) {r r' : StoredJob} (hr : r ∈ t.rows) (hr' : r' ∈ t.rows)
    (hid : r.id = r'.id) : r = r' :=
  List.inj_on_of_nodup_map h.ids hr hr' hid

/-- The status of a row is changed by the storing of an end under its id only. -/
theorem Good.run_status (h : t.Good) {s : JobStatement} {r r' : StoredJob} (hr : r ∈ t.rows)
    (hr' : r' ∈ (s.run t).2.rows) (hid : r'.id = r.id) (hstatus : r'.status ≠ r.status) :
    ∃ status published, s = .complete r.id status published ∧ status.isTerminal ∧
      r'.status = status.name := by
  obtain rfl : r' = s.effect r :=
    (h.run s).eq_of_id_eq hr' (h.becomes_run s hr).1 (hid.trans (s.effect_id r).symm)
  unfold JobStatement.effect at hstatus ⊢
  split at hstatus
  · rename_i hs
    rw [if_pos hs]
    cases s with
    | complete id status published =>
      obtain rfl : id = r.id := Option.some.inj hs.1
      simp only [JobStatement.change] at hstatus ⊢
      split at hstatus
      · rename_i hterminal
        rw [if_pos hterminal]
        exact ⟨status, published, rfl, hterminal, rfl⟩
      · exact absurd rfl hstatus
    | _ => exact absurd rfl hstatus
  · exact absurd rfl hstatus

/-- A call is its statements, whatever lookups its caller has prepared. -/
theorem Good.call_eq (h : t.Good) (prepared : PreparedLookups) (call : JobCall) :
    ((JobDesk.mk t prepared).call call).1 = (call.answering.run (t.after call.leading)).1 ∧
      ((JobDesk.mk t prepared).call call).2.table =
        (call.answering.run (t.after call.leading)).2 := by
  cases call with
  | insert job =>
    simp only [JobDesk.call, JobCall.answering, JobCall.leading, after_nil,
      JobStatement.run]
    cases t.insert job <;> exact ⟨rfl, rfl⟩
  | get id =>
    obtain ⟨found, hget⟩ := h.get_ok id
    simp [JobDesk.call, JobCall.answering, JobCall.leading, JobStatement.run,
      PreparedLookups.get, hget, PreparedLookups.whenRun]
  | list => exact ⟨rfl, rfl⟩
  | cancelRequested id =>
    obtain ⟨flag, hflag⟩ := h.cancelRequested_ok id
    simp [JobDesk.call, JobCall.answering, JobCall.leading, JobStatement.run,
      PreparedLookups.cancelRequested, hflag, PreparedLookups.whenRun]
  | requestCancel id =>
    simp [JobDesk.call, JobCall.answering, JobCall.leading, JobStatement.run,
      PreparedLookups.requestCancel, requestCancel, raiseCancel, h.kept, JobStatement.changed]
  | recordProgress id published =>
    simp only [JobDesk.call, JobCall.answering, JobCall.leading, after_nil,
      JobStatement.run, JobDesk.changed]
    cases t.recordProgress id published <;> exact ⟨rfl, rfl⟩
  | complete id status published =>
    simp only [JobDesk.call, JobCall.answering, JobCall.leading, after_nil,
      JobStatement.run, JobDesk.changed]
    cases t.complete id status published <;> exact ⟨rfl, rfl⟩

/-- Whatever statements of whatever callers were run: each stored job has one row, which stays and
moves forward only; its status changes by the storing of an end only; a statement leaves the rows of
other ids alone, and the whole table if it fails, which it does for a taken id and for an end that is
none; the writes of a pass say whether the job was in progress; and every call is made up of such
statements. -/
theorem stored_jobs_move_forward (before : List JobStatement) :
    let t := empty.after before
    (t.rows.map StoredJob.id).Nodup ∧
    (∀ later, ∀ r ∈ t.rows, ∃ r' ∈ (t.after later).rows, r.Becomes r') ∧
    (∀ s : JobStatement,
      (∀ r ∈ t.rows, ∀ r' ∈ (s.run t).2.rows, r'.id = r.id → r'.status ≠ r.status →
        ∃ status published, s = .complete r.id status published ∧ status.isTerminal ∧
          r'.status = status.name) ∧
      (∀ id, s.id? = some id →
        (s.run t).2.rows.filter (·.id ≠ id) = t.rows.filter (·.id ≠ id)) ∧
      (∀ e, (s.run t).1 = .error e → (s.run t).2 = t) ∧
      ((∃ e, (s.run t).1 = .error e) ↔
        (∃ job, s = .insert job ∧ ∃ r ∈ t.rows, r.id = job.id) ∨
          ∃ id status published, s = .complete id status published ∧ ¬status.isTerminal) ∧
      (∀ id published, (s = .recordProgress id published ∨
          ∃ status : JobStatus, status.isTerminal ∧ s = .complete id status published) →
        ∃ value, (s.run t).1 = .ok (.flag value) ∧
          (value = true ↔ ∃ r ∈ t.rows, r.id = id ∧ r.running))) ∧
    (∀ prepared call,
      ((JobDesk.mk t prepared).call call).1 = (call.answering.run (t.after call.leading)).1 ∧
        ((JobDesk.mk t prepared).call call).2.table =
          (call.answering.run (t.after call.leading)).2) := by
  intro t
  have h : t.Good := good_empty.after before
  refine ⟨h.ids, fun later r hr => h.becomes_after later hr, fun s => ?_, h.call_eq⟩
  obtain ⟨hsame, hfails⟩ := h.run_error s
  refine ⟨?_, fun id => h.run_others, hsame, hfails, fun id published => h.run_flag⟩
  intro r hr r' hr' hid hstatus
  exact h.run_status hr hr' hid hstatus

end JobTable

end InventoryFeed

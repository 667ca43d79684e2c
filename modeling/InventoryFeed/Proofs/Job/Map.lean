import InventoryFeed.Job.Map
import InventoryFeed.Proofs.Job.Table
import InventoryFeed.Proofs.Traversal
import Mathlib.Data.String.Basic
import Mathlib.Order.Compare

/-!
# The table of jobs stands for a map

After any calls the rows of the table are the jobs of a finite map, column for column, and each call is
answered from that map. The job of an id is the one that was inserted first under it, with the updates
that found it in progress.
-/

namespace InventoryFeed

/-! ## Counts as they are stored -/

@[simp] theorem cappedCount_cappedCount (n : Nat) : cappedCount (cappedCount n) = cappedCount n := by
  simp only [cappedCount]
  omega

theorem ofCount_cappedCount (n : Nat) : Sql.Value.ofCount (cappedCount n) = .ofCount n := by
  simp only [Sql.Value.ofCount, cappedCount, Sql.Value.integer.injEq]
  omega

/-- A count that is capped before it grows another is stored like one that is not. -/
theorem ofCount_max (m n : Nat) : Sql.Value.ofCount (max m (cappedCount n)) = .ofCount (max m n) := by
  simp only [Sql.Value.ofCount, cappedCount, Sql.Value.integer.injEq]
  omega

theorem cappedCount_max {m : Nat} (h : cappedCount m = m) (n : Nat) :
    cappedCount (max m (cappedCount n)) = max m (cappedCount n) := by
  simp only [cappedCount] at h ⊢
  omega

/-- A job is stored like the job with its count capped. -/
theorem StoredJob.ofJob_capped (j : Job) : StoredJob.ofJob j.capped = .ofJob j :=
  congrArg (fun published => { StoredJob.ofJob j with published }) (ofCount_cappedCount j.published)

/-! ## The order of a list -/

namespace StoredJob

theorem listedBefore_iff {a b : StoredJob} : listedBefore a b = true ↔
    b.submitted < a.submitted ∨ a.submitted = b.submitted ∧ a.id ≤ b.id := by
  unfold listedBefore
  rcases lt_trichotomy a.submitted b.submitted with hlt | heq | hgt
  · simp [compare_lt_iff_lt.mpr hlt, hlt.not_gt, hlt.ne]
  · have hid : ¬compare a.id b.id = .gt ↔ a.id ≤ b.id := by
      rw [compare_gt_iff_gt, not_lt]
    simp [heq, hid]
  · simp [compare_gt_iff_gt.mpr hgt, hgt]

theorem listedBefore_trans (a b c : StoredJob) (hab : listedBefore a b = true)
    (hbc : listedBefore b c = true) : listedBefore a c = true := by
  rw [listedBefore_iff] at hab hbc ⊢
  rcases hab with hab | ⟨hab, habid⟩
  · rcases hbc with hbc | ⟨hbc, -⟩
    · exact .inl (hbc.trans hab)
    · exact .inl (hbc ▸ hab)
  · rw [hab]
    exact hbc.imp_right fun ⟨hbc, hbcid⟩ => ⟨hbc, habid.trans hbcid⟩

theorem listedBefore_total (a b : StoredJob) : (listedBefore a b || listedBefore b a) = true := by
  rw [Bool.or_eq_true, listedBefore_iff, listedBefore_iff]
  rcases lt_trichotomy a.submitted b.submitted with hlt | heq | hgt
  · exact .inr (.inl hlt)
  · exact (le_total a.id b.id).imp (fun hid => .inr ⟨heq, hid⟩) fun hid => .inr ⟨heq.symm, hid⟩
  · exact .inl (.inl hgt)

end StoredJob

/-! ## The map over one call -/

namespace JobMap

theorem lookup_updateRunning (m : JobMap) (named id : String) (change : Job → Job) :
    (m.updateRunning named change).lookup id = (m.lookup id).map fun j =>
      if named = id ∧ j.status = .inProgress then change j else j := by
  unfold updateRunning
  by_cases hid : named = id
  · subst hid
    cases hfound : m.lookup named with
    | none => simp [hfound]
    | some j =>
      dsimp only
      split
      · rename_i hrunning
        simp [hrunning]
      · rename_i hended
        simp [hfound, hended]
  · simp only [hid, false_and, if_false, Option.map_id_fun', id_eq]
    split
    · split
      · exact Finmap.lookup_insert_of_ne _ (Ne.symm hid)
      · rfl
    · rfl

/-- An insertion puts a job under an id that is free. -/
theorem lookup_insert_call (m : JobMap) (job : Job) (id : String) :
    (m.call (.insert job)).lookup id =
      (m.lookup id).or (if job.id = id then some job.capped else none) := by
  simp only [call]
  split
  · rename_i htaken
    split
    · rename_i hid
      obtain ⟨j, hj⟩ := Option.isSome_iff_exists.mp (Finmap.lookup_isSome.mpr (hid ▸ htaken))
      rw [hj, Option.some_or]
    · rw [Option.or_none]
  · rename_i hfree
    split
    · rename_i hid
      subst hid
      rw [Finmap.lookup_insert, Finmap.lookup_eq_none.mpr hfree, Option.none_or]
    · rename_i hid
      rw [Finmap.lookup_insert_of_ne _ (Ne.symm hid), Option.or_none]

end JobMap

namespace JobCall

/-- The statement by which a call changes the table, if it does. -/
def acting : JobCall → JobStatement
  | insert job => .insert job
  | get id => .get id
  | list => .list
  | cancelRequested id => .cancelRequested id
  | requestCancel id => .raiseCancel id
  | recordProgress id published => .recordProgress id published
  | complete id status published => .complete id status published

end JobCall

namespace JobTable

variable {t : JobTable} {m : JobMap}

/-- The table behind a call is that behind its one statement that changes rows. -/
theorem Good.table_call (h : t.Good) (prepared : PreparedLookups) (c : JobCall) :
    ((JobDesk.mk t prepared).call c).2.table = (c.acting.run t).2 := by
  rw [(h.call_eq prepared c).2]
  cases c <;> rfl

theorem Good.find?_eq_some (h : t.Good) {id : String} {r : StoredJob} :
    t.find? id = some r ↔ r ∈ t.rows ∧ r.id = id := by
  constructor
  · intro hfound
    exact ⟨List.mem_of_find?_eq_some hfound, by simpa using List.find?_some hfound⟩
  · rintro ⟨hr, rfl⟩
    cases hfound : t.find? r.id with
    | none =>
      have hne : r.id ≠ r.id := by simpa using List.find?_eq_none.mp hfound r hr
      exact absurd rfl hne
    | some r' =>
      have hid : r'.id = r.id := by simpa using List.find?_some hfound
      rw [h.eq_of_id_eq (List.mem_of_find?_eq_some hfound) hr hid]

/-- A table stands for a map: its rows are the jobs of the map, each with a count that a column holds. -/
structure Stands (t : JobTable) (m : JobMap) : Prop where
  good : t.Good
  rows : ∀ id, t.find? id = (m.lookup id).map .ofJob
  ids : ∀ id j, m.lookup id = some j → j.id = id
  capped : ∀ id j, m.lookup id = some j → j.capped = j

theorem stands_empty : empty.Stands .empty where
  good := good_empty
  rows := fun id => by rw [JobMap.empty, Finmap.lookup_empty]; rfl
  ids := fun id j h => by simp [JobMap.empty] at h
  capped := fun id j h => by simp [JobMap.empty] at h

/-- A statement that changes one job in progress is a change of the map. -/
theorem Stands.updateRunning (h : t.Stands m) {s : JobStatement} {named : String}
    {change : Job → Job} (hs : s.id? = some named) (hadded : s.added t = [])
    (hrow : ∀ j, s.change (.ofJob j) = .ofJob (change j))
    (hid : ∀ j, (change j).id = j.id) (hcapped : ∀ j, j.capped = j → (change j).capped = change j) :
    (s.run t).2.Stands (m.updateRunning named change) := by
  have hchanged {id : String} {j : Job} (hj : (m.updateRunning named change).lookup id = some j) :
      ∃ old, m.lookup id = some old ∧ (j = old ∨ j = change old) := by
    rw [JobMap.lookup_updateRunning] at hj
    obtain ⟨old, hold, rfl⟩ := Option.map_eq_some_iff.mp hj
    refine ⟨old, hold, ?_⟩
    split
    · exact .inr rfl
    · exact .inl rfl
  refine ⟨h.good.run s, fun id => ?_, fun id j hj => ?_, fun id j hj => ?_⟩
  · rw [find?_run h.good.kept, h.rows, hadded, List.find?_nil, Option.or_none,
      JobMap.lookup_updateRunning]
    cases hfound : m.lookup id with
    | none => rfl
    | some j =>
      have hj : (StoredJob.ofJob j).id = id := h.ids id j hfound
      simp only [Option.map_some, JobStatement.effect, hs, hj, Option.some.injEq,
        StoredJob.running_ofJob, decide_eq_true_eq, hrow]
      split <;> rfl
  · obtain ⟨old, hold, rfl | rfl⟩ := hchanged hj
    · exact h.ids id _ hold
    · exact (hid old).trans (h.ids id old hold)
  · obtain ⟨old, hold, rfl | rfl⟩ := hchanged hj
    · exact h.capped id _ hold
    · exact hcapped old (h.capped id old hold)

/-- An insertion is one into the map. -/
theorem Stands.insert (h : t.Stands m) (job : Job) :
    ((JobStatement.insert job).run t).2.Stands (m.call (.insert job)) := by
  have hrows : (t.find? job.id).isSome = (m.lookup job.id).isSome := by
    rw [h.rows, Option.isSome_map]
  have hnew {id : String} {j : Job} (hj : (m.call (.insert job)).lookup id = some j) :
      m.lookup id = some j ∨ job.id = id ∧ job.capped = j := by
    rw [JobMap.lookup_insert_call, Option.or_eq_some_iff] at hj
    refine hj.imp_right fun ⟨_, hj⟩ => ?_
    split at hj
    · rename_i hid
      exact ⟨hid, Option.some.inj hj⟩
    · cases hj
  refine ⟨h.good.run _, fun id => ?_, fun id j hj => ?_, fun id j hj => ?_⟩
  · rw [find?_run h.good.kept, h.rows, JobMap.lookup_insert_call, Option.map_or, Option.map_map]
    have hold : (JobStatement.insert job).effect ∘ StoredJob.ofJob = StoredJob.ofJob :=
      funext fun j => JobStatement.effect_of_change_eq rfl
    rw [hold]
    -- What is added matters under the id of the job only, and only if that is free.
    cases hfound : m.lookup id with
    | some j => rfl
    | none =>
      simp only [Option.map_none, Option.none_or, JobStatement.added, hrows]
      by_cases hid : job.id = id
      · subst hid
        rw [hfound, if_pos rfl, Option.map_some, StoredJob.ofJob_capped]
        simp [StoredJob.ofJob]
      · rw [if_neg hid]
        split <;> simp [StoredJob.ofJob, hid]
  · rcases hnew hj with hold | ⟨rfl, rfl⟩
    · exact h.ids id j hold
    · rfl
  · rcases hnew hj with hold | ⟨rfl, rfl⟩
    · exact h.capped id j hold
    · simp [Job.capped]

/-- So is every call. -/
theorem Stands.call (h : t.Stands m) (c : JobCall) : (c.acting.run t).2.Stands (m.call c) := by
  cases c with
  | insert job => exact h.insert job
  | get id => exact h
  | list => exact h
  | cancelRequested id => exact h
  | requestCancel id =>
    refine h.updateRunning rfl rfl (fun _ => rfl) (fun _ => rfl) fun j hj => ?_
    rw [← hj]
    simp [Job.capped]
  | recordProgress id published =>
    refine h.updateRunning rfl rfl (fun j => ?_) (fun _ => rfl) fun j hj => ?_
    · simp only [JobCall.acting, JobStatement.change, StoredJob.ofJob, StoredJob.grown_ofCount, ofCount_max]
    · have hcount := congrArg Job.published hj
      exact congrArg (fun published => { j with published }) (cappedCount_max hcount published)
  | complete id status published =>
    by_cases hterminal : status.isTerminal = true
    · rw [JobMap.call, if_pos hterminal]
      refine h.updateRunning rfl rfl (fun j => ?_) (fun _ => rfl) fun j hj => ?_
      · simp only [JobCall.acting, JobStatement.change, hterminal, if_true, StoredJob.ofJob,
          StoredJob.grown_ofCount, ofCount_max]
      · have hcount := congrArg Job.published hj
        exact congrArg (fun published => { j with status, published }) (cappedCount_max hcount published)
    · rw [JobMap.call, if_neg hterminal]
      have hsame : ((JobStatement.complete id status published).run t).2 = t := by
        simp [JobStatement.run, complete, hterminal, JobStatement.flagged]
      rw [JobCall.acting, hsame]
      exact h

/-- The job of an id is the one in the map. -/
theorem Stands.get (h : t.Stands m) (id : String) : t.get id = .ok (m.lookup id) := by
  rw [JobTable.get, h.good.kept, if_neg Bool.false_ne_true, h.rows]
  cases hfound : m.lookup id with
  | none => rfl
  | some j =>
    rw [Option.map_some]
    dsimp only
    rw [StoredJob.toJob_ofJob]
    exact congrArg (fun j => Except.ok (some j)) (h.capped id j hfound)

theorem Stands.cancelRequested (h : t.Stands m) (id : String) :
    t.cancelRequested id = .ok ((m.lookup id).any (·.cancelRequested)) := by
  rw [JobTable.cancelRequested, h.good.kept, if_neg Bool.false_ne_true, h.rows]
  cases hfound : m.lookup id with
  | none => rfl
  | some j =>
    rw [Option.map_some]
    simp only [StoredJob.readFlag_ofJob, Option.any_some]

/-- A write of a pass finds the job in progress if the map does. -/
theorem Stands.flag (h : t.Stands m) {s : JobStatement} {id : String} {published : Nat}
    (hs : s = .recordProgress id published ∨
      ∃ status : JobStatus, status.isTerminal ∧ s = .complete id status published) :
    (s.run t).1 = .ok (.flag (m.isRunning id)) := by
  obtain ⟨value, hvalue, hrunning⟩ := h.good.run_flag hs
  rw [hvalue]
  refine congrArg (fun value => Except.ok (JobAnswer.flag value)) (Bool.eq_iff_iff.mpr ?_)
  rw [hrunning, JobMap.isRunning]
  have hfound (r : StoredJob) : r ∈ t.rows ∧ r.id = id ↔ ∃ j, m.lookup id = some j ∧ .ofJob j = r := by
    rw [← h.good.find?_eq_some, h.rows, Option.map_eq_some_iff]
  simp only [← and_assoc, hfound, Option.any_eq_true, decide_eq_true_eq]
  constructor
  · rintro ⟨_, ⟨j, hj, rfl⟩, hrow⟩
    exact ⟨j, hj, by simpa [StoredJob.running_ofJob] using hrow⟩
  · rintro ⟨j, hj, hstatus⟩
    exact ⟨_, ⟨j, hj, rfl⟩, by simp [StoredJob.running_ofJob, hstatus]⟩

/-- A list has the jobs of the map, each once and in order. -/
theorem Stands.list (h : t.Stands m) : ∃ jobs, t.list = .ok jobs ∧ (jobs.map (·.id)).Nodup ∧
    (∀ j, j ∈ jobs ↔ m.lookup j.id = some j) ∧ jobs.Pairwise Job.ListedBefore := by
  let rows := t.rows.mergeSort StoredJob.listedBefore
  let job (r : StoredJob) : Job := (m.lookup r.id).getD default
  have hmem (r : StoredJob) : r ∈ rows ↔ r ∈ t.rows := List.mem_mergeSort
  have hjob : ∀ r ∈ rows, m.lookup r.id = some (job r) ∧ .ofJob (job r) = r := by
    intro r hr
    have hfound := h.good.find?_eq_some.mpr ⟨(hmem r).mp hr, rfl⟩
    rw [h.rows] at hfound
    obtain ⟨j, hj, hrow⟩ := Option.map_eq_some_iff.mp hfound
    simp only [job, hj, Option.getD_some]
    exact ⟨trivial, hrow⟩
  have hread : t.list = .ok (rows.map job) := by
    rw [JobTable.list, h.good.kept, if_neg Bool.false_ne_true]
    refine mapM_eq_ok fun r hr => ?_
    obtain ⟨hj, hrow⟩ := hjob r hr
    have htoJob := StoredJob.toJob_ofJob (job r)
    rw [hrow] at htoJob
    exact htoJob.trans (congrArg Except.ok (h.capped _ _ hj))
  have hids : (rows.map job).map (·.id) = rows.map (·.id) := by
    rw [List.map_map]
    exact List.map_congr_left fun r hr => h.ids r.id _ (hjob r hr).1
  have hnodup : (rows.map (·.id)).Nodup :=
    ((List.mergeSort_perm t.rows _).map _).nodup_iff.mpr h.good.ids
  refine ⟨rows.map job, hread, hids ▸ hnodup, fun j => ?_, ?_⟩
  · rw [List.mem_map]
    constructor
    · rintro ⟨r, hr, rfl⟩
      have hj := (hjob r hr).1
      rwa [h.ids r.id _ hj]
    · intro hj
      have hfound : t.find? j.id = some (.ofJob j) := by rw [h.rows, hj, Option.map_some]
      refine ⟨.ofJob j, (hmem _).mpr (h.good.find?_eq_some.mp hfound).1, ?_⟩
      simp only [job]
      exact congrArg (Option.getD · default) hj
  · -- Rows of one date have different ids, so the order is strict.
    have hsorted : rows.Pairwise fun a b => StoredJob.listedBefore a b = true :=
      List.pairwise_mergeSort StoredJob.listedBefore_trans StoredJob.listedBefore_total t.rows
    have hdistinct : rows.Pairwise fun a b => a.id ≠ b.id := List.pairwise_map.mp hnodup
    rw [List.pairwise_map]
    refine (hsorted.and hdistinct).imp_of_mem fun {a b} ha hb h => ?_
    obtain ⟨hbefore, hne⟩ := h
    have hrows := StoredJob.listedBefore_iff.mp hbefore
    rw [← (hjob a ha).2, ← (hjob b hb).2] at hrows hne
    exact hrows.imp_right fun hrow => ⟨hrow.1, lt_of_le_of_ne hrow.2 hne⟩

/-- Every call is answered from the map. -/
theorem Stands.answers (h : t.Stands m) (prepared : PreparedLookups) (c : JobCall) :
    m.Answers c ((JobDesk.mk t prepared).call c).1 := by
  rw [(h.good.call_eq prepared c).1]
  cases c with
  | insert job =>
    have htaken : (t.find? job.id).isSome ↔ job.id ∈ m := by
      rw [h.rows, Option.isSome_map, Finmap.lookup_isSome]
    change (JobStatement.changed t .done (t.insert job)).1 = _
    rw [JobTable.insert, h.good.kept, Bool.false_or]
    by_cases hmem : job.id ∈ m
    · rw [if_pos (htaken.mpr hmem), if_pos hmem]
      rfl
    · rw [if_neg (mt htaken.mp hmem), if_neg hmem]
      rfl
  | get id => exact congrArg (Except.map JobAnswer.job) (h.get id)
  | list =>
    obtain ⟨jobs, hlist, hjobs⟩ := h.list
    exact ⟨jobs, congrArg (Except.map JobAnswer.jobs) hlist, hjobs⟩
  | cancelRequested id => exact congrArg (Except.map JobAnswer.flag) (h.cancelRequested id)
  | requestCancel id =>
    exact congrArg (Except.map JobAnswer.job) ((h.call (.requestCancel id)).get id)
  | recordProgress id published => exact h.flag (.inl rfl)
  | complete id status published =>
    by_cases hterminal : status.isTerminal = true
    · rw [JobMap.Answers, if_pos hterminal]
      exact h.flag (.inr ⟨status, hterminal, rfl⟩)
    · rw [JobMap.Answers, if_neg hterminal]
      simp [JobCall.answering, JobCall.leading, JobStatement.run, complete, hterminal, JobStatement.flagged]

/-- After any calls the table stands for the map after them. -/
theorem stands_calls (calls : List JobCall) :
    (JobDesk.empty.calls calls).table.Stands (JobMap.empty.calls calls) := by
  suffices hfrom : ∀ (d : JobDesk) (m : JobMap), d.table.Stands m →
      (d.calls calls).table.Stands (m.calls calls) from hfrom _ _ stands_empty
  induction calls with
  | nil => exact fun d m h => h
  | cons c rest ih =>
    intro d m h
    refine ih (d.call c).2 (m.call c) ?_
    have htable : (d.call c).2.table = (c.acting.run d.table).2 := h.good.table_call d.prepared c
    rw [htable]
    exact h.call c

end JobTable

/-! ## One job over the calls after its insertion -/

theorem JobCall.isTerminal_of_end {c : JobCall} {id : String} {status : JobStatus}
    (h : c.end? id = some status) : status.isTerminal = true := by
  cases c with
  | complete named stored published =>
    simp only [JobCall.end?, Option.ite_none_right_eq_some, Option.some.injEq] at h
    exact h.2 ▸ h.1.2
  | _ => cases h

namespace Job

theorem through_nil (j : Job) : j.through [] = j.capped := by
  simp [through, capped]

theorem capped_through (j : Job) (found : List JobCall) : (j.through found).capped = j.through found := by
  have hfold : ∀ (counts : List Nat) (m : Nat), cappedCount m = m →
      cappedCount ((counts.map cappedCount).foldl max m) = (counts.map cappedCount).foldl max m := by
    intro counts
    induction counts with
    | nil => exact fun m hm => hm
    | cons n rest ih => exact fun m hm => ih _ (cappedCount_max hm n)
  exact congrArg (fun published => { j.through found with published })
    (hfold _ _ (cappedCount_cappedCount _))

/-- The count of a job is capped when it is stored, whether it was before or not. -/
theorem through_capped (j : Job) (found : List JobCall) : j.capped.through found = j.through found := by
  unfold through
  dsimp only [capped]
  rw [cappedCount_cappedCount]

/-- A call that does not end a job goes before the others. -/
theorem through_cons {j : Job} {c : JobCall} (hend : c.end? j.id = none) (rest : List JobCall) :
    j.through (c :: rest) = (j.through [c]).through rest := by
  have hcount : cappedCount (j.through [c]).published = (j.through [c]).published :=
    congrArg Job.published (j.capped_through [c])
  unfold through at hcount ⊢
  dsimp only at hcount ⊢
  rw [hcount]
  cases hwritten : c.count? j.id <;>
    simp [hend, hwritten, Bool.or_assoc]

/-- A job that has ended stays as it is. -/
theorem since_of_ended {j : Job} (h : j.status ≠ .inProgress) (later : List JobCall) :
    j.since later = j.capped := by
  rw [since, if_neg h, through_nil]

theorem since_singleton {j : Job} (h : j.status = .inProgress) (c : JobCall) :
    j.since [c] = j.through [c] := by
  rw [since, if_pos h, JobCall.whileRunning, JobCall.whileRunning, ite_self]

theorem since_nil (j : Job) : j.since [] = j.capped := by
  rw [since, JobCall.whileRunning, ite_self, through_nil]

theorem since_capped (j : Job) (later : List JobCall) : j.capped.since later = j.since later :=
  j.through_capped _

/-- The first call and then the others. -/
theorem since_cons (j : Job) (c : JobCall) (rest : List JobCall) :
    j.since (c :: rest) = (j.since [c]).since rest := by
  by_cases hrunning : j.status = .inProgress
  · rw [since_singleton hrunning, since, if_pos hrunning, JobCall.whileRunning]
    cases hend : c.end? j.id with
    | some status =>
      have hstatus : (j.through [c]).status = status := by simp [through, hend]
      have hended : (j.through [c]).status ≠ .inProgress := by
        rw [hstatus]
        rintro rfl
        cases JobCall.isTerminal_of_end hend
      rw [since_of_ended hended, capped_through]
      rfl
    | none =>
      have hstatus : (j.through [c]).status = .inProgress := by simp [through, hend, hrunning]
      rw [since, if_pos hstatus, ← through_cons hend]
      rfl
  · rw [since_of_ended hrunning, since_of_ended hrunning, since_capped, since_of_ended hrunning]

/-- A call that changes the job of an id changes a job in progress only. -/
theorem since_updateRunning {j : Job} (hcapped : j.capped = j) {c : JobCall} {named : String}
    {change : Job → Job} (h : j.through [c] = if named = j.id then change j else j) :
    (some j).map (fun j' => if named = j.id ∧ j'.status = .inProgress then change j' else j') =
      some (j.since [c]) := by
  rw [Option.map_some]
  by_cases hrunning : j.status = .inProgress
  · simp only [since_singleton hrunning, h, hrunning, and_true]
  · simp only [since_of_ended hrunning, hcapped, hrunning, and_false, if_false]

/-- A call that neither ends a job nor writes a count nor asks for a cancel leaves it as it is. -/
theorem since_of_none {j : Job} (hcapped : j.capped = j) {c : JobCall} (hend : c.end? j.id = none)
    (hcount : c.count? j.id = none) (hcancel : c.cancels j.id = false) : j.since [c] = j := by
  have hthrough : j.through [c] = j.capped := by simp [through, hend, hcount, hcancel, capped]
  by_cases hrunning : j.status = .inProgress
  · rw [since_singleton hrunning, hthrough, hcapped]
  · rw [since_of_ended hrunning, hcapped]

end Job

namespace JobMap

/-- A job under its id becomes what one call makes of it. -/
theorem lookup_call_of_some {m : JobMap} {j : Job} (h : m.lookup j.id = some j)
    (hcapped : j.capped = j) (c : JobCall) : (m.call c).lookup j.id = some (j.since [c]) := by
  have hcount : cappedCount j.published = j.published := congrArg Job.published hcapped
  cases c with
  | insert job => rw [lookup_insert_call, h, Option.some_or, Job.since_of_none hcapped rfl rfl rfl]
  | get id => rw [call, h, Job.since_of_none hcapped rfl rfl rfl]
  | list => rw [call, h, Job.since_of_none hcapped rfl rfl rfl]
  | cancelRequested id => rw [call, h, Job.since_of_none hcapped rfl rfl rfl]
  | requestCancel id =>
    rw [call, lookup_updateRunning, h]
    refine Job.since_updateRunning hcapped ?_
    by_cases hid : id = j.id <;>
      simp [Job.through, JobCall.end?, JobCall.count?, JobCall.cancels, hcount, hid]
  | recordProgress id published =>
    rw [call, lookup_updateRunning, h]
    refine Job.since_updateRunning hcapped ?_
    by_cases hid : id = j.id <;>
      simp [Job.through, JobCall.end?, JobCall.count?, JobCall.cancels, hcount, hid]
  | complete id status published =>
    by_cases hterminal : status.isTerminal = true
    · rw [call, if_pos hterminal, lookup_updateRunning, h]
      refine Job.since_updateRunning hcapped ?_
      by_cases hid : id = j.id <;>
        simp [Job.through, JobCall.end?, JobCall.count?, JobCall.cancels, hcount, hid, hterminal]
    · have hnone : ¬(id = j.id ∧ status.isTerminal = true) := fun h => hterminal h.2
      have hend : (JobCall.complete id status published).end? j.id = none := if_neg hnone
      have hcount : (JobCall.complete id status published).count? j.id = none := if_neg hnone
      rw [call, if_neg hterminal, h, Job.since_of_none hcapped hend hcount rfl]

/-- It becomes what several calls make of it. -/
theorem lookup_calls_of_some {m : JobMap} {j : Job} (h : m.lookup j.id = some j)
    (hcapped : j.capped = j) (all : List JobCall) : (m.calls all).lookup j.id = some (j.since all) := by
  induction all generalizing m j with
  | nil => rw [Job.since_nil, hcapped, calls, List.foldl_nil, h]
  | cons c rest ih =>
    have hcall : (m.call c).lookup (j.since [c]).id = some (j.since [c]) :=
      lookup_call_of_some h hcapped c
    rw [Job.since_cons]
    exact ih hcall (j.capped_through _)

/-- No call but an insertion puts a job under an id. -/
theorem lookup_call_of_none {m : JobMap} {id : String} (h : m.lookup id = none) {c : JobCall}
    (hc : ∀ job, c = .insert job → job.id ≠ id) : (m.call c).lookup id = none := by
  cases c with
  | insert job => rw [lookup_insert_call, h, if_neg (hc job rfl), Option.none_or]
  | get named => exact h
  | list => exact h
  | cancelRequested named => exact h
  | requestCancel named => rw [call, lookup_updateRunning, h, Option.map_none]
  | recordProgress named published => rw [call, lookup_updateRunning, h, Option.map_none]
  | complete named status published =>
    rw [call]
    split
    · rw [lookup_updateRunning, h, Option.map_none]
    · exact h

theorem lookup_calls_of_none {m : JobMap} {id : String} (h : m.lookup id = none) {all : List JobCall}
    (hall : ∀ job, .insert job ∈ all → job.id ≠ id) : (m.calls all).lookup id = none := by
  induction all generalizing m with
  | nil => exact h
  | cons c rest ih =>
    refine ih (lookup_call_of_none h ?_) fun job hjob => hall job (.tail _ hjob)
    rintro job rfl
    exact hall job (.head _)

/-- The job of an id is the one that was inserted first under it, after the calls since then. -/
theorem lookup_calls_of_insert {before later : List JobCall} {job : Job}
    (h : ∀ other, .insert other ∈ before → other.id ≠ job.id) :
    (empty.calls (before ++ .insert job :: later)).lookup job.id = some (job.since later) := by
  have hfree : (empty.calls before).lookup job.id = none :=
    lookup_calls_of_none (Finmap.lookup_empty job.id) h
  have hnew : ((empty.calls before).call (.insert job)).lookup job.capped.id = some job.capped := by
    rw [lookup_insert_call]
    simp [Job.capped, hfree]
  have hlater := lookup_calls_of_some hnew (by simp [Job.capped]) later
  rw [Job.since_capped] at hlater
  rw [calls, List.foldl_append]
  exact hlater

end JobMap

/-- After any calls, each call is answered as the finite map of the jobs says, and what the raising of a
cancel flag answers is what a look-up answers right behind it. Under an id without an insertion the map has
no job. Under any other it has the job that was inserted first, with the updates since then that found it in
progress. -/
theorem JobDesk.answers_of_map (all : List JobCall) :
    let d := JobDesk.empty.calls all
    let m := JobMap.empty.calls all
    (∀ c, m.Answers c (d.call c).1) ∧
    (∀ id, (d.call (.requestCancel id)).1 = ((d.call (.requestCancel id)).2.call (.get id)).1) ∧
    (∀ id, (∀ job, .insert job ∈ all → job.id ≠ id) → m.lookup id = none) ∧
    ∀ before job later, all = before ++ .insert job :: later →
      (∀ other, .insert other ∈ before → other.id ≠ job.id) →
      m.lookup job.id = some (job.since later) := by
  intro d m
  have h : d.table.Stands m := JobTable.stands_calls all
  refine ⟨h.answers d.prepared, fun id => ?_, fun id => ?_, ?_⟩
  · have hcancelled : m.Answers (.requestCancel id) (d.call (.requestCancel id)).1 :=
      h.answers d.prepared _
    have hnext : (d.call (.requestCancel id)).2.table.Stands (m.call (.requestCancel id)) :=
      (h.good.table_call d.prepared (.requestCancel id)).symm ▸ h.call (.requestCancel id)
    have hread : (m.call (.requestCancel id)).Answers (.get id)
        ((d.call (.requestCancel id)).2.call (.get id)).1 := hnext.answers _ _
    exact hcancelled.trans hread.symm
  · exact JobMap.lookup_calls_of_none (Finmap.lookup_empty id)
  · rintro before job later rfl
    exact JobMap.lookup_calls_of_insert

end InventoryFeed

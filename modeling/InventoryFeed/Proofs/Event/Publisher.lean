import InventoryFeed.Event.Publisher
import InventoryFeed.Proofs.Stream.Reported

/-!
# What a publisher puts on the bus

The messages of a job are determined by its rows: one for each, numbered from one. A publisher counts
the rows that it accepted, and what the bus has taken are the first of their messages, all of them
once the publisher ended well. It does so exactly if the bus refused no message.
-/

namespace InventoryFeed

variable {m : Type → Type} [Monad m] {γ : Type} [Historied m γ] {κ δ : Type}

/-- What is known of a bus: the messages that it has taken, as its state and the history show them,
and a side of the history that it leaves alone. -/
structure EventBus.Logs (bus : EventBus m κ) (log : κ → γ → List EventMessage) (side : γ → δ) :
    Prop where
  /-- A message is logged unless it is answered by a failure. -/
  append : ∀ message k g, Ensures (bus.append message k) g fun r g' =>
    log r.2 g' = (if r.1 = none then log k g ++ [message] else log k g) ∧ side g' = side g
  /-- Pushing out what is held back logs nothing. -/
  flush : ∀ k g, Ensures (bus.flush k) g fun r g' => log r.2 g' = log k g ∧ side g' = side g

/-- What a bus tells of its messages: the history is fine as long as none was answered by a failure. The
answer to a flush tells nothing of that. -/
structure EventBus.Tells (bus : EventBus m κ) (fine : γ → Prop) : Prop where
  /-- A message keeps the history fine unless it is answered by a failure. -/
  append : ∀ message k g, Ensures (bus.append message k) g fun r g' =>
    fine g' ↔ fine g ∧ r.1 = none
  /-- Pushing out what is held back changes nothing of that. -/
  flush : ∀ k g, Ensures (bus.flush k) g fun _ g' => fine g' ↔ fine g

/-- A bus that does not fail while it is up, and stays up: it takes every message behind those that
it has. -/
structure EventBus.Unfailing {β : Type} (bus : EventBus Id β) (log : β → List EventMessage)
    (up : β → Prop) : Prop where
  /-- A message is taken. -/
  append : ∀ message b, up b → (bus.append message b).run.1 = none ∧
    log (bus.append message b).run.2 = log b ++ [message] ∧ up (bus.append message b).run.2
  /-- A flush succeeds and adds nothing. -/
  flush : ∀ b, up b → (bus.flush b).run.1 = none ∧ log (bus.flush b).run.2 = log b ∧
    up (bus.flush b).run.2

/-- A bus that keeps its messages does not fail unless it is to refuse one. -/
theorem KeptMessages.unfailing :
    EventBus.Unfailing KeptMessages.bus KeptMessages.messages fun kept => kept.refusal = none where
  append := by
    intro message kept hkept
    have hkeep : kept.keep message = (none, { kept with messages := kept.messages ++ [message] }) := by
      simp only [keep, hkept]
    exact ⟨congrArg Prod.fst hkeep, congrArg (·.2.messages) hkeep,
      (congrArg (·.2.refusal) hkeep).trans hkept⟩
  flush := fun _ hkept => ⟨rfl, rfl, hkept⟩

/-- The messages that name a job. -/
def EventMessage.own (job : String) (all : List EventMessage) : List EventMessage :=
  all.filter fun m => m.jobId? = some job

/-- What a bus makes of a message: it never leaves and never crashes. -/
def EventBus.Answers (receipt : Receipt) : Prop := receipt ≠ .refused .gone ∧ receipt ≠ .crashed

variable {bus : EventBus m κ} {log : κ → γ → List EventMessage} {side : γ → δ}

/-- As the consumer of a queue, a bus logs the messages that it takes. -/
theorem EventBus.Logs.consumer (hbus : bus.Logs log side) :
    bus.consumer.Logs log side EventBus.Answers where
  deliver := by
    intro message k g
    refine (hbus.append message k g).bind ?_
    rintro ⟨failure, k'⟩ g' ⟨hlog, hside⟩
    cases failure with
    | none => exact .pure ⟨⟨nofun, nofun⟩, hlog, hside⟩
    | some text => exact .pure ⟨⟨nofun, nofun⟩, hlog, hside⟩
  close := by
    intro aborted k g
    refine (hbus.flush k g).bind ?_
    rintro ⟨failure, k'⟩ g' h
    exact .pure h

/-- As the consumer of a queue, a bus tells of the messages that it refuses. -/
theorem EventBus.Tells.consumer {fine : γ → Prop} (hbus : bus.Tells fine) :
    bus.consumer.Tells fine where
  deliver := by
    intro message k g
    refine (hbus.append message k g).bind ?_
    rintro ⟨failure, k'⟩ g' hfine
    cases failure with
    | none => exact .pure ⟨hfine.trans (by simp), nofun, nofun⟩
    | some text => exact .pure ⟨hfine.trans (by simp), nofun, nofun⟩
  close := by
    intro aborted k g
    exact (hbus.flush k g).bind fun r g' hfine => .pure hfine

namespace Publisher

/-- What the message of a row says, told apart from how a publisher makes it: what its job and its row
say, and which message of the job it is. -/
def announcement (job : Job) (ts : Nat) (row : Row) : EventMessage where
  topic := job.topic
  key := row.id
  resource := job.resource
  headers := [(job.kind.header, job.id)]
  payload := {
    id := row.id
    eventType := job.eventType
    ts
    record := if job.kind = .reindex ∧ job.resource = .authorities then row.doc else none }

theorem message_eq_announcement (job : Job) (ts : Nat) (row : Row) :
    message job ts row = announcement job ts row := by
  have hcarries :
      carriesRecord job = decide (job.kind = .reindex ∧ job.resource = .authorities) := by
    cases hr : job.resource <;> simp [carriesRecord, Resource.publishesRecord, hr]
  simp only [message, announcement, hcarries, decide_eq_true_eq]

/-- The messages of a job's rows, numbered from one in their order. -/
def messages (job : Job) (rows : List Row) : List EventMessage :=
  rows.mapIdx fun k row => announcement job (k + 1) row

@[simp] theorem length_messages (job : Job) (rows : List Row) :
    (messages job rows).length = rows.length :=
  List.length_mapIdx

theorem messages_concat (job : Job) (rows : List Row) (row : Row) :
    messages job (rows ++ [row]) = messages job rows ++ [message job (rows.length + 1) row] := by
  rw [message_eq_announcement]
  exact List.mapIdx_concat

theorem getElem?_messages (job : Job) (rows : List Row) (k : Nat) :
    (messages job rows)[k]? = rows[k]?.map (announcement job (k + 1)) :=
  List.getElem?_mapIdx

/-- The messages of the first rows come first. -/
theorem messages_mono {job : Job} {rows more : List Row} (h : rows <+: more) :
    messages job rows <+: messages job more := by
  obtain ⟨rest, rfl⟩ := h
  rw [messages, messages, List.mapIdx_append]
  exact List.prefix_append _ _

/-- A message names the job that it was made for, whichever kind that is of. -/
theorem jobId?_announcement (job : Job) (ts : Nat) (row : Row) :
    (announcement job ts row).jobId? = some job.id := by
  cases hkind : job.kind <;>
    simp [EventMessage.jobId?, announcement, hkind, JobKind.header, Keyed.get?]

/-- The messages of a job are numbered from one. -/
theorem map_ts_messages (job : Job) (rows : List Row) :
    (messages job rows).map (·.payload.ts) = List.range' 1 rows.length := by
  refine List.ext_getElem? fun k => ?_
  rw [List.getElem?_map, getElem?_messages, Option.map_map]
  rcases Nat.lt_or_ge k rows.length with hk | hk
  · simp [hk, announcement, Nat.add_comm]
  · simp [hk]

/-- A publisher accounts for the rows that it accepted. -/
structure Sound (job : Job) (cut : Prop) (rows : List Row) (delivered : List EventMessage)
    (p : Publisher κ) : Prop where
  /-- The messages are of the job. -/
  job_eq : p.job = job
  /-- Every accepted row is counted. -/
  accepted_eq : p.accepted = rows.length
  /-- As long as rows are accepted, none of the messages made was refused. -/
  clock_eq : p.out.Open → p.clock = rows.length
  /-- The queue accounts for the messages of these rows. -/
  out : p.out.Sound EventBus.Answers cut (messages job rows) delivered

variable {job : Job} {cut : Prop} {rows : List Row} {p : Publisher κ} {g : γ}

/-- A publisher before its first row accounts for nothing. -/
theorem start_sound (job : Job) (marks : Marks) (pace : List Stride) (k : κ) :
    (start job marks pace k).Sound job False [] [] where
  job_eq := rfl
  accepted_eq := rfl
  clock_eq := fun _ => rfl
  out := Outbound.start_sound marks pace k

/-- Once its queue was ended, a publisher accounts for its rows by what the queue accounts for. -/
theorem Sound.ended {delivered delivered' : List EventMessage} {cut' : Prop}
    {out : Outbound κ EventMessage} (h : p.Sound job cut rows delivered) (finished : Bool)
    (hended : out.ended = true)
    (hout : out.Sound EventBus.Answers cut' (messages job rows) delivered') :
    ({ p with out, finished } : Publisher κ).Sound job cut' rows delivered' where
  job_eq := h.job_eq
  accepted_eq := h.accepted_eq
  clock_eq := fun hopen => absurd (hended.symm.trans hopen.2.1) nofun
  out := hout

/-- A row is accounted for if it was accepted. -/
theorem write_sound (hbus : bus.Logs log side) (row : Row)
    (h : p.Sound job cut rows (log p.out.consumer g)) :
    Ensures (p.write bus row) g fun r g' =>
      r.2.Sound job cut (if Script.accepts r.1 then rows ++ [row] else rows)
          (log r.2.out.consumer g') ∧
        side g' = side g ∧ r.2.finished = p.finished := by
  unfold write
  split
  · exact .pure ⟨h, rfl, rfl⟩
  · refine (Outbound.push_sound hbus.consumer (message p.job (p.clock + 1) row) 1 h.out).bind ?_
    rintro ⟨answer, out⟩ g' ⟨hout, hside, hopen, haccepts⟩
    refine .pure ⟨?_, hside, rfl⟩
    dsimp only at hout hopen haccepts ⊢
    cases ha : Script.accepts answer with
    | true =>
      have hclock := h.clock_eq (hopen (haccepts.mp ha))
      have haccepted : p.accepted + 1 = (rows ++ [row]).length := by
        rw [h.accepted_eq, List.length_append]
        rfl
      rw [ha, if_pos rfl, h.job_eq, hclock, ← messages_concat] at hout
      refine ⟨h.job_eq, ?_, fun _ => by simp [hclock], hout⟩
      cases answer with
      | error cause => cases ha
      | ok status =>
        cases status with
        | ready => exact haccepted
        | saturated => exact haccepted
        | closed => cases ha
    | false =>
      rw [ha, if_neg nofun] at hout
      refine ⟨h.job_eq, ?_, fun ho => absurd (ha.symm.trans (haccepts.mpr ho)) nofun, hout⟩
      cases answer with
      | error cause => exact h.accepted_eq
      | ok status =>
        cases status with
        | ready => cases ha
        | saturated => cases ha
        | closed => exact h.accepted_eq

/-- A wait changes nothing of what is accounted for. -/
theorem awaitDrain_sound (hbus : bus.Logs log side)
    (h : p.Sound job cut rows (log p.out.consumer g)) :
    Ensures (p.awaitDrain bus) g fun r g' =>
      r.2.Sound job cut rows (log r.2.out.consumer g') ∧
        side g' = side g ∧ r.2.finished = p.finished := by
  refine (Outbound.awaitDrain_sound hbus.consumer h.out).bind ?_
  rintro ⟨answer, out⟩ g' ⟨hout, hside, hopen⟩
  exact .pure ⟨⟨h.job_eq, h.accepted_eq, h.clock_eq ∘ hopen, hout⟩, hside, rfl⟩

/-- A publisher that ends well for the first time, and was not cut off, has put the message of every
accepted row on the bus. -/
theorem finish_sound (hbus : bus.Logs log side)
    (h : p.Sound job cut rows (log p.out.consumer g)) :
    Ensures (p.finish bus) g fun r g' =>
      r.2.Sound job cut rows (log r.2.out.consumer g') ∧ side g' = side g ∧
        (r.1 = .ok () → p.finished = false → ¬cut →
          log r.2.out.consumer g' = messages job rows) := by
  unfold finish
  split
  · rename_i hfinished
    exact .pure ⟨h, rfl, fun _ hnot => absurd (hfinished.symm.trans hnot) nofun⟩
  · refine (Outbound.finish_sound hbus.consumer h.out).bind ?_
    rintro ⟨answer, out⟩ g' ⟨hout, hside, hended, hall⟩
    refine .pure ⟨h.ended true hended hout, hside, fun hok _ hcut => ?_⟩
    exact hall hok (fun hgone => hgone.1 rfl) (fun hcrashed => hcrashed.2 rfl) hcut

/-- A publisher that is closed by force has put the first of the messages on the bus. -/
theorem forceClose_sound (hbus : bus.Logs log side)
    (h : p.Sound job cut rows (log p.out.consumer g)) :
    Ensures (p.forceClose bus) g fun p' g' =>
      p'.Sound job True rows (log p'.out.consumer g') ∧ side g' = side g := by
  refine (Outbound.abort_sound hbus.consumer h.out).bind ?_
  rintro out g' ⟨hout, hside, hended⟩
  exact .pure ⟨h.ended true hended hout, hside⟩

/-- So has one that is let go. -/
theorem release_sound (hbus : bus.Logs log side)
    (h : p.Sound job cut rows (log p.out.consumer g)) :
    Ensures (p.release bus) g fun p' g' =>
      p'.Sound job cut rows (log p'.out.consumer g') ∧ side g' = side g := by
  refine (Outbound.drainAndEnd_sound hbus.consumer h.out).bind ?_
  rintro out g' ⟨hout, hside, hended, -⟩
  exact .pure ⟨h.ended p.finished hended hout, hside⟩

section

variable {fine : γ → Prop}

/-- A row is accepted exactly if no message was refused by then. -/
theorem write_tells (hbus : bus.Tells fine) (row : Row) (hfinished : p.finished = false)
    (hopen : p.out.Open) (hfine : fine g) :
    Ensures (p.write bus row) g fun r g' =>
      if Script.accepts r.1 then r.2.out.Open ∧ fine g' else ¬fine g' := by
  rw [write, if_neg (by simp [hfinished])]
  refine (Outbound.push_tells hbus.consumer _ 1 (hopen.tells hfine) hopen.2.1).bind ?_
  rintro ⟨answer, out⟩ g' ⟨hout, hended, haccepts⟩
  refine .pure ?_
  cases ha : Script.accepts answer <;> simp only [ha] at haccepts ⊢
  · exact fun h => absurd (haccepts.mpr h) nofun
  · have h := haccepts.mp trivial
    exact ⟨(hout.open_iff hended).mpr h, h⟩

/-- So is a wait answered. -/
theorem awaitDrain_tells (hbus : bus.Tells fine) (hopen : p.out.Open) (hfine : fine g) :
    Ensures (p.awaitDrain bus) g fun r g' =>
      if Script.accepts r.1 then r.2.out.Open ∧ fine g' else ¬fine g' := by
  refine (Outbound.awaitDrain_tells hbus.consumer (hopen.tells hfine)).bind ?_
  rintro ⟨answer, out⟩ g' ⟨hout, hended, haccepts⟩
  refine .pure ?_
  cases ha : Script.accepts answer <;> simp only [ha] at haccepts ⊢
  · exact fun h => absurd (haccepts.mpr h) nofun
  · have h := haccepts.mp trivial
    exact ⟨(hout.open_iff (hended.trans hopen.2.1)).mpr h, h⟩

/-- A publisher ends well exactly if no message was refused by its end. -/
theorem finish_tells (hbus : bus.Tells fine) (hfinished : p.finished = false) (hopen : p.out.Open)
    (hfine : fine g) :
    Ensures (p.finish bus) g fun r g' => r.1.isOk = true ↔ fine g' := by
  rw [finish, if_neg (by simp [hfinished])]
  exact (Outbound.finish_tells hbus.consumer (hopen.tells hfine)).bind fun r g' h => .pure h

end

/-- What a publisher has put on the bus are the first messages of the rows that it accepted. -/
theorem Sound.delivered_within {delivered : List EventMessage} (h : p.Sound job cut rows delivered) :
    delivered <+: messages job rows :=
  (List.prefix_append _ _).trans h.out.order

end Publisher

end InventoryFeed

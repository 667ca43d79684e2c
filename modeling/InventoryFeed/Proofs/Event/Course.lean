import InventoryFeed.Event.Course
import InventoryFeed.Proofs.Event.Publisher
import InventoryFeed.Proofs.Stream.Recorded
import InventoryFeed.Proofs.Stream.Watching

/-!
# What a publisher has put on the bus at every moment

A course keeps what is known of it (`Kept`): the messages on the bus are the first of those of the
accepted rows, and once the publisher was ended nothing that is done with it changes anything but the
strides that its bus is to take. The number of a message is drawn before the row is accepted, and still
no number is left out: a row can only be refused by an end or by a failure, and neither is taken back.
-/

namespace InventoryFeed

variable {κ κ' : Type}

/-- A watched bus logs the messages that it shows. -/
theorem EventBus.watched_logs {m : Type → Type} [Monad m] {γ : Type} [Historied m γ]
    (bus : EventBus m κ) : bus.watched.Logs (fun k (_ : γ) => k.2) fun _ => () where
  append := by
    intro message k g
    have hany : Ensures (bus.append message k.1) g fun _ _ => True := fun _ _ _ => trivial
    exact hany.bind fun _ _ _ => .pure ⟨rfl, rfl⟩
  flush := by
    intro k g
    have hany : Ensures (bus.flush k.1) g fun _ _ => True := fun _ _ _ => trivial
    exact hany.bind fun _ _ _ => .pure ⟨rfl, rfl⟩

/-- A watched bus shows the bus itself. -/
theorem EventBus.watched_shows (bus : EventBus Id κ) :
    bus.watched.consumer.Shows Prod.fst bus.consumer where
  deliver := by
    intro message k
    simp only [consumer, watched, Id.run_bind, Id.run_pure]
    rcases (bus.append message k.1).run with ⟨_ | text, k'⟩ <;> exact ⟨rfl, rfl⟩
  close := fun _ _ => rfl

namespace Outbound

variable {α : Type} (c : Consumer Id κ α) (q : Outbound κ α)

/-- A queue that is ended, with nothing left in it. -/
def Spent (q : Outbound κ α) : Prop := q.ended = true ∧ q.queue = []

theorem ended_endWith (aborted : Bool) : (q.endWith c aborted).run.ended = true := by
  unfold endWith
  split
  · assumption
  · split <;> rfl

/-- An end leaves a queue spent. -/
theorem spent_drainAndEnd : (q.drainAndEnd c).run.Spent :=
  ⟨ended_endWith c _ false, drainAndEnd_queue c q⟩

/-- So does one by force. -/
theorem spent_abort : (q.abort c).run.Spent := ⟨ended_endWith c _ true, abort_queue c q⟩

variable {c q}

/-- The consumer of a spent queue has nothing to take. -/
theorem Spent.deliver (h : q.Spent) (count : Nat) : (q.deliver c count).run = q := by
  induction count with
  | zero => rfl
  | succ count ih =>
    have hnext : (q.deliverNext c).run = q := by simp [deliverNext, h.2]
    rw [Outbound.deliver, Id.run_bind, hnext, ih]

/-- Nor has it before a call, which only takes a stride away. -/
theorem Spent.advance (h : q.Spent) :
    ∃ pace, (q.advance c).run.2 = { q with pace } := by
  unfold Outbound.advance
  split
  · exact ⟨q.pace, rfl⟩
  · rename_i stride pace _
    have hspent : ({ q with pace } : Outbound κ α).Spent := h
    exact ⟨pace, hspent.deliver stride.taken⟩

theorem Spent.awaitDrain (h : q.Spent) : ∃ pace, (q.awaitDrain c).run.2 = { q with pace } := by
  obtain ⟨pace, hadvance⟩ := h.advance (c := c)
  have hspent : ({ q with pace } : Outbound κ α).Spent := h
  refine ⟨pace, ?_⟩
  rw [awaitDrain_run, hadvance]
  exact hspent.deliver _

theorem Spent.abort (h : q.Spent) : ∃ pace, (q.abort c).run = { q with pace } := by
  obtain ⟨pace, hadvance⟩ := h.advance (c := c)
  have hspent : ({ q with pace } : Outbound κ α).Spent := h
  refine ⟨pace, ?_⟩
  rw [abort_run, cutOff, Id.run_bind, hadvance, hspent.deliver]
  simp [endWith, h.1, h.2, totalCost]

end Outbound

namespace Publisher

/-- The publisher before the bus that is shown. -/
def through (shown : κ' → κ) (p : Publisher κ') : Publisher κ :=
  ⟨p.job, p.out.through shown, p.clock, p.accepted, p.finished⟩

/-- A call on a publisher comes to the same as on the one that it shows. -/
theorem through_call {shown : κ' → κ} {bus' : EventBus Id κ'} {bus : EventBus Id κ}
    (hbus : bus'.consumer.Shows shown bus.consumer) (p : Publisher κ') (what : SinkCall) :
    ((sink bus').call p what).run.1 = ((sink bus).call (p.through shown) what).run.1 ∧
      ((sink bus').call p what).run.2.through shown =
        ((sink bus).call (p.through shown) what).run.2 := by
  cases what with
  | write row =>
    obtain ⟨hanswer, hout⟩ :=
      Outbound.through_push hbus p.out (message p.job (p.clock + 1) row) 1
    cases hfinished : p.finished <;>
      simp [Sink.call, sink, write, through, hfinished, ← hanswer, ← hout]
  | awaitDrain =>
    obtain ⟨hanswer, hout⟩ := Outbound.through_awaitDrain hbus p.out
    simp [Sink.call, sink, awaitDrain, through, ← hanswer, ← hout]
  | finish =>
    obtain ⟨hanswer, hout⟩ := Outbound.through_finish hbus p.out
    cases hfinished : p.finished <;>
      simp [Sink.call, sink, finish, through, hfinished, ← hanswer, ← hout]
  | forceClose =>
    simp [Sink.call, sink, forceClose, through, ← Outbound.through_abort hbus p.out]

/-- A publisher that was ended refuses a row and stays as it is. -/
theorem write_of_finished (bus : EventBus Id κ) {p : Publisher κ} (h : p.finished = true)
    (row : Row) : (p.write bus row).run = (.error .finished, p) := by
  rw [write, if_pos h]
  rfl

/-- What a publisher accounts for does not hang on the strides to come. -/
theorem Sound.withPace {job : Job} {cut : Prop} {rows : List Row} {delivered : List EventMessage}
    {p : Publisher κ} (h : p.Sound job cut rows delivered) (pace : List Stride) :
    ({ p with out := { p.out with pace } } : Publisher κ).Sound job cut rows delivered where
  job_eq := h.job_eq
  accepted_eq := h.accepted_eq
  clock_eq := h.clock_eq
  out := ⟨h.out.order, h.out.whole, h.out.ended_of_cut, h.out.fault_may, h.out.crash_may⟩

end Publisher

namespace PublisherCourse

/-- The course before the bus that is shown. -/
def through (shown : κ' → κ) (c : PublisherCourse κ') : PublisherCourse κ :=
  ⟨c.record, c.publisher.through shown⟩

/-- Whatever is done with a publisher comes to the same with the one that it shows. -/
theorem through_uses {shown : κ' → κ} {bus' : EventBus Id κ'} {bus : EventBus Id κ}
    (hbus : bus'.consumer.Shows shown bus.consumer) (all : List PublisherUse)
    (c : PublisherCourse κ') :
    (c.uses bus' all).through shown = (c.through shown).uses bus all := by
  induction all generalizing c with
  | nil => rfl
  | cons u rest ih =>
    have huse : (c.use bus' u).through shown = (c.through shown).use bus u := by
      cases u with
      | deliver count =>
        simp [use, through, Publisher.through, ← Outbound.through_deliver hbus]
      | call what =>
        obtain ⟨hanswer, hpublisher⟩ := Publisher.through_call hbus c.publisher what
        simp [use, through, hanswer, hpublisher]
    exact (ih (c.use bus' u)).trans (congrArg (uses bus rest) huse)

/-- The messages that a watched bus has taken. -/
def onBus (c : PublisherCourse (κ × List EventMessage)) : List EventMessage :=
  c.publisher.out.consumer.2

/-- The rows that were accepted. -/
def rows (c : PublisherCourse κ) : List Row := SinkRecord.accepted c.record

/-- What is known of a publisher before a watched bus, whatever was done with it. -/
structure Kept (job : Job) (c : PublisherCourse (κ × List EventMessage)) : Prop where
  /-- It accounts for the rows that it accepted, and is not cut off before its end. -/
  sound : ∃ cut, c.publisher.Sound job cut c.rows c.onBus ∧ (c.firstEnd? = none → ¬cut)
  /-- It says whether it was ended. -/
  finished_eq : c.publisher.finished = c.firstEnd?.isSome
  /-- Once it was ended nothing is left to deliver. -/
  spent : c.firstEnd?.isSome → c.publisher.out.Spent
  /-- Once it was ended well all messages are on the bus. -/
  whole : c.firstEnd? = some (.finish, .ended (.ok ())) →
    c.onBus = Publisher.messages job c.rows

variable {job : Job} {c : PublisherCourse (κ × List EventMessage)} {bus : EventBus Id κ}

theorem kept_start (job : Job) (marks : Marks) (pace : List Stride) (state : κ) :
    (start job marks pace (state, []) : PublisherCourse _).Kept job where
  sound := ⟨False, Publisher.start_sound job marks pace _, fun _ => id⟩
  finished_eq := rfl
  spent := nofun
  whole := nofun

/-- The first end is that of the calls so far, or the call that is made. -/
theorem firstEnd?_use_call (bus : EventBus Id κ) (c : PublisherCourse κ) (what : SinkCall) :
    (c.use bus (.call what)).firstEnd? = c.firstEnd?.or (if what.isEnd then
      some (what, ((Publisher.sink bus).call c.publisher what).run.1) else none) := by
  have hrecord : (c.use bus (.call what)).firstEnd? =
      (c.record ++ [(what, ((Publisher.sink bus).call c.publisher what).run.1)]).find?
        fun entry => entry.1.isEnd := rfl
  rw [hrecord, List.find?_append, firstEnd?]
  cases h : what.isEnd <;> simp [h]

/-- A write adds its row if it is accepted. -/
theorem rows_use_write (bus : EventBus Id κ) (c : PublisherCourse κ) (row : Row) :
    (c.use bus (.call (.write row))).rows =
      if Script.accepts (c.publisher.write bus row).run.1 then c.rows ++ [row] else c.rows :=
  SinkRecord.accepted_append_write c.record row _

/-- Any other call adds none. -/
theorem rows_use_call (bus : EventBus Id κ) (c : PublisherCourse κ) (what : SinkCall)
    (h : ∀ row, what ≠ .write row) : (c.use bus (.call what)).rows = c.rows :=
  SinkRecord.accepted_append_other c.record what _ h

/-- Once a publisher was ended, what is done with it takes strides away and changes nothing else. -/
theorem Kept.stays_of_ended (bus : EventBus Id κ) (h : c.Kept job) (hended : c.firstEnd?.isSome)
    (u : PublisherUse) :
    (∃ pace, (c.use bus.watched u).publisher =
        { c.publisher with out := { c.publisher.out with pace } }) ∧
      (c.use bus.watched u).rows = c.rows ∧ (c.use bus.watched u).firstEnd? = c.firstEnd? := by
  have hspent := h.spent hended
  have hfinished := h.finished_eq.trans hended
  cases u with
  | deliver count =>
    refine ⟨⟨c.publisher.out.pace, ?_⟩, rfl, rfl⟩
    simp only [use, hspent.deliver]
  | call what =>
    have hfirst : (c.use bus.watched (.call what)).firstEnd? = c.firstEnd? := by
      obtain ⟨entry, hentry⟩ := Option.isSome_iff_exists.mp hended
      rw [firstEnd?_use_call, hentry, Option.some_or]
    cases what with
    | write row =>
      have hwrite := Publisher.write_of_finished bus.watched hfinished row
      refine ⟨⟨c.publisher.out.pace, congrArg Prod.snd hwrite⟩, ?_, hfirst⟩
      rw [rows_use_write, hwrite]
      rfl
    | awaitDrain =>
      obtain ⟨pace, hout⟩ := hspent.awaitDrain (c := bus.watched.consumer)
      exact ⟨⟨pace, congrArg (fun out => { c.publisher with out }) hout⟩,
        rows_use_call _ c _ (by simp), hfirst⟩
    | finish =>
      have hfinish : (c.publisher.finish bus.watched).run = (.ok (), c.publisher) := by
        rw [Publisher.finish, if_pos hfinished]
        rfl
      exact ⟨⟨c.publisher.out.pace, congrArg Prod.snd hfinish⟩, rows_use_call _ c _ (by simp), hfirst⟩
    | forceClose =>
      obtain ⟨pace, hout⟩ := hspent.abort (c := bus.watched.consumer)
      refine ⟨⟨pace, ?_⟩, rows_use_call _ c _ (by simp), hfirst⟩
      exact congrArg₂ (fun out finished => { c.publisher with out, finished }) hout hfinished.symm

/-- What is done with a publisher that was ended keeps what is known of it. -/
theorem Kept.use_ended (h : c.Kept job) (hended : c.firstEnd?.isSome) (u : PublisherUse) :
    (c.use bus.watched u).Kept job := by
  obtain ⟨cut, hsound, hcut⟩ := h.sound
  obtain ⟨⟨pace, hpublisher⟩, hrows, hfirst⟩ := h.stays_of_ended bus hended u
  have honBus : (c.use bus.watched u).onBus = c.onBus := by rw [onBus, hpublisher]; rfl
  refine ⟨⟨cut, ?_, ?_⟩, ?_, ?_, ?_⟩
  · rw [hrows, honBus, hpublisher]
    exact hsound.withPace pace
  · rw [hfirst]
    exact hcut
  · rw [hfirst, hpublisher]
    exact h.finished_eq
  · rw [hfirst, hpublisher]
    exact h.spent
  · rw [hfirst, hrows, honBus]
    exact h.whole

section

variable {cut : Prop} (hsound : c.publisher.Sound job cut c.rows c.onBus) (hcut : ¬cut)
  (hfinished : c.publisher.finished = false) (hopen : c.firstEnd? = none)

include hsound hcut hfinished hopen

/-- A publisher that was not ended is known by what it accounts for. -/
theorem kept_of_open : c.Kept job where
  sound := ⟨cut, hsound, fun _ => hcut⟩
  finished_eq := by rw [hfinished, hopen]; rfl
  spent := by rw [hopen]; nofun
  whole := by rw [hopen]; nofun

theorem kept_deliver (count : Nat) : (c.use bus.watched (.deliver count)).Kept job := by
  have hlogs := bus.watched_logs (γ := Unit)
  obtain ⟨hout, -, -, hstays, -⟩ :=
    Outbound.deliver_sound hlogs.consumer count hsound.out (g := ()) _ () rfl
  exact kept_of_open ⟨hsound.job_eq, hsound.accepted_eq, hsound.clock_eq ∘ hstays, hout⟩ hcut
    hfinished hopen

theorem kept_write (row : Row) : (c.use bus.watched (.call (.write row))).Kept job := by
  have hlogs := bus.watched_logs (γ := Unit)
  obtain ⟨hwritten, -, hkept⟩ := Publisher.write_sound hlogs row hsound (g := ()) _ () rfl
  have hrows := rows_use_write bus.watched c row
  have hfirst := firstEnd?_use_call bus.watched c (.write row)
  rw [hopen] at hfirst
  exact kept_of_open (hrows.symm ▸ hwritten) hcut (hkept.trans hfinished) hfirst

theorem kept_awaitDrain : (c.use bus.watched (.call .awaitDrain)).Kept job := by
  have hlogs := bus.watched_logs (γ := Unit)
  obtain ⟨hwaited, -, hkept⟩ := Publisher.awaitDrain_sound hlogs hsound (g := ()) _ () rfl
  have hrows := rows_use_call bus.watched c .awaitDrain nofun
  have hfirst := firstEnd?_use_call bus.watched c .awaitDrain
  rw [hopen] at hfirst
  exact kept_of_open (hrows.symm ▸ hwaited) hcut (hkept.trans hfinished) hfirst

/-- The first end delivers all that is queued, and if it is answered well all of it was taken. -/
theorem kept_finish : (c.use bus.watched (.call .finish)).Kept job := by
  have hlogs := bus.watched_logs (γ := Unit)
  obtain ⟨hended, -, hall⟩ := Publisher.finish_sound hlogs hsound (g := ()) _ () rfl
  have hrows := rows_use_call bus.watched c .finish nofun
  have hfirst := firstEnd?_use_call bus.watched c .finish
  rw [hopen, Option.none_or] at hfirst
  have hpublisher : (c.use bus.watched (.call .finish)).publisher = { c.publisher with
      out := (c.publisher.out.finish bus.watched.consumer).run.2, finished := true } := by
    simp [use, Sink.call, Publisher.sink, Publisher.finish, hfinished]
  refine ⟨⟨cut, hrows.symm ▸ hended, fun _ => hcut⟩, ?_, fun _ => ?_, fun hok => ?_⟩
  · rw [hfirst, hpublisher]
    rfl
  · rw [hpublisher, Outbound.finish_run]
    exact Outbound.spent_drainAndEnd _ _
  · have hanswer : (c.publisher.finish bus.watched).run.1 = .ok () :=
      SinkAnswer.ended.inj (congrArg Prod.snd (Option.some.inj (hfirst.symm.trans hok)))
    rw [hrows]
    exact hall hanswer hfinished hcut

omit hcut hfinished in
theorem kept_forceClose : (c.use bus.watched (.call .forceClose)).Kept job := by
  have hlogs := bus.watched_logs (γ := Unit)
  obtain ⟨hended, -⟩ := Publisher.forceClose_sound hlogs hsound (g := ()) _ () rfl
  have hrows := rows_use_call bus.watched c .forceClose nofun
  have hfirst := firstEnd?_use_call bus.watched c .forceClose
  rw [hopen, Option.none_or] at hfirst
  -- an end by force may cut the publisher off, so from here on messages may be missing at the end
  refine ⟨⟨True, hrows.symm ▸ hended, ?_⟩, ?_, fun _ => ?_, ?_⟩
  · rw [hfirst]
    nofun
  · rw [hfirst]
    rfl
  · exact Outbound.spent_abort _ _
  · rw [hfirst]
    nofun

end

/-- Whatever is done with a publisher keeps what is known of it. -/
theorem Kept.use (h : c.Kept job) (u : PublisherUse) : (c.use bus.watched u).Kept job := by
  cases hend : c.firstEnd? with
  | some entry => exact h.use_ended (by rw [hend]; rfl) u
  | none =>
    obtain ⟨cut, hsound, hcut⟩ := h.sound
    have hfinished : c.publisher.finished = false := by rw [h.finished_eq, hend]; rfl
    cases u with
    | deliver count => exact kept_deliver hsound (hcut hend) hfinished hend count
    | call what =>
      cases what with
      | write row => exact kept_write hsound (hcut hend) hfinished hend row
      | awaitDrain => exact kept_awaitDrain hsound (hcut hend) hfinished hend
      | finish => exact kept_finish hsound (hcut hend) hfinished hend
      | forceClose => exact kept_forceClose hsound hend

theorem Kept.uses (h : c.Kept job) (all : List PublisherUse) : (c.uses bus.watched all).Kept job := by
  induction all generalizing c with
  | nil => exact h
  | cons u rest ih => exact ih (h.use u)

/-- No number of a message is given back. -/
theorem clock_le_use (bus : EventBus Id κ) (c : PublisherCourse κ) (u : PublisherUse) :
    c.publisher.clock ≤ (c.use bus u).publisher.clock := by
  cases u with
  | deliver count => exact Nat.le_refl _
  | call what =>
    cases what with
    | write row =>
      cases hfinished : c.publisher.finished <;>
        simp [use, Sink.call, Publisher.sink, Publisher.write, hfinished]
    | awaitDrain => exact Nat.le_refl _
    | finish =>
      cases hfinished : c.publisher.finished <;>
        simp [use, Sink.call, Publisher.sink, Publisher.finish, hfinished]
    | forceClose => exact Nat.le_refl _

theorem clock_le_uses (bus : EventBus Id κ) (all : List PublisherUse) (c : PublisherCourse κ) :
    c.publisher.clock ≤ (c.uses bus all).publisher.clock := by
  induction all generalizing c with
  | nil => exact Nat.le_refl _
  | cons u rest ih => exact (clock_le_use bus c u).trans (ih (c.use bus u))

/-- Whatever bus a job's messages are for, whatever it answers to each of them and whenever it takes them,
and whatever is called on the publisher in which order: the k-th message on the bus says what the job and
the k-th accepted row say, and has the number k, from one on. As many rows are counted as were accepted, no
fewer than there are messages on the bus, and just as many once the first end was one that was answered
well. A row that is written behind an end is refused, and nothing changes. The head, once it is sent, stays
sent. A watched bus is the bus itself, with the messages that it has taken. -/
theorem messages_of_accepted_rows (bus : EventBus Id κ) (job : Job) (marks : Marks)
    (pace : List Stride) (state : κ) (all : List PublisherUse) :
    let c := (start job marks pace (state, [])).uses bus.watched all
    (∀ (k : Nat) (message : EventMessage), c.onBus[k]? = some message →
        ∃ row, c.rows[k]? = some row ∧ message =
          { topic := job.topic
            key := row.id
            resource := job.resource
            headers := [(job.kind.header, job.id)]
            payload := {
              id := row.id
              eventType := job.eventType
              ts := k + 1
              record :=
                if job.kind = .reindex ∧ job.resource = .authorities then row.doc else none } }) ∧
      c.publisher.accepted = c.rows.length ∧
      c.onBus.length ≤ c.publisher.accepted ∧
      (c.firstEnd? = some (.finish, .ended (.ok ())) → c.onBus.length = c.publisher.accepted) ∧
      (c.firstEnd?.isSome → ∀ row,
        (c.publisher.write bus.watched row).run = (.error .finished, c.publisher)) ∧
      (c.publisher.headerSent = true →
        ∀ more, (c.uses bus.watched more).publisher.headerSent = true) ∧
      c.through Prod.fst = (start job marks pace state).uses bus all := by
  intro c
  have h : c.Kept job := (kept_start job marks pace state).uses all
  obtain ⟨cut, hsound, -⟩ := h.sound
  have hwithin := hsound.delivered_within
  refine ⟨fun k message hmessage => ?_, hsound.accepted_eq, ?_, fun hended => ?_, fun hended row => ?_,
    fun hheaded more => ?_, through_uses bus.watched_shows all _⟩
  · -- what is on the bus comes first among the messages of the accepted rows, which have these numbers
    obtain ⟨rest, hrest⟩ := hwithin
    obtain ⟨hk, -⟩ := List.getElem?_eq_some_iff.mp hmessage
    have hmade : (Publisher.messages job c.rows)[k]? = some message := by
      rw [← hrest, List.getElem?_append_left hk, ← hmessage]
    rw [Publisher.getElem?_messages] at hmade
    obtain ⟨row, hrow, rfl⟩ := Option.map_eq_some_iff.mp hmade
    exact ⟨row, hrow, rfl⟩
  · rw [hsound.accepted_eq, ← Publisher.length_messages job]
    exact hwithin.length_le
  · rw [h.whole hended, Publisher.length_messages, hsound.accepted_eq]
  · exact Publisher.write_of_finished _ (h.finished_eq.trans hended) row
  · have hclock := of_decide_eq_true hheaded
    exact decide_eq_true (hclock.trans_le (clock_le_uses bus.watched more c))

end PublisherCourse

end InventoryFeed

import InventoryFeed.Proofs.Stream.Dialogue
import InventoryFeed.Proofs.Stream.Account
import InventoryFeed.Stream.Backlog

/-!
# The backlog stays within the marks

The steps of a consumer that does not crash only make the pending cost smaller, and while something is
queued its last item stays the same. So the backlog exceeds the high mark by no more than one item, if
only the producer waits after each push that is answered `saturated`; and that is what a run of the pump
does.
-/

namespace InventoryFeed

variable {κ α σ : Type}

namespace Outbound

/-- The pending cost is that of what is queued, and the consumer has not crashed. -/
structure Balanced (q : Outbound κ α) : Prop where
  /-- The consumer has not crashed. -/
  crashed_eq : q.crashed = false
  /-- The pending cost is that of what is queued. -/
  pending_eq : q.pending = totalCost q.queue

/-- A queue that its consumer has worked on. -/
structure Drains (q q' : Outbound κ α) : Prop where
  /-- The pending cost is that of what is queued. -/
  balanced : q'.Balanced
  /-- The marks are the same. -/
  marks_eq : q'.marks = q.marks
  /-- Nothing is added to the pending cost. -/
  pending_le : q'.pending ≤ q.pending
  /-- A bound but for the last item stays one. -/
  within : ∀ bound, q.pending ≤ bound + q.lastCost → q'.pending ≤ bound + q'.lastCost

variable {c : Consumer Id κ α} {q q' q'' : Outbound κ α}

theorem Drains.refl (h : q.Balanced) : q.Drains q := ⟨h, rfl, Nat.le_refl _, fun _ hb => hb⟩

theorem Drains.trans (h : q.Drains q') (h' : q'.Drains q'') : q.Drains q'' :=
  ⟨h'.balanced, h'.marks_eq.trans h.marks_eq, Nat.le_trans h'.pending_le h.pending_le,
    fun bound hb => h'.within bound (h.within bound hb)⟩

/-- Nothing is pending where nothing is queued. -/
theorem Balanced.pending_eq_zero (h : q.Balanced) (hq : q.queue = []) : q.pending = 0 := by
  rw [h.pending_eq, hq]
  rfl

/-- A queue that was emptied drained. -/
theorem Drains.of_empty (h : q'.Balanced) (hq : q'.queue = []) (hmarks : q'.marks = q.marks) :
    q.Drains q' := by
  have hzero := h.pending_eq_zero hq
  exact ⟨h, hmarks, by omega, fun bound _ => by omega⟩

/-- The last item stays the same while the items before it are taken. -/
theorem lastCost_of_cons {entry : α × Nat} {rest : List (α × Nat)} (hq : q.queue = entry :: rest)
    (hne : rest ≠ []) (hq' : q'.queue = rest) : q'.lastCost = q.lastCost := by
  obtain ⟨next, more, rfl⟩ := List.exists_cons_of_ne_nil hne
  rw [lastCost, lastCost, hq, hq', List.getLast?_cons_cons]

/-- To take the item at the front drains a queue. -/
theorem drains_of_taken {item : α} {cost : Nat} {rest : List (α × Nat)} (h : q.Balanced)
    (hq : q.queue = (item, cost) :: rest) (k : κ) :
    q.Drains { q with consumer := k, queue := rest, pending := q.pending - cost } := by
  have hpending : q.pending = cost + totalCost rest := by rw [h.pending_eq, hq, totalCost]
  have hbalanced : ({ q with consumer := k, queue := rest, pending := q.pending - cost } :
      Outbound κ α).Balanced :=
    ⟨h.crashed_eq, (congrArg (· - cost) hpending).trans (Nat.add_sub_cancel_left ..)⟩
  by_cases hne : rest = []
  · exact .of_empty hbalanced hne rfl
  · refine ⟨hbalanced, rfl, Nat.sub_le _ _, fun bound hb => ?_⟩
    rw [lastCost_of_cons hq hne rfl]
    exact Nat.le_trans (Nat.sub_le _ _) hb

/-- What a fault drops drains a queue too. -/
theorem drains_of_refused (h : q.Balanced) (fault : Fault) (k : κ) :
    q.Drains { q with consumer := k, queue := [], pending := 0, fault := some fault } :=
  .of_empty ⟨h.crashed_eq, rfl⟩ rfl rfl

/-- So does what an end by force drops. -/
theorem drains_of_dropped (h : q.Balanced) :
    q.Drains { q with queue := [], pending := q.pending - totalCost q.queue } :=
  .of_empty ⟨h.crashed_eq, by simp [h.pending_eq, totalCost]⟩ rfl rfl

/-- The pace is no part of what drains. -/
theorem drains_withPace (h : q.Balanced) (pace : List Stride) : q.Drains { q with pace } :=
  ⟨⟨h.crashed_eq, h.pending_eq⟩, rfl, Nat.le_refl _, fun _ hb => hb⟩

section

variable (hc : c.Steady)

include hc

/-- A consumer that does not crash takes the item at the front, or refuses it and all the others are
dropped with it. -/
theorem deliverNext_cases {item : α} {cost : Nat} {rest : List (α × Nat)}
    (hq : q.queue = (item, cost) :: rest) :
    ∃ k, (q.deliverNext c).run =
        { q with consumer := k, queue := rest, pending := q.pending - cost } ∨
      ∃ fault, (q.deliverNext c).run =
        { q with consumer := k, queue := [], pending := 0, fault := some fault } := by
  have hnot := hc item q.consumer
  simp only [deliverNext, hq, Id.run_bind]
  rcases hreceipt : (c.deliver item q.consumer).run with ⟨_ | fault | _, k⟩
  · exact ⟨k, .inl rfl⟩
  · exact ⟨k, .inr ⟨fault, rfl⟩⟩
  · exact absurd (congrArg Prod.fst hreceipt) hnot

/-- A step of a consumer that does not crash drains a queue. -/
theorem deliverNext_drains (h : q.Balanced) : q.Drains (q.deliverNext c).run := by
  rcases hq : q.queue with _ | ⟨⟨item, cost⟩, rest⟩
  · rw [deliverNext, hq]
    exact .refl h
  · obtain ⟨k, hnext | ⟨fault, hnext⟩⟩ := deliverNext_cases hc hq
    · exact hnext ▸ drains_of_taken h hq k
    · exact hnext ▸ drains_of_refused h fault k

/-- So do several steps. -/
theorem deliver_drains (count : Nat) (h : q.Balanced) : q.Drains (q.deliver c count).run := by
  induction count generalizing q with
  | zero => exact .refl h
  | succ count ih =>
    have hnext := deliverNext_drains hc h
    exact hnext.trans (ih hnext.balanced)

/-- And the stride before a call. -/
theorem advance_drains (h : q.Balanced) : q.Drains (q.advance c).run.2 := by
  unfold advance
  split
  · exact .refl h
  · rename_i stride pace _
    have hpaced := drains_withPace h pace
    exact hpaced.trans (deliver_drains hc stride.taken hpaced.balanced)

/-- At every one of several steps a queue has only drained. -/
theorem deliveries_drains (count : Nat) (h : q.Balanced) :
    ∀ q' ∈ q.deliveries c count, q.Drains q' := by
  induction count generalizing q with
  | zero => simp [deliveries]
  | succ count ih =>
    have hnext := deliverNext_drains hc h
    intro q' hq'
    rcases List.mem_cons.mp hq' with rfl | hrest
    · exact hnext
    · exact hnext.trans (ih hnext.balanced q' hrest)

theorem strideDeliveries_drains (h : q.Balanced) :
    ∀ q' ∈ q.strideDeliveries c, q.Drains q' := by
  unfold strideDeliveries
  split
  · simp
  · rename_i stride pace _
    have hpaced := drains_withPace h pace
    exact fun q' hq' => hpaced.trans (deliveries_drains hc _ hpaced.balanced q' hq')

/-- In the course of a call a queue only drains. -/
theorem passing_drains (h : q.Balanced) (what : QueueCall α) :
    ∀ q' ∈ q.passing c what, q.Drains q' := by
  have hadvanced := advance_drains hc h
  have hafter (count : Nat) : ∀ q' ∈ q.strideDeliveries c ++
      (q.advance c).run.2.deliveries c count, q.Drains q' := by
    intro q' hq'
    rcases List.mem_append.mp hq' with hstride | hlater
    · exact strideDeliveries_drains hc h q' hstride
    · exact hadvanced.trans (deliveries_drains hc count hadvanced.balanced q' hlater)
  cases what with
  | push item cost => exact strideDeliveries_drains hc h
  | deliver count => exact deliveries_drains hc count h
  | awaitDrain => exact hafter _
  | finish => exact deliveries_drains hc _ h
  | abort => exact hafter _

/-- The steps that a wait takes leave no more pending than the low mark. -/
theorem deliver_stepsTo_le (low : Nat) (h : q.Balanced) :
    (q.deliver c (stepsTo low q.pending q.queue)).run.pending ≤ low := by
  induction hq : q.queue generalizing q with
  | nil =>
    have hzero : q.pending = 0 := h.pending_eq_zero hq
    exact hzero ▸ Nat.zero_le low
  | cons entry rest ih =>
    obtain ⟨item, cost⟩ := entry
    rw [stepsTo]
    split
    · assumption
    rw [Nat.add_comm, deliver, Id.run_bind]
    obtain ⟨k, hnext | ⟨fault, hnext⟩⟩ := deliverNext_cases hc hq
    · rw [hnext]
      exact ih (drains_of_taken h hq k).balanced rfl
    · -- A fault leaves nothing pending, whatever steps were still to come.
      rw [hnext]
      have hdropped := drains_of_refused h fault k
      exact Nat.le_trans (deliver_drains hc _ hdropped.balanced).pending_le (Nat.zero_le low)

/-- Where a wait ends no more is pending than the low mark. -/
theorem awaitDrain_le (h : q.Balanced) : (q.awaitDrain c).run.2.pending ≤ q.marks.low := by
  have hadvanced := advance_drains hc h
  rw [awaitDrain_run, ← hadvanced.marks_eq]
  exact deliver_stepsTo_le hc _ hadvanced.balanced

theorem awaitDrain_drains (h : q.Balanced) : q.Drains (q.awaitDrain c).run.2 := by
  have hadvanced := advance_drains hc h
  rw [awaitDrain_run]
  exact hadvanced.trans (deliver_drains hc _ hadvanced.balanced)

omit hc in
/-- An end of a queue whose consumer has not crashed takes nothing from it. -/
theorem endWith_drains (aborted : Bool) (h : q.Balanced) :
    q.Drains (q.endWith c aborted).run := by
  unfold endWith
  split
  · exact .refl h
  · rw [if_neg (by simp [h.crashed_eq])]
    exact ⟨⟨h.crashed_eq, h.pending_eq⟩, rfl, Nat.le_refl _, fun _ hb => hb⟩

theorem finish_drains (h : q.Balanced) : q.Drains (q.finish c).run.2 := by
  rw [finish_run]
  have hdelivered := deliver_drains hc q.queue.length h
  exact hdelivered.trans (endWith_drains false hdelivered.balanced)

theorem abort_drains (h : q.Balanced) : q.Drains (q.abort c).run := by
  rw [abort_run]
  have hadvanced := advance_drains hc h
  have hheld := hadvanced.trans
    (deliver_drains hc (if (q.advance c).run.1 then 1 else 0) hadvanced.balanced)
  have hdropped := hheld.trans (drains_of_dropped hheld.balanced)
  exact hdropped.trans (endWith_drains true hdropped.balanced)

end

/-- A queue within its marks; one item more may be pending where a wait is `due`. -/
structure Within (marks : Marks) (due : Bool) (q : Outbound κ α) : Prop where
  /-- The pending cost is that of what is queued. -/
  balanced : q.Balanced
  /-- The marks. -/
  marks_eq : q.marks = marks
  /-- The bound of the pending cost. -/
  pending_le : q.pending ≤ marks.high + if due then q.lastCost else 0

variable {marks : Marks} {due : Bool}

/-- A queue starts within its marks. -/
theorem start_within (marks : Marks) (pace : List Stride) (k : κ) :
    (start marks pace k : Outbound κ α).Within marks false :=
  ⟨⟨rfl, rfl⟩, rfl, Nat.zero_le _⟩

/-- What drains stays within its marks. -/
theorem Within.drains (h : q.Within marks due) (hdrains : q.Drains q') : q'.Within marks due := by
  refine ⟨hdrains.balanced, hdrains.marks_eq.trans h.marks_eq, ?_⟩
  cases due
  · exact Nat.le_trans hdrains.pending_le h.pending_le
  · exact hdrains.within _ h.pending_le

/-- What is within its marks exceeds the high one by no more than the item pushed last. -/
theorem Within.le_high (h : q.Within marks due) : q.pending ≤ marks.high + q.lastCost := by
  have hbound := h.pending_le
  split at hbound <;> omega

/-- Whether a wait is due after a push. -/
def isDue : Except SinkError WriteStatus → Bool
  | .ok .saturated => true
  | _ => false

/-- An item that is put at the end of a queue exceeds the high mark only where a wait is due. -/
theorem enqueue_within (item : α) (cost : Nat) (h : q.Within marks false) :
    (q.enqueue item cost).2.Within marks (isDue (q.enqueue item cost).1) := by
  by_cases ho : q.Open
  · obtain ⟨hbalanced, rfl, hfree⟩ := h
    have hlow : q.pending ≤ q.marks.high := hfree
    rw [enqueue_of_open item cost ho]
    refine ⟨⟨hbalanced.crashed_eq, ?_⟩, rfl, ?_⟩
    · exact (congrArg (· + cost) hbalanced.pending_eq).trans (totalCost_concat ..).symm
    · split
      · simpa [isDue, lastCost] using hlow
      · rename_i hroom
        simpa [isDue] using hroom
  · obtain ⟨hrefused, hq⟩ := enqueue_of_not_open item cost ho
    rw [hq]
    rcases hanswer : (q.enqueue item cost).1 with _ | _ | _ | _ <;>
      first | exact h | simp [hanswer, Script.accepts] at hrefused

/-- An empty queue is within its marks. -/
theorem Within.of_empty (h : q.Balanced) (hmarks : q.marks = marks) (hq : q.queue = []) :
    q.Within marks false := by
  refine ⟨h, hmarks, ?_⟩
  rw [h.pending_eq_zero hq]
  exact Nat.zero_le _

section

variable (hc : c.Steady)

include hc

/-- A push exceeds the high mark only where a wait is due. -/
theorem push_within (item : α) (cost : Nat) (h : q.Within marks false) :
    (q.push c item cost).run.2.Within marks (isDue (q.push c item cost).run.1) :=
  enqueue_within item cost (h.drains (advance_drains hc h.balanced))

/-- A wait leaves no more pending than the low mark. -/
theorem awaitDrain_within (h : q.Within marks due) :
    (q.awaitDrain c).run.2.Within marks false ∧ (q.awaitDrain c).run.2.pending ≤ marks.low := by
  have hdrained := h.drains (awaitDrain_drains hc h.balanced)
  have hlow : (q.awaitDrain c).run.2.pending ≤ marks.low :=
    h.marks_eq ▸ awaitDrain_le hc h.balanced
  exact ⟨⟨hdrained.balanced, hdrained.marks_eq, Nat.le_trans hlow marks.low_le_high⟩, hlow⟩

/-- An end leaves nothing pending. -/
theorem finish_within (h : q.Within marks due) : (q.finish c).run.2.Within marks false := by
  have hended := h.drains (finish_drains hc h.balanced)
  refine .of_empty hended.balanced hended.marks_eq ?_
  rw [finish_run]
  exact drainAndEnd_queue c q

/-- Nor does one by force. -/
theorem abort_within (h : q.Within marks due) : (q.abort c).run.Within marks false := by
  have hended := h.drains (abort_drains hc h.balanced)
  exact .of_empty hended.balanced hended.marks_eq (abort_queue c q)

theorem course_cons {what : QueueCall α} {rest : List (QueueCall α)} {due' : Bool}
    (h : q.Within marks due) (hafter : (q.call c what).run.2.Within marks due')
    (hrest : (q.call c what).run.2.CourseWithin c marks rest) :
    q.CourseWithin c marks (what :: rest) := by
  intro q' hq'
  rcases List.mem_append.mp hq' with hpassing | hlater
  · exact (h.drains (passing_drains hc h.balanced what q' hpassing)).le_high
  rcases List.mem_cons.mp hlater with rfl | hmore
  · exact hafter.le_high
  · exact hrest q' hmore

/-- A write keeps a queue within its marks. -/
theorem WriteCalls.within {answer : Except SinkError WriteStatus} {what : List (QueueCall α)}
    (hwrite : q.WriteCalls c answer what) (h : q.Within marks false) :
    q.CourseWithin c marks what ∧ (q.calls c what).Within marks (isDue answer) := by
  cases hwrite with
  | refused cause => exact ⟨nofun, h⟩
  | pushed item cost =>
    have hpushed := push_within hc item cost h
    exact ⟨course_cons hc h hpushed nofun, hpushed⟩

/-- So does an end, which leaves no wait due. -/
theorem EndCalls.within {what : List (QueueCall α)} (hend : q.EndCalls c what)
    (h : q.Within marks false) :
    q.CourseWithin c marks what ∧ (q.calls c what).Within marks false := by
  cases hend with
  | ended => exact ⟨nofun, h⟩
  | finish =>
    have hfinished := finish_within hc h
    exact ⟨course_cons hc h hfinished nofun, hfinished⟩
  | @refused item cost cause hpush =>
    have hpushed := push_within hc item cost h
    rw [hpush] at hpushed
    exact ⟨course_cons hc h hpushed nofun, hpushed⟩
  | pushed item cost =>
    have hpushed := push_within hc item cost h
    have hfinished := finish_within hc hpushed
    exact ⟨course_cons hc h hpushed (course_cons hc hpushed hfinished nofun), hfinished⟩

end

end Outbound

section Answers

variable {sink : Sink Id σ} {s s' : σ} {log : List PumpEvent}

/-- What was said last was said to the sink as the rest left it. -/
theorem Sink.Answers.called (h : sink.Answers s log s') (call : SinkCall) (headed : Bool) :
    sink.Answers s (log ++ [.called call (sink.call s' call).run.1 headed])
      (sink.call s' call).run.2 := by
  induction log generalizing s with
  | nil =>
    obtain rfl : s' = s := h
    exact ⟨rfl, rfl⟩
  | cons event rest ih =>
    cases event with
    | asked session decision => exact ih (s := s) h
    | called call answer headed => exact ⟨h.1, ih h.2⟩

/-- A question to the hook leaves the sink as it is. -/
theorem Sink.Answers.asked (h : sink.Answers s log s') (session : Session) (decision : Decision) :
    sink.Answers s (log ++ [.asked session decision]) s' := by
  induction log generalizing s with
  | nil => exact h
  | cons event rest ih =>
    cases event with
    | asked session decision => exact ih (s := s) h
    | called call answer headed => exact ⟨h.1, ih h.2⟩

/-- A noted value is the value itself, and what is noted is put behind what was noted before. -/
theorem ensures_note {β : Type} {x : Id β} {event : β → PumpEvent} {g : Unit × List PumpEvent}
    {post : β → Unit × List PumpEvent → Prop} (hpost : post x.run ((), g.2 ++ [event x.run])) :
    Ensures (Noted.note x event) g post := by
  rintro a ⟨⟨⟩, log⟩ hends
  obtain ⟨rfl, rfl⟩ := Prod.mk.inj (show (x.run, g.2 ++ [event x.run]) = (a, log) from hends)
  exact hpost

/-- At the end of a run, what was noted was said to the sink and answered by it. -/
theorem run_answers {η : Type} (sink : Sink Id σ) (hook : Option (Hook Id η)) (pulls : List Pull)
    (s : σ) (h : η) :
    Ensures (Pump.run sink.noted (Hook.ofOption (hook.map Hook.noted)) pulls .start s h) ((), [])
      fun r g => sink.Answers s g.2 r.sink := by
  have hbegun : sink.Answers s [] s := rfl
  refine Pump.run_invariant (I := fun s' (g : Unit × List PumpEvent) => sink.Answers s g.2 s')
    ?_ ?_ ?_ ?_ ?_ hbegun
  · exact fun hs row => ensures_note (hs.called (.write row) _)
  · exact fun hs => ensures_note (hs.called .awaitDrain _)
  · intro s' g hs session h
    cases hook with
    | none => exact .pure hs
    | some hook => exact ensures_note (hs.asked session _)
  · exact fun hs => ensures_note (hs.called .finish _)
  · exact fun hs => ensures_note (hs.called .forceClose _)

/-- What was noted in a run has the form of a run, and the sink answered it. -/
theorem run_said {η : Type} (sink : Sink Id σ) (hook : Option (Hook Id η)) (pulls : List Pull)
    (s : σ) (h : η) :
    let r := (Pump.run sink.noted (Hook.ofOption (hook.map Hook.noted)) pulls .start s h).run []
    (∃ result, Dialogue.Run hook.isSome (sink.headerSent s) [] pulls r.run.2 result) ∧
      sink.Answers s r.run.2 r.run.1.sink := by
  have hnoted : Notes (Pump.run sink.noted (Hook.ofOption (hook.map Hook.noted)) pulls .start s h) []
      (Pump.RunSaid hook.isSome (sink.headerSent s) [] pulls) := Pump.run_noted rfl rfl
  obtain ⟨said, result, hsaid, hrun, -⟩ := hnoted () _ ((), _) rfl
  rw [← hsaid.trans (List.nil_append said)] at hrun
  exact ⟨⟨result, hrun⟩, run_answers sink hook pulls s h _ ((), _) rfl⟩

end Answers

namespace QueuedSink

variable (S : QueuedSink σ κ α) {marks : Marks} {due : Bool} {s final : σ}
  {events : List PumpEvent}

/-- Where a write is answered, no more is pending than the high mark if the answer is `ready`. -/
theorem within_write (row : Row) (h : (S.out s).Within marks false) :
    (S.out s).CourseWithin S.consumer marks (S.made s (.write row)) ∧
      (S.out (S.sink.write row s).run.2).Within marks
        (Outbound.isDue (S.sink.write row s).run.1) := by
  obtain ⟨hcourse, hafter⟩ := (S.write s row).within S.steady h
  exact ⟨hcourse, S.left s (.write row) ▸ hafter⟩

theorem within_awaitDrain (h : (S.out s).Within marks due) :
    (S.out s).CourseWithin S.consumer marks (S.made s .awaitDrain) ∧
      (S.out (S.sink.awaitDrain s).run.2).Within marks false ∧
      (S.out (S.sink.awaitDrain s).run.2).pending ≤ marks.low := by
  have hleft : S.out (S.sink.awaitDrain s).run.2 = _ := S.left s .awaitDrain
  obtain ⟨hwithin, hlow⟩ := Outbound.awaitDrain_within S.steady h
  rw [hleft, S.awaitDrain s]
  exact ⟨Outbound.course_cons S.steady h hwithin nofun, hwithin, hlow⟩

theorem within_finish (h : (S.out s).Within marks false) :
    (S.out s).CourseWithin S.consumer marks (S.made s .finish) ∧
      (S.out (S.sink.finish s).run.2).Within marks false := by
  obtain ⟨hcourse, hafter⟩ := (S.finish s).within S.steady h
  exact ⟨hcourse, S.left s .finish ▸ hafter⟩

theorem within_forceClose (h : (S.out s).Within marks due) :
    (S.out s).CourseWithin S.consumer marks (S.made s .forceClose) ∧
      (S.out (S.sink.forceClose s).run).Within marks false := by
  have hleft : S.out (S.sink.forceClose s).run = _ := S.left s .forceClose
  have hwithin := Outbound.abort_within S.steady h
  rw [hleft, S.forceClose s]
  exact ⟨Outbound.course_cons S.steady h hwithin nofun, hwithin⟩

/-- A wait is to follow a write exactly where one is due. -/
theorem isSaturated_write (row : Row) (answer : Except SinkError WriteStatus) (headed : Bool) :
    (PumpEvent.called (.write row) (.status answer) headed).isSaturated = Outbound.isDue answer := by
  rcases answer with _ | _ | _ | _ <;> rfl

/-- Along what is said to a sink that is waited for whenever it has room no more, the backlog stays within
the marks. -/
theorem within_of_waits (h : (S.out s).Within marks due) (hanswers : S.sink.Answers s events final)
    (hwaits : Dialogue.WaitsFollow due events) : S.WithinMarks marks s events := by
  induction events generalizing s due with
  | nil => trivial
  | cons event rest ih =>
    obtain ⟨rfl, hwaits⟩ := hwaits
    cases event with
    | asked session decision => exact ih h hanswers hwaits
    | called call answer headed =>
      obtain ⟨rfl, hanswers⟩ := hanswers
      cases call with
      | write row =>
        obtain ⟨hcourse, hafter⟩ := S.within_write row h
        refine ⟨hcourse, fun _ _ hready => ?_, nofun, ih hafter hanswers ?_⟩
        · have hanswer : (S.sink.write row s).run.1 = .ok .ready := SinkAnswer.status.inj hready
          rw [hanswer] at hafter
          exact hafter.pending_le
        · exact isSaturated_write row _ headed ▸ hwaits
      | awaitDrain =>
        obtain ⟨hcourse, hafter, hlow⟩ := S.within_awaitDrain h
        exact ⟨hcourse, nofun, fun _ _ => hlow, ih hafter hanswers hwaits⟩
      | finish =>
        obtain ⟨hcourse, hafter⟩ := S.within_finish h
        exact ⟨hcourse, nofun, nofun, ih hafter hanswers hwaits⟩
      | forceClose =>
        obtain ⟨hcourse, hafter⟩ := S.within_forceClose h
        exact ⟨hcourse, nofun, nofun, ih hafter hanswers hwaits⟩

/-- In a run of the pump the backlog stays within the marks. -/
theorem runWithin {η : Type} (hook : Option (Hook Id η)) (pulls : List Pull) (h : η)
    (hs : (S.out s).Within marks false) : S.RunWithin marks hook pulls s h := by
  obtain ⟨⟨result, hrun⟩, hanswers⟩ := run_said S.sink hook pulls s h
  exact ⟨Pump.erases_run S.sink hook pulls .start s h [], hanswers,
    S.within_of_waits hs hanswers hrun.orderly.2⟩

end QueuedSink

end InventoryFeed

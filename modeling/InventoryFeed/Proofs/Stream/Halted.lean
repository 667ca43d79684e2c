import InventoryFeed.Proofs.Stream.Dialogue

/-!
# What a run still says once no more batches are to come

The hook is asked before every answer of the cursor, and a question that it answers by `stop` is the last
thing that a run says. So from any moment on behind which no question is answered by `goOn`, a run accepts
the rows of one batch at most, and if the hook is asked at all, the run ends with that question.
-/

namespace InventoryFeed

/-- The answer of the hook, if the event is a question. -/
def PumpEvent.decision? : PumpEvent → Option Decision
  | asked _ decision => some decision
  | _ => none

namespace Dialogue

/-- The answers of the hook. -/
def decisions (events : List PumpEvent) : List Decision := events.filterMap PumpEvent.decision?

@[simp] theorem decisions_append (events more : List PumpEvent) :
    decisions (events ++ more) = decisions events ++ decisions more :=
  List.filterMap_append

/-- A rest of a run that takes no answer of the cursor: it accepts the rows of one batch at most, and if it
asks the hook, then once and at its end. -/
structure Late (size : Nat) (late : List PumpEvent) : Prop where
  /-- At most so many rows are accepted. -/
  accepted_le : late.countP PumpEvent.isAccepted ≤ size
  /-- The hook is not asked, or last of all. -/
  asked : decisions late = [] ∨
    ∃ quiet session, late = quiet ++ [.asked session .stop] ∧ decisions quiet = []

/-- A cut of what a run says at a moment when the hook was asked so many times, or at its end if it is not
asked as often. -/
structure Cut (asked : Nat) (said early late : List PumpEvent) : Prop where
  /-- The two parts make up the whole. -/
  split : said = early ++ late
  /-- The first part holds as many answers of the hook. -/
  asked : (decisions early).length = min asked (decisions said).length

/-- Behind a cut come the answers of the hook that are left. -/
theorem Cut.decisions_late {count : Nat} {said early late : List PumpEvent}
    (h : Cut count said early late) : decisions late = (decisions said).drop count := by
  have hasked := h.asked
  rw [h.split, decisions_append] at hasked ⊢
  rcases Nat.le_total count (decisions early ++ decisions late).length with hle | hle
  · rw [Nat.min_eq_left hle] at hasked
    rw [← hasked, List.drop_left]
  · rw [Nat.min_eq_right hle, List.length_append, Nat.left_eq_add] at hasked
    rw [List.drop_of_length_le hle, List.length_eq_zero_iff.mp hasked]

/-- There is a cut for every number of questions. -/
theorem exists_cut (count : Nat) (said : List PumpEvent) : ∃ early late, Cut count said early late := by
  induction said generalizing count with
  | nil => exact ⟨[], [], rfl, (Nat.min_zero count).symm⟩
  | cons event rest ih =>
    cases count with
    | zero => exact ⟨[], event :: rest, rfl, (Nat.zero_min _).symm⟩
    | succ count =>
      cases hdecision : event.decision? with
      | none =>
        obtain ⟨early, late, hsplit, hasked⟩ := ih (count + 1)
        refine ⟨event :: early, late, congrArg (event :: ·) hsplit, ?_⟩
        simpa [decisions, hdecision] using hasked
      | some decision =>
        obtain ⟨early, late, hsplit, hasked⟩ := ih count
        refine ⟨event :: early, late, congrArg (event :: ·) hsplit, ?_⟩
        simpa [decisions, hdecision, Nat.succ_min_succ] using hasked

/-- Events among which the hook is not asked and at most so many rows are accepted. -/
def Quiet (size : Nat) (events : List PumpEvent) : Prop :=
  decisions events = [] ∧ events.countP PumpEvent.isAccepted ≤ size

variable {hooked headed : Bool} {size : Nat} {row : Row} {batch : List Row}
  {before events more late first last : List PumpEvent} {pulls : List Pull} {outcome : Outcome}
  {cause : StreamError} {result : Except Crash Outcome}

theorem Quiet.mono {more : Nat} (h : Quiet size events) (hle : size ≤ more) : Quiet more events :=
  ⟨h.1, h.2.trans hle⟩

theorem Quiet.append {count : Nat} (h : Quiet size events) (hmore : Quiet count more) :
    Quiet (size + count) (events ++ more) := by
  refine ⟨by rw [decisions_append, h.1, hmore.1]; rfl, ?_⟩
  rw [List.countP_append]
  exact Nat.add_le_add h.2 hmore.2

theorem Quiet.of_suffix (h : Quiet size events) (hlate : late <:+ events) : Quiet size late := by
  obtain ⟨early, rfl⟩ := hlate
  obtain ⟨hnone, hcount⟩ := h
  rw [decisions_append] at hnone
  rw [List.countP_append] at hcount
  exact ⟨(List.append_eq_nil_iff.mp hnone).2, (Nat.le_add_left _ _).trans hcount⟩

theorem Quiet.isLate (h : Quiet size late) : Late size late := ⟨h.2, .inl h.1⟩

theorem Breaks.quiet (h : Breaks cause headed last outcome) : Quiet 0 last := by
  cases h <;> exact ⟨rfl, Nat.le_refl 0⟩

theorem Passes.quiet (h : Passes row first) : Quiet 1 first := by
  cases h <;> exact ⟨rfl, Nat.le_refl 1⟩

theorem Stops.quiet (h : Stops row events outcome) : Quiet 1 events := by
  cases h with
  | left => exact ⟨rfl, Nat.zero_le 1⟩
  | leftWaiting => exact ⟨rfl, Nat.le_refl 1⟩
  | refused hlast => cases hlast <;> exact ⟨rfl, Nat.zero_le 1⟩
  | refusedWaiting _ hlast => cases hlast <;> exact ⟨rfl, Nat.le_refl 1⟩

/-- A batch accepts at most its rows, and the hook is not asked in the middle of it. -/
theorem Batch.quiet {ended : Option Outcome} (h : Batch batch events ended) :
    Quiet batch.length events := by
  induction h with
  | done => exact ⟨rfl, Nat.le_refl 0⟩
  | row hfirst _ ih => exact (hfirst.quiet.append ih).mono (Nat.add_comm 1 _).le
  | stops h => exact h.quiet.mono (Nat.le_add_left 1 _)

/-- Behind a question that is answered by `goOn`, what is quiet is a rest that takes no answer. -/
theorem Quiet.late_of_question (h : Quiet size events)
    (hlate : late <:+ question true before ++ events) (hnone : .goOn ∉ decisions late) :
    Late size late := by
  rcases List.suffix_cons_iff.mp hlate with rfl | hlate
  · exact absurd (.head _) hnone
  · exact (h.of_suffix hlate).isLate

/-- A run that takes no answer of the cursor is stopped by its first question. -/
theorem Run.eq_stop (h : Run true headed before pulls events result)
    (hnone : .goOn ∉ decisions events) : ∃ session, events = [.asked session .stop] := by
  cases h with
  | stopped => exact ⟨_, rfl⟩
  | completed | unfinished | failed | crashed | stops | batch => exact absurd (.head _) hnone

/-- The rest of a run behind which no question is answered by `goOn` accepts the rows of one batch at most
and ends with the question that stops it. The induction is on the answers of the cursor. -/
theorem Run.isLate (h : Run true headed before pulls events result)
    (hbatches : Pull.Batched size pulls) (hlate : late <:+ events)
    (hnone : .goOn ∉ decisions late) : Late size late := by
  induction h generalizing late with
  | stopped =>
    rcases List.suffix_cons_iff.mp hlate with rfl | hlate
    · exact ⟨Nat.zero_le size, .inr ⟨[], _, rfl, rfl⟩⟩
    · rw [List.suffix_nil.mp hlate]
      exact ⟨Nat.zero_le size, .inl rfl⟩
  | completed now =>
    have hquiet : Quiet size [.called .finish (.ended (.ok ())) now] := ⟨rfl, Nat.zero_le size⟩
    exact hquiet.late_of_question hlate hnone
  | @unfinished before last cause now outcome hlast =>
    have hfinish : Quiet 0 [.called .finish (.ended (.error cause)) now] := ⟨rfl, Nat.le_refl 0⟩
    exact ((hfinish.append hlast.quiet).mono (Nat.zero_le size)).late_of_question hlate hnone
  | failed hlast => exact (hlast.quiet.mono (Nat.zero_le size)).late_of_question hlate hnone
  | crashed =>
    have hquiet : Quiet size [] := ⟨rfl, Nat.zero_le size⟩
    rw [← List.append_nil (question true _)] at hlate
    exact hquiet.late_of_question hlate hnone
  | stops hbatch =>
    exact (hbatch.quiet.mono (hbatches _ (.head _))).late_of_question hlate hnone
  | @batch before events more batch rest result hbatch hmore ih =>
    rw [List.append_assoc] at hlate
    rcases List.suffix_cons_iff.mp hlate with rfl | hlate
    · exact absurd (.head _) hnone
    · have hwithin : late <:+ events ++ more := hlate
      obtain ⟨early, hsplit⟩ := hwithin
      rcases List.append_eq_append_iff.mp hsplit with ⟨tail, rfl, rfl⟩ | ⟨tail, rfl, rfl⟩
      · -- The request falls into this batch, and the next question ends the run.
        rw [decisions_append] at hnone
        obtain ⟨session, rfl⟩ := hmore.eq_stop fun hmem => hnone (List.mem_append_right _ hmem)
        have hquiet := (hbatch.quiet.mono (hbatches _ (.head _))).of_suffix (List.suffix_append early tail)
        refine ⟨?_, .inr ⟨tail, session, rfl, hquiet.1⟩⟩
        rw [List.countP_append]
        exact hquiet.2
      · exact ih (fun batch hmem => hbatches batch (.tail _ hmem)) (List.suffix_append tail late) hnone

end Dialogue

end InventoryFeed

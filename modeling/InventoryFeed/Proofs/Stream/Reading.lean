import InventoryFeed.Proofs.Stream.Cursor
import InventoryFeed.Stream.Reading

/-!
# A cursor hands out its items

Every answer of a cursor over items at hand hands out some items at the front of those that are ahead
(`ahead_of_next`). From this one step follows what a reading of all answers gives: the items
themselves, each once and at its place, however the batches are cut (`reads_results`).
-/

namespace InventoryFeed

/-- A batch that is full holds as many rows as there is room for, and behind one that ends with the
items there are none. -/
theorem RowItem.readBatch_ended {room : Nat} {items rest : List RowItem} {batch : List Row}
    {ended : BatchEnd} (h : readBatch room items = (batch, ended, rest)) :
    (ended = .full → batch.length = room) ∧ (ended = .exhausted → rest = []) := by
  induction room generalizing items batch with
  | zero =>
    cases h
    simp
  | succ room ih =>
    cases items with
    | nil =>
      cases h
      simp
    | cons item items =>
      cases item with
      | row r =>
        rw [readBatch] at h
        rcases hread : readBatch room items with ⟨batch', ended', rest'⟩
        rw [hread] at h
        cases h
        obtain ⟨hfull, hrest⟩ := ih hread
        exact ⟨fun hended => congrArg Nat.succ (hfull hended), hrest⟩
      | failed cause =>
        cases h
        simp
      | crashed crash =>
        cases h
        simp

theorem RowItem.crashed_notMem_ofResult (results : List (Except CursorError Row)) (crash : Crash) :
    RowItem.crashed crash ∉ results.map ofResult := by
  rintro hmem
  obtain ⟨_ | _, -, hresult⟩ := List.mem_map.mp hmem <;> cases hresult

namespace RowCursor

variable {c rest : RowCursor}

@[simp] theorem asked_zero (c : RowCursor) : c.asked 0 = c := rfl

theorem asked_succ (c : RowCursor) (count : Nat) : c.asked (count + 1) = c.next.2.asked count := rfl

theorem asked_succ_eq_next (c : RowCursor) (count : Nat) :
    c.asked (count + 1) = (c.asked count).next.2 := by
  rw [asked, calls, List.replicate_succ', List.foldl_append]
  rfl

/-- A cursor stays open while it is asked, and keeps the size of its batches. -/
theorem asked_keeps (c : RowCursor) (count : Nat) :
    (c.asked count).batchSize = c.batchSize ∧ (c.asked count).isClosed = c.isClosed := by
  induction count generalizing c with
  | zero => exact ⟨rfl, rfl⟩
  | succ count ih =>
    obtain ⟨-, hsize, hclosed⟩ : c.HandsOut c.next.2 c.next.1 ∧ _ := handsOut_of_next rfl
    exact ⟨(ih c.next.2).1.trans hsize, (ih c.next.2).2.trans hclosed⟩

/-- An answer hands out items at the front, one at least, unless it tells of a crash. -/
theorem ahead_of_next {answer : Pull} (hroom : c.batchSize ≤ Row.batchLimit)
    (hcrash : ∀ crash, RowItem.crashed crash ∉ c.ahead) (h : c.next = (some answer, rest)) :
    c.ahead = answer.items ++ rest.ahead ∧ answer.items ≠ [] := by
  cases answer with
  | rows batch =>
    obtain ⟨⟨hahead, hbatch, -⟩, -⟩ := handsOut_of_next h
    exact ⟨hahead, fun hnil => hbatch (List.map_eq_nil_iff.mp hnil)⟩
  | failed cause => exact ⟨(handsOut_of_next h).1, List.cons_ne_nil _ _⟩
  | crashed crash => exact absurd ((handsOut_of_next h).1 hroom) (hcrash crash)

/-- A cursor with nothing ahead has no more rows, and stays as it is. -/
theorem next_of_ahead_nil (hroom : c.batchSize ≤ Row.batchLimit) (h : c.ahead = []) :
    c.next = (none, c) := by
  rcases c with ⟨_ | _ | ⟨item, items⟩, size, _ | cause⟩
  · rfl
  · cases h
  · rw [next_eq_read hroom]
    cases size <;> rfl
  all_goals cases h

/-- A cursor that an answer leaves as it is answers the same however often it is asked. -/
theorem next_asked_of_next_self {answer : Option Pull} (h : c.next = (answer, c)) (count : Nat) :
    (c.asked count).next.1 = answer := by
  induction count with
  | zero => rw [asked_zero, h]
  | succ count ih => rw [asked_succ, h, ih]

/-- Behind a batch that is not full there is a failure that waits, or nothing. -/
theorem next_of_short {batch : List Row} (hroom : c.batchSize ≤ Row.batchLimit)
    (h : c.next = (some (.rows batch), rest)) (hshort : batch.length < c.batchSize) :
    rest.next.1 = none ∨ ∃ cause, rest.next.1 = some (.failed cause) := by
  rcases c with ⟨_ | items, size, _ | cause⟩
  · cases h
  · cases h
  · rw [next_eq_read hroom, read] at h
    rcases hread : RowItem.readBatch size items with ⟨front, ended, items'⟩
    obtain ⟨hfull, hexhausted⟩ := RowItem.readBatch_ended hread
    simp only [hread] at h
    cases front with
    | nil => cases ended <;> cases h
    | cons row front =>
      cases ended with
      | full =>
        cases h
        exact absurd (hfull rfl) (Nat.ne_of_lt hshort)
      | exhausted =>
        cases h
        rw [hexhausted rfl]
        exact .inl (congrArg Prod.fst (next_of_ahead_nil (c := ⟨some [], size, none⟩) hroom rfl))
      | failed cause =>
        cases h
        exact .inr ⟨cause, rfl⟩
      | crashed crash => cases h
  · cases h

/-- Enough answers of a cursor hand out all that is ahead, and its answers are those that it gives when
it is asked again and again. -/
theorem answersWithin_spec {count : Nat} (hsize : 0 < c.batchSize)
    (hroom : c.batchSize ≤ Row.batchLimit) (hcount : c.ahead.length ≤ count)
    (hcrash : ∀ crash, RowItem.crashed crash ∉ c.ahead) :
    (answersWithin count c).flatMap Pull.items = c.ahead ∧
      ∀ k, (c.asked k).next.1 = (answersWithin count c)[k]? := by
  induction count generalizing c with
  | zero =>
    have hahead := List.length_eq_zero_iff.mp (Nat.le_zero.mp hcount)
    exact ⟨hahead.symm, next_asked_of_next_self (next_of_ahead_nil hroom hahead)⟩
  | succ count ih =>
    rw [answersWithin]
    rcases hnext : c.next with ⟨_ | answer, rest⟩
    · have hahead := (handsOut_of_next hnext).1 hsize
      exact ⟨hahead.symm, next_asked_of_next_self (next_of_ahead_nil hroom hahead)⟩
    · obtain ⟨hahead, hsome⟩ := ahead_of_next hroom hcrash hnext
      have hrest : rest = c.next.2 := by rw [hnext]
      have hlength := congrArg List.length hahead
      have hpos := List.length_pos_iff.mpr hsome
      rw [List.length_append] at hlength
      have hkept : rest.batchSize = c.batchSize := (handsOut_of_next hnext).2.1
      obtain ⟨hitems, hasked⟩ := ih (hkept ▸ hsize) (hkept ▸ hroom) (by omega) fun crash hmem =>
        hcrash crash (hahead ▸ List.mem_append_right _ hmem)
      refine ⟨by rw [List.flatMap_cons, hitems, hahead], fun k => ?_⟩
      cases k with
      | zero => rw [asked_zero, hnext]; rfl
      | succ k => rw [asked_succ, ← hrest, hasked, List.getElem?_cons_succ]

/-- The answers of a cursor over items at hand, none of them a crash, hand out these items, and are those
that it gives when it is asked again and again. -/
theorem answers_ofItems {items : List RowItem} (hcrash : ∀ crash, RowItem.crashed crash ∉ items)
    {batchSize : Nat} (hroom : batchSize ≤ Row.batchLimit) :
    (ofItems items batchSize).answers.flatMap Pull.items = items ∧
      ∀ k, ((ofItems items batchSize).asked k).next.1 = (ofItems items batchSize).answers[k]? :=
  have hmax : (ofItems items batchSize).batchSize ≤ Row.batchLimit := max_le_batchLimit.mpr hroom
  answersWithin_spec (batchSize_ofItems_pos items batchSize) hmax (length_ahead hmax).le hcrash

/-- A cursor that was closed has nothing ahead, and no call changes it. -/
theorem calls_of_close (c : RowCursor) (all : List CursorCall) : c.close.calls all = c.close := by
  induction all with
  | nil => rfl
  | cons what all ih =>
    have hcall : (c.close.call what).2 = c.close := by cases what <;> rfl
    rw [calls, List.foldl_cons, hcall]
    exact ih

/-- A cursor over results, each a row or an error, in batches of a size (none counting as one row) that
there is room for, answers the results in their order: every row once and every error once, at its place. No
batch is empty or too long, and one that is not full is followed by an error or by the end. Once there are
no more rows there are none however often it is asked. Where there is no room for a batch every question
crashes. A cursor is open however often it is asked, and after it was closed, whenever that is, it is closed
and has no more rows. -/
theorem reads_results (results : List (Except CursorError Row)) (batchSize : Nat) :
    let c := ofItems (results.map RowItem.ofResult) batchSize
    (batchSize ≤ Row.batchLimit →
      (∀ k, (c.asked k).next.1 = c.answers[k]?) ∧
        c.answers.flatMap Pull.items = results.map RowItem.ofResult ∧
        ∀ (k : Nat) (batch : List Row), c.answers[k]? = some (.rows batch) →
          batch ≠ [] ∧ batch.length ≤ max batchSize 1 ∧
            (batch.length < max batchSize 1 →
              c.answers[k + 1]? = none ∨ ∃ cause, c.answers[k + 1]? = some (.failed cause))) ∧
      (Row.batchLimit < batchSize → ∀ k, (c.asked k).next.1 = some (.crashed .noRoom)) ∧
      (∀ k, (c.asked k).isClosed = false) ∧
      ∀ early late : List CursorCall,
        (c.calls (early ++ .close :: late)).next.1 = none ∧
          (c.calls (early ++ .close :: late)).isClosed = true := by
  intro c
  refine ⟨fun hroom => ?_, fun hnone => ?_, fun k => (c.asked_keeps k).2, fun early late => ?_⟩
  · obtain ⟨hitems, hasked⟩ := answers_ofItems (RowItem.crashed_notMem_ofResult results) hroom
    refine ⟨hasked, hitems, fun k batch hbatch => ?_⟩
    have hanswer : (c.asked k).next = (some (.rows batch), c.asked (k + 1)) :=
      Prod.ext ((hasked k).trans hbatch) (c.asked_succ_eq_next k).symm
    have hkept : (c.asked k).batchSize = max batchSize 1 := (c.asked_keeps k).1
    obtain ⟨⟨-, hsome, hle⟩, -⟩ := handsOut_of_next hanswer
    refine ⟨hsome, hkept ▸ hle, fun hshort => ?_⟩
    have hnext : (c.asked (k + 1)).next.1 = c.answers[k + 1]? := hasked (k + 1)
    exact hnext ▸ next_of_short (hkept ▸ max_le_batchLimit.mpr hroom) hanswer (hkept ▸ hshort)
  · exact next_asked_of_next_self (next_of_no_room (hnone.trans_le (Nat.le_max_left batchSize 1)))
  · have hclosed : c.calls (early ++ .close :: late) = (c.calls early).close :=
      (List.foldl_append ..).trans ((c.calls early).calls_of_close late)
    rw [hclosed]
    exact ⟨rfl, rfl⟩

/-- Two errors behind a batch that is not full, and a row behind them. -/
theorem reads_results_deferred :
    let results : List (Except CursorError Row) := [.ok (.idOnly "a"), .ok (.idOnly "b"), .ok (.idOnly "c"),
      .error (.read "first"), .error (.read "second"), .ok (.idOnly "d")]
    let c := ofItems (results.map RowItem.ofResult) 2
    c.answers.length = 5 ∧ c.answers.flatMap Pull.items = results.map RowItem.ofResult ∧
      (c.asked 5).next.1 = none := by
  intro results c
  obtain ⟨hroom, -⟩ := reads_results results 2
  obtain ⟨hasked, hitems, -⟩ := hroom (by decide)
  exact ⟨rfl, hitems, hasked 5⟩

/-- A row is not handed out in batches of the greatest size that a word can say. -/
theorem row_lost_without_room :
    (ofItems ([.ok (.idOnly "a")].map RowItem.ofResult) (Word.unsignedEnd - 1)).answers.flatMap Pull.items ≠
      [.ok (.idOnly "a")].map RowItem.ofResult := by
  rw [answers_of_no_room (by decide)]
  simp [Pull.items, RowItem.ofResult]

end RowCursor

end InventoryFeed

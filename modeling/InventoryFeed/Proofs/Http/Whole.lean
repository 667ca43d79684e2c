import InventoryFeed.Proofs.Http.Frames
import InventoryFeed.Proofs.Json.RoundTrip
import InventoryFeed.Proofs.Stream.Completion

/-!
# The whole response

A run of the pump into a new response whose peer stays writes every row and ends well, and the bytes that
arrive are those of one array with an element for each row. They do not depend on the size of the batches,
as long as there is room for one, on the marks, or on the pace of the connection.
-/

namespace InventoryFeed.Http.Response

open ResponseRecord

variable {framing : Framing} {record : ResponseRecord} {r : Response}

/-- A peer that stays is never found to have left. -/
theorem fault_of_stays {made : List UInt8} {q : Line} (h : Line.Carries none made q) :
    q.fault = none := by
  cases hq : q.fault with
  | none => rfl
  | some fault => exact absurd rfl (h.gone fault hq).2

theorem Streams.write_accepts (h : Streams framing none record r) (hopen : r.finished = false)
    (row : Row) : Script.accepts (r.write row).1 = true := by
  obtain ⟨answer, out, hsend, -, hcases⟩ := h.sendBody_eq hopen false (elementBody (r.elements = 0) row)
  unfold Response.write
  rw [if_neg (by simp [hopen]), hsend]
  rcases hcases with ⟨haccepts, -, -⟩ | ⟨-, hfault, hmade⟩
  · rcases Script.accepts_iff.mp haccepts with rfl | rfl <;> rfl
  · exact absurd (fault_of_stays hmade) hfault

theorem Streams.awaitDrain_accepts (h : Streams framing none record r) :
    Script.accepts r.awaitDrain.1 = true := by
  obtain ⟨hcarries, -, -, hanswer⟩ := Line.awaitDrain_carries h.carries _ () rfl
  have hready : r.awaitDrain.1 = .ok .ready := hanswer.trans (if_pos (fault_of_stays hcarries))
  rw [hready]
  rfl

/-- A response that ends well before a peer that stays has delivered all its frames. -/
theorem Streams.finish_whole (h : Streams framing none record r) (hopen : r.finished = false) :
    r.finish.1 = .ok () ∧ r.finish.2.elements = record.accepted.length ∧
      r.finish.2.connection.received =
        rowFrames framing record.accepted ++ closingFrame framing record.accepted := by
  obtain ⟨answer, out, hsend, hended, hcases⟩ := h.sendBody_eq hopen true (closingBody (r.elements = 0))
  unfold Response.finish
  rw [if_neg (by simp [hopen]), hsend]
  rcases hcases with ⟨haccepts, -, hmade⟩ | ⟨-, hfault, hmade⟩
  · obtain ⟨status, rfl⟩ : ∃ status, answer = .ok status := by
      rcases Script.accepts_iff.mp haccepts with rfl | rfl <;> exact ⟨_, rfl⟩
    obtain ⟨last, hdeliver, -, -, hwhole⟩ :=
      deliverAll_carries (r := { r with out, headerSent := true }) hmade
    dsimp only
    rw [hdeliver]
    refine ⟨rfl, h.elements_eq, ?_⟩
    change last.consumer.received = _
    rw [hwhole rfl hended, h.closingFrame_eq]
  · exact absurd (fault_of_stays hmade) hfault

/-- An error that is sent before a peer that stays is accepted, and all of it arrives. -/
theorem Streams.respondError_whole (h : Streams framing none record r) (hheader : r.headerSent = false)
    (hopen : r.finished = false) (status : Nat) (reason : String) (body : Document) :
    ∃ later, r.respondError status reason body = (.ok (), later) ∧
      later.connection.received = errorFrame framing status reason body := by
  have hcarries := h.carries
  rw [h.streamed_eq hopen, h.fresh hheader] at hcarries
  obtain ⟨answer, out, hsend, hended, -, hcases⟩ :=
    sendFrame_carries (errorFrame r.framing status reason body) hcarries
  have hrunning : out.ended = false := hended.trans (h.ended_eq.trans hopen)
  unfold Response.respondError
  rw [if_neg (by simp [hheader, hopen]), hsend]
  rcases hcases with ⟨haccepts, -, -, hmade⟩ | ⟨-, hshut, hmade, -⟩
  · obtain ⟨answered, rfl⟩ : ∃ answered, answer = .ok answered := by
      rcases Script.accepts_iff.mp haccepts with rfl | rfl <;> exact ⟨_, rfl⟩
    obtain ⟨last, hdeliver, -, -, hwhole⟩ :=
      deliverAll_carries (r := { r with out, headerSent := true }) hmade
    refine ⟨_, hdeliver, (hwhole rfl hrunning).trans ?_⟩
    rw [h.framing_eq, rowFrames_nil]
    rfl
  · exact absurd (fault_of_stays hmade) (hshut.resolve_right (by simp [hrunning]))

/-- A response that is closed by force before a peer that stays has delivered no more than its rows, and its
connection is dropped. -/
theorem Streams.forceClose_broken (h : Streams framing none record r) (hopen : r.finished = false) :
    r.forceClose.connection.received <+: rowFrames framing record.accepted ∧
      r.forceClose.connection.forceClosed = true := by
  have hforced : r.out.ended = false := h.ended_eq.trans hopen
  have hcarries := h.carries
  rw [h.streamed_eq hopen] at hcarries
  obtain ⟨hlater, -⟩ := Line.abort_carries hcarries _ () rfl
  exact ⟨(List.prefix_append _ _).trans hlater.order, Line.abort_forceClosed hcarries hforced _ () rfl⟩

/-- A response on its way after the rows given. -/
def OnItsWay (framing : Framing) (rows : List Row) (r : Response) (_ : Unit) : Prop :=
  ∃ record, Streams framing none record r ∧ record.accepted = rows ∧ r.finished = false

/-- A response that delivered all its frames. -/
def Delivered (framing : Framing) (rows : List Row) (r : Response) (_ : Unit) : Prop :=
  r.elements = rows.length ∧
    r.connection.received = rowFrames framing rows ++ closingFrame framing rows

/-- A response whose peer stays accepts every row and ends well. -/
theorem welcomes (framing : Framing) :
    Pump.Welcomes sink (OnItsWay framing) (Delivered framing) where
  write := by
    rintro rows r ⟨⟩ ⟨record, h, rfl, hopen⟩ row _ ⟨⟩ ⟨⟩
    have haccepts := h.write_accepts hopen row
    refine ⟨haccepts, _, h.write row, ?_, ?_⟩
    · rw [accepted_append]
      simp [accepted, haccepts]
    · exact (h.write row).finished_eq.trans (by rw [any_ends_append, ← h.finished_eq, hopen]; rfl)
  awaitDrain := by
    rintro rows r ⟨⟩ ⟨record, h, rfl, hopen⟩ _ ⟨⟩ ⟨⟩
    refine ⟨h.awaitDrain_accepts, _, h.awaitDrain, ?_, ?_⟩
    · rw [accepted_append]
      exact List.append_nil _
    · exact h.awaitDrain.finished_eq.trans (by rw [any_ends_append, ← h.finished_eq, hopen]; rfl)
  finish := by
    rintro rows r ⟨⟩ ⟨record, h, rfl, hopen⟩ _ ⟨⟩ ⟨⟩
    exact h.finish_whole hopen

theorem arrayText_eq (rows : List Row) : arrayText rows = (Document.array (rows.map shown)).write := by
  rw [arrayText, Document.write, Document.writeItems_eq_intercalate, List.map_map]
  rfl

theorem opened_closed (rows : List Row) :
    opened rows ++ (if rows.isEmpty then ['[', ']'] else [']']) = arrayText rows := by
  rw [arrayText_eq, Document.write]
  cases rows with
  | nil => rfl
  | cons row rest => simp [opened]

theorem flatten_bodies_closed (rows : List Row) :
    (bodies rows ++ [closing rows]).flatten = bytes (arrayText rows) := by
  rw [List.flatten_append, flatten_bodies, List.flatten_singleton, closing, ← bytes_append,
    opened_closed]

theorem delivered_bare (rows : List Row) :
    rowFrames .bare rows ++ closingFrame .bare rows = bytes (arrayText rows) := by
  rw [← flatten_bodies_closed, List.flatten_append, List.flatten_singleton]
  rfl

theorem delivered_chunked (rows : List Row) :
    ∃ wire, rowFrames .chunked rows ++ closingFrame .chunked rows = streamHead ++ wire ∧
      readChunks wire = some (bytes (arrayText rows), []) := by
  have hparts : ∀ part ∈ bodies rows ++ [closing rows], part ≠ [] :=
    List.forall_mem_append.mpr ⟨ne_nil_of_mem_bodies rows, by simpa using closing_ne_nil rows⟩
  have hread := readChunks_body hparts []
  rw [List.append_nil, flatten_bodies_closed] at hread
  refine ⟨_, ?_, hread⟩
  rw [rowFrames, closingFrame]
  cases rows <;> simp [bodies]

/-- The text of the array is read as what it holds, if there is no double in it and nothing is nested too
deep. -/
theorem read_arrayText {rows : List Row}
    (h : ∀ row ∈ rows, (shown row).Exact ∧ (shown row).Proper ∧ (shown row).depth ≤ 126) :
    (textOf? (bytes (arrayText rows))).bind Document.read = some (.array (rows.map shown)) := by
  rw [textOf_bytes, arrayText_eq]
  refine Document.read_compact ?_ ?_ (Nat.succ_le_succ ?_)
  · exact Document.exactItems_iff.mpr (List.forall_mem_map.mpr fun row hrow => (h row hrow).1)
  · exact Document.properItems_iff.mpr (List.forall_mem_map.mpr fun row hrow => (h row hrow).2.1)
  · exact Document.itemsDepth_le_iff.mpr (List.forall_mem_map.mpr fun row hrow => (h row hrow).2.2)

/-- A run into a new response whose peer stays completes, and its bytes are those of the array of the rows:
bare, or behind the head in chunks that are read up to the last byte. The array holds the document of each
row, or an object with its id alone, and is read as these if there is no double in them and they are not
nested too deep. Where there is no room for a batch the run crashes and nothing is sent. -/
theorem pump_whole (rows : List Row) (batchSize : Nat) (framing : Framing) (marks : Marks)
    (pace : List Stride) :
    let result := (pump sink Hook.always (RowCursor.ofItems (rows.map .row) batchSize).answers
      (start framing marks pace none) ()).run
    let documents := rows.map fun row => row.doc.getD (.object [("id", .text row.id)])
    let text := '[' :: [','].intercalate (documents.map Document.write) ++ [']']
    (batchSize ≤ Row.batchLimit →
      (∃ waits, result.report = .ok ⟨.completed, rows.length, waits⟩) ∧
      result.sink.elements = rows.length ∧
      (match framing with
        | .bare => result.sink.connection.received = bytes text
        | .chunked => ∃ wire, result.sink.connection.received = streamHead ++ wire ∧
            readChunks wire = some (bytes text, [])) ∧
      ((∀ d ∈ documents, d.Exact ∧ d.Proper ∧ d.depth ≤ 126) →
        (textOf? (bytes text)).bind Document.read = some (.array documents))) ∧
    (Row.batchLimit < batchSize →
      result.report = .error .noRoom ∧ result.sink = start framing marks pace none) := by
  intro result documents text
  refine ⟨fun hroom => ?_, fun hnone => ?_⟩
  · have htext : text = arrayText rows :=
      congrArg (fun parts => '[' :: [','].intercalate parts ++ [']']) List.map_map
    have hstart : OnItsWay framing [] (start framing marks pace none) () :=
      ⟨[], start_streams framing marks pace none, rfl, rfl⟩
    obtain ⟨⟨waits, hreport⟩, helements, hreceived⟩ := Pump.run_completes (welcomes framing)
      (RowCursor.isRows_of_mem_answers rows hroom) hstart result () rfl
    rw [RowCursor.carried_answers rows hroom, List.nil_append] at helements hreceived
    rw [RowCursor.carried_answers rows hroom] at hreport
    rw [htext]
    refine ⟨⟨waits, ?_⟩, helements, ?_, fun h => read_arrayText (List.forall_mem_map.mp h)⟩
    · rw [hreport]
      simp [Session.start]
    · cases framing with
      | bare => exact hreceived.trans (delivered_bare rows)
      | chunked =>
        obtain ⟨wire, hwire, hread⟩ := delivered_chunked rows
        exact ⟨wire, hreceived.trans hwire, hread⟩
  · have hresult : result = ⟨.error .noRoom, start framing marks pace none, ()⟩ := by
      dsimp only [result]
      rw [RowCursor.answers_of_no_room hnone, pump, Pump.run]
      rfl
    rw [hresult]
    exact ⟨rfl, rfl⟩

private def twoRows : List Row :=
  [⟨"1", some (.object [("n", .int (-5)), ("t", .text "]\x7d\r\n0\r\n\r\n")])⟩, ⟨"\u00e9", none⟩]

private def twoDocuments : List Document :=
  [.object [("n", .int (-5)), ("t", .text "]\x7d\r\n0\r\n\r\n")], .object [("id", .text "\u00e9")]]

private def twoText : String :=
  "[\x7b\"n\":-5,\"t\":\"]\x7d\\r\\n0\\r\\n\\r\\n\"\x7d,\x7b\"id\":\"\u00e9\"\x7d]"

theorem pump_whole_two :
    ∃ wire, (pump sink Hook.always (RowCursor.ofItems (twoRows.map .row) 1).answers
        (start .chunked (Marks.clamp 4 2) [⟨1, true⟩] none) ()).run.sink.connection.received =
          streamHead ++ wire ∧
      readChunks wire = some (bytes twoText.toList, []) ∧
      (textOf? (bytes twoText.toList)).bind Document.read = some (.array twoDocuments) := by
  obtain ⟨hroom, -⟩ := pump_whole twoRows 1 .chunked (Marks.clamp 4 2) [⟨1, true⟩]
  obtain ⟨-, -, ⟨wire, hwire, hread⟩, hdocuments⟩ := hroom (by decide)
  have htext : '[' :: [','].intercalate (twoDocuments.map Document.write) ++ [']'] = twoText.toList := by
    decide +kernel
  refine ⟨wire, hwire, htext ▸ hread, htext ▸ hdocuments ?_⟩
  rintro d (_ | ⟨_, _ | ⟨_, ⟨⟩⟩⟩)
  · refine ⟨⟨trivial, trivial, trivial⟩, ⟨by decide, ⟨by decide, by decide⟩, trivial, trivial⟩, ?_⟩
    decide
  · exact ⟨⟨trivial, trivial⟩, ⟨by decide, trivial, trivial⟩, by decide⟩

/-- A run over one row does not complete in batches of the greatest size that a word can say. -/
theorem pump_stopped_without_room : ¬ ∃ waits,
    (pump sink Hook.always (RowCursor.ofItems ([.idOnly "a"].map .row) (Word.unsignedEnd - 1)).answers
      (start .bare (Marks.clamp 4 2) [] none) ()).run.report = .ok ⟨.completed, 1, waits⟩ := by
  rintro ⟨waits, hreport⟩
  rw [RowCursor.answers_of_no_room (by decide), pump, Pump.run] at hreport
  cases hreport

end InventoryFeed.Http.Response

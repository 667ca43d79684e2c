import InventoryFeed.Http.Course
import InventoryFeed.Proofs.Http.Bytes
import InventoryFeed.Proofs.Http.Delivery

/-!
# One response, never two

Whatever is called on a response and in whatever order, the bytes that reach the peer are the first of one
response: that of an error, or the frames of the rows that were accepted and at most one more. Each call
keeps this, whenever the connection takes its frames and whenever the peer goes away.
-/

namespace InventoryFeed.Http

namespace ResponseRecord

variable {record : ResponseRecord} {told : ResponseCall × SinkAnswer}

theorem endsWell_of_unended (h : record.any ResponseCall.ends = false) : record.endsWell = false := by
  have hnone : record.find? ResponseCall.ends = none := by
    simpa [List.find?_eq_none] using h
  rw [endsWell, hnone]

theorem endsWell_append_of_ended (more : ResponseRecord) (h : record.any ResponseCall.ends = true) :
    endsWell (record ++ more) = record.endsWell := by
  obtain ⟨first, hfirst⟩ : ∃ first, record.find? ResponseCall.ends = some first := by
    rw [← Option.isSome_iff_exists, List.find?_isSome]
    simpa using h
  rw [endsWell, List.find?_append, hfirst, Option.some_or, endsWell, hfirst]

theorem endsWell_append_of_unended (h : record.any ResponseCall.ends = false) :
    endsWell (record ++ [told]) = endsWell [told] := by
  have hnone : record.find? ResponseCall.ends = none := by
    simpa [List.find?_eq_none] using h
  rw [endsWell, List.find?_append, hnone, Option.none_or, endsWell]

/-- A call that does not end the response leaves open how it ends. -/
theorem endsWell_append_of_not_ends (h : ResponseCall.ends told = false) :
    endsWell (record ++ [told]) = record.endsWell := by
  cases hended : record.any ResponseCall.ends with
  | true => exact endsWell_append_of_ended _ hended
  | false =>
    rw [endsWell_append_of_unended hended, endsWell_of_unended hended]
    exact endsWell_of_unended (by simpa using h)

theorem accepted_append (more : ResponseRecord) :
    accepted (record ++ more) = record.accepted ++ accepted more := List.filterMap_append

theorem errors_append (more : ResponseRecord) :
    errors (record ++ more) = record.errors ++ errors more := List.filterMap_append

theorem any_ends_append :
    (record ++ [told]).any ResponseCall.ends =
      (record.any ResponseCall.ends || ResponseCall.ends told) := by
  simp [List.any_append]

end ResponseRecord

namespace Response

open ResponseRecord

theorem decide_length_eq_zero {α : Type} (xs : List α) : decide (xs.length = 0) = xs.isEmpty := by
  cases xs <;> rfl

/-- The element of a row is what an array holds for it. -/
theorem element_eq_shown (row : Row) : element row = shown row := by
  rw [element, shown]
  cases row.doc <;> rfl

theorem elementBody_ne_nil (first : Bool) (row : Row) : elementBody first row ≠ [] :=
  bytes_ne_nil _ _

theorem closing_ne_nil (rows : List Row) : closing rows ≠ [] := by
  cases rows <;> exact bytes_ne_nil _ _

theorem bodies_append (rows : List Row) (row : Row) :
    bodies (rows ++ [row]) = bodies rows ++ [elementBody rows.isEmpty row] := by
  rw [bodies, List.mapIdx_concat, ← bodies, elementBody, element_eq_shown]
  cases rows <;> rfl

theorem frame_chunked {body : List UInt8} (hbody : body ≠ []) (first last : Bool) :
    frame .chunked first last body =
      (if first then streamHead else []) ++ chunk body ++ (if last then lastChunk else []) := by
  have hempty : body.isEmpty = false := by simpa using hbody
  rw [frame, hempty]
  rfl

theorem rowFrames_nil (framing : Framing) : rowFrames framing [] = [] := by
  cases framing <;> rfl

/-- The frame of one more row comes after those of the rows before. -/
theorem rowFrames_append (framing : Framing) (rows : List Row) (row : Row) :
    rowFrames framing (rows ++ [row]) =
      rowFrames framing rows ++ frame framing rows.isEmpty false (elementBody rows.isEmpty row) := by
  cases framing with
  | bare => rw [rowFrames, bodies_append, List.flatten_append, List.flatten_singleton, rowFrames, frame]
  | chunked =>
    rw [rowFrames, bodies_append, List.flatMap_append, List.flatMap_singleton, rowFrames,
      frame_chunked (elementBody_ne_nil _ _)]
    cases rows <;> simp [bodies]

/-- The frame that closes the array. -/
theorem frame_closing (framing : Framing) (rows : List Row) :
    frame framing rows.isEmpty true (closingBody rows.isEmpty) = closingFrame framing rows := by
  cases framing with
  | bare => rfl
  | chunked => exact frame_chunked (closing_ne_nil rows) _ _

variable {framing : Framing} {departure : Option Departure} {record : ResponseRecord} {r : Response}

/-- A response that no error was sent for: its frames are those of the rows that were accepted. -/
structure Streams (framing : Framing) (departure : Option Departure) (record : ResponseRecord)
    (r : Response) : Prop where
  framing_eq : r.framing = framing
  errors_eq : record.errors = []
  elements_eq : r.elements = record.accepted.length
  finished_eq : r.finished = record.any ResponseCall.ends
  ended_eq : r.out.ended = r.finished
  /-- The head goes out with the first row. -/
  head : r.out.fault = none → r.finished = false → r.headerSent = !record.accepted.isEmpty
  fresh : r.headerSent = false → record.accepted = []
  carries : Line.Carries departure (streamed framing record) r.out

/-- A response that was ended with an error before its first row. -/
structure Answered (framing : Framing) (departure : Option Departure) (status : Nat) (reason : String)
    (body : Document) (record : ResponseRecord) (r : Response) : Prop where
  errors_eq : record.errors = [(status, reason, body)]
  accepted_eq : record.accepted = []
  finished_eq : r.finished = true
  ended_eq : r.out.ended = true
  carries : Line.Carries departure (errorFrame framing status reason body) r.out

/-- What is known of a response after the calls on it. -/
def Sound (framing : Framing) (departure : Option Departure) (record : ResponseRecord)
    (r : Response) : Prop :=
  Streams framing departure record r ∨
    ∃ status reason body, Answered framing departure status reason body record r

theorem start_streams (framing : Framing) (marks : Marks) (pace : List Stride)
    (departure : Option Departure) :
    Streams framing departure [] (start framing marks pace departure) where
  framing_eq := rfl
  errors_eq := rfl
  elements_eq := rfl
  finished_eq := rfl
  ended_eq := rfl
  head := fun _ _ => rfl
  fresh := fun _ => rfl
  carries := by
    have hnothing : streamed framing [] = [] := (List.append_nil _).trans (rowFrames_nil framing)
    exact hnothing ▸ Line.start_carries marks pace departure

/-- What a queued frame changes in a response, whether it was accepted or not. -/
theorem sendFrame_carries {made : List UInt8} (frame : List UInt8)
    (h : Line.Carries departure made r.out) :
    ∃ answer out, r.sendFrame frame = (answer, { r with out, headerSent := true }) ∧
      out.ended = r.out.ended ∧ (out.fault = none → r.out.fault = none) ∧
      (Script.accepts answer = true ∧ out.fault = none ∧ out.ended = false ∧
          Line.Carries departure (made ++ frame) out ∨
        Script.accepts answer = false ∧ (out.fault ≠ none ∨ out.ended = true) ∧
          Line.Carries departure made out ∧ (out.ended = false → answer = .ok .closed)) :=
  ⟨_, _, rfl, Line.push_carries frame h _ () rfl⟩

theorem deliverAll_carries {made : List UInt8} (h : Line.Carries departure made r.out) :
    ∃ out, r.deliverAll = (.ok (), { r with out, finished := true }) ∧ out.ended = true ∧
      Line.Carries departure made out ∧
      (departure = none → r.out.ended = false → out.consumer.received = made) := by
  obtain ⟨hcarries, hended, hanswer, hwhole⟩ := Line.finish_carries h _ () rfl
  refine ⟨_, ?_, hended, hcarries, hwhole⟩
  rw [deliverAll, ← hanswer]
  rfl

/-- A call that neither ends the response nor accepts a row or an error leaves the account as it is. -/
theorem Streams.told {told : ResponseCall × SinkAnswer} (h : Streams framing departure record r)
    (hends : ResponseCall.ends told = false) (haccepted : accepted [told] = [])
    (herrors : errors [told] = []) : Streams framing departure (record ++ [told]) r := by
  have hrows : accepted (record ++ [told]) = record.accepted := by
    rw [accepted_append, haccepted, List.append_nil]
  have hnone : errors (record ++ [told]) = [] := by
    rw [errors_append, herrors, h.errors_eq, List.append_nil]
  have hstreamed : streamed framing (record ++ [told]) = streamed framing record := by
    rw [streamed, streamed, hrows, endsWell_append_of_not_ends hends]
  exact ⟨h.framing_eq, hnone, by rw [hrows, h.elements_eq],
    by rw [any_ends_append, hends, Bool.or_false, h.finished_eq], h.ended_eq,
    by rw [hrows]; exact h.head, by rw [hrows]; exact h.fresh, by rw [hstreamed]; exact h.carries⟩

/-- Before the end the frames are those of the accepted rows alone. -/
theorem Streams.streamed_eq (h : Streams framing departure record r) (hopen : r.finished = false) :
    streamed framing record = rowFrames framing record.accepted := by
  rw [streamed, endsWell_of_unended (h.finished_eq ▸ hopen)]
  simp

/-- Before the end, the frame of another part of the body carries the head if no row was accepted. -/
theorem Streams.sendBody_eq (h : Streams framing departure record r) (hopen : r.finished = false)
    (last : Bool) (body : List UInt8) :
    ∃ answer out, r.sendBody body last = (answer, { r with out, headerSent := true }) ∧
      out.ended = false ∧
      (Script.accepts answer = true ∧ out.fault = none ∧
          Line.Carries departure (rowFrames framing record.accepted ++
            frame framing record.accepted.isEmpty last body) out ∨
        answer = .ok .closed ∧ out.fault ≠ none ∧
          Line.Carries departure (rowFrames framing record.accepted) out) := by
  have hcarries := h.carries
  rw [h.streamed_eq hopen] at hcarries
  obtain ⟨answer, out, hsend, hended, hfault, hcases⟩ :=
    sendFrame_carries (frame r.framing (!r.headerSent) last body) hcarries
  have hrunning : out.ended = false := hended.trans (h.ended_eq.trans hopen)
  refine ⟨answer, out, hsend, hrunning, ?_⟩
  rcases hcases with ⟨haccepts, hnone, -, hmade⟩ | ⟨-, hshut, hmade, hanswer⟩
  · refine .inl ⟨haccepts, hnone, ?_⟩
    rwa [h.framing_eq, h.head (hfault hnone) hopen, Bool.not_not] at hmade
  · exact .inr ⟨hanswer hrunning, hshut.resolve_right (by simp [hrunning]), hmade⟩

theorem Streams.write (h : Streams framing departure record r) (row : Row) :
    Streams framing departure (record ++ [(.sink (.write row), .status (r.write row).1)])
      (r.write row).2 := by
  unfold Response.write
  split
  · exact h.told rfl rfl rfl
  · rename_i hfinished
    have hopen : r.finished = false := by simpa using hfinished
    obtain ⟨answer, out, hsend, hended, hcases⟩ :=
      h.sendBody_eq hopen false (elementBody (r.elements = 0) row)
    rw [hsend]
    rcases hcases with ⟨haccepts, hfault, hmade⟩ | ⟨rfl, hfault, hmade⟩
    · have hrows : accepted (record ++ [(.sink (.write row), .status answer)]) =
          record.accepted ++ [row] := by
        rw [accepted_append]
        simp [accepted, haccepts]
      have hunended := h.finished_eq ▸ hopen
      have hstreamed : streamed framing (record ++ [(.sink (.write row), .status answer)]) =
          rowFrames framing record.accepted ++
            frame framing record.accepted.isEmpty false (elementBody (r.elements = 0) row) := by
        rw [streamed, hrows, endsWell_append_of_not_ends rfl, endsWell_of_unended hunended,
          rowFrames_append, h.elements_eq, decide_length_eq_zero]
        simp
      have hnext : Streams framing departure (record ++ [(.sink (.write row), .status answer)])
          { r with out, headerSent := true, elements := r.elements + 1 } :=
        ⟨h.framing_eq, by rw [errors_append, h.errors_eq]; rfl,
          by rw [hrows, List.length_append, ← h.elements_eq]; rfl,
          by rw [any_ends_append, hunended, hopen]; rfl, hended.trans hopen.symm,
          fun _ _ => by rw [hrows]; simp, nofun, hstreamed ▸ hmade⟩
      rcases Script.accepts_iff.mp haccepts with rfl | rfl <;> exact hnext
    · rw [← h.streamed_eq hopen] at hmade
      have hsame : Streams framing departure record { r with out, headerSent := true } :=
        ⟨h.framing_eq, h.errors_eq, h.elements_eq, h.finished_eq, hended.trans hopen.symm,
          fun hnone => absurd hnone hfault, nofun, hmade⟩
      exact hsame.told rfl rfl rfl

theorem Streams.awaitDrain (h : Streams framing departure record r) :
    Streams framing departure (record ++ [(.sink .awaitDrain, .status r.awaitDrain.1)])
      r.awaitDrain.2 := by
  obtain ⟨hcarries, hended, hfault, -⟩ := Line.awaitDrain_carries h.carries _ () rfl
  have hsame : Streams framing departure record r.awaitDrain.2 :=
    ⟨h.framing_eq, h.errors_eq, h.elements_eq, h.finished_eq, hended.trans h.ended_eq,
      fun hnone hopen => h.head (hfault hnone) hopen, h.fresh, hcarries⟩
  exact hsame.told rfl rfl rfl

/-- A call that ends the response. -/
theorem Streams.ended {told : ResponseCall × SinkAnswer} {r' : Response}
    (h : Streams framing departure record r) (hends : ResponseCall.ends told = true)
    (haccepted : accepted [told] = []) (herrors : errors [told] = [])
    (hframing : r'.framing = r.framing) (helements : r'.elements = r.elements)
    (hfinished : r'.finished = true) (hended : r'.out.ended = true)
    (hheader : r'.headerSent = false → record.accepted = [])
    (hmade : Line.Carries departure (rowFrames framing record.accepted ++
      if endsWell (record ++ [told]) then closingFrame framing record.accepted else []) r'.out) :
    Streams framing departure (record ++ [told]) r' := by
  have hrows : accepted (record ++ [told]) = record.accepted := by
    rw [accepted_append, haccepted, List.append_nil]
  refine ⟨hframing.trans h.framing_eq, by rw [errors_append, herrors, h.errors_eq]; rfl,
    by rw [hrows, helements, h.elements_eq], by rw [any_ends_append, hends, Bool.or_true, hfinished],
    hended.trans hfinished.symm, fun _ hopen => by simp [hfinished] at hopen, by rwa [hrows], ?_⟩
  rwa [streamed, hrows]

theorem Streams.closingFrame_eq (h : Streams framing departure record r) :
    frame framing record.accepted.isEmpty true (closingBody (r.elements = 0)) =
      closingFrame framing record.accepted := by
  rw [h.elements_eq, decide_length_eq_zero, frame_closing]

theorem Streams.finish (h : Streams framing departure record r) :
    Streams framing departure (record ++ [(.sink .finish, .ended r.finish.1)]) r.finish.2 := by
  unfold Response.finish
  split
  · -- A second end, or one after an end by force, changes nothing.
    rename_i hfinished
    have hmade := h.carries
    refine h.ended rfl rfl rfl rfl rfl hfinished (h.ended_eq.trans hfinished) h.fresh ?_
    rwa [endsWell_append_of_ended _ (h.finished_eq ▸ hfinished)]
  · rename_i hfinished
    have hopen : r.finished = false := by simpa using hfinished
    have hwell (answer : SinkAnswer) : endsWell (record ++ [(.sink .finish, answer)]) = true :=
      endsWell_append_of_unended (h.finished_eq ▸ hopen)
    obtain ⟨answer, out, hsend, hended, hcases⟩ :=
      h.sendBody_eq hopen true (closingBody (r.elements = 0))
    rw [hsend]
    rw [h.closingFrame_eq] at hcases
    -- The closing frame was accepted, or the peer had left before.
    obtain ⟨status, made, rfl, hmade, hfront⟩ : ∃ status made, answer = .ok status ∧
        Line.Carries departure made out ∧
        made <+: rowFrames framing record.accepted ++ closingFrame framing record.accepted := by
      rcases hcases with ⟨haccepts, -, hmade⟩ | ⟨rfl, -, hmade⟩
      · rcases Script.accepts_iff.mp haccepts with rfl | rfl <;>
          exact ⟨_, _, rfl, hmade, List.prefix_rfl⟩
      · exact ⟨.closed, _, rfl, hmade, List.prefix_append _ _⟩
    obtain ⟨last, hdeliver, hlast, hcarries, -⟩ :=
      deliverAll_carries (r := { r with out, headerSent := true }) hmade
    dsimp only
    rw [hdeliver]
    refine h.ended rfl rfl rfl rfl rfl rfl hlast nofun ?_
    rw [hwell]
    exact hcarries.extend hlast hfront

theorem Streams.forceClose (h : Streams framing departure record r) :
    Streams framing departure (record ++ [(.sink .forceClose, .ok)]) r.forceClose := by
  obtain ⟨hcarries, hended⟩ := Line.abort_carries h.carries _ () rfl
  refine h.ended rfl rfl rfl rfl rfl rfl hended h.fresh ?_
  have hsame : endsWell (record ++ [(.sink .forceClose, .ok)]) = record.endsWell := by
    cases hany : record.any ResponseCall.ends with
    | true => exact endsWell_append_of_ended _ hany
    | false =>
      rw [endsWell_append_of_unended hany, endsWell_of_unended hany]
      rfl
  rw [hsame]
  exact hcarries

theorem Streams.respondError (h : Streams framing departure record r) (status : Nat) (reason : String)
    (body : Document) :
    Sound framing departure (record ++ [(.respondError status reason body,
      .ended (r.respondError status reason body).1)]) (r.respondError status reason body).2 := by
  unfold Response.respondError
  split
  · exact .inl (h.told rfl rfl rfl)
  · rename_i hbegun
    obtain ⟨hheader, hopen⟩ : r.headerSent = false ∧ r.finished = false := by simpa using hbegun
    have hnone := h.fresh hheader
    have hnothing : streamed framing record = [] := by
      rw [h.streamed_eq hopen, hnone, rowFrames_nil]
    have hcarries := h.carries
    rw [hnothing] at hcarries
    obtain ⟨answer, out, hsend, hended, -, hcases⟩ :=
      sendFrame_carries (errorFrame r.framing status reason body) hcarries
    have hrunning : out.ended = false := hended.trans (h.ended_eq.trans hopen)
    obtain ⟨answered, made, rfl, hmade, hfront⟩ : ∃ answered made, answer = .ok answered ∧
        Line.Carries departure made out ∧ made <+: errorFrame framing status reason body := by
      rcases hcases with ⟨haccepts, -, -, hmade⟩ | ⟨-, -, hmade, hanswer⟩
      · rw [List.nil_append, h.framing_eq] at hmade
        rcases Script.accepts_iff.mp haccepts with rfl | rfl <;>
          exact ⟨_, _, rfl, hmade, List.prefix_rfl⟩
      · exact ⟨.closed, _, hanswer hrunning, hmade, List.nil_prefix⟩
    obtain ⟨last, hdeliver, hlast, hlater, -⟩ :=
      deliverAll_carries (r := { r with out, headerSent := true }) hmade
    rw [hsend]
    dsimp only
    rw [hdeliver]
    refine .inr ⟨status, reason, body, ?_, ?_, rfl, hlast, hlater.extend hlast hfront⟩
    · rw [errors_append, h.errors_eq]
      rfl
    · rw [accepted_append, hnone]
      rfl

theorem Streams.call (h : Streams framing departure record r) (call : ResponseCall) :
    Sound framing departure (record ++ [(call, (r.call call).1)]) (r.call call).2 := by
  match call with
  | .sink (.write row) => exact .inl (h.write row)
  | .sink .awaitDrain => exact .inl h.awaitDrain
  | .sink .finish => exact .inl h.finish
  | .sink .forceClose => exact .inl h.forceClose
  | .respondError status reason body => exact h.respondError status reason body

section

variable {status : Nat} {reason : String} {body : Document}

theorem Answered.told {told : ResponseCall × SinkAnswer} {r' : Response}
    (h : Answered framing departure status reason body record r) (haccepted : accepted [told] = [])
    (herrors : errors [told] = []) (hfinished : r'.finished = true) (hended : r'.out.ended = true)
    (hcarries : Line.Carries departure (errorFrame framing status reason body) r'.out) :
    Answered framing departure status reason body (record ++ [told]) r' where
  errors_eq := by rw [errors_append, herrors, h.errors_eq]; rfl
  accepted_eq := by rw [accepted_append, haccepted, h.accepted_eq]; rfl
  finished_eq := hfinished
  ended_eq := hended
  carries := hcarries

/-- After an error was sent, nothing more is accepted. -/
theorem Answered.call (h : Answered framing departure status reason body record r)
    (call : ResponseCall) :
    Answered framing departure status reason body (record ++ [(call, (r.call call).1)])
      (r.call call).2 := by
  have hfinished := h.finished_eq
  match call with
  | .sink (.write row) =>
    have hwrite : r.call (.sink (.write row)) = (.status (.error .finished), r) := by
      change (SinkAnswer.status (r.write row).1, (r.write row).2) = _
      rw [write, if_pos hfinished]
    rw [hwrite]
    exact h.told rfl rfl hfinished h.ended_eq h.carries
  | .sink .awaitDrain =>
    obtain ⟨hcarries, hended, -⟩ := Line.awaitDrain_carries h.carries _ () rfl
    exact h.told rfl rfl hfinished (hended.trans h.ended_eq) hcarries
  | .sink .finish =>
    have hfinish : r.call (.sink .finish) = (.ended (.ok ()), r) := by
      change (SinkAnswer.ended r.finish.1, r.finish.2) = _
      rw [Response.finish, if_pos hfinished]
    rw [hfinish]
    exact h.told rfl rfl hfinished h.ended_eq h.carries
  | .sink .forceClose =>
    obtain ⟨hcarries, hended⟩ := Line.abort_carries h.carries _ () rfl
    exact h.told rfl rfl rfl hended hcarries
  | .respondError status' reason' body' =>
    have hrespond : r.call (.respondError status' reason' body') = (.ended (.error .finished), r) := by
      change (SinkAnswer.ended (r.respondError status' reason' body').1,
        (r.respondError status' reason' body').2) = _
      rw [Response.respondError, if_pos (by simp [hfinished])]
    rw [hrespond]
    exact h.told rfl rfl hfinished h.ended_eq h.carries

end

/-- What is known of a response is known after any calls on it. -/
theorem Sound.calls (h : Sound framing departure record r) (calls : List ResponseCall) :
    Sound framing departure (record ++ (r.calls calls).1) (r.calls calls).2 := by
  induction calls generalizing record r with
  | nil => simpa [Response.calls] using h
  | cons call rest ih =>
    have hnext : Sound framing departure (record ++ [(call, (r.call call).1)]) (r.call call).2 := by
      rcases h with h | ⟨status, reason, body, h⟩
      · exact h.call call
      · exact .inr ⟨status, reason, body, h.call call⟩
    have hrest := ih hnext
    rw [List.append_assoc] at hrest
    exact hrest

end Response

end InventoryFeed.Http

import InventoryFeed.Proofs.Http.Reply
import InventoryFeed.Proofs.Store.Cursor
import InventoryFeed.Search
import Mathlib.Data.List.Forall2

/-!
# The reply to a search

A search into a new response whose peer stays is answered with one reply, and the result of the search
says which: an error if the request cannot be routed or its query fails before the first batch, the
array of all rows if the cursor hands them out, and bytes that are no reply if it fails behind a batch.
-/

namespace InventoryFeed

open Http Http.Response

namespace Http.Response

variable {framing : Framing} {rows : List Row} {r : Response}

/-- Something was sent of a response on its way exactly if it has rows. -/
theorem OnItsWay.headerSent_eq (h : OnItsWay framing rows r ()) : r.headerSent = !rows.isEmpty := by
  obtain ⟨record, hstreams, rfl, hopen⟩ := h
  exact hstreams.head (fault_of_stays hstreams.carries) hopen

/-- The end of a run by a failure of the cursor. -/
theorem run_failed (cause : CursorError) (session : Session) (r : Response) :
    (Pump.run sink Hook.always [.failed cause] session r ()).run =
      if r.headerSent then
        ⟨Pump.report (.failedMidStream (.cursor cause)) session, r.forceClose, ()⟩
      else ⟨Pump.report (.failedBeforeStart (.cursor cause)) session, r, ()⟩ := by
  cases hsent : r.headerSent
  · simp [Pump.run, Pump.fail, Hook.always, sink, hsent, Pump.report]
  · simp [Pump.run, Pump.fail, Hook.always, sink, hsent, Pump.report]
    rfl

/-- A new response is on its way, without rows. -/
theorem start_onItsWay (framing : Framing) (marks : Marks) (pace : List Stride) :
    OnItsWay framing [] (start framing marks pace none) () :=
  ⟨[], start_streams framing marks pace none, rfl, rfl⟩

/-- How a run is left that was broken off behind some rows: the peer has only the first bytes of these, and
the connection is dropped. -/
def BrokenOff (framing : Framing) (rows : List Row) (cause : CursorError)
    (result : PumpResult Response Unit) (_ : Unit) : Prop :=
  (∃ waits, result.report = .ok ⟨.failedMidStream (.cursor cause), rows.length, waits⟩) ∧
    result.sink.connection.received <+: rowFrames framing rows ∧
    result.sink.connection.forceClosed = true

/-- A failure behind batches that hold rows breaks a run off. -/
theorem run_brokenOff (h : OnItsWay framing [] r ()) {batches : List (List Row)}
    (hrows : batches.flatten ≠ []) (cause : CursorError) :
    Ensures (pump sink Hook.always (Pull.handedOut batches (some cause)) r ()) ()
      (BrokenOff framing batches.flatten cause) := by
  refine Pump.run_batches (welcomes framing) h ?_
  rintro next s ⟨⟩ hnext hs
  rw [List.nil_append] at hs
  have hsent : s.headerSent = true := by
    rw [hs.headerSent_eq, List.isEmpty_eq_false_iff.mpr hrows]
    rfl
  obtain ⟨record, hstreams, haccepted, hopen⟩ := hs
  obtain ⟨hreceived, hforced⟩ := hstreams.forceClose_broken hopen
  have hrun := run_failed cause next s
  rw [hsent, if_pos rfl] at hrun
  rintro _ ⟨⟩ rfl
  change BrokenOff framing batches.flatten cause
    (Pump.run sink Hook.always [.failed cause] next s ()).run ()
  rw [hrun]
  refine ⟨⟨next.drainWaits, ?_⟩, haccepted ▸ hreceived, hforced⟩
  rw [Pump.report, hnext, Session.start, Nat.zero_add]

end Http.Response

namespace Search

variable {r : Response} {pulls : List Pull} {report : Report}

/-- A run that does not crash is concluded by its report. -/
theorem stream_of_report
    (h : (pump sink Hook.always pulls r ()).run.report = .ok report) :
    stream pulls r = (report, conclude report (pump sink Hook.always pulls r ()).run.sink) := by
  unfold stream
  dsimp only
  rw [h]

/-- An error is answered: it was not refused, and what arrived is one reply with the status and the document
given. -/
def ErrorSent (framing : Framing) (status : Nat) (reason : String) (document : Document)
    (r later : Response) : Prop :=
  r.respondError status reason document = (.ok (), later) ∧
    ∃ body, reply? framing later.connection.received = some (errorReply framing status body) ∧
      (textOf? body).bind Document.read = some document

theorem read_errorBody (message code : String) (field : Option String) :
    Document.read (errorBody message code field).compact = some (errorBody message code field) := by
  have hkeys : (["code", "message", "parameters"] : List String).Pairwise (· < ·) := by decide
  have hparameters : Document.ProperItems
      ((field.map fun f => Document.object [("key", .text f)]).toList) := by
    cases field with
    | none => trivial
    | some f => exact ⟨⟨List.pairwise_singleton _ _, trivial, trivial⟩, trivial⟩
  refine Document.read_compact ?_ ?_ ?_
  · cases field <;> simp [errorBody, Document.Exact, Document.ExactItems, Document.ExactMembers]
  · exact ⟨List.pairwise_singleton _ _,
      ⟨⟨hkeys, trivial, trivial, hparameters, trivial⟩, trivial⟩, trivial⟩
  · cases field <;>
      simp [errorBody, Document.depth, Document.itemsDepth, Document.membersDepth, Json.maxNesting]

/-- Before its first frame a response accepts an error, and the peer reads it. -/
theorem errorSent {framing : Framing} (h : OnItsWay framing [] r ()) (status : Nat) {reason : String}
    (hreason : reason.toList.all isPlain = true) (message code : String) (field : Option String) :
    ErrorSent framing status reason (errorBody message code field) r
      (r.respondError status reason (errorBody message code field)).2 := by
  have hheader : r.headerSent = false := h.headerSent_eq
  obtain ⟨record, hstreams, -, hopen⟩ := h
  obtain ⟨later, hsent, hreceived⟩ := hstreams.respondError_whole hheader hopen status reason
    (errorBody message code field)
  rw [hsent]
  refine ⟨hsent, _, hreceived ▸ reply_errorFrame framing status hreason _, ?_⟩
  rw [textOf_bytes, Option.bind_some]
  exact read_errorBody message code field

/-- How the answers of a cursor that were streamed into a response are answered, by the report. A failure
before the first batch is one reply with an error. If all rows were handed out, the reply is an array of
what the texts of their documents are read as, or of objects with their ids. A failure behind a batch leaves
the first part of such a reply that is none itself, nor is any first part of it, and drops the connection. -/
def Replied (framing : Framing) (pulls : List Pull) (r : Response) (report : Report)
    (later : Response) : Prop :=
  let wire := later.connection.received
  match report.outcome with
  | .failedBeforeStart cause => ∃ failure, pulls = [.failed failure] ∧ cause = .cursor failure ∧
    report.rowsEmitted = 0 ∧
    ErrorSent framing 500 "Internal Server Error" (.object [("errors", .array [.object [
      ("code", .text "query_failed"), ("message", .text cause.text), ("parameters", .array [])]])])
      (pump sink Hook.always pulls r ()).run.sink later
  | .completed => (∀ pull ∈ pulls, pull.isRows = true) ∧
    report.rowsEmitted = (Pull.carried pulls).length ∧
    ∃ body trees, reply? framing wire = some (streamReply framing body) ∧
      (textOf? body).bind Json.Tree.read = some (.array trees) ∧
      List.Forall₂ (fun row tree => Json.Tree.read (shown row).compact = some tree)
        (Pull.carried pulls) trees
  | .failedMidStream cause => ∃ batches failure, pulls = Pull.handedOut batches (some failure) ∧
    cause = .cursor failure ∧ batches ≠ [] ∧ report.rowsEmitted = batches.flatten.length ∧
    (∃ more body, reply? framing (wire ++ more) = some (streamReply framing body)) ∧
    (∀ part, part <+: wire → reply? framing part = none) ∧ later.connection.forceClosed = true
  | .cancelled => False
  | .disconnected => False

variable {framing : Framing} {batches : List (List Row)}

/-- A cursor that hands all rows out. -/
theorem replied_completed (h : OnItsWay framing [] r ()) (hpulls : ∀ pull ∈ pulls, pull.isRows = true) :
    Replied framing pulls r (stream pulls r).1 (stream pulls r).2 := by
  have hrun : Ensures (pump sink Hook.always pulls r ()) () _ :=
    Pump.run_completes (welcomes framing) hpulls h
  obtain ⟨⟨waits, hreport⟩, -, hreceived⟩ := hrun _ () rfl
  rw [List.nil_append] at hreceived
  obtain ⟨trees, hread, htrees⟩ := Document.read_array ((Pull.carried pulls).map shown)
  rw [List.forall₂_map_left_iff] at htrees
  rw [stream_of_report hreport]
  refine ⟨hpulls, Nat.zero_add _, bytes (arrayText (Pull.carried pulls)), trees, ?_, ?_, htrees⟩
  · exact (congrArg (reply? framing) hreceived).trans (reply_streamed framing _)
  · rw [textOf_bytes, Option.bind_some, arrayText_eq]
    exact hread

/-- A cursor that fails before the first batch. -/
theorem replied_failed (h : OnItsWay framing [] r ()) (failure : CursorError)
    (hpulls : pulls = [.failed failure]) :
    Replied framing pulls r (stream pulls r).1 (stream pulls r).2 := by
  have hunsent : r.headerSent = false := h.headerSent_eq
  have hrun := run_failed failure .start r
  rw [hunsent, if_neg Bool.false_ne_true, ← hpulls] at hrun
  have hreport : (pump sink Hook.always pulls r ()).run.report =
      .ok ⟨.failedBeforeStart (.cursor failure), 0, 0⟩ := congrArg PumpResult.report hrun
  have hleft : (pump sink Hook.always pulls r ()).run.sink = r := congrArg PumpResult.sink hrun
  have hreason : "Internal Server Error".toList.all isPlain = true := by decide
  have hsent := errorSent h 500 hreason (StreamError.cursor failure).text "query_failed" none
  rw [stream_of_report hreport, hleft]
  refine ⟨failure, hpulls, rfl, rfl, ?_⟩
  rw [hleft]
  exact hsent

/-- A cursor that fails behind a batch. -/
theorem replied_brokenOff (h : OnItsWay framing [] r ()) (hbatches : batches ≠ [])
    (hrows : ∀ batch ∈ batches, batch ≠ []) (failure : CursorError)
    (hpulls : pulls = Pull.handedOut batches (some failure)) :
    Replied framing pulls r (stream pulls r).1 (stream pulls r).2 := by
  have hflat : batches.flatten ≠ [] := by
    obtain ⟨batch, hbatch⟩ := List.exists_mem_of_ne_nil _ hbatches
    exact fun hnil => hrows batch hbatch (List.flatten_eq_nil_iff.mp hnil batch hbatch)
  obtain ⟨⟨waits, hreport⟩, hreceived, hforced⟩ := run_brokenOff h hflat failure _ () rfl
  rw [← hpulls] at hreport hreceived hforced
  rw [stream_of_report hreport]
  refine ⟨batches, failure, hpulls, rfl, hbatches, rfl, ?_, ?_, hforced⟩
  · obtain ⟨more, hmore⟩ := hreceived.trans (List.prefix_append _ (closingFrame framing _))
    exact ⟨more, bytes (arrayText batches.flatten),
      (congrArg (reply? framing) hmore).trans (reply_streamed framing _)⟩
  · exact fun part hpart => reply_of_unended (hpart.trans hreceived)

end Search

section

variable {catalog : Catalog} {request : Request} (store : Store) (batchSize : Nat) (r : Response)

theorem search_of_error {e : RoutingError} (h : request.route catalog = .error e) :
    search catalog store batchSize request r = (.error e, Search.answerRoutingError e r) := by
  rw [search, h]

theorem search_of_ok {q : RoutedQuery} (h : request.route catalog = .ok q) :
    search catalog store batchSize request r =
      (.ok (Search.stream (store.queryCursor q batchSize) r).1,
        (Search.stream (store.queryCursor q batchSize) r).2) := by
  rw [search, h]

end

/-- A search into a new response whose peer stays is answered with one reply, and its result says with
which. If the request cannot be routed it is an error with status 400 that names the text and the field
of the routing error, whatever the store is. Otherwise it is as the report on the answers of the cursor
says. -/
theorem reply_of_search (catalog : Catalog) (store : Store) (batchSize : Nat) (request : Request)
    (framing : Framing) (marks : Marks) (pace : List Stride) :
    let r := start framing marks pace none
    let (result, later) := search catalog store batchSize request r
    match result with
    | .error e =>
      request.route catalog = .error e ∧
      (∀ other size, search catalog other size request r = (.error e, later)) ∧
      Search.ErrorSent framing 400 "Bad Request" (.object [("errors", .array [.object [
        ("code", .text "invalid_query"), ("message", .text e.message),
        ("parameters", .array [.object [("key", .text e.field)]])]])]) r later
    | .ok report => ∃ q, request.route catalog = .ok q ∧
      Search.Replied framing (store.queryCursor q batchSize) r report later := by
  intro r
  have hstart := start_onItsWay framing marks pace
  cases hroute : request.route catalog with
  | error e =>
    have hsearch (other : Store) (size : Nat) := search_of_error other size r hroute
    rw [hsearch]
    have hreason : "Bad Request".toList.all isPlain = true := by decide
    have hsent := Search.errorSent hstart 400 hreason e.message "invalid_query" (some e.field)
    exact ⟨rfl, hsearch, hsent⟩
  | ok q =>
    rw [search_of_ok store batchSize r hroute]
    refine ⟨q, rfl, ?_⟩
    obtain ⟨batches, ending, hrows, hpulls⟩ := store.queryCursor_eq_handedOut q batchSize
    rcases ending with _ | failure
    · refine Search.replied_completed hstart ?_
      rw [hpulls, Pull.handedOut, Option.map_none, Option.toList_none, List.append_nil]
      exact List.forall_mem_map.mpr fun _ _ => rfl
    · by_cases hbatches : batches = []
      · rw [hbatches] at hpulls
        exact Search.replied_failed hstart failure hpulls
      · exact Search.replied_brokenOff hstart hbatches hrows failure hpulls

end InventoryFeed

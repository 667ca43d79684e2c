import InventoryFeed.Http.Response
import InventoryFeed.Store.Query

/-!
# Search

A request is routed, run and streamed into a response. A request that cannot be routed is answered
with a client error before any query runs, a query that fails before its first row with a server
error; what fails later has closed the response by force.
-/

namespace InventoryFeed

namespace Search

/-- The body of an error response. -/
def errorBody (message code : String) (field : Option String) : Document :=
  .object [("errors", .array [.object [
    ("code", .text code),
    ("message", .text message),
    ("parameters", .array ((field.map fun f => Document.object [("key", .text f)]).toList))]])]

/-- Answer a request that cannot be routed. -/
def answerRoutingError (e : RoutingError) (r : Http.Response) : Http.Response :=
  (r.respondError 400 "Bad Request" (errorBody e.message "invalid_query" (some e.field))).2

/-- Answer a query that failed before its first row. -/
def answerFailure (cause : StreamError) (r : Http.Response) : Http.Response :=
  (r.respondError 500 "Internal Server Error" (errorBody cause.text "query_failed" none)).2

/-- The response after a run: a failure before the first row is answered with an error. -/
def conclude (report : Report) (r : Http.Response) : Http.Response :=
  match report.outcome with
  | .failedBeforeStart cause => answerFailure cause r
  | _ => r

/-- Stream the answers of a cursor into a response; a reader that crashed is one that is gone. -/
def stream (pulls : List Pull) (r : Http.Response) : Report × Http.Response :=
  let result := (pump Http.Response.sink Hook.always pulls r ()).run
  match result.report with
  | .ok report => (report, conclude report result.sink)
  | .error _ =>
    let report : Report := ⟨.failedBeforeStart (.cursor .readerGone), 0, 0⟩
    (report, conclude report result.sink)

end Search

/-- Run a search into a response. -/
def search (catalog : Catalog) (store : Store) (batchSize : Nat) (request : Request)
    (r : Http.Response) : Except RoutingError Report × Http.Response :=
  match request.route catalog with
  | .error e => (.error e, Search.answerRoutingError e r)
  | .ok q =>
    let (report, r) := Search.stream (store.queryCursor q batchSize) r
    (.ok report, r)

end InventoryFeed

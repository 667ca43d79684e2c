import InventoryFeed.CommandLine.Grammar
import InventoryFeed.Job.Basic

/-!
# The commands of the program

Route a query, run it, or start and watch jobs. Options that say how to open and read the database
may stand behind any command.
-/

namespace InventoryFeed.CommandLine

/-- What the program is told to do. -/
inductive Command where
  /-- Show what a query is routed to. -/
  | route (query : String)
  /-- Run a query, with bounds that replace those of the query, as a full response or as its body
  alone. -/
  | search (query : String) (limit offset : Option UInt64) (http : Bool)
  /-- Reindex a resource. -/
  | startReindex (resource : Resource)
  /-- Start an iteration. -/
  | startIteration (params : IterationParams)
  /-- Ask a job to stop. -/
  | cancel (id : String)
  /-- Show a job. -/
  | get (id : String)
  /-- Show all jobs. -/
  | list
  deriving DecidableEq, Repr

/-- A command line. -/
structure Arguments where
  /-- Path of the database. -/
  db : Option String
  /-- Whether to report more. -/
  verbose : Option Bool
  /-- Whether the database is encrypted. -/
  encrypt : Option Bool
  /-- Rows of a cursor batch. -/
  batchSize : Option UInt64
  /-- What to do. -/
  command : Command
  deriving DecidableEq, Repr

/-- The options that may stand behind any command. -/
def sharedOptions : List Parameter := [
  ⟨"db", some 'd', .one, .path, false⟩,
  ⟨"verbose", some 'v', .atMostOne "true", .truth, false⟩,
  ⟨"encrypt", some 'x', .atMostOne "true", .truth, false⟩,
  ⟨"batch-size", none, .one, .count, false⟩]

/-- The query of a command. -/
def queryOption : Parameter := ⟨"query", some 'q', .one, .text, true⟩

/-- Whether to show how far a job is. -/
def waitOption : Parameter := ⟨"wait", some 'w', .bare, .truth, false⟩

/-- The resource of a reindex. -/
def resourceArgument : Parameter :=
  ⟨"resource", none, .one, .oneOf ["instance", "authority"], true⟩

/-- The id of a job. -/
def idArgument : Parameter := ⟨"id", none, .one, .text, true⟩

/-- A command without commands below it. -/
def leaf (name : String) (options : List Parameter) (argument : Option Parameter) : Form :=
  .mk name (sharedOptions ++ options) argument []

/-- The commands on jobs. -/
def jobForms : List Form := [
  leaf "start" [waitOption] (some resourceArgument),
  leaf "iterate" [
    ⟨"topic", some 't', .one, .text, true⟩, ⟨"event-type", none, .one, .text, false⟩,
    waitOption] none,
  leaf "cancel" [] (some idArgument),
  leaf "get" [] (some idArgument),
  leaf "list" [] none]

/-- The form of a command line. -/
def programForm : Form :=
  .mk "invstream" sharedOptions none [
    leaf "route" [queryOption] none,
    leaf "search" [
      queryOption, ⟨"limit", none, .one, .count, false⟩, ⟨"offset", none, .one, .count, false⟩,
      ⟨"http", none, .bare, .truth, false⟩] none,
    .mk "reindex" sharedOptions none jobForms]

/-- What the program says about its commands. -/
def helpText : String :=
  String.join (([
    "Route inventory queries to pre-joined views, stream results, run reindex jobs.",
    "",
    "Usage: invstream [OPTIONS] <COMMAND>",
    "",
    "Commands:",
    "  route -q QUERY",
    "  search -q QUERY [--limit N] [--offset N] [--http]",
    "  reindex start instance|authority [-w]",
    "  reindex iterate -t TOPIC [--event-type TYPE] [-w]",
    "  reindex cancel ID",
    "  reindex get ID",
    "  reindex list",
    "",
    "Options:",
    "  -d, --db PATH  -v, --verbose [BOOL]  -x, --encrypt [BOOL]  --batch-size N  -h, --help"]
  ).map (· ++ "\n"))

/-- The command of what was read. -/
def Command.ofReading? (r : Reading) : Option Command :=
  match r.commands with
  | ["route"] => (r.text? "query").map .route
  | ["search"] => (r.text? "query").map fun query =>
    .search query (r.count? "limit") (r.count? "offset") ((r.truth? "http").getD false)
  | ["reindex", "start"] => (r.text? "resource").map fun name =>
    .startReindex (if name = "authority" then .authorities else .instances)
  | ["reindex", "iterate"] => (r.text? "topic").map fun topic =>
    .startIteration ⟨topic, r.text? "event-type"⟩
  | ["reindex", "cancel"] => (r.text? "id").map .cancel
  | ["reindex", "get"] => (r.text? "id").map .get
  | ["reindex", "list"] => some .list
  | _ => none

/-- Read a command line. -/
def Arguments.read (words : List String) : Except UsageError Arguments := do
  let r ← programForm.read words
  match Command.ofReading? r with
  | none => .error .missingArgument
  | some command =>
    pure ⟨r.text? "db", r.truth? "verbose", r.truth? "encrypt", r.count? "batch-size", command⟩

end InventoryFeed.CommandLine

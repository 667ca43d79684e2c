import InventoryFeed.Catalog.Configured
import InventoryFeed.CommandLine.Arguments
import InventoryFeed.CommandLine.Shown
import InventoryFeed.CommandLine.Site
import InventoryFeed.CommandLine.Variables
import InventoryFeed.Job.Passes
import InventoryFeed.Query.Form
import InventoryFeed.Search

/-!
# Running a command

A command reads its words, then the settings of the place where it runs, then makes the catalog, and
then does what it is told. Settings that cannot be read count as none. A database is opened before it
is searched or a job is looked at: made if there is none, and with its key if it has one. The key is
taken from the environment, else from the file of variables.
-/

namespace InventoryFeed

/-- The request that a text makes: a request, or a predicate alone. -/
def Request.ofText? (text : String) : Option Request :=
  Request.read text <|> (Predicate.read text).map Request.ofPredicate

/-- A request with the bounds of a command line in the place of its own. -/
def Request.bounded (limit offset : Option UInt64) (r : Request) : Request :=
  { r with limit := limit <|> r.limit, offset := offset.getD r.offset }

/-- How passes are tuned by the options. -/
def PassTuning.ofOptions (o : Options) : PassTuning :=
  ⟨o.batchSize, o.events, o.effectiveProgressEvery, []⟩

namespace CommandLine

/-- Why a command fails. -/
inductive RunError where
  /-- The words make no command. -/
  | usage (cause : UsageError)
  /-- The settings make no catalog. -/
  | configuration (cause : ConfigurationError)
  /-- The file of a query cannot be read. -/
  | readQuery (path : String)
  /-- A query is neither a request nor a predicate. -/
  | parseQuery
  /-- A query cannot be routed. -/
  | routing (cause : RoutingError)
  /-- There is no key for a database that needs one. -/
  | readKey
  /-- There can be no database at a path. -/
  | openDatabase (path : String)
  /-- A file is no database, or not one of this key. -/
  | unreadableDatabase
  /-- A search failed after it was routed. -/
  | searchFailed (outcome : Outcome)
  /-- There can be no event log at a path. -/
  | openLog (path : String)
  /-- A request about a job is refused. -/
  | job (cause : JobError)
  deriving DecidableEq, Repr

/-- The wording of a failure. -/
def RunError.message : RunError → String
  | usage cause => cause.kind
  | configuration cause => cause.message
  | readQuery path => "read " ++ path
  | parseQuery => "parse query"
  | routing cause => cause.message
  | readKey => "read passphrase"
  | openDatabase path => "open database " ++ path
  | unreadableDatabase => "enable WAL"
  | searchFailed outcome => "search failed: " ++ outcome.label
  | openLog path => "open event log " ++ path
  | job cause => cause.message

/-- The file of the settings. -/
def settingsFile : String := ".invstream.toml"

/-- The database where none is named. -/
def defaultDatabase : String := ".invstream"

/-- The event log where none is named. -/
def defaultLog : String := "invstream.events"

/-- The file of variables. -/
def variablesFile : String := ".env"

/-- The variable that holds the key of the database. -/
def keyVariable : String := "INVSTREAM_DB_KEY"

/-- The options with those of a command line in their place. -/
def Arguments.apply (a : Arguments) (o : Options) : Options :=
  { o with
    dbPath := a.db <|> o.dbPath
    batchSize := (a.batchSize.map fun n => max n.toNat 1).getD o.batchSize
    verbose := a.verbose.getD o.verbose
    encrypt := a.encrypt.getD o.encrypt }

/-- A key without the blanks around it; blanks alone are none. -/
def keyOf? (value : Option String) : Option String :=
  (value.map Text.trim).filter fun key => !key.isEmpty

section

variable {m : Type → Type} [Monad m] (site : Site m)

/-- The request of a query, which is a text or names a file behind `@`. -/
def readRequest (query : String) : ExceptT RunError m Request := do
  let text ← match query.toList with
    | '@' :: path => do
      let path := String.ofList path
      match ← site.readText path with
      | some text => pure text
      | none => throw (.readQuery path)
    | _ => pure query
  match Request.ofText? text with
  | some request => pure request
  | none => throw .parseQuery

/-- The key of the database. -/
def readKey : ExceptT RunError m String := do
  let stated ← site.environment keyVariable
  let fromFile ← site.readText variablesFile
  let stored := match stated with
    | some _ => keyOf? stated
    | none => keyOf? ((fromFile.bind Variables.read).bind (Variables.value? keyVariable))
  match stored with
  | some key => pure key
  | none => throw .readKey

/-- The database of a path, opened with a key or without. -/
def openWith (path : String) (key : Option String) : DatabaseFile → Except RunError Database
  | .unreachable => .error (.openDatabase path)
  | .absent => .ok ⟨.empty, key⟩
  | .foreign => .error .unreadableDatabase
  | .found database =>
    if database.key = key then .ok { database with store := database.store.restored }
    else .error .unreadableDatabase

/-- Whether a file needs no key. -/
def DatabaseFile.isOpen : DatabaseFile → Bool
  | .foreign => false
  | .found database => database.key.isNone
  | _ => true

/-- Open the database, which is there afterwards. -/
def openDatabase (path : String) (encrypt : Bool) : ExceptT RunError m Database := do
  let file ← site.readDatabase path
  let key ← if encrypt || !file.isOpen then some <$> readKey site else pure none
  let database ← ExceptT.mk (pure (openWith path key file))
  site.writeDatabase path database
  pure database

/-- Show what a query is routed to. -/
def runRoute (catalog : Catalog) (query : String) : ExceptT RunError m Unit := do
  let request ← readRequest site query
  match request.route catalog with
  | .ok routed => site.print routed.shown
  | .error e => throw (.routing e)

/-- Run a query and print the response. -/
def runSearch (catalog : Catalog) (o : Options) (store : Store) (request : Request) (http : Bool) :
    ExceptT RunError m Unit := do
  let framing : Http.Framing := if http then .chunked else .bare
  let (answer, r) := search catalog store o.batchSize request (.start framing o.http [] none)
  site.print (r.release.text)
  match answer with
  | .error e => throw (.routing e)
  | .ok report =>
    if !http then site.print "\n"
    if report.outcome.cause?.isSome then throw (.searchFailed report.outcome)

/-- Start a job, let its pass run to its end, and print the job before and after; its events go to
the log at a path. -/
def runJob (o : Options) (path logPath : String) (log : EventLog) (database : Database)
    (newJob : String → String → Job) : ExceptT RunError m Unit := do
  let (id, submitted) ← site.newJob
  let job := newJob id submitted
  let store := database.store
  let start : Passes EventLog := ⟨⟨store.jobs, log⟩, .none, []⟩
  let corpus := CorpusOpening.opened (store.corpusCursor job.resource o.batchSize)
  match start.launch (PassTuning.ofOptions o) corpus job with
  | .error e => throw (.job e)
  | .ok passes => do
    site.print job.shown
    let passes := passes.runUntil (fun _ => false) EventLog.bus id
    site.appendLog logPath (String.ofList passes.shared.bus.text)
    site.writeDatabase path { database with store := { store with jobs := passes.shared.jobs } }
    match (passes.desk.get id).1 with
    | .ok job => site.print job.shown
    | .error e => throw (.job e)

/-- Print a job, or fail if there is none. -/
def printJob : Except JobError Job → ExceptT RunError m Unit
  | .ok job => site.print job.shown
  | .error e => throw (.job e)

/-- Do what a command on jobs says. -/
def runOnJobs (o : Options) (path logPath : String) (log : EventLog) (database : Database) :
    Command → ExceptT RunError m Unit
  | .startReindex resource => runJob site o path logPath log database fun id => .reindex id resource
  | .startIteration params =>
    match params.check with
    | .error e => throw (.job e)
    | .ok () => runJob site o path logPath log database fun id => .iteration id params
  | .cancel id => do
    let (answer, d) := (⟨database.store.jobs, .none⟩ : JobDesk).cancel id
    site.writeDatabase path { database with store := { database.store with jobs := d.table } }
    printJob site answer
  | .get id => printJob site ((⟨database.store.jobs, .none⟩ : JobDesk).get id).1
  | .list =>
    match (⟨database.store.jobs, .none⟩ : JobDesk).list with
    | .error e => throw (.job e)
    | .ok [] => site.print "no jobs\n"
    | .ok jobs => site.print (String.join (jobs.map (·.shown)))
  | _ => pure ()

/-- Do what a command line says. -/
def runArguments (a : Arguments) : ExceptT RunError m Unit := do
  let settings := (← site.readText settingsFile).bind Settings.read
  let o := a.apply ((settings.map fun s => s.apply {}).getD {})
  let path := o.dbPath.getD defaultDatabase
  match Settings.toCatalog settings with
  | .error e => throw (.configuration e)
  | .ok catalog =>
    match a.command with
    | .route query => runRoute site catalog query
    | .search query limit offset http => do
      let request := (← readRequest site query).bounded limit offset
      let database ← openDatabase site path o.encrypt
      runSearch site catalog o database.store request http
    | command => do
      let database ← openDatabase site path o.encrypt
      let logPath := o.eventsPath.getD defaultLog
      match ← site.openLog logPath with
      | some log => runOnJobs site o path logPath log database command
      | none => throw (.openLog logPath)

/-- Run the words of a command line. -/
def run (words : List String) : ExceptT RunError m Unit :=
  match Arguments.read words with
  | .ok a => runArguments site a
  | .error e => throw (.usage e)

end

end CommandLine

end InventoryFeed

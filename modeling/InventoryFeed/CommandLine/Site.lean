import InventoryFeed.Event.Publisher
import InventoryFeed.Keyed
import InventoryFeed.Store.Basic

/-!
# Where a command runs

What a command needs of the place where it runs: texts, databases, an event log, the environment, its
output, and an id and a date for a new job. `Folder` is such a place that is kept in memory: one
folder without folders in it, beside the device that is always full.
-/

namespace InventoryFeed.CommandLine

/-- The path of the device that has no room for anything. -/
def fullDevice : String := "/dev/full"

/-- A database with the key that it was made with, if it was made with one. -/
structure Database where
  /-- The records and the jobs. -/
  store : Store
  /-- The key. -/
  key : Option String
  deriving Repr

/-- What there is at the path of a database. -/
inductive DatabaseFile where
  /-- No file can be there. -/
  | unreachable
  /-- Nothing yet. -/
  | absent
  /-- A file that is no database. -/
  | foreign
  /-- A database. -/
  | found (database : Database)
  deriving Repr

/-- What a command needs of the place where it runs. -/
structure Site (m : Type → Type) where
  /-- The text of a file, none if it cannot be read. -/
  readText : String → m (Option String)
  /-- What there is at the path of a database. -/
  readDatabase : String → m DatabaseFile
  /-- Put a database at a path that can be reached. -/
  writeDatabase : String → Database → m Unit
  /-- Open an event log, which is made if there is none; none if there can be no file at the path. -/
  openLog : String → m (Option EventLog)
  /-- Add text to an event log. -/
  appendLog : String → String → m Unit
  /-- Write to the output. -/
  print : String → m Unit
  /-- A variable of the environment. -/
  environment : String → m (Option String)
  /-- An id for a new job and the present date. -/
  newJob : m (String × String)

/-- A folder in memory with an environment and an output. -/
structure Folder where
  /-- The texts by the names of their files. -/
  texts : List (String × String)
  /-- The databases by the names of their files. -/
  databases : List (String × Database)
  /-- The variables of the environment. -/
  environment : List (String × String)
  /-- The output so far. -/
  output : String
  /-- The ids and dates of jobs to come. -/
  newJobs : List (String × String)
  deriving Repr

namespace Folder

/-- The file name of a path, none if the path leads out of the folder. -/
def fileName? (path : String) : Option String :=
  let name := match path.toList with
    | '.' :: '/' :: rest => rest
    | name => name
  if name.isEmpty || name.contains '/' || name = ['.'] || name = ['.', '.'] then none
  else some (String.ofList name)

/-- The text of a file. -/
def text? (folder : Folder) (path : String) : Option String :=
  (fileName? path).bind fun name => Keyed.get? name folder.texts

/-- What there is at the path of a database; an empty file is one that is still to be made. -/
def databaseFile (folder : Folder) (path : String) : DatabaseFile :=
  match fileName? path with
  | none => .unreachable
  | some name =>
    match Keyed.get? name folder.databases, Keyed.get? name folder.texts with
    | some database, _ => .found database
    | none, some text => if text.isEmpty then .absent else .foreign
    | none, none => .absent

/-- The folder with a database in it. -/
def withDatabase (folder : Folder) (path : String) (database : Database) : Folder :=
  match fileName? path with
  | none => folder
  | some name =>
    { folder with
      databases := Keyed.put name database folder.databases
      texts := folder.texts.filter fun entry => entry.1 ≠ name }

/-- The folder with text at the end of a file. -/
def withMore (folder : Folder) (path text : String) : Folder :=
  match fileName? path with
  | none => folder
  | some name =>
    let before := (Keyed.get? name folder.texts).getD ""
    { folder with texts := Keyed.put name (before ++ text) folder.texts }

/-- The names of the files in order. -/
def fileNames (folder : Folder) : List String :=
  (Keyed.ofList (folder.texts.map (fun entry => (entry.1, ()))
    ++ folder.databases.map fun entry => (entry.1, ()))).map (·.1)

/-- A folder as the place where a command runs. -/
def site : Site (StateM Folder) where
  readText path := do pure ((← get).text? path)
  readDatabase path := do pure ((← get).databaseFile path)
  writeDatabase path database := modify fun folder => folder.withDatabase path database
  openLog path := do
    modify fun folder => folder.withMore path ""
    pure (if path = fullDevice then some { full := true }
      else (fileName? path).map fun _ => {})
  appendLog path text := modify fun folder => folder.withMore path text
  print text := modify fun folder => { folder with output := folder.output ++ text }
  environment name := do pure (Keyed.get? name (← get).environment)
  newJob := do
    let folder ← get
    set { folder with newJobs := folder.newJobs.tail }
    pure (folder.newJobs.head?.getD ("", ""))

end Folder

end InventoryFeed.CommandLine

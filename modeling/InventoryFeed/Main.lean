import InventoryFeed.CommandLine.Run
import InventoryFeed.CommandLine.Stamp
import InventoryFeed.Store.Snapshot
import Std.Time.DateTime

/-!
# The program

The command line over the files and the environment of the machine. A failure is told on the error
output.
-/

namespace InventoryFeed.CommandLine

/-- Whether a file can be written at a path; it is there afterwards. -/
def reachable (path : String) : IO Bool := do
  try
    IO.FS.withFile path .append fun _ => pure ()
    pure true
  catch _ => pure false

/-- What bytes there are in a file, none if it cannot be read. -/
def bytesOf (path : String) : IO (Option ByteArray) := do
  try
    pure (some (← IO.FS.readBinFile path))
  catch _ => pure none

/-- The database that the bytes of a file are. -/
def databaseOf (bytes : ByteArray) : DatabaseFile :=
  if bytes.isEmpty then .absent
  else
    match (String.fromUTF8? bytes).bind Snapshot.read with
    | some (store, key) => .found ⟨store, key⟩
    | none => .foreign

/-- The present date. -/
def now : IO String := do
  let time ← Std.Time.Timestamp.now
  pure (dateText time.toMillisecondsSinceUnixEpoch.val.toNat)

/-- The working folder of the machine. -/
def workingFolder : Site IO where
  readText path := do pure ((← bytesOf path).bind String.fromUTF8?)
  readDatabase path := do
    match ← bytesOf path with
    | some bytes => pure (databaseOf bytes)
    | none => pure (if ← reachable path then .absent else .unreachable)
  writeDatabase path database :=
    IO.FS.writeFile path (Snapshot.write database.store database.key)
  openLog path := do
    pure (if ← reachable path then some { full := path = fullDevice } else none)
  appendLog path text := IO.FS.withFile path .append fun h => h.putStr text
  print text := do
    let output ← IO.getStdout
    output.putStr text
    output.flush
  environment name := IO.getEnv name
  newJob := do
    let random ← (List.range 32).mapM fun _ => IO.rand 0 15
    pure (idText random, ← now)

end InventoryFeed.CommandLine

open InventoryFeed.CommandLine

/-- Run the command line. -/
def main (words : List String) : IO UInt32 := do
  match ← run workingFolder words with
  | .ok () => pure 0
  | .error (.usage .helpWanted) => do
    IO.print helpText
    pure 0
  | .error (.usage cause) => do
    IO.eprint ("error: " ++ cause.kind ++ "\n\n" ++ helpText)
    pure 2
  | .error cause => do
    IO.eprintln ("Error: " ++ cause.message)
    pure 1

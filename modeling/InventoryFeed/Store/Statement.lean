import InventoryFeed.Store.Basic
import InventoryFeed.Text.Ascii
import InventoryFeed.Word

/-!
# Statements by hand

The few statements with which someone edits a database directly: changing columns of rows, deleting
rows, dropping a table, inserting rows as they are. Statements are divided by semicolons and run one
after the other; the first that cannot be read or run ends the run, and what was done before it stays
done. A statement that fails changes nothing.
-/

namespace InventoryFeed

/-- A statement. -/
inductive Statement where
  /-- Set columns of all rows, or of the row with an id. -/
  | update (table : String) (changes : List (String × Sql.Value)) (id : Option Sql.Value)
  /-- Delete all rows, or the row with an id. -/
  | delete (table : String) (id : Option Sql.Value)
  /-- Drop a table; whether it may be gone already. -/
  | drop (table : String) (maybe : Bool)
  /-- Insert rows, a value for each column. -/
  | insert (table : String) (rows : List (List Sql.Value))
  deriving Repr

namespace Statement

/-- A word or sign of a statement. -/
inductive Token where
  /-- A name or a keyword. -/
  | word (text : String)
  /-- A text between quotes. -/
  | text (value : String)
  /-- Digits. -/
  | digits (value : Nat)
  /-- Any other character. -/
  | sign (c : Char)
  deriving DecidableEq, Repr

/-- A text up to its closing quote, a quote inside being written twice, and what follows. -/
def readText : List Char → Option (List Char × List Char)
  | [] => none
  | '\'' :: '\'' :: rest => (readText rest).map fun (cs, rest) => ('\'' :: cs, rest)
  | '\'' :: rest => some ([], rest)
  | c :: rest => (readText rest).map fun (cs, rest) => (c :: cs, rest)

/-- The tokens of a text; a text without its closing quote is left as a sign. -/
def tokens : Nat → List Char → List Token
  | 0, _ => []
  | _ + 1, [] => []
  | fuel + 1, c :: rest =>
    if c = ' ' ∨ c = '\n' ∨ c = '\t' ∨ c = '\r' then tokens fuel rest
    else if c = '\'' then
      match readText rest with
      | some (cs, rest) => .text (String.ofList cs) :: tokens fuel rest
      | none => [.sign c]
    else if Ascii.isDigit c then
      .digits (Ascii.ofDigits 10 (c :: rest.takeWhile Ascii.isDigit))
        :: tokens fuel (rest.dropWhile Ascii.isDigit)
    else if Ascii.isWord c then
      .word (String.ofList (c :: rest.takeWhile Ascii.isWord))
        :: tokens fuel (rest.dropWhile Ascii.isWord)
    else .sign c :: tokens fuel rest

/-- The parts of a list between semicolons. -/
def splitAtSemicolons : List Token → List (List Token)
  | [] => [[]]
  | .sign ';' :: rest => [] :: splitAtSemicolons rest
  | t :: rest =>
    match splitAtSemicolons rest with
    | part :: parts => (t :: part) :: parts
    | [] => [[t]]

/-- Whether a token is a keyword, in any letter case. -/
def isKeyword (keyword : String) : Token → Bool
  | .word text => Ascii.sameIgnoringCase text keyword
  | _ => false

/-- Skip keywords. -/
def skip (keywords : List String) (ts : List Token) : Option (List Token) :=
  keywords.foldlM (fun ts keyword =>
    match ts with
    | t :: rest => if isKeyword keyword t then some rest else none
    | [] => none) ts

/-- A value at the front. -/
def readValue : List Token → Option (Sql.Value × List Token)
  | .text value :: rest => some (.text value, rest)
  | .digits n :: rest => some (.integer n, rest)
  | .sign '-' :: .digits n :: rest => some (.integer (-n), rest)
  | .word w :: rest => if Ascii.sameIgnoringCase w "null" then some (.null, rest) else none
  | _ => none

/-- Values between parentheses; `fuel` bounds their number. -/
def readValues : Nat → List Token → Option (List Sql.Value × List Token)
  | 0, _ => none
  | fuel + 1, ts => do
    let (value, rest) ← readValue ts
    match rest with
    | .sign ',' :: rest =>
      let (values, rest) ← readValues fuel rest
      pure (value :: values, rest)
    | .sign ')' :: rest => pure ([value], rest)
    | _ => none

/-- The rows of an insertion. -/
def readRows : Nat → List Token → Option (List (List Sql.Value))
  | 0, _ => none
  | fuel + 1, .sign '(' :: rest => do
    let (row, rest) ← readValues fuel rest
    match rest with
    | [] => pure [row]
    | .sign ',' :: rest =>
      let rows ← readRows fuel rest
      pure (row :: rows)
    | _ => none
  | _ + 1, _ => none

/-- The condition on the id, if there is one. -/
def readCondition : List Token → Option (Option Sql.Value)
  | [] => some none
  | ts => do
    match ← skip ["where", "id"] ts with
    | .sign '=' :: rest =>
      let (value, rest) ← readValue rest
      if rest.isEmpty then pure (some value) else none
    | _ => none

/-- The changes of an update and the condition after them. -/
def readChanges : Nat → List Token → Option (List (String × Sql.Value) × Option Sql.Value)
  | 0, _ => none
  | fuel + 1, .word column :: .sign '=' :: rest => do
    let (value, rest) ← readValue rest
    match rest with
    | .sign ',' :: rest =>
      let (changes, id) ← readChanges fuel rest
      pure ((column, value) :: changes, id)
    | rest =>
      let id ← readCondition rest
      pure ([(column, value)], id)
  | _ + 1, _ => none

/-- The table of a drop. -/
def readDrop : List Token → Option Statement
  | [.word table] => some (.drop table false)
  | ts =>
    match skip ["if", "exists"] ts with
    | some [.word table] => some (.drop table true)
    | _ => none

/-- One statement. -/
def ofTokens? (ts : List Token) : Option Statement :=
  match ts with
  | .word first :: rest =>
    if Ascii.sameIgnoringCase first "update" then
      match rest with
      | .word table :: rest => do
        let (changes, id) ← readChanges ts.length (← skip ["set"] rest)
        pure (.update table changes id)
      | _ => none
    else if Ascii.sameIgnoringCase first "delete" then
      match skip ["from"] rest with
      | some (.word table :: rest) => (readCondition rest).map (.delete table)
      | _ => none
    else if Ascii.sameIgnoringCase first "drop" then
      (skip ["table"] rest).bind readDrop
    else if Ascii.sameIgnoringCase first "insert" then
      match skip ["into"] rest with
      | some (.word table :: rest) => do
        let rows ← readRows ts.length (← skip ["values"] rest)
        pure (.insert table rows)
      | _ => none
    else none
  | _ => none

/-- The statements of a text; none for one that cannot be read. -/
def readAll (text : String) : List (Option Statement) :=
  let cs := text.toList
  ((splitAtSemicolons (tokens (cs.length + 1) cs)).filter fun part => !part.isEmpty).map ofTokens?

end Statement

namespace StoredJob

/-- A value as a text column holds it; none for nothing, which it cannot hold. -/
def asText (v : Sql.Value) : Option String := v.text?

/-- The integer that a text is. -/
def integerText? (s : String) : Option Int :=
  let sized (cs : List Char) : Option Nat :=
    if cs.isEmpty || !cs.all Ascii.isDigit then none else some (Ascii.ofDigits 10 cs)
  match s.toList with
  | '-' :: cs => (sized cs).map fun n => -(n : Int)
  | '+' :: cs => (sized cs).map fun n => (n : Int)
  | cs => (sized cs).map fun n => (n : Int)

/-- A value as an integer column holds it: a text that is an integer becomes one. -/
def asInteger : Sql.Value → Option Sql.Value
  | .null => none
  | .text s =>
    match integerText? s with
    | some n => if Word.isSigned n then some (.integer n) else some (.text s)
    | none => some (.text s)
  | v => some v

/-- Set a column; none if there is no such column or it cannot hold the value. -/
def setColumn (r : StoredJob) (column : String) (v : Sql.Value) : Option StoredJob :=
  let named (name : String) : Bool := Ascii.sameIgnoringCase column name
  if named "id" then (asText v).map fun s => { r with id := s }
  else if named "job_kind" then (asText v).map fun s => { r with kind := s }
  else if named "resource_name" then (asText v).map fun s => { r with resource := s }
  else if named "topic_name" then (asText v).map fun s => { r with topic := s }
  else if named "event_type" then (asText v).map fun s => { r with eventType := s }
  else if named "job_status" then (asText v).map fun s => { r with status := s }
  else if named "submitted_date" then (asText v).map fun s => { r with submitted := s }
  else if named "published" then (asInteger v).map fun v => { r with published := v }
  else if named "cancel_requested" then (asInteger v).map fun v => { r with cancelRequested := v }
  else none

/-- A row with a value for each column. -/
def ofValues? (values : List Sql.Value) : Option StoredJob :=
  if values.length = columns.length then
    (columns.zip values).foldlM (fun r (column, v) => r.setColumn column v) default
  else none

/-- Whether a row is the one that a condition on the id chooses. -/
def chosenBy (id : Option Sql.Value) (own : String) : Bool :=
  match id with
  | none => true
  | some v => v.text? = some own

end StoredJob

namespace JobTable

/-- Whether no id stands twice. -/
def distinct : List StoredJob → Bool
  | [] => true
  | r :: rest => rest.all (fun other => other.id ≠ r.id) && distinct rest

/-- Put rows into the table, each of them readable and each id once. -/
def withRows (t : JobTable) (rows : List StoredJob) : Except StoreError JobTable :=
  if t.dropped || !distinct rows then .error .statement else .ok { t with rows }

/-- Run a statement on the table. -/
def execute (t : JobTable) : Statement → Except StoreError JobTable
  | .update _ changes id =>
    let changed := t.rows.mapM fun r =>
      if StoredJob.chosenBy id r.id then
        changes.foldlM (fun r (column, v) => r.setColumn column v) r
      else some r
    let known := changes.all fun (column, _) =>
      StoredJob.columns.any fun name => Ascii.sameIgnoringCase name column
    match changed with
    | some rows => if known then t.withRows rows else .error .statement
    | none => .error .statement
  | .delete _ id => t.withRows (t.rows.filter fun r => !StoredJob.chosenBy id r.id)
  | .drop _ _ => if t.dropped then .error .statement else .ok ⟨[], true⟩
  | .insert _ rows =>
    match rows.mapM StoredJob.ofValues? with
    | some rows => t.withRows (t.rows ++ rows)
    | none => .error .statement

end JobTable

namespace Inventory

/-- The record that a row of values is, with the id of the record above it. -/
def recordOfValues? (kind : RecordKind) (values : List Sql.Value) :
    Option (String × Option String × String) := do
  let texts ← values.mapM Sql.Value.text?
  match kind.parent?, texts with
  | none, [id, doc] => pure (id, none, doc)
  | some _, [id, parent, doc] => pure (id, some parent, doc)
  | _, _ => none

/-- Run a statement on a table of records. Only documents are changed in place. -/
def execute (s : Inventory) (kind : RecordKind) : Statement → Except StoreError Inventory
  | .update _ changes id =>
    if !s.isThere kind then .error .statement
    else
      let docs := changes.mapM fun (column, v) =>
        if Ascii.sameIgnoringCase column "jsonb" then v.text? else none
      match docs.map List.getLast? with
      | some (some doc) => .ok (s.withTable kind ((s.table kind).map fun r =>
          if StoredJob.chosenBy id r.id then { r with doc } else r))
      | _ => .error .statement
  | .delete _ id => s.delete kind fun r => StoredJob.chosenBy id r.id
  | .drop _ _ => s.drop kind
  | .insert _ rows =>
    match rows.mapM (recordOfValues? kind) with
    | some rows => rows.foldlM (fun s (id, parent, doc) => s.insertNew kind id parent doc) s
    | none => .error .statement

end Inventory

namespace Store

/-- The table that a statement is about. -/
def tableOf : Statement → String
  | .update table _ _ => table
  | .delete table _ => table
  | .drop table _ => table
  | .insert table _ => table

/-- Run one statement. -/
def executeOne (s : Store) (statement : Statement) : Except StoreError Store :=
  let name := tableOf statement
  let maybe := match statement with
    | .drop _ maybe => maybe
    | _ => false
  let answer : Except StoreError Store :=
    if Ascii.sameIgnoringCase name "reindex_job" then
      (s.jobs.execute statement).map fun jobs => { s with jobs }
    else
      match RecordKind.all.find? fun kind => Ascii.sameIgnoringCase kind.table name with
      | some kind => (s.inventory.execute kind statement).map fun inventory => { s with inventory }
      | none => .error .statement
  let gone := match RecordKind.all.find? fun kind => Ascii.sameIgnoringCase kind.table name with
    | some kind => !s.inventory.isThere kind
    | none => !Ascii.sameIgnoringCase name "reindex_job" || s.jobs.dropped
  if maybe && gone then .ok s else answer

/-- Run the statements of a text; the answer says whether all of them ran. -/
def execute (s : Store) (text : String) : Bool × Store :=
  (Statement.readAll text).foldl (fun (going, s) statement =>
    if !going then (going, s)
    else
      match statement.map s.executeOne with
      | some (.ok s) => (true, s)
      | _ => (false, s)) (true, s)

end Store

/-- Execute a text on a table of jobs alone. -/
def JobTable.executeText (t : JobTable) (text : String) : Bool × JobTable :=
  let (ran, s) := ({ Store.empty with jobs := t } : Store).execute text
  (ran, s.jobs)

end InventoryFeed

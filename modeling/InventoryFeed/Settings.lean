import InventoryFeed.Catalog.Basic
import InventoryFeed.Stream.Marks
import InventoryFeed.Toml.Reader
import InventoryFeed.Word

/-!
# Settings

The settings text has two sections: `settings`, which overrides options, and `views`, which makes a
catalog. What a section leaves out keeps its default; keys that are not known are skipped, a known
key with a value of the wrong type makes the whole text unreadable.
-/

namespace InventoryFeed

/-- The options that a text states. -/
structure OptionSettings where
  /-- Path of the database. -/
  dbPath : Option String
  /-- Rows of a cursor batch. -/
  batchSize : Option Nat
  /-- High mark of a response. -/
  httpHigh : Option Nat
  /-- Low mark of a response. -/
  httpLow : Option Nat
  /-- High mark of the bus. -/
  eventHigh : Option Nat
  /-- Low mark of the bus. -/
  eventLow : Option Nat
  /-- Rows between two stored counts of a job. -/
  progressEvery : Option Nat
  /-- Path of the event log. -/
  eventsPath : Option String
  /-- Whether to report more. -/
  verbose : Option Bool
  /-- Whether the database is encrypted. -/
  encrypt : Option Bool
  deriving DecidableEq, Repr, Inhabited

/-- A view as a text states it. -/
structure ViewSettings where
  /-- Name of the level. -/
  level : String
  /-- Name of the view. -/
  name : String
  /-- Columns by the names of their levels. -/
  aliases : List (String × String)
  deriving DecidableEq, Repr

/-- The catalog that a text states. -/
structure CatalogSettings where
  /-- The id column. -/
  idColumn : Option String
  /-- Names of levels by qualifier. -/
  qualifiers : Option (List (String × String))
  /-- The views. -/
  views : List ViewSettings
  deriving DecidableEq, Repr

/-- A settings text that has been read. -/
structure Settings where
  /-- The options. -/
  options : OptionSettings
  /-- The catalog, if the text has a section for it. -/
  catalog : Option CatalogSettings
  deriving DecidableEq, Repr, Inhabited

/-- The resolved options. -/
structure Options where
  /-- Path of the database, if one is configured. -/
  dbPath : Option String := none
  /-- Rows of a cursor batch; between batches a cancel is noticed. -/
  batchSize : Nat := 100
  /-- Marks of a response. -/
  http : Marks := Marks.http
  /-- Marks of the bus. -/
  events : Marks := Marks.events
  /-- Rows between two stored counts of a job. -/
  progressEvery : Nat := 1000
  /-- Path of the event log, if one is configured. -/
  eventsPath : Option String := none
  /-- Whether to report more. -/
  verbose : Bool := false
  /-- Whether the database is encrypted. -/
  encrypt : Bool := false
  deriving DecidableEq, Repr, Inhabited

/-- The interval between stored counts; zero counts as one. -/
def Options.effectiveProgressEvery (o : Options) : Nat := max o.progressEvery 1

namespace Toml

/-- The declared fields of a record written as a table or, in declaration order, as an array. -/
structure Fields where
  /-- Whether the record was written as an array. -/
  positional : Bool
  /-- The value of each declared field, when it is there. -/
  values : List (Option Value)

/-- The items of a value that is an array of any kind. -/
def items? : Value → Option (List Value)
  | .array items => some items
  | .tables latest earlier =>
    some ((latest :: earlier).reverse.map (.table .header))
  | _ => none

/-- The declared fields of a value. -/
def fields? (names : List String) : Value → Option Fields
  | .table _ entries => some ⟨false, names.map fun name => find? name entries⟩
  | value => (items? value).map fun items =>
    ⟨true, (List.range names.length).map fun i => items[i]?⟩

/-- A field that may be missing from a table, though not from an array. -/
def Fields.optional {α : Type} (f : Fields) (i : Nat) (read : Value → Option α) :
    Option (Option α) :=
  match (f.values[i]?).join with
  | some value => (read value).map some
  | none => if f.positional then none else some none

/-- A field that must be there. -/
def Fields.required {α : Type} (f : Fields) (i : Nat) (read : Value → Option α) : Option α :=
  (f.values[i]?).join.bind read

/-- A string. -/
def text? : Value → Option String
  | .text s => some s
  | _ => none

/-- A truth value. -/
def bool? : Value → Option Bool
  | .bool b => some b
  | _ => none

/-- A natural number below `2 ^ 64`. -/
def count? : Value → Option Nat
  | .integer n => if 0 ≤ n ∧ n < Word.unsignedEnd then some n.toNat else none
  | _ => none

/-- A table of strings. -/
def textTable? : Value → Option (List (String × String))
  | .table _ entries => entries.mapM fun (key, value) => (text? value).map fun text => (key, text)
  | _ => none

end Toml

namespace OptionSettings

/-- Read the section of the options. -/
def ofValue? (value : Toml.Value) : Option OptionSettings := do
  let f ← Toml.fields? ["db_path", "batch_size", "http_high_water", "http_low_water",
    "event_high_water", "event_low_water", "progress_every", "events_path", "verbose",
    "encrypt"] value
  let dbPath ← f.optional 0 Toml.text?
  let batchSize ← f.optional 1 Toml.count?
  let httpHigh ← f.optional 2 Toml.count?
  let httpLow ← f.optional 3 Toml.count?
  let eventHigh ← f.optional 4 Toml.count?
  let eventLow ← f.optional 5 Toml.count?
  let progressEvery ← f.optional 6 Toml.count?
  let eventsPath ← f.optional 7 Toml.text?
  let verbose ← f.optional 8 Toml.bool?
  let encrypt ← f.optional 9 Toml.bool?
  pure ⟨dbPath, batchSize, httpHigh, httpLow, eventHigh, eventLow, progressEvery, eventsPath,
    verbose, encrypt⟩

end OptionSettings

/-- Read one view. -/
def ViewSettings.ofValue? (value : Toml.Value) : Option ViewSettings := do
  let f ← Toml.fields? ["level", "name", "aliases"] value
  let level ← f.required 0 Toml.text?
  let name ← f.required 1 Toml.text?
  let aliases ← f.required 2 Toml.textTable?
  pure ⟨level, name, aliases⟩

/-- Read the section of the catalog. -/
def CatalogSettings.ofValue? (value : Toml.Value) : Option CatalogSettings := do
  let f ← Toml.fields? ["id_column", "qualifiers", "view"] value
  let idColumn ← f.optional 0 Toml.text?
  let qualifiers ← f.optional 1 Toml.textTable?
  let views ← match (f.values[2]?).join with
    | none => some []
    | some views => (Toml.items? views).bind (List.mapM ViewSettings.ofValue?)
  pure ⟨idColumn, qualifiers, views⟩

namespace Settings

/-- Read a settings text. -/
def read (text : String) : Option Settings := do
  let root ← Toml.read text
  let options ← match Toml.find? "settings" root with
    | none => some (default : OptionSettings)
    | some section_ => OptionSettings.ofValue? section_
  let catalog ← match Toml.find? "views" root with
    | none => some none
    | some section_ => (CatalogSettings.ofValue? section_).map some
  pure ⟨options, catalog⟩

/-- Overwrite the options that the settings state. -/
def apply (s : Settings) (o : Options) : Options where
  dbPath := s.options.dbPath <|> o.dbPath
  batchSize := s.options.batchSize.getD o.batchSize
  http := Marks.clamp (s.options.httpHigh.getD o.http.high) (s.options.httpLow.getD o.http.low)
  events :=
    Marks.clamp (s.options.eventHigh.getD o.events.high) (s.options.eventLow.getD o.events.low)
  progressEvery := s.options.progressEvery.getD o.progressEvery
  eventsPath := s.options.eventsPath <|> o.eventsPath
  verbose := s.options.verbose.getD o.verbose
  encrypt := s.options.encrypt.getD o.encrypt

end Settings

end InventoryFeed

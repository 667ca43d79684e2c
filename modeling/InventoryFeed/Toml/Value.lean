/-!
# TOML tables

The values of a settings text and the tables they are gathered in. A table remembers how it came
about, because that decides whether a later line may add to it: a table that only a longer header
names may still get its own header, one with a header or made by dotted keys may not, and an inline
table is closed. Every function here answers `none` where a line would define something twice.
-/

namespace InventoryFeed.Toml

/-- How a table came about. -/
inductive Origin where
  /-- Named on the way to another table's header. -/
  | implied
  /-- Named by its own header. -/
  | header
  /-- Named inside a dotted key. -/
  | dotted
  /-- Written in braces. -/
  | inline
  deriving DecidableEq, Repr

/-- A value of a settings text. -/
inductive Value where
  /-- A string. -/
  | text (value : String)
  /-- An integer. -/
  | integer (value : Int)
  /-- A number with a fraction or an exponent, as it is written. -/
  | float (written : String)
  /-- A date, a time or both, as it is written. -/
  | moment (written : String)
  /-- A truth value. -/
  | bool (value : Bool)
  /-- An array written in brackets. -/
  | array (items : List Value)
  /-- A table. -/
  | table (origin : Origin) (entries : List (String × Value))
  /-- The tables under one doubly bracketed header, the latest first. -/
  | tables (latest : List (String × Value)) (earlier : List (List (String × Value)))
  deriving Repr, Inhabited

/-- The entries of a table in the order of their definition. -/
abbrev Entries := List (String × Value)

/-- The value under a key. -/
def find? (key : String) (entries : Entries) : Option Value :=
  (entries.find? fun entry => entry.1 = key).map (·.2)

/-- Change the value under a key, or add one; `change` gets the present value. -/
def modify (key : String) (change : Option Value → Option Value) : Entries → Option Entries
  | [] => (change none).map fun value => [(key, value)]
  | (other, value) :: rest =>
    if other = key then (change (some value)).map fun value => (other, value) :: rest
    else (modify key change rest).map ((other, value) :: ·)

/-- Define a value under a dotted key. -/
def define (value : Value) : List String → Entries → Option Entries
  | [], _ => none
  | [key], entries =>
    modify key (fun present => if present.isSome then none else some value) entries
  | key :: path, entries =>
    modify key (fun present =>
      match present with
      | none => (define value path []).map (.table .dotted)
      | some (.table .dotted inner) => (define value path inner).map (.table .dotted)
      | some _ => none) entries

/-- Change the table that a header leads to through the tables before it. -/
def within (change : String → Entries → Option Entries) : List String → Entries → Option Entries
  | [], _ => none
  | [key], entries => change key entries
  | key :: path, entries =>
    modify key (fun present =>
      match present with
      | none => (within change path []).map (.table .implied)
      | some (.table .inline _) => none
      | some (.table origin inner) => (within change path inner).map (.table origin)
      | some (.tables latest earlier) => (within change path latest).map (.tables · earlier)
      | some _ => none) entries

/-- Open the table of a header. -/
def openTable : List String → Entries → Option Entries :=
  within fun key => modify key fun present =>
    match present with
    | none => some (.table .header [])
    | some (.table .implied inner) => some (.table .header inner)
    | some _ => none

/-- Open the next table of a doubly bracketed header. -/
def openElement : List String → Entries → Option Entries :=
  within fun key => modify key fun present =>
    match present with
    | none => some (.tables [] [])
    | some (.tables latest earlier) => some (.tables [] (latest :: earlier))
    | some _ => none

/-- Define a value under a dotted key in the table of the header in force. -/
def defineIn (value : Value) (path : List String) :
    List String → Entries → Option Entries
  | [], entries => define value path entries
  | header, entries =>
    within (fun key => modify key fun present =>
      match present with
      | some (.table origin inner) => (define value path inner).map (.table origin)
      | some (.tables latest earlier) => (define value path latest).map (.tables · earlier)
      | _ => none) header entries

end InventoryFeed.Toml

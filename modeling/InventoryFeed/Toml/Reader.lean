import InventoryFeed.Toml.Scalar

/-!
# Reading TOML

A settings text is a list of lines: headers, keys with values, comments. Arrays and inline tables
may run over several lines, hold comments and end in a comma. `Toml.read` answers the table of the
whole text, or `none` if it is not well formed or defines something twice.
-/

namespace InventoryFeed.Toml

/-- A character of a key without quotes. -/
def isKeyChar (c : Char) : Bool := Ascii.isWord c || c == '-'

/-- One step of a key. -/
def readKeyStep? : List Char → Option (String × List Char)
  | '"' :: rest =>
    (readBasic? (rest.length + 1) rest).map fun (cs, rest) => (String.ofList cs, rest)
  | '\'' :: rest => (readLiteral? rest).map fun (cs, rest) => (String.ofList cs, rest)
  | cs =>
    let key := cs.takeWhile isKeyChar
    if key.isEmpty then none else some (String.ofList key, cs.drop key.length)

/-- A key, its steps divided by points, with blanks after it dropped. -/
def readKey? : Nat → List Char → Option (List String × List Char)
  | 0, _ => none
  | fuel + 1, cs => do
    let (step, rest) ← readKeyStep? (skipBlanks cs)
    match skipBlanks rest with
    | '.' :: rest =>
      let (path, rest) ← readKey? fuel rest
      pure (step :: path, rest)
    | rest => pure ([step], rest)

/-- The rest after blanks, comments and line ends. -/
def skipLines : Nat → List Char → List Char
  | 0, cs => cs
  | fuel + 1, cs =>
    let rest := skipComment (skipBlanks cs)
    match readNewline? rest with
    | some rest => skipLines fuel rest
    | none => rest

/-- The rest after any number of blanks, comments and line ends. -/
def skipAll (cs : List Char) : List Char := skipLines (cs.length + 1) cs

mutual

/-- A value in front and the rest. The fuel bounds nesting and items together. -/
def readValue? : Nat → List Char → Option (Value × List Char)
  | 0, _ => none
  | fuel + 1, cs =>
    match cs with
    | '[' :: rest => (readItems? fuel (skipAll rest)).map fun (items, rest) => (.array items, rest)
    | '\x7b' :: rest =>
      (readInline? fuel [] (skipAll rest)).map fun (entries, rest) =>
        (.table .inline entries, rest)
    | '"' :: _ => (readText? cs).map fun (text, rest) => (.text (String.ofList text), rest)
    | '\'' :: _ => (readText? cs).map fun (text, rest) => (.text (String.ofList text), rest)
    | _ =>
      let (token, rest) := readToken cs
      (ofToken? token).map fun value => (value, rest)

/-- The items of an array up to its bracket. -/
def readItems? : Nat → List Char → Option (List Value × List Char)
  | 0, _ => none
  | fuel + 1, cs =>
    match cs with
    | ']' :: rest => some ([], rest)
    | _ => do
      let (item, rest) ← readValue? fuel cs
      match skipAll rest with
      | ',' :: rest =>
        let (items, rest) ← readItems? fuel (skipAll rest)
        pure (item :: items, rest)
      | ']' :: rest => pure ([item], rest)
      | _ => none

/-- The entries of an inline table up to its brace, after those already read. -/
def readInline? : Nat → Entries → List Char → Option (Entries × List Char)
  | 0, _, _ => none
  | fuel + 1, entries, cs =>
    match cs with
    | '\x7d' :: rest => some (entries, rest)
    | _ => do
      let (path, rest) ← readKey? (cs.length + 1) cs
      match rest with
      | '=' :: rest =>
        let (value, rest) ← readValue? fuel (skipBlanks rest)
        let entries ← define value path entries
        match skipAll rest with
        | ',' :: rest => readInline? fuel entries (skipAll rest)
        | '\x7d' :: rest => some (entries, rest)
        | _ => none
      | _ => none

end

/-- What has been read: the header in force and the table of the text so far. -/
structure Progress where
  /-- The keys of the header in force. -/
  header : List String
  /-- The table so far. -/
  root : Entries

/-- Read one line's content: a header, or a key with its value; the rest starts behind it. -/
def readLine? (p : Progress) (cs : List Char) : Option (Progress × List Char) :=
  match cs with
  | '[' :: '[' :: rest => do
    let (path, rest) ← readKey? (rest.length + 1) rest
    let ']' :: ']' :: rest := rest | none
    let root ← openElement path p.root
    pure (⟨path, root⟩, rest)
  | '[' :: rest => do
    let (path, rest) ← readKey? (rest.length + 1) rest
    let ']' :: rest := rest | none
    let root ← openTable path p.root
    pure (⟨path, root⟩, rest)
  | _ => do
    let (path, rest) ← readKey? (cs.length + 1) cs
    let '=' :: rest := rest | none
    let (value, rest) ← readValue? (2 * rest.length + 2) (skipBlanks rest)
    let root ← defineIn value path p.header p.root
    pure (⟨p.header, root⟩, rest)

/-- Read the lines of a text; the fuel is more than their number. -/
def readDocument? : Nat → Progress → List Char → Option Entries
  | 0, _, _ => none
  | fuel + 1, p, cs =>
    match skipAll cs with
    | [] => some p.root
    | cs => do
      let (p, rest) ← readLine? p cs
      match skipComment (skipBlanks rest) with
      | [] => some p.root
      | rest =>
        let rest ← readNewline? rest
        readDocument? fuel p rest

/-- The table of a text; a byte order mark in front is dropped. -/
def read (text : String) : Option Entries :=
  let cs := match text.toList with
    | c :: rest => if c.toNat = 0xfeff then rest else c :: rest
    | [] => []
  readDocument? (cs.length + 1) ⟨[], []⟩ cs

end InventoryFeed.Toml

import InventoryFeed.Text.Ascii
import InventoryFeed.Text.Blank

/-!
# Files of variables

A file gives each variable on a line of its own, `NAME=value`, perhaps with `export` before the name.
In single quotes a value stands as it is; otherwise a backslash escapes and `$` names a variable of a
line before. Blanks end a value that is not quoted, and only a comment may follow. A line that cannot
be read spoils the file.
-/

namespace InventoryFeed.CommandLine

/-- The variables of a file in the order of its lines. -/
abbrev Variables := List (String × String)

namespace Variables

/-- The value of a variable, that of its first line. -/
def value? (name : String) (all : Variables) : Option String :=
  (all.find? fun entry => entry.1 = name).map (·.2)

/-- The value of the last line before, for a variable that is named in a value; nothing if there is
none. -/
def named (name : List Char) (before : Variables) : List Char :=
  ((value? (String.ofList name) before.reverse).getD "").toList

/-- How a value is read at some point of it. -/
inductive Reading where
  /-- Outside quotes. -/
  | plain
  /-- In double quotes. -/
  | quoted
  /-- In single quotes. -/
  | verbatim
  /-- Behind the value. -/
  | behind
  deriving DecidableEq, Repr

/-- What an escaped character stands for. -/
def escaped? : Char → Option Char
  | 'n' => some '\n'
  | '\\' => some '\\'
  | '\'' => some '\''
  | '"' => some '"'
  | '$' => some '$'
  | ' ' => some ' '
  | _ => none

/-- A character of the name of a variable in a value. -/
def isNameChar (c : Char) : Bool := Ascii.isLetter c || Ascii.isDigit c

/-- Read the rest of a value; `name` collects the name of a variable, and its flag says whether the
name stands in braces. -/
def readValue (before : Variables) :
    List Char → Reading → Option (Bool × List Char) → Option (List Char)
  | [], .quoted, _ => none
  | [], .verbatim, _ => none
  | [], _, some (true, _) => none
  | [], _, some (false, name) => some (named name before)
  | [], _, none => some []
  | c :: rest, reading, some (true, name) =>
    if c = '}' then
      (readValue before rest reading none).map (named name before ++ ·)
    else readValue before rest reading (some (true, name ++ [c]))
  | c :: rest, reading, some (false, name) =>
    if isNameChar c then readValue before rest reading (some (false, name ++ [c]))
    else if c = '{' ∧ name = [] then readValue before rest reading (some (true, []))
    else if c = '$' then
      (readValue before rest reading (some (false, []))).map (named name before ++ ·)
    else (readValue before rest reading none).map (named name before ++ c :: ·)
  | c :: rest, .behind, none =>
    if c = ' ' ∨ c = '\t' then readValue before rest .behind none
    else if c = '#' then some []
    else none
  | c :: rest, .verbatim, none =>
    if c = '\'' then readValue before rest .plain none
    else (readValue before rest .verbatim none).map (c :: ·)
  | '\\' :: e :: rest, reading, none => do
    let c ← escaped? e
    let value ← readValue before rest reading none
    pure (c :: value)
  | c :: rest, reading, none =>
    if c = '$' then readValue before rest reading (some (false, []))
    else if reading = .quoted then
      if c = '"' then readValue before rest .plain none
      else (readValue before rest .quoted none).map (c :: ·)
    else if c = '\'' then readValue before rest .verbatim none
    else if c = '"' then readValue before rest .quoted none
    else if c = '\\' then some []
    else if c = ' ' ∨ c = '\t' then readValue before rest .behind none
    else (readValue before rest .plain none).map (c :: ·)

/-- A character of a variable's name. -/
def isKeyChar (c : Char) : Bool := Ascii.isWord c || c == '.'

/-- The name at the front of a line and what follows it after blanks. -/
def splitName (line : List Char) : Option (List Char × List Char) :=
  match line with
  | c :: _ =>
    if Ascii.isLetter c || c = '_' then
      some (line.takeWhile isKeyChar, (line.dropWhile isKeyChar).dropWhile Text.isBlank)
    else none
  | [] => none

/-- What follows the sign between name and value. -/
def afterSign : List Char → Option (List Char)
  | '=' :: rest => some (rest.dropWhile Text.isBlank)
  | _ => none

/-- Read a line, none if it holds no variable. -/
def readLine (before : Variables) (line : String) : Option (Option (String × String)) :=
  let text := (Text.trim line).toList
  if text.isEmpty || text.head? = some '#' then some none
  else do
    let (name, rest) ← splitName text
    let (name, value) ← match afterSign rest with
      | some value => some (name, value)
      | none =>
        if String.ofList name = "export" then do
          let (name, rest) ← splitName rest
          pure (name, ← afterSign rest)
        else none
    let value ←
      if value.head? = some '#' then some [] else readValue before value .plain none
    pure (some (String.ofList name, String.ofList value))

/-- Read the lines of a file after some that were read. -/
def readLines (before : Variables) : List String → Option Variables
  | [] => some before
  | line :: rest =>
    match readLine before line with
    | none => none
    | some none => readLines before rest
    | some (some entry) => readLines (before ++ [entry]) rest

/-- Read the text of a file. -/
def read (text : String) : Option Variables := readLines [] (text.splitOn "\n")

end Variables

end InventoryFeed.CommandLine

/-!
# JSON text

A `Tree` is a JSON text without the blanks between its tokens: numbers and strings are kept as they
were written, so a tree can be written back exactly (`Tree.compact`). Reading follows the grammar
of JSON only; limits on numbers, on surrogate escapes and on nesting belong to whoever takes a
value out of a tree, because a part that is skipped is not held to them.
-/

namespace InventoryFeed.Json

/-- The exponent part of a written number. -/
structure Exponent where
  /-- The letter, of either case. -/
  mark : Char
  /-- The sign, when one is written. -/
  sign : Option Char
  /-- The digits, at least one. -/
  digits : List Char
  deriving DecidableEq, Repr

/-- A number as it is written. -/
structure Numeral where
  /-- Whether a minus sign is written. -/
  negative : Bool
  /-- The digits before the point, at least one. -/
  whole : List Char
  /-- The digits after the point; none when there is no point. -/
  fraction : List Char
  /-- The exponent, when one is written. -/
  exponent : Option Exponent
  deriving DecidableEq, Repr

/-- The tokens of a JSON text, grouped. Strings hold the characters between their quotes. -/
inductive Tree where
  /-- The null value. -/
  | null
  /-- A truth value. -/
  | bool (value : Bool)
  /-- A number. -/
  | number (value : Numeral)
  /-- A string. -/
  | string (raw : List Char)
  /-- An array. -/
  | array (items : List Tree)
  /-- An object with its members in the order of the text. -/
  | object (members : List (List Char × Tree))
  deriving Repr, Inhabited

/-- A blank between tokens. -/
def isBlank (c : Char) : Bool := c == ' ' || c == '\n' || c == '\t' || c == '\r'

/-- The rest of a text after blanks. -/
def skipBlanks (cs : List Char) : List Char := cs.dropWhile isBlank

/-- A decimal digit. -/
def isDigit (c : Char) : Bool := '0' ≤ c && c ≤ '9'

/-- A hexadecimal digit. -/
def isHexDigit (c : Char) : Bool :=
  isDigit c || ('a' ≤ c && c ≤ 'f') || ('A' ≤ c && c ≤ 'F')

/-- A character that a backslash may precede, the four-digit escape apart. -/
def isSimpleEscape (c : Char) : Bool :=
  c == '"' || c == '\\' || c == '/' || c == 'b' || c == 'f' || c == 'n' || c == 'r' || c == 't'

/-- The characters of a string up to its closing quote, and what follows the quote. -/
def readString : List Char → Option (List Char × List Char)
  | [] => none
  | '"' :: rest => some ([], rest)
  | '\\' :: 'u' :: a :: b :: c :: d :: rest =>
    if isHexDigit a && isHexDigit b && isHexDigit c && isHexDigit d then
      (readString rest).map fun (raw, rest) => ('\\' :: 'u' :: a :: b :: c :: d :: raw, rest)
    else none
  | '\\' :: e :: rest =>
    if isSimpleEscape e then
      (readString rest).map fun (raw, rest) => ('\\' :: e :: raw, rest)
    else none
  | c :: rest =>
    if c == '\\' || c.toNat < 0x20 then none
    else (readString rest).map fun (raw, rest) => (c :: raw, rest)

/-- The digits at the front, at least one. -/
def readDigits (cs : List Char) : Option (List Char × List Char) :=
  let digits := cs.takeWhile isDigit
  if digits.isEmpty then none else some (digits, cs.dropWhile isDigit)

/-- The digits before a point: a zero alone, or digits that do not start with one. -/
def readWhole (cs : List Char) : Option (List Char × List Char) :=
  match readDigits cs with
  | some ('0' :: _ :: _, _) => none
  | other => other

/-- The digits after a point, none if there is no point. -/
def readFraction : List Char → Option (List Char × List Char)
  | '.' :: rest => readDigits rest
  | cs => some ([], cs)

/-- The exponent part, if there is one. -/
def readExponent : List Char → Option (Option Exponent × List Char)
  | [] => some (none, [])
  | mark :: rest =>
    if mark == 'e' || mark == 'E' then
      match rest with
      | [] => none
      | sign :: tail =>
        if sign == '+' || sign == '-' then
          (readDigits tail).map fun (digits, rest) => (some ⟨mark, some sign, digits⟩, rest)
        else
          (readDigits rest).map fun (digits, rest) => (some ⟨mark, none, digits⟩, rest)
    else some (none, mark :: rest)

/-- A number without its sign. -/
def readMagnitude (negative : Bool) (cs : List Char) : Option (Numeral × List Char) := do
  let (whole, cs) ← readWhole cs
  let (fraction, cs) ← readFraction cs
  let (exponent, cs) ← readExponent cs
  pure (⟨negative, whole, fraction, exponent⟩, cs)

/-- A number. -/
def readNumeral : List Char → Option (Numeral × List Char)
  | '-' :: rest => readMagnitude true rest
  | cs => readMagnitude false cs

mutual

/-- A value at the front of a text, and the rest of the text. The fuel bounds the nesting and the
number of items together. -/
def readValue : Nat → List Char → Option (Tree × List Char)
  | 0, _ => none
  | fuel + 1, cs =>
    match skipBlanks cs with
    | 'n' :: 'u' :: 'l' :: 'l' :: rest => some (.null, rest)
    | 't' :: 'r' :: 'u' :: 'e' :: rest => some (.bool true, rest)
    | 'f' :: 'a' :: 'l' :: 's' :: 'e' :: rest => some (.bool false, rest)
    | '"' :: rest => (readString rest).map fun (raw, rest) => (.string raw, rest)
    | '[' :: rest =>
      match skipBlanks rest with
      | ']' :: rest => some (.array [], rest)
      | rest => (readItems fuel rest).map fun (items, rest) => (.array items, rest)
    | '{' :: rest =>
      match skipBlanks rest with
      | '}' :: rest => some (.object [], rest)
      | rest => (readMembers fuel rest).map fun (members, rest) => (.object members, rest)
    | rest => (readNumeral rest).map fun (value, rest) => (.number value, rest)

/-- The items of an array, at least one, and what follows its bracket. -/
def readItems : Nat → List Char → Option (List Tree × List Char)
  | 0, _ => none
  | fuel + 1, cs => do
    let (item, rest) ← readValue fuel cs
    match skipBlanks rest with
    | ',' :: rest =>
      let (items, rest) ← readItems fuel rest
      pure (item :: items, rest)
    | ']' :: rest => pure ([item], rest)
    | _ => none

/-- The members of an object, at least one, and what follows its brace. -/
def readMembers : Nat → List Char → Option (List (List Char × Tree) × List Char)
  | 0, _ => none
  | fuel + 1, cs =>
    match skipBlanks cs with
    | '"' :: rest => do
      let (key, rest) ← readString rest
      match skipBlanks rest with
      | ':' :: rest =>
        let (value, rest) ← readValue fuel rest
        match skipBlanks rest with
        | ',' :: rest =>
          let (members, rest) ← readMembers fuel rest
          pure ((key, value) :: members, rest)
        | '}' :: rest => pure ([(key, value)], rest)
        | _ => none
      | _ => none
    | _ => none

end

/-- Read a whole text as one value with blanks around it. -/
def Tree.read (text : String) : Option Tree :=
  let cs := text.toList
  match readValue (2 * cs.length + 2) cs with
  | some (tree, rest) => if (skipBlanks rest).isEmpty then some tree else none
  | none => none

/-- The text of an exponent. -/
def Exponent.compact (e : Exponent) : List Char := e.mark :: e.sign.toList ++ e.digits

/-- The text of a number. -/
def Numeral.compact (n : Numeral) : List Char :=
  (if n.negative then ['-'] else []) ++ n.whole
    ++ (if n.fraction.isEmpty then [] else '.' :: n.fraction)
    ++ (match n.exponent with
        | some e => e.compact
        | none => [])

/-- A string between quotes. -/
def quoted (raw : List Char) : List Char := '"' :: raw ++ ['"']

mutual

/-- The text of a tree without blanks. -/
def Tree.compact : Tree → List Char
  | .null => "null".toList
  | .bool true => "true".toList
  | .bool false => "false".toList
  | .number n => n.compact
  | .string raw => quoted raw
  | .array items => '[' :: compactItems items ++ [']']
  | .object members => '{' :: compactMembers members ++ ['}']

/-- Items with commas between them. -/
def compactItems : List Tree → List Char
  | [] => []
  | [item] => item.compact
  | item :: next :: rest => item.compact ++ ',' :: compactItems (next :: rest)

/-- Members with commas between them. -/
def compactMembers : List (List Char × Tree) → List Char
  | [] => []
  | [(key, value)] => quoted key ++ ':' :: value.compact
  | (key, value) :: next :: rest =>
    quoted key ++ ':' :: value.compact ++ ',' :: compactMembers (next :: rest)

end

end InventoryFeed.Json

import InventoryFeed.Toml.Value
import InventoryFeed.Text.Ascii

/-!
# Strings, numbers and dates of TOML

Readers of the values that are not made of other values. Each takes the characters in front and
answers the value and the rest, or `none` where the text is not well formed.
-/

namespace InventoryFeed.Toml

/-- A blank inside a line. -/
def isBlank (c : Char) : Bool := c == ' ' || c == '\t'

/-- The rest of a line after blanks. -/
def skipBlanks (cs : List Char) : List Char := cs.dropWhile isBlank

/-- A character that may stand in a string or a comment: no control character but the tab. -/
def isPlain (c : Char) : Bool := c == '\t' || (0x20 ≤ c.toNat && c.toNat != 0x7f)

/-- The rest after the end of a line. -/
def readNewline? : List Char → Option (List Char)
  | '\n' :: rest => some rest
  | '\r' :: '\n' :: rest => some rest
  | _ => none

/-- The rest after a comment, up to the end of its line. -/
def skipComment : List Char → List Char
  | '#' :: rest => rest.dropWhile isPlain
  | cs => cs

/-- The character that digits of base sixteen name. -/
def namedChar? (digits : List Char) : Option Char :=
  if digits.all fun c => (Ascii.hexValue? c).isSome then
    let n := Ascii.ofDigits 16 digits
    if n.isValidChar then some (Char.ofNat n) else none
  else none

/-- The first `n` characters as a named character, and the rest. -/
def readNamed? (n : Nat) (cs : List Char) : Option (Char × List Char) :=
  if cs.length < n then none else (namedChar? (cs.take n)).map fun c => (c, cs.drop n)

/-- The character that an escape stands for, the backslash already read. -/
def readEscape? : List Char → Option (Char × List Char)
  | 'b' :: rest => some (Char.ofNat 8, rest)
  | 't' :: rest => some ('\t', rest)
  | 'n' :: rest => some ('\n', rest)
  | 'f' :: rest => some (Char.ofNat 12, rest)
  | 'r' :: rest => some ('\r', rest)
  | 'e' :: rest => some (Char.ofNat 27, rest)
  | '"' :: rest => some ('"', rest)
  | '\\' :: rest => some ('\\', rest)
  | 'x' :: rest => readNamed? 2 rest
  | 'u' :: rest => readNamed? 4 rest
  | 'U' :: rest => readNamed? 8 rest
  | _ => none

/-- A string between double quotes, the first already read. The fuel is the text's length. -/
def readBasic? : Nat → List Char → Option (List Char × List Char)
  | 0, _ => none
  | _ + 1, '"' :: rest => some ([], rest)
  | fuel + 1, '\\' :: rest => do
    let (c, rest) ← readEscape? rest
    let (cs, rest) ← readBasic? fuel rest
    pure (c :: cs, rest)
  | fuel + 1, c :: rest =>
    if isPlain c then (readBasic? fuel rest).map fun (cs, rest) => (c :: cs, rest) else none
  | _ + 1, [] => none

/-- A string between single quotes, the first already read. -/
def readLiteral? (cs : List Char) : Option (List Char × List Char) :=
  let content := cs.takeWhile fun c => c != '\''
  match cs.dropWhile fun c => c != '\'' with
  | _ :: rest => if content.all isPlain then some (content, rest) else none
  | [] => none

/-- How many of a character stand in front. -/
def countFront (c : Char) (cs : List Char) : Nat := (cs.takeWhile (· == c)).length

/-- The end of a string of several lines: the last three of three to five quotes. -/
def readClosing? (quote : Char) (cs : List Char) : Option (List Char × List Char) :=
  let n := min (countFront quote cs) 5
  if n < 3 then none else some (List.replicate (n - 3) quote, cs.drop n)

/-- The rest after blanks and line ends, of which at least one line end. -/
def skipFolded? (cs : List Char) : Option (List Char) :=
  (readNewline? (skipBlanks cs)).map fun rest =>
    rest.dropWhile fun c => isBlank c || c == '\n' || c == '\r'

/-- A string of several lines, its first quotes already read: `quote` ends it, and only a double
quote has escapes. The fuel is the text's length. -/
def readLines? (quote : Char) : Nat → List Char → Option (List Char × List Char)
  | 0, _ => none
  | fuel + 1, cs =>
    match readClosing? quote cs with
    | some result => some result
    | none =>
      match readNewline? cs with
      | some rest => (readLines? quote fuel rest).map fun (cs, rest) => ('\n' :: cs, rest)
      | none =>
        match cs with
        | [] => none
        | c :: rest =>
          if c = '\\' ∧ quote = '"' then
            match skipFolded? rest with
            | some rest => readLines? quote fuel rest
            | none => do
              let (c, rest) ← readEscape? rest
              let (cs, rest) ← readLines? quote fuel rest
              pure (c :: cs, rest)
          else if isPlain c then
            (readLines? quote fuel rest).map fun (cs, rest) => (c :: cs, rest)
          else none

/-- A line end in front is dropped. -/
def dropNewline (cs : List Char) : List Char := (readNewline? cs).getD cs

/-- A string of any of the four kinds. -/
def readText? : List Char → Option (List Char × List Char)
  | '"' :: '"' :: '"' :: rest => readLines? '"' (rest.length + 1) (dropNewline rest)
  | '\'' :: '\'' :: '\'' :: rest => readLines? '\'' (rest.length + 1) (dropNewline rest)
  | '"' :: rest => readBasic? (rest.length + 1) rest
  | '\'' :: rest => readLiteral? rest
  | _ => none

/-- A digit of a base. -/
def isDigitOf (base : Nat) (c : Char) : Bool := (Ascii.hexValue? c).any (· < base)

/-- Digits with single underscores between them, as the digits alone. -/
def digits? (base : Nat) : List Char → Option (List Char)
  | [] => none
  | [c] => if isDigitOf base c then some [c] else none
  | c :: '_' :: rest => if isDigitOf base c then (digits? base rest).map (c :: ·) else none
  | c :: rest => if isDigitOf base c then (digits? base rest).map (c :: ·) else none

/-- A sign, and what follows it. -/
def splitSign : List Char → Bool × List Char
  | '-' :: rest => (true, rest)
  | '+' :: rest => (false, rest)
  | cs => (false, cs)

/-- Decimal digits that do not start with a needless zero. -/
def whole? (cs : List Char) : Option (List Char) :=
  match digits? 10 cs with
  | some ('0' :: _ :: _) => none
  | result => result

/-- An integer. -/
def integer? : List Char → Option Int
  | '0' :: 'x' :: rest => (digits? 16 rest).map fun ds => (Ascii.ofDigits 16 ds : Nat)
  | '0' :: 'o' :: rest => (digits? 8 rest).map fun ds => (Ascii.ofDigits 8 ds : Nat)
  | '0' :: 'b' :: rest => (digits? 2 rest).map fun ds => (Ascii.ofDigits 2 ds : Nat)
  | cs =>
    let (negative, rest) := splitSign cs
    (whole? rest).map fun ds =>
      let n : Int := (Ascii.ofDigits 10 ds : Nat)
      if negative then -n else n

/-- Whether the characters are an exponent's: a sign, if any, and digits. -/
def isExponent (cs : List Char) : Bool := (digits? 10 (splitSign cs).2).isSome

/-- Whether the characters are a number with a fraction, an exponent, or neither value nor sign. -/
def isFloat (cs : List Char) : Bool :=
  let body := (splitSign cs).2
  if body = "inf".toList ∨ body = "nan".toList then true else
    let whole := body.takeWhile fun c => c != '.' && c != 'e' && c != 'E'
    (whole? whole).isSome &&
      match body.drop whole.length with
      | '.' :: rest =>
        let fraction := rest.takeWhile fun c => c != 'e' && c != 'E'
        (digits? 10 fraction).isSome &&
          match rest.drop fraction.length with
          | [] => true
          | _ :: exponent => isExponent exponent
      | [] => false
      | _ :: exponent => isExponent exponent

/-- The number that exactly `n` digits in front make, and the rest. -/
def fixed? (n : Nat) (cs : List Char) : Option (Nat × List Char) :=
  let front := cs.take n
  if front.length = n ∧ front.all Ascii.isDigit then some (Ascii.ofDigits 10 front, cs.drop n)
  else none

/-- The days of a month. -/
def daysIn (year month : Nat) : Nat :=
  if month = 2 then
    (if year % 4 = 0 ∧ (year % 100 ≠ 0 ∨ year % 400 = 0) then 29 else 28)
  else if month = 4 ∨ month = 6 ∨ month = 9 ∨ month = 11 then 30
  else 31

/-- What follows a date in front. -/
def afterDate? (cs : List Char) : Option (List Char) := do
  let (year, cs) ← fixed? 4 cs
  let '-' :: cs := cs | none
  let (month, cs) ← fixed? 2 cs
  let '-' :: cs := cs | none
  let (day, cs) ← fixed? 2 cs
  if 1 ≤ month ∧ month ≤ 12 ∧ 1 ≤ day ∧ day ≤ daysIn year month then some cs else none

/-- What follows seconds and their fraction, which both may be missing. -/
def afterSeconds? : List Char → Option (List Char)
  | ':' :: cs => do
    let (second, cs) ← fixed? 2 cs
    if 60 < second then none else
      match cs with
      | '.' :: rest =>
        let fraction := rest.takeWhile Ascii.isDigit
        if fraction.isEmpty then none else some (rest.drop fraction.length)
      | rest => some rest
  | cs => some cs

/-- What follows hours and minutes in front. -/
def afterMinutes? (cs : List Char) : Option (List Char) := do
  let (hour, cs) ← fixed? 2 cs
  let ':' :: cs := cs | none
  let (minute, cs) ← fixed? 2 cs
  if hour ≤ 23 ∧ minute ≤ 59 then some cs else none

/-- Whether the characters are nothing or an offset from universal time. -/
def isOffset : List Char → Bool
  | [] => true
  | ['Z'] => true
  | ['z'] => true
  | c :: rest => (c == '+' || c == '-') && afterMinutes? rest == some []

/-- Whether the characters are a date, a time of day, or a date with a time. -/
def isMoment (cs : List Char) : Bool :=
  match afterDate? cs with
  | some [] => true
  | some (c :: rest) =>
    (c == 'T' || c == 't' || c == ' ') &&
      ((afterMinutes? rest).bind afterSeconds?).any isOffset
  | none => (afterMinutes? cs).bind afterSeconds? == some []

/-- A character of a number, a date or a truth value. -/
def isTokenChar (c : Char) : Bool := Ascii.isWord c || c == '+' || c == '-' || c == '.' || c == ':'

/-- The token in front. A date may have its time after a blank. -/
def readToken (cs : List Char) : List Char × List Char :=
  let token := cs.takeWhile isTokenChar
  let rest := cs.drop token.length
  match rest with
  | ' ' :: a :: b :: ':' :: _ =>
    if afterDate? token = some [] ∧ Ascii.isDigit a ∧ Ascii.isDigit b then
      let time := (rest.drop 1).takeWhile isTokenChar
      (token ++ ' ' :: time, rest.drop (time.length + 1))
    else (token, rest)
  | _ => (token, rest)

/-- The integers that a text may hold at all. -/
def inRange (n : Int) : Bool := -(Nat.pow 2 127 : Nat) ≤ n && n < (Nat.pow 2 128 : Nat)

/-- The value of a token. -/
def ofToken? (token : List Char) : Option Value :=
  if token = "true".toList then some (.bool true)
  else if token = "false".toList then some (.bool false)
  else
    match integer? token with
    | some n => if inRange n then some (.integer n) else none
    | none =>
      if isFloat token then some (.float (String.ofList token))
      else if isMoment token then some (.moment (String.ofList token))
      else none

end InventoryFeed.Toml

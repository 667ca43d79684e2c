import InventoryFeed.Json.Scalar

/-!
# Ids and dates of new jobs

An id is 32 hexadecimal digits in five groups, of which one digit says that they are random. A date is
written with its time of day to the millisecond, in universal time.
-/

namespace InventoryFeed.CommandLine

/-- A number in at least so many decimal digits. -/
def padded (width n : Nat) : String :=
  let digits := (toString n).toList
  String.ofList (List.replicate (width - digits.length) '0' ++ digits)

/-- The day, month and year of a count of days since the first of March of the year zero, in which
the leap day is the last day of a year. -/
def civilDay (days : Nat) : Nat × Nat × Nat :=
  let era := days / 146097
  let inEra := days % 146097
  let year := (inEra - inEra / 1460 + inEra / 36524 - inEra / 146096) / 365
  let inYear := inEra - (365 * year + year / 4 - year / 100)
  let month := (5 * inYear + 2) / 153
  let day := inYear - (153 * month + 2) / 5 + 1
  if month < 10 then (day, month + 3, era * 400 + year)
  else (day, month - 9, era * 400 + year + 1)

/-- The days between the first of March of the year zero and the first of January 1970. -/
def daysBefore1970 : Nat := 719468

/-- The date and time of day so many milliseconds after the beginning of 1970. -/
def dateText (milliseconds : Nat) : String :=
  let seconds := milliseconds / 1000
  let (day, month, year) := civilDay (seconds / 86400 + daysBefore1970)
  let clock := seconds % 86400
  padded 4 year ++ "-" ++ padded 2 month ++ "-" ++ padded 2 day ++ "T"
    ++ padded 2 (clock / 3600) ++ ":" ++ padded 2 (clock / 60 % 60) ++ ":" ++ padded 2 (clock % 60)
    ++ "." ++ padded 3 (milliseconds % 1000) ++ "Z"

/-- The next group of digits, and the digits after it. -/
def takeGroups (digits : List Char) : List Nat → List String
  | [] => []
  | size :: sizes => String.ofList (digits.take size) :: takeGroups (digits.drop size) sizes

/-- The id that 32 random numbers make. -/
def idText (random : List Nat) : String :=
  let digits := random.zipIdx.map fun (n, i) =>
    if i = 12 then '4'
    else if i = 16 then Json.hexDigit (8 + n % 4)
    else Json.hexDigit (n % 16)
  String.intercalate "-" (takeGroups digits [8, 4, 4, 4, 12])

end InventoryFeed.CommandLine

import InventoryFeed.Job.Basic
import InventoryFeed.Store.Query

/-!
# What is shown on a terminal

A routed query with its bound values one a line, and a job on one line.
-/

namespace InventoryFeed

/-- A hexadecimal number without leading zeros before more text. -/
def hexBefore (n : Nat) (rest : List Char) : List Char :=
  if n < 16 then Json.hexDigit n :: rest
  else hexBefore (n / 16) (Json.hexDigit (n % 16) :: rest)
  termination_by n

/-- The ranges of characters beyond ASCII that are shown by their numbers: controls, marks that
combine with the character before, blanks, marks of direction, and characters for private use. -/
def unseenRanges : List (Nat × Nat) := [
  (0x80, 0xa0), (0xad, 0xad), (0x300, 0x36f), (0x483, 0x489), (0x591, 0x5bd), (0x600, 0x605),
  (0x610, 0x61a), (0x61c, 0x61c), (0x64b, 0x65f), (0x1680, 0x1680), (0x180b, 0x180f),
  (0x1ab0, 0x1ace), (0x1dc0, 0x1dff), (0x2000, 0x200f), (0x2028, 0x202f), (0x205f, 0x206f),
  (0x20d0, 0x20f0), (0x3000, 0x3000), (0x302a, 0x302f), (0x3099, 0x309a), (0xe000, 0xf8ff),
  (0xfe00, 0xfe0f), (0xfe20, 0xfe2f), (0xfeff, 0xfeff), (0xff9e, 0xff9f), (0xfff0, 0xfffb),
  (0xfffe, 0xffff), (0xe0000, 0x10ffff)]

/-- Whether a character is shown by its number. -/
def isUnseen (c : Char) : Bool :=
  let n := c.toNat
  n < 0x20 || n = 0x7f || unseenRanges.any fun (low, high) => low ≤ n && n ≤ high

/-- A character of a shown text. -/
def shownChar (c : Char) : List Char :=
  if c = '"' then ['\\', '"']
  else if c = '\\' then ['\\', '\\']
  else if c = '\n' then ['\\', 'n']
  else if c = '\r' then ['\\', 'r']
  else if c = '\t' then ['\\', 't']
  else if c.toNat = 0 then ['\\', '0']
  else if isUnseen c then '\\' :: 'u' :: '\x7b' :: hexBefore c.toNat ['\x7d']
  else [c]

/-- A text in quotes. -/
def shownText (s : String) : String := String.ofList ('"' :: s.toList.flatMap shownChar ++ ['"'])

/-- A bound value with its kind. -/
def Sql.Value.shown : Sql.Value → String
  | .null => "Null"
  | .integer n => "Integer(" ++ toString n ++ ")"
  | .real x => "Real(" ++ RawRow.idLayout.write x ++ ")"
  | .text s => "Text(" ++ shownText s ++ ")"

/-- A routed query: where it goes, and each bound value under its number. -/
def RoutedQuery.shown (q : RoutedQuery) : String :=
  let head := ["scope:  " ++ q.level.name, "view:   " ++ q.view, "where:  " ++ q.whereText,
    "sql:    " ++ q.text]
  let params := q.params.zipIdx.map fun (value, i) =>
    "?" ++ toString (i + 1) ++ ":     " ++ value.shown
  String.join ((head ++ params).map (· ++ "\n"))

/-- A text with blanks behind it up to a width. -/
def padTo (width : Nat) (s : String) : String :=
  String.ofList (s.toList ++ List.replicate (width - s.length) ' ')

/-- A job on one line, with a note if it runs and is to stop. -/
def Job.shown (job : Job) : String :=
  String.intercalate "  " [job.id, padTo 9 job.kind.name, padTo 9 job.resource.name, job.topic,
    job.status.name, "published=" ++ toString job.published, "submitted=" ++ job.submitted]
    ++ (if job.cancelRequested && !job.status.isTerminal then "  (cancel requested)" else "")
    ++ "\n"

end InventoryFeed

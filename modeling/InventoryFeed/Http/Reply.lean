import InventoryFeed.Http.Decoding

/-!
# Reading a reply

What a client makes of all the bytes that it was sent. A head is a status line and fields up to an empty
line. Behind it the body is in chunks if a field says so, or else as long as another field states, and
nothing may follow it. A bare body has no head; it is a reply if it is a JSON text.
-/

namespace InventoryFeed.Http

/-- A reply that is complete. -/
structure Reply where
  /-- The status, where there is a head. -/
  status : Option Nat
  /-- The length of the body, where the head states it. -/
  stated : Option Nat
  /-- The body. -/
  body : List UInt8
  deriving DecidableEq, Repr

/-- The text of the line at the front, and what follows the end of the line. -/
def readLine (wire : List UInt8) : Option (List Char × List UInt8) := do
  let rest ← afterLineEnd? (wire.dropWhile isInLine)
  let text ← textOf? (wire.takeWhile isInLine)
  pure (text.toList, rest)

theorem readLine_eq_some {wire rest : List UInt8} {line : List Char} :
    readLine wire = some (line, rest) ↔
      afterLineEnd? (wire.dropWhile isInLine) = some rest ∧
        textOf? (wire.takeWhile isInLine) = some (String.ofList line) := by
  simp only [readLine, Option.bind_eq_bind, Option.bind_eq_some_iff]
  constructor
  · rintro ⟨rest', hrest, text, htext, h⟩
    cases h
    exact ⟨hrest, by rw [htext, String.ofList_toList]⟩
  · rintro ⟨hrest, htext⟩
    exact ⟨rest, hrest, _, htext, by rw [String.toList_ofList]; rfl⟩

theorem length_of_readLine {wire rest : List UInt8} {line : List Char}
    (h : readLine wire = some (line, rest)) : rest.length < wire.length := by
  have hline := length_afterLineEnd (readLine_eq_some.mp h).1
  have hdrop := (List.dropWhile_suffix isInLine (l := wire)).length_le
  omega

/-- The lines at the front up to the first that is empty, and what follows it. -/
def readHead (wire : List UInt8) : Option (List (List Char) × List UInt8) :=
  match _h : readLine wire with
  | none => none
  | some ([], rest) => some ([], rest)
  | some (line, rest) => (readHead rest).map fun (lines, after) => (line :: lines, after)
termination_by wire.length
decreasing_by exact length_of_readLine _h

/-- The number that decimal digits stand for. -/
def decimalOf? (digits : List Char) : Option Nat :=
  if digits ≠ [] ∧ digits.all Ascii.isDigit then some (Ascii.ofDigits 10 digits) else none

/-- The status that a status line states. -/
def statusOf? (line : List Char) : Option Nat := do
  let rest ← "HTTP/1.1 ".toList.isPrefixOf? line
  decimalOf? (rest.takeWhile (· != ' '))

/-- The value of a field, whose name may be written in any letter case, on a line. -/
def fieldOn? (name : String) (line : List Char) : Option (List Char) :=
  if Ascii.sameIgnoringCase (String.ofList (line.takeWhile (· != ':'))) name then
    some (((line.dropWhile (· != ':')).drop 1).dropWhile (· == ' '))
  else none

/-- The value of a field on the first of some lines that has it. -/
def field? (name : String) (lines : List (List Char)) : Option (List Char) :=
  lines.findSome? (fieldOn? name)

/-- The body behind the fields of a head, with its length where they state it. Nothing may follow it. -/
def bodyBehind? (fields : List (List Char)) (rest : List UInt8) : Option (Option Nat × List UInt8) :=
  if field? "transfer-encoding" fields = some "chunked".toList then
    match readChunks rest with
    | some (body, []) => some (none, body)
    | _ => none
  else
    match (field? "content-length" fields).bind decimalOf? with
    | some length => if rest.length = length then some (some length, rest) else none
    | none => none

/-- The reply that a head and the bytes behind it are. -/
def replyBehind? : List (List Char) → List UInt8 → Option Reply
  | [], _ => none
  | first :: fields, rest => do
    let status ← statusOf? first
    let (stated, body) ← bodyBehind? fields rest
    pure ⟨some status, stated, body⟩

/-- The one reply that some bytes are, if they are one. -/
def reply? (framing : Framing) (wire : List UInt8) : Option Reply :=
  match framing with
  | .chunked => (readHead wire).bind fun (head, rest) => replyBehind? head rest
  | .bare => if ((textOf? wire).bind Json.Tree.read).isSome then some ⟨none, none, wire⟩ else none

/-- The reply that answers with an error. -/
def errorReply (framing : Framing) (status : Nat) (body : List UInt8) : Reply :=
  match framing with
  | .chunked => ⟨some status, some body.length, body⟩
  | .bare => ⟨none, none, body⟩

/-- The reply that streams a body. -/
def streamReply (framing : Framing) (body : List UInt8) : Reply :=
  match framing with
  | .chunked => ⟨some 200, none, body⟩
  | .bare => ⟨none, none, body⟩

end InventoryFeed.Http

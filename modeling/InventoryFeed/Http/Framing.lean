import InventoryFeed.Document

/-!
# The bytes of a response

A response is a head and a body. The body of a stream goes out in chunks, each with its length in
hexadecimal digits before it, and an empty chunk at the end; the bare framing sends the body alone.
An error response states its length and is sent as one.
-/

namespace InventoryFeed.Http

/-- How a body is put on the wire. -/
inductive Framing where
  /-- With a head, in chunks. -/
  | chunked
  /-- The body alone. -/
  | bare
  deriving DecidableEq, Repr, Inhabited

/-- The bytes of a text. -/
def bytes (cs : List Char) : List UInt8 := cs.flatMap String.utf8EncodeChar

/-- The end of a line. -/
def lineEnd : List Char := ['\r', '\n']

/-- Lines with their ends. -/
def lines (texts : List String) : List Char := texts.flatMap fun text => text.toList ++ lineEnd

/-- The head of a stream: two fields and an empty line. -/
def streamHead : List UInt8 :=
  bytes (lines ["HTTP/1.1 200 OK", "Content-Type: application/json",
    "Transfer-Encoding: chunked", ""])

/-- The head of an error response of `length` bytes. -/
def errorHead (status : Nat) (reason : String) (length : Nat) : List UInt8 :=
  bytes (lines ["HTTP/1.1 " ++ toString status ++ " " ++ reason,
    "Content-Type: application/json", "Content-Length: " ++ toString length,
    "Connection: close", ""])

/-- A hexadecimal digit, the letters in capitals. -/
def sizeDigit (n : Nat) : Char := if n < 10 then Char.ofNat (48 + n) else Char.ofNat (55 + n)

/-- The hexadecimal digits of a length, before others. -/
def sizeDigits (n : Nat) (rest : List Char) : List Char :=
  if n < 16 then sizeDigit n :: rest else sizeDigits (n / 16) (sizeDigit (n % 16) :: rest)

/-- A chunk with the bytes given, of which there is at least one. -/
def chunk (body : List UInt8) : List UInt8 :=
  bytes (sizeDigits body.length [] ++ lineEnd) ++ body ++ bytes lineEnd

/-- The chunk that ends a body. -/
def lastChunk : List UInt8 := bytes (sizeDigit 0 :: lineEnd ++ lineEnd)

/-- The frame of a part of a body; the first one carries the head, the last one the end. -/
def frame (framing : Framing) (first last : Bool) (body : List UInt8) : List UInt8 :=
  match framing with
  | .bare => body
  | .chunked =>
    (if first then streamHead else []) ++ (if body.isEmpty then [] else chunk body)
      ++ (if last then lastChunk else [])

/-- The frame of a whole error response. -/
def errorFrame (framing : Framing) (status : Nat) (reason : String) (body : Document) :
    List UInt8 :=
  let payload := bytes body.write
  match framing with
  | .bare => payload
  | .chunked => errorHead status reason payload.length ++ payload

end InventoryFeed.Http

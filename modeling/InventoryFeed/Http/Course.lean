import InventoryFeed.Http.Response
import InventoryFeed.Stream.Call

/-!
# The course of a response

The calls on a response as values, what they are answered, and the bytes that they are to make: one
array of the accepted rows in their order, closed if the response is ended well. These bytes are told
apart from how a response makes them.
-/

namespace InventoryFeed.Http

/-- A call on a response. -/
inductive ResponseCall where
  /-- A call on it as a sink. -/
  | sink (call : SinkCall)
  /-- The answer with an error. -/
  | respondError (status : Nat) (reason : String) (body : Document)

namespace ResponseCall

/-- Whether a call with its answer ends a response: an end, an end by force, or an error that is sent. -/
def ends : ResponseCall × SinkAnswer → Bool
  | (sink .finish, _) => true
  | (sink .forceClose, _) => true
  | (respondError .., .ended (.ok ())) => true
  | _ => false

end ResponseCall

/-- The calls on a response with their answers. -/
abbrev ResponseRecord := List (ResponseCall × SinkAnswer)

namespace ResponseRecord

/-- The rows that were accepted. -/
def accepted (record : ResponseRecord) : List Row :=
  record.filterMap fun
    | (.sink (.write row), .status answer) => if Script.accepts answer then some row else none
    | _ => none

/-- The errors that were sent. -/
def errors (record : ResponseRecord) : List (Nat × String × Document) :=
  record.filterMap fun
    | (.respondError status reason body, .ended (.ok ())) => some (status, reason, body)
    | _ => none

/-- Whether the first call that ends the response is an end, neither by force nor by an error. -/
def endsWell (record : ResponseRecord) : Bool :=
  match record.find? ResponseCall.ends with
  | some (.sink .finish, _) => true
  | _ => false

end ResponseRecord

namespace Response

/-- Make a call on a response. -/
def call (r : Response) : ResponseCall → SinkAnswer × Response
  | .sink call => (sink.call r call).run
  | .respondError status reason body =>
    let (answer, r) := r.respondError status reason body
    (.ended answer, r)

/-- Make several calls on a response one after the other. -/
def calls (r : Response) : List ResponseCall → ResponseRecord × Response
  | [] => ([], r)
  | call :: rest =>
    let (answer, later) := r.call call
    let (record, last) := later.calls rest
    ((call, answer) :: record, last)

/-- What an array holds for a row: its document, or an object that has only its id. -/
def shown (row : Row) : Document := row.doc.getD (.object [("id", .text row.id)])

/-- The text of the array of rows. -/
def arrayText (rows : List Row) : List Char :=
  '[' :: [','].intercalate (rows.map fun row => (shown row).write) ++ [']']

/-- The parts of a body that rows make: what an array holds for each, behind a bracket or a comma. -/
def bodies (rows : List Row) : List (List UInt8) :=
  rows.mapIdx fun k row => bytes ((if k = 0 then '[' else ',') :: (shown row).write)

/-- The part of a body that closes the array behind the rows given. -/
def closing (rows : List Row) : List UInt8 := bytes (if rows.isEmpty then ['[', ']'] else [']'])

/-- The bytes of rows in their order: the parts that they make, each in a chunk of its own with the
head before the first, or bare. -/
def rowFrames (framing : Framing) (rows : List Row) : List UInt8 :=
  match framing with
  | .bare => (bodies rows).flatten
  | .chunked => (if rows.isEmpty then [] else streamHead) ++ (bodies rows).flatMap chunk

/-- The bytes that end a response well after the rows given. -/
def closingFrame (framing : Framing) (rows : List Row) : List UInt8 :=
  match framing with
  | .bare => closing rows
  | .chunked => (if rows.isEmpty then streamHead else []) ++ chunk (closing rows) ++ lastChunk

/-- The bytes that a response without error is made of. -/
def streamed (framing : Framing) (record : ResponseRecord) : List UInt8 :=
  rowFrames framing record.accepted ++
    if record.endsWell then closingFrame framing record.accepted else []

end Response

end InventoryFeed.Http

import InventoryFeed.Http.Framing
import InventoryFeed.Stream.Pump

/-!
# The response

Rows become the elements of one JSON array. Until the first frame is out, an error can be answered in
its own response instead; after that the only honest sign of a failure is to drop the connection
without the end of the body. Nothing can be written after an error response or an end.
-/

namespace InventoryFeed.Http

/-- When the peer of a connection goes away. -/
structure Departure where
  /-- The number of the frame at which it is found out, counted from one. -/
  frame : Nat
  /-- Whether the bytes of that frame had arrived. -/
  arrived : Bool
  deriving DecidableEq, Repr

/-- A connection as its peer sees it. -/
structure Connection where
  /-- The bytes that arrived. -/
  received : List UInt8
  /-- How many frames were delivered. -/
  frames : Nat
  /-- When the peer goes away, if it does. -/
  departure : Option Departure
  /-- Whether the connection was dropped by force. -/
  forceClosed : Bool
  deriving Repr

namespace Connection

/-- A connection before its first byte. -/
def fresh (departure : Option Departure) : Connection := ⟨[], 0, departure, false⟩

/-- Send a frame. -/
def receive (frame : List UInt8) (c : Connection) : Receipt × Connection :=
  match c.departure with
  | some departure =>
    if departure.frame = c.frames + 1 then
      (.refused .gone,
        if departure.arrived then { c with received := c.received ++ frame } else c)
    else (.taken, { c with received := c.received ++ frame, frames := c.frames + 1 })
  | none => (.taken, { c with received := c.received ++ frame, frames := c.frames + 1 })

/-- The connection as the consumer of frames. -/
def consumer : Consumer Id Connection (List UInt8) where
  deliver := receive
  close aborted c := if aborted then { c with forceClosed := true } else c

end Connection

/-- A response on its way. -/
structure Response where
  /-- How the body is put on the wire. -/
  framing : Framing
  /-- The frames on their way, the cost of each being its length. -/
  out : Outbound Connection (List UInt8)
  /-- Whether a frame has been made. -/
  headerSent : Bool
  /-- How many elements were accepted. -/
  elements : Nat
  /-- Whether the response has ended. -/
  finished : Bool

namespace Response

/-- A response before its first byte. -/
def start (framing : Framing) (marks : Marks) (pace : List Stride)
    (departure : Option Departure) : Response :=
  ⟨framing, .start marks pace (.fresh departure), false, 0, false⟩

/-- Queue a frame. -/
def sendFrame (frame : List UInt8) (r : Response) : Except SinkError WriteStatus × Response :=
  let (answer, out) := (r.out.push Connection.consumer frame frame.length).run
  (answer, { r with out, headerSent := true })

/-- Queue a part of the body. -/
def sendBody (body : List UInt8) (last : Bool) (r : Response) :
    Except SinkError WriteStatus × Response :=
  r.sendFrame (frame r.framing (!r.headerSent) last body)

/-- The element of a row: its document, or an object with its id. -/
def element (row : Row) : Document :=
  match row.doc with
  | some doc => doc
  | none => .object [("id", .text row.id)]

/-- The part of the body that an element makes. -/
def elementBody (first : Bool) (row : Row) : List UInt8 :=
  bytes ((if first then '[' else ',') :: (element row).write)

/-- The part of the body that ends it. -/
def closingBody (empty : Bool) : List UInt8 := bytes (if empty then ['[', ']'] else [']'])

/-- Write a row. -/
def write (row : Row) (r : Response) : Except SinkError WriteStatus × Response :=
  if r.finished then (.error .finished, r)
  else
    match r.sendBody (elementBody (r.elements = 0) row) false with
    | (.ok .closed, r) => (.ok .closed, r)
    | (.ok status, r) => (.ok status, { r with elements := r.elements + 1 })
    | (.error cause, r) => (.error cause, r)

/-- Let the connection take frames until there is room again. -/
def awaitDrain (r : Response) : Except SinkError WriteStatus × Response :=
  let (answer, out) := (r.out.awaitDrain Connection.consumer).run
  (answer, { r with out })

/-- Deliver everything and end the connection. -/
def deliverAll (r : Response) : Except SinkError Unit × Response :=
  let (answer, out) := (r.out.finish Connection.consumer).run
  (answer, { r with out, finished := true })

/-- End the array and the body; a second end changes nothing. -/
def finish (r : Response) : Except SinkError Unit × Response :=
  if r.finished then (.ok (), r)
  else
    match r.sendBody (closingBody (r.elements = 0)) true with
    | (.error cause, r) => (.error cause, r)
    | (.ok _, r) => r.deliverAll

/-- End without the end of the body. -/
def forceClose (r : Response) : Response :=
  { r with out := (r.out.abort Connection.consumer).run, finished := true }

/-- Answer with an error instead of the stream; refused once a frame has been made. -/
def respondError (status : Nat) (reason : String) (body : Document) (r : Response) :
    Except SinkError Unit × Response :=
  if r.headerSent || r.finished then (.error .finished, r)
  else
    match r.sendFrame (errorFrame r.framing status reason body) with
    | (.error cause, r) => (.error cause, r)
    | (.ok _, r) => r.deliverAll

/-- The response let go as it is: what is queued is still delivered. -/
def release (r : Response) : Response :=
  { r with out := (r.out.drainAndEnd Connection.consumer).run }

/-- The connection of a response. -/
def connection (r : Response) : Connection := r.out.consumer

/-- The text that reached the peer; none of it if its bytes are no text. -/
def text (r : Response) : String := (String.fromUTF8? ⟨r.connection.received.toArray⟩).getD ""

/-- The response as a consumer of rows. -/
def sink : Sink Id Response where
  write := write
  awaitDrain := awaitDrain
  headerSent := headerSent
  finish := finish
  forceClose := forceClose

end Response

end InventoryFeed.Http

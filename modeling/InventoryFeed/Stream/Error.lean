/-!
# Failures of a stream

What can go wrong at either end of a stream of rows, and the wording of it.
-/

namespace InventoryFeed

/-- Why the store gives no more rows. -/
inductive CursorError where
  /-- The query was refused before it gave a row. -/
  | rejected (message : String)
  /-- A row could not be read. -/
  | read (message : String)
  /-- The reader ended without a word. -/
  | readerGone
  deriving DecidableEq, Repr, Inhabited

/-- Why a sink takes no row although its consumer is there. -/
inductive SinkError where
  /-- The row cannot be encoded. -/
  | encode (message : String)
  /-- The consumer refused an item. -/
  | delivery (message : String)
  /-- The sink was ended before. -/
  | finished
  deriving DecidableEq, Repr, Inhabited

/-- A failure from either end of a stream. -/
inductive StreamError where
  /-- A failure of the cursor. -/
  | cursor (cause : CursorError)
  /-- A failure of the sink. -/
  | sink (cause : SinkError)
  deriving DecidableEq, Repr, Inhabited

/-- The wording of a failure of the cursor. -/
def CursorError.text : CursorError → String
  | rejected message => "query rejected: " ++ message
  | read message => "row read failed: " ++ message
  | readerGone => "cursor reader stopped unexpectedly"

/-- The wording of a failure of the sink. -/
def SinkError.text : SinkError → String
  | encode message => "row encoding failed: " ++ message
  | delivery message => "delivery failed: " ++ message
  | finished => "sink already finished"

/-- The wording of a failure, which is that of its cause. -/
def StreamError.text : StreamError → String
  | cursor cause => cause.text
  | sink cause => cause.text

/-- The name of a failure's kind. -/
def StreamError.kind : StreamError → String
  | cursor (.rejected _) => "Rejected"
  | cursor (.read _) => "Read"
  | cursor .readerGone => "ReaderGone"
  | sink (.encode _) => "Encode"
  | sink (.delivery _) => "Delivery"
  | sink .finished => "Finished"

/-- A crash of a step that has no failures of its own, with the text that it left, if it is one. -/
structure Crash where
  /-- What was said about it. -/
  said : Option String
  deriving DecidableEq, Repr, Inhabited

/-- The wording of a crash. -/
def Crash.text (c : Crash) : String := c.said.getD "unknown panic"

end InventoryFeed

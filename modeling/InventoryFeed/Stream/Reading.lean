import InventoryFeed.Stream.Cursor

/-!
# Reading a cursor

A cursor over results, each a row or an error, and the calls on it as values, so that one can speak
of every order in which it is read and closed.
-/

namespace InventoryFeed

/-- A result of a sequence of rows as an item. -/
def RowItem.ofResult : Except CursorError Row → RowItem
  | .ok r => .row r
  | .error cause => .failed cause

/-- The items that an answer hands out. -/
def Pull.items : Pull → List RowItem
  | rows batch => batch.map .row
  | failed cause => [.failed cause]
  | crashed crash => [.crashed crash]

/-- A call on a cursor. -/
inductive CursorCall where
  /-- Ask for the next answer. -/
  | next
  /-- Give up the items. -/
  | close
  deriving DecidableEq, Repr

namespace RowCursor

/-- What a call answers, and the cursor after it; a call to close it answers nothing. -/
def call (c : RowCursor) : CursorCall → Option Pull × RowCursor
  | .next => c.next
  | .close => (none, c.close)

/-- A cursor after several calls. -/
def calls (c : RowCursor) (all : List CursorCall) : RowCursor :=
  all.foldl (fun c what => (c.call what).2) c

/-- A cursor after so many questions for the next answer. -/
def asked (c : RowCursor) (count : Nat) : RowCursor := c.calls (List.replicate count .next)

end RowCursor

end InventoryFeed

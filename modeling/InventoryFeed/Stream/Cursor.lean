import InventoryFeed.Row
import InventoryFeed.Stream.Error

/-!
# Cursors

A cursor is known by its answers: batches of rows and failures, in order, until it has no more to
say. `RowCursor` is the cursor over items that are at hand; it cuts them into batches, and a failure
behind rows is kept back until those rows are handed out. `RowCursor.answers` lists what it says.

Room for a whole batch is reserved before its first row is read, so there is a largest batch
(`Row.batchLimit`); a cursor with larger ones crashes. Running out of memory below that limit is
outside the model.
-/

namespace InventoryFeed

/-- The bytes of a row in a batch: three words for its id, four for its document. -/
def Row.width : Nat := 56

/-- The rows of the largest batch: no more bytes are reserved at once than a signed word counts. -/
def Row.batchLimit : Nat := (Word.signedEnd - 1) / Row.width

/-- The crash of a reservation that is too large. -/
def Crash.noRoom : Crash := ⟨some "capacity overflow"⟩

/-- An answer of a cursor other than that there are no more rows. -/
inductive Pull where
  /-- The next rows. -/
  | rows (batch : List Row)
  /-- No rows but a failure. -/
  | failed (cause : CursorError)
  /-- The cursor crashed. -/
  | crashed (crash : Crash)
  deriving Repr, Inhabited

/-- One item of a sequence of rows. -/
inductive RowItem where
  /-- A row. -/
  | row (row : Row)
  /-- A failure in the place of a row. -/
  | failed (cause : CursorError)
  /-- The sequence crashes here. -/
  | crashed (crash : Crash)
  deriving Repr, Inhabited

/-- Why the reading of a batch ended. -/
inductive BatchEnd where
  /-- The batch is full. -/
  | full
  /-- There are no more items. -/
  | exhausted
  /-- A failure came. -/
  | failed (cause : CursorError)
  /-- The sequence crashed. -/
  | crashed (crash : Crash)
  deriving Repr

/-- The rows at the front, at most `room` of them, why there are no more, and the items after. -/
def RowItem.readBatch : Nat → List RowItem → List Row × BatchEnd × List RowItem
  | 0, items => ([], .full, items)
  | _ + 1, [] => ([], .exhausted, [])
  | room + 1, .row r :: items =>
    let (batch, ended, rest) := readBatch room items
    (r :: batch, ended, rest)
  | _ + 1, .failed cause :: items => ([], .failed cause, items)
  | _ + 1, .crashed crash :: items => ([], .crashed crash, items)

/-- The cursor over items that are at hand. -/
structure RowCursor where
  /-- The items to come; none when the cursor is closed. -/
  items : Option (List RowItem)
  /-- The rows of a full batch. -/
  batchSize : Nat
  /-- A failure that waits for the rows before it to be handed out. -/
  deferred : Option CursorError
  deriving Repr

namespace RowCursor

/-- A cursor over items; batches hold one row at least. -/
def ofItems (items : List RowItem) (batchSize : Nat) : RowCursor :=
  ⟨some items, max batchSize 1, none⟩

/-- Whether the cursor is closed. -/
def isClosed (c : RowCursor) : Bool := c.items.isNone

/-- Give up all items and a failure that waits. -/
def close (c : RowCursor) : RowCursor := { c with items := none, deferred := none }

/-- Read the next batch of items. -/
def read (c : RowCursor) (items : List RowItem) : Option Pull × RowCursor :=
  match RowItem.readBatch c.batchSize items with
  | (_, .crashed crash, rest) => (some (.crashed crash), { c with items := some rest })
  | ([], .failed cause, rest) => (some (.failed cause), { c with items := some rest })
  | (batch, .failed cause, rest) =>
    (some (.rows batch), { c with items := some rest, deferred := some cause })
  | ([], _, rest) => (none, { c with items := some rest })
  | (batch, _, rest) => (some (.rows batch), { c with items := some rest })

/-- The next answer, none when there are no more rows. -/
def next (c : RowCursor) : Option Pull × RowCursor :=
  match c.deferred, c.items with
  | some cause, _ => (some (.failed cause), { c with deferred := none })
  | none, none => (none, c)
  | none, some items =>
    if Row.batchLimit < c.batchSize then (some (.crashed .noRoom), c) else c.read items

theorem next_eq_read {items : List RowItem} {batchSize : Nat} (h : batchSize ≤ Row.batchLimit) :
    next ⟨some items, batchSize, none⟩ = read ⟨some items, batchSize, none⟩ items :=
  if_neg (Nat.not_lt.mpr h)

/-- How many answers the cursor has at most before it has no more rows. One that has no room for a
batch crashes again and again: it is left at the first crash. -/
def size (c : RowCursor) : Nat :=
  (if Row.batchLimit < c.batchSize then 1 else (c.items.getD []).length) + c.deferred.toList.length

/-- The first `count` answers, fewer if the cursor has no more rows before. -/
def answersWithin : Nat → RowCursor → List Pull
  | 0, _ => []
  | count + 1, c =>
    match c.next with
    | (none, _) => []
    | (some answer, rest) => answer :: answersWithin count rest

/-- The answers up to the first that there are no more rows. -/
def answers (c : RowCursor) : List Pull := answersWithin c.size c

end RowCursor

end InventoryFeed

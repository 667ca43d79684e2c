/-!
# Marks

The high and the low mark of a queue's pending cost: above the high mark a producer is to stop, at
the low mark it may go on. The low mark never lies above the high one.
-/

namespace InventoryFeed

/-- The two marks of a queue. -/
structure Marks where
  /-- Above this cost the queue is saturated. -/
  high : Nat
  /-- Down to this cost a saturated queue must drain. -/
  low : Nat
  /-- The low mark is not above the high mark. -/
  low_le_high : low ≤ high
  deriving DecidableEq, Repr

namespace Marks

/-- The marks with the low one brought down to the high one if it lies above. -/
def clamp (high low : Nat) : Marks := ⟨high, min low high, Nat.min_le_right low high⟩

/-- The marks of a response, in bytes. -/
def http : Marks := clamp 65536 16384

/-- The marks of a bus, in messages. -/
def events : Marks := clamp 1000 250

end Marks

end InventoryFeed

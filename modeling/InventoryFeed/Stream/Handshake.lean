import InventoryFeed.Stream.Outbound

/-!
# The handshake of producer and consumer

The outbound queue looked at more closely: two parties that take atomic steps over the queued costs,
the pending sum, a flag that the producer waits, and a channel that holds one token at most. The
producer pushes, and after a push that passed the high mark it waits until the pending sum is down to
the low mark, sleeping on the channel in between. The consumer takes a cost from the queue, delivers,
takes it off the pending sum, and wakes the producer if the sum that it computed is low enough and
the flag was up. A `HandshakeMove` says which party steps next; a party that cannot step stays.
-/

namespace InventoryFeed

/-- Where the producer is. -/
inductive ProducerPhase where
  /-- Between two calls, free to push. -/
  | free
  /-- No fault was seen; the cost is to be added to the pending sum. -/
  | adding (cost : Nat)
  /-- The cost was added, which made this sum; the item is to be sent. -/
  | sending (cost sum : Nat)
  /-- The item was sent; the sum is to be compared with the high mark. -/
  | sent (sum : Nat)
  /-- The push was answered saturated, or a token came; a fault is to be looked for. -/
  | waiting
  /-- No fault was seen; the pending sum is to be compared with the low mark. -/
  | comparing
  /-- The pending sum was low enough; the flag is to be taken down. -/
  | clearing
  /-- The pending sum was too high; the producer sleeps until there is a token. -/
  | asleep
  /-- A fault was seen, which ends the run. -/
  | stopped
  deriving DecidableEq, Repr

/-- Where the consumer is. -/
inductive ConsumerPhase where
  /-- Waiting for an item. -/
  | idle
  /-- An item was taken and is to be delivered. -/
  | holding (cost : Nat)
  /-- The item was refused and the fault is set; a token is to be sent. -/
  | refusing (cost : Nat)
  /-- The item is done with; its cost is to be taken off the pending sum. -/
  | releasing (cost : Nat)
  /-- The cost was taken off, which left this sum; it is to be compared with the low mark and the
  flag is to be taken down if it is low enough. -/
  | released (sum : Nat)
  /-- The flag was up; a token is to be sent. -/
  | waking
  deriving DecidableEq, Repr

/-- Both parties and what is between them. -/
structure Handshake where
  /-- The marks of the pending sum. -/
  marks : Marks
  /-- The costs of the queued items. -/
  queue : List Nat
  /-- The pending sum, of bytes or messages that are held in memory. That is less than 64 bits can say, so no
  step wraps it around. -/
  pending : Nat
  /-- The flag that the producer waits. -/
  flag : Bool
  /-- Whether there is a token in the channel. -/
  token : Bool
  /-- Whether a fault is set. -/
  fault : Bool
  /-- Where the producer is. -/
  producer : ProducerPhase
  /-- Where the consumer is. -/
  consumer : ConsumerPhase
  deriving DecidableEq, Repr

/-- Which party steps next. -/
inductive HandshakeMove where
  /-- The producer; if it is free it pushes an item of this cost. -/
  | produce (cost : Nat)
  /-- The consumer; if it delivers, it may be that the item is refused. -/
  | consume (refused : Bool)
  deriving DecidableEq, Repr

namespace Handshake

/-- Both parties before their first step. -/
def start (marks : Marks) : Handshake := ⟨marks, [], 0, false, false, false, .free, .idle⟩

/-- A step of the producer. -/
def produce (cost : Nat) (h : Handshake) : Handshake :=
  match h.producer with
  | .free => { h with producer := if h.fault then .stopped else .adding cost }
  | .adding cost =>
    { h with pending := h.pending + cost, producer := .sending cost (h.pending + cost) }
  | .sending cost sum => { h with queue := h.queue ++ [cost], producer := .sent sum }
  | .sent sum =>
    if h.marks.high < sum then { h with flag := true, producer := .waiting }
    else { h with producer := .free }
  | .waiting => { h with producer := if h.fault then .stopped else .comparing }
  | .comparing =>
    { h with producer := if h.pending ≤ h.marks.low then .clearing else .asleep }
  | .clearing => { h with flag := false, producer := .free }
  | .asleep => if h.token then { h with token := false, producer := .waiting } else h
  | .stopped => h

/-- A step of the consumer. After a fault items are taken from the queue and not delivered. -/
def consume (refused : Bool) (h : Handshake) : Handshake :=
  match h.consumer with
  | .idle =>
    match h.queue with
    | [] => h
    | cost :: rest =>
      { h with queue := rest, consumer := if h.fault then .releasing cost else .holding cost }
  | .holding cost =>
    if refused then { h with fault := true, consumer := .refusing cost }
    else { h with consumer := .releasing cost }
  | .refusing cost => { h with token := true, consumer := .releasing cost }
  | .releasing cost =>
    { h with pending := h.pending - cost, consumer := .released (h.pending - cost) }
  | .released sum =>
    if sum ≤ h.marks.low ∧ h.flag then { h with flag := false, consumer := .waking }
    else { h with consumer := .idle }
  | .waking => { h with token := true, consumer := .idle }

/-- Make a move. -/
def move (h : Handshake) : HandshakeMove → Handshake
  | .produce cost => h.produce cost
  | .consume refused => h.consume refused

/-- Make moves one after the other. -/
def moves (all : List HandshakeMove) (h : Handshake) : Handshake := all.foldl move h

/-- Whether the producer sleeps and nothing will wake it: there is no token, nothing is queued, the
consumer waits for an item, and no fault is set. -/
def Deserted (h : Handshake) : Prop :=
  h.producer = .asleep ∧ h.token = false ∧ h.queue = [] ∧ h.consumer = .idle ∧ h.fault = false

instance (h : Handshake) : Decidable h.Deserted := by
  unfold Deserted
  infer_instance

end Handshake

end InventoryFeed

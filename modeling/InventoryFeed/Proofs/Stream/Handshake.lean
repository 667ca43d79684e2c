import InventoryFeed.Stream.Handshake
import Mathlib.Tactic.Common

/-!
# When the producer is left asleep

The consumer takes a cost off the pending sum, and only then takes down the flag of a waiting
producer, by the sum that it computed before. If the producer has gone on in between, pushed above
the high mark and raised the flag anew, the flag that the consumer takes down is no longer the one
that its sum is about: the token it sends comes too early, and for the sum that matters there is no
flag left. From there the producer can end up asleep for ever. As long as the consumer is not
overtaken in this way, it never does.
-/

namespace InventoryFeed

/-- The cost that the producer has added to the pending sum and not sent. -/
def ProducerPhase.unsent : ProducerPhase → Nat
  | sending cost _ => cost
  | _ => 0

/-- Whether the producer waits for the pending sum to be low enough. -/
def ProducerPhase.waits : ProducerPhase → Bool
  | waiting => true
  | comparing => true
  | asleep => true
  | _ => false

/-- The cost that the consumer has taken and not given back. -/
def ConsumerPhase.held : ConsumerPhase → Nat
  | holding cost => cost
  | refusing cost => cost
  | releasing cost => cost
  | _ => 0

/-- Whether the consumer is to take down the flag, the sum that it computed being low enough. -/
def ConsumerPhase.wakes (low : Nat) : ConsumerPhase → Bool
  | released sum => sum ≤ low
  | _ => false

namespace Handshake

/-- The sum of queued costs. -/
def total : List Nat → Nat
  | [] => 0
  | cost :: rest => cost + total rest

theorem total_concat (queue : List Nat) (cost : Nat) :
    total (queue ++ [cost]) = total queue + cost := by
  induction queue with
  | nil => exact Nat.add_comm cost 0
  | cons first rest ih => rw [List.cons_append, total, total, ih, Nat.add_assoc]

/-- Whether the producer is about to raise the flag while the consumer is about to take it down for a
sum that is out of date. -/
def overtaken (h : Handshake) : Bool :=
  match h.producer with
  | .sent sum =>
    h.marks.high < sum && h.consumer.wakes h.marks.low && h.marks.low < h.pending && !h.fault
  | _ => false

/-- What holds as long as the consumer is not overtaken. -/
structure Sound (h : Handshake) : Prop where
  /-- The pending sum is made up of what is queued and what either party has in its hands. -/
  account : h.pending = total h.queue + h.producer.unsent + h.consumer.held
  /-- A waiting producer has its flag up until the pending sum is low enough. -/
  flagged : h.producer.waits = true → h.flag = true ∨ h.pending ≤ h.marks.low
  /-- While the producer waits, the flag is taken down for a sum that is low enough still. -/
  current : h.producer.waits = true → h.consumer.wakes h.marks.low = true →
    h.pending ≤ h.marks.low
  /-- A producer that sleeps will be woken. -/
  woken : h.producer = .asleep → h.marks.low < h.pending ∨ h.token = true ∨
    h.consumer = .waking ∨ h.flag = true ∧ h.consumer.wakes h.marks.low = true

theorem sound_start (marks : Marks) : (start marks).Sound :=
  ⟨rfl, nofun, nofun, nofun⟩

/-- The producer keeps this, unless the consumer is overtaken. -/
theorem sound_produce {h : Handshake} (hs : h.Sound) (hfault : h.fault = false)
    (hnot : h.overtaken = false) (cost : Nat) : (h.produce cost).Sound := by
  obtain ⟨marks, queue, pending, flag, token, fault, producer, consumer⟩ := h
  obtain ⟨haccount, hflagged, hcurrent, hwoken⟩ := hs
  dsimp only at *
  subst hfault
  cases producer with
  | free => exact ⟨haccount, nofun, nofun, nofun⟩
  | adding cost =>
    refine ⟨?_, nofun, nofun, nofun⟩
    simp only [produce, ProducerPhase.unsent] at haccount ⊢
    omega
  | sending cost sum =>
    refine ⟨?_, nofun, nofun, nofun⟩
    simp only [produce, ProducerPhase.unsent, total_concat] at haccount ⊢
    omega
  | sent sum =>
    simp only [produce]
    split
    · rename_i hhigh
      refine ⟨haccount, fun _ => .inl rfl, fun _ hwakes => ?_, nofun⟩
      dsimp only at hwakes ⊢
      simpa [overtaken, hhigh, hwakes] using hnot
    · exact ⟨haccount, nofun, nofun, nofun⟩
  | waiting => exact ⟨haccount, fun _ => hflagged rfl, fun _ => hcurrent rfl, nofun⟩
  | comparing =>
    simp only [produce]
    split
    · exact ⟨haccount, nofun, nofun, nofun⟩
    · rename_i hlow
      have hhigh : marks.low < pending := Nat.not_le.mp hlow
      exact ⟨haccount, fun _ => hflagged rfl, fun _ => hcurrent rfl, fun _ => .inl hhigh⟩
  | clearing => exact ⟨haccount, nofun, nofun, nofun⟩
  | asleep =>
    simp only [produce]
    split
    · exact ⟨haccount, fun _ => hflagged rfl, fun _ => hcurrent rfl, nofun⟩
    · exact ⟨haccount, hflagged, hcurrent, hwoken⟩
  | stopped => exact ⟨haccount, nofun, nofun, nofun⟩

/-- So does the consumer. -/
theorem sound_consume {h : Handshake} (hs : h.Sound) (refused : Bool) :
    (h.consume refused).Sound := by
  obtain ⟨marks, queue, pending, flag, token, fault, producer, consumer⟩ := h
  obtain ⟨haccount, hflagged, hcurrent, hwoken⟩ := hs
  dsimp only at *
  cases consumer with
  | idle =>
    cases queue with
    | nil => exact ⟨haccount, hflagged, hcurrent, hwoken⟩
    | cons cost rest =>
      simp only [ConsumerPhase.held, total] at haccount
      simp only [ConsumerPhase.wakes, reduceCtorEq, Bool.false_eq_true, and_false,
        or_false] at hwoken
      cases fault with
      | true =>
        refine ⟨?_, hflagged, nofun, fun hp => (hwoken hp).imp_right .inl⟩
        simp only [consume, if_true, ConsumerPhase.held]
        omega
      | false =>
        refine ⟨?_, hflagged, nofun, fun hp => (hwoken hp).imp_right .inl⟩
        simp only [consume, ConsumerPhase.held, Bool.false_eq_true, if_false]
        omega
  | holding cost =>
    simp only [ConsumerPhase.wakes, reduceCtorEq, Bool.false_eq_true, and_false, or_false] at hwoken
    cases refused with
    | true => exact ⟨haccount, hflagged, nofun, fun hp => (hwoken hp).imp_right .inl⟩
    | false => exact ⟨haccount, hflagged, nofun, fun hp => (hwoken hp).imp_right .inl⟩
  | refusing cost => exact ⟨haccount, hflagged, nofun, fun _ => .inr (.inl rfl)⟩
  | releasing cost =>
    simp only [ConsumerPhase.held] at haccount
    simp only [ConsumerPhase.wakes, reduceCtorEq, Bool.false_eq_true, and_false, or_false] at hwoken
    refine ⟨?_, fun hp => (hflagged hp).imp_right fun hle => ?_, ?_, fun hp => ?_⟩
    · simp only [consume, ConsumerPhase.held]
      omega
    · exact Nat.le_trans (Nat.sub_le _ _) hle
    · intro _ hwakes
      simpa [consume, ConsumerPhase.wakes] using hwakes
    · by_cases hlow : pending - cost ≤ marks.low
      · -- The sum was too high before, and the flag is up, or a token is on its way already.
        have hwaits : producer.waits = true := congrArg ProducerPhase.waits hp
        rcases hflagged hwaits with hflag | hle
        · exact .inr (.inr (.inr ⟨hflag, by simpa [consume, ConsumerPhase.wakes] using hlow⟩))
        · exact .inr (.inl ((hwoken hp).resolve_left (Nat.not_lt.mpr hle)))
      · exact .inl (Nat.not_le.mp hlow)
  | released sum =>
    simp only [consume]
    split
    · rename_i hlow
      refine ⟨haccount, fun hp => .inr (hcurrent hp ?_), nofun, fun _ => .inr (.inr (.inl rfl))⟩
      simpa [ConsumerPhase.wakes] using hlow.1
    · rename_i hnot
      refine ⟨haccount, hflagged, nofun, fun hp => ?_⟩
      rcases hwoken hp with hhigh | htoken | hwaking | ⟨hflag, hwakes⟩
      · exact .inl hhigh
      · exact .inr (.inl htoken)
      · cases hwaking
      · exact absurd ⟨by simpa [ConsumerPhase.wakes] using hwakes, hflag⟩ hnot
  | waking => exact ⟨haccount, hflagged, nofun, fun _ => .inr (.inl rfl)⟩

/-- No step takes a fault back. -/
theorem fault_of_move {h : Handshake} {move : HandshakeMove} (hfault : (h.move move).fault = false) :
    h.fault = false := by
  cases move with
  | produce cost =>
    simp only [Handshake.move, produce] at hfault
    split at hfault
    all_goals first
      | exact hfault
      | split at hfault <;> exact hfault
  | consume refused =>
    simp only [Handshake.move, consume] at hfault
    split at hfault
    · split at hfault <;> exact hfault
    · split at hfault
      · cases hfault
      · exact hfault
    · exact hfault
    · exact hfault
    · split at hfault <;> exact hfault
    · exact hfault

theorem fault_of_moves (all : List HandshakeMove) {h : Handshake}
    (hfault : (h.moves all).fault = false) : h.fault = false := by
  induction all generalizing h with
  | nil => exact hfault
  | cons move rest ih => exact fault_of_move (ih hfault)

/-- A run without a fault in which the consumer is never overtaken keeps this. -/
theorem sound_moves (all : List HandshakeMove) {h : Handshake} (hs : h.Sound)
    (hnot : ∀ before, before <+: all → (h.moves before).overtaken = false)
    (hfault : (h.moves all).fault = false) : (h.moves all).Sound := by
  induction all generalizing h with
  | nil => exact hs
  | cons move rest ih =>
    have hfault₀ : h.fault = false := fault_of_moves (move :: rest) hfault
    have hnot₀ : h.overtaken = false := hnot [] List.nil_prefix
    have hs₁ : (h.move move).Sound := by
      cases move with
      | produce cost => exact sound_produce hs hfault₀ hnot₀ cost
      | consume refused => exact sound_consume hs refused
    refine ih hs₁ (fun before hbefore => ?_) hfault
    exact hnot (move :: before) (List.cons_prefix_cons.mpr ⟨rfl, hbefore⟩)

/-- A producer that will be woken is not left asleep. -/
theorem Sound.not_deserted {h : Handshake} (hs : h.Sound) : ¬h.Deserted := by
  rintro ⟨hasleep, htoken, hqueue, hidle, -⟩
  have haccount := hs.account
  rw [hqueue, hasleep, hidle] at haccount
  rcases hs.woken hasleep with hhigh | htoken' | hwaking | ⟨-, hwakes⟩
  · simp only [total, ProducerPhase.unsent, ConsumerPhase.held] at haccount
    omega
  · exact absurd (htoken.symm.trans htoken') nofun
  · exact absurd (hidle.symm.trans hwaking) nofun
  · rw [hidle] at hwakes
    cases hwakes

/-- In a run in which the consumer is never overtaken, the producer is not left asleep. -/
theorem not_deserted_of_never_overtaken (marks : Marks) {all : List HandshakeMove}
    (hnever : ∀ before, before <+: all → ((start marks).moves before).overtaken = false) :
    ¬((start marks).moves all).Deserted := by
  intro hdeserted
  have hfault : ((start marks).moves all).fault = false := hdeserted.2.2.2.2
  exact (sound_moves all (sound_start marks) hnever hfault).not_deserted hdeserted

/-- A consumer that has no one to wake takes all that is queued. -/
theorem desert {h : Handshake} (hproducer : h.producer = .asleep) (hconsumer : h.consumer = .idle)
    (htoken : h.token = false) (hflag : h.flag = false) (hfault : h.fault = false) :
    ∃ later, (h.moves later).Deserted := by
  obtain ⟨marks, queue, pending, flag, token, fault, producer, consumer⟩ := h
  dsimp only at *
  subst hproducer hconsumer htoken hflag hfault
  induction queue generalizing pending with
  | nil => exact ⟨[], rfl, rfl, rfl, rfl, rfl⟩
  | cons cost rest ih =>
    obtain ⟨later, hlater⟩ := ih (pending - cost)
    refine ⟨List.replicate 4 (.consume false) ++ later, ?_⟩
    simpa [moves, List.replicate, Handshake.move, consume] using hlater

theorem moves_append (h : Handshake) (all later : List HandshakeMove) :
    h.moves (all ++ later) = (h.moves all).moves later :=
  List.foldl_append ..

/-- Once the consumer is overtaken, the producer can be left asleep: the consumer sends its token and
takes down the flag, the producer takes the token for nothing and sleeps again without a flag. -/
theorem deserted_of_overtaken {h : Handshake} (hover : h.overtaken = true) :
    ∃ later, (h.moves later).Deserted := by
  obtain ⟨marks, queue, pending, flag, token, fault, producer, consumer⟩ := h
  cases producer with
  | sent sum =>
    cases consumer with
    | released rest =>
      simp only [overtaken, ConsumerPhase.wakes, Bool.and_eq_true, decide_eq_true_eq,
        Bool.not_eq_true'] at hover
      obtain ⟨⟨⟨hhigh, hrest⟩, hpending⟩, rfl⟩ := hover
      obtain ⟨first, hasleep⟩ : ∃ first, (Handshake.mk marks queue pending flag token false
          (.sent sum) (.released rest)).moves first =
            ⟨marks, queue, pending, false, false, false, .asleep, .idle⟩ := by
        refine ⟨.produce 0 :: .consume false :: .consume false :: List.replicate 5 (.produce 0), ?_⟩
        simp [moves, List.replicate, Handshake.move, produce, consume, hhigh, hrest,
          Nat.not_le.mpr hpending]
      obtain ⟨later, hlater⟩ := desert (h := ⟨marks, queue, pending, false, false, false, .asleep,
        .idle⟩) rfl rfl rfl rfl rfl
      refine ⟨first ++ later, ?_⟩
      rw [moves_append, hasleep]
      exact hlater
    | _ => simp [overtaken, ConsumerPhase.wakes] at hover
  | _ => cases hover

/-- The consumer can be overtaken whatever the marks are. -/
theorem overtaken_reachable (marks : Marks) :
    ∃ all, ((start marks).moves all).overtaken = true := by
  refine ⟨List.replicate 4 (.produce (marks.high + 1)) ++ List.replicate 3 (.consume false) ++
    List.replicate 6 (.produce (marks.high + 1)), ?_⟩
  have hlow := marks.low_le_high
  simp [moves, List.replicate, start, Handshake.move, produce, consume, overtaken,
    ConsumerPhase.wakes]
  omega

/-- The producer is left asleep only in a run in which the consumer was overtaken; and every run in
which the consumer has just been overtaken can go on to leave it asleep. -/
theorem deserted_only_after_overtaken (marks : Marks) (all : List HandshakeMove) :
    (((start marks).moves all).Deserted →
      ∃ before, before <+: all ∧ ((start marks).moves before).overtaken = true) ∧
    (((start marks).moves all).overtaken = true →
      ∃ later, ((start marks).moves (all ++ later)).Deserted) := by
  constructor
  · intro hdeserted
    by_contra hnot
    have hnever : ∀ before, before <+: all → ((start marks).moves before).overtaken = false :=
      fun before hbefore => Bool.eq_false_iff.mpr fun hover => hnot ⟨before, hbefore, hover⟩
    exact not_deserted_of_never_overtaken marks hnever hdeserted
  · intro hover
    obtain ⟨later, hlater⟩ := deserted_of_overtaken hover
    exact ⟨later, by rwa [moves_append]⟩

/-- Two items and no room for any: the second push comes while the consumer is done with the first
item and has not looked at the flag. -/
theorem deserted_without_room :
    ((start (.clamp 0 0)).moves (List.replicate 4 (.produce 1) ++
      List.replicate 3 (.consume false) ++ List.replicate 7 (.produce 1) ++
      List.replicate 2 (.consume false) ++ List.replicate 6 (.produce 1) ++
      List.replicate 5 (.consume false))).Deserted := by
  decide

end Handshake

end InventoryFeed

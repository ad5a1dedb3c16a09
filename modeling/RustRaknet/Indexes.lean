import RustRaknet.Sequence

/-! # Index bookkeeping

`arq.rs`: `ChannelIndexes`, one 24-bit counter for each ordering channel, and `ACKSet`, the datagram
numbers to acknowledge and the ranges found missing. A channel that was never used reads as zero, so
the hash map of the other channels is a function. -/

namespace RustRaknet.Indexes

open RustRaknet.Sequence

/-! ### Channel indexes -/

/-- `ChannelIndexes`. -/
structure ChannelIndexes where
  primary : ℕ
  others : ℕ → ℕ

namespace ChannelIndexes

/-- `ChannelIndexes::default`. -/
def empty : ChannelIndexes := ⟨0, fun _ => 0⟩

/-- `ChannelIndexes::get`. -/
def get (c : ChannelIndexes) (channel : ℕ) : ℕ :=
  if channel = 0 then c.primary else c.others channel

/-- A write through `ChannelIndexes::get_mut`. -/
def set (c : ChannelIndexes) (channel index : ℕ) : ChannelIndexes :=
  if channel = 0 then { c with primary := index }
  else { c with others := Function.update c.others channel index }

@[simp] theorem get_empty (channel : ℕ) : empty.get channel = 0 := by simp [get, empty]

@[simp] theorem get_set_self (c : ChannelIndexes) (channel index : ℕ) :
    (c.set channel index).get channel = index := by
  unfold get set; split_ifs <;> simp

theorem get_set_of_ne (c : ChannelIndexes) {channel channel' : ℕ} (index : ℕ)
    (h : channel' ≠ channel) : (c.set channel index).get channel' = c.get channel' := by
  unfold get set
  split_ifs with h1 h2
  · omega
  · rfl
  · rfl
  · simp [Function.update_of_ne h]

theorem get_set (c : ChannelIndexes) (channel channel' index : ℕ) :
    (c.set channel index).get channel' = if channel' = channel then index else c.get channel' := by
  split_ifs with h
  · rw [h, get_set_self]
  · exact get_set_of_ne c index h

end ChannelIndexes

/-! ### Acknowledgements -/

/-- `ACKSet`. -/
structure AckSet where
  ack : List (ℕ × ℕ)
  nack : List (ℕ × ℕ)
  nextExpected : ℕ
  deriving DecidableEq, Repr

namespace AckSet

/-- `ACKSet::default`. -/
def empty : AckSet := ⟨[], [], 0⟩

/-- The `retain_mut` of `ACKSet::insert`: take `s` out of the missing ranges. A range it cuts in two
leaves its upper part in the second component. -/
def retainNack (s : ℕ) : List (ℕ × ℕ) → List (ℕ × ℕ) × Option (ℕ × ℕ)
  | [] => ([], none)
  | (a, b) :: l =>
    let (l', split) := retainNack s l
    if s < a ∨ b < s then ((a, b) :: l', split)
    else if a = b then (l', split)
    else if s = a then ((a + 1, b) :: l', split)
    else if s = b then ((a, b - 1) :: l', split)
    else ((a, s - 1) :: l', split.or (some (s + 1, b)))

/-- The loop of `ACKSet::insert` over the ranges to acknowledge. -/
def insertAck (s : ℕ) : List (ℕ × ℕ) → List (ℕ × ℕ)
  | [] => [(s, s)]
  | (a, b) :: l =>
    if a ≤ s ∧ s ≤ b then (a, b) :: l
    else if a ≠ 0 ∧ s = a - 1 then (s, b) :: l
    else if s = min (b + 1) 4294967295 then (a, s) :: l
    else (a, b) :: insertAck s l

/-- The ranges skipped by the arrival of `s`, when it is ahead of the next expected number. -/
def skipped (nextExpected s : ℕ) : List (ℕ × ℕ) :=
  if s = nextExpected then []
  else if nextExpected < s then [(nextExpected, s - 1)]
  else if s ≠ 0 then [(nextExpected, mask), (0, s - 1)] else [(nextExpected, mask)]

/-- `ACKSet::insert`. -/
def insert (c : AckSet) (s : ℕ) : AckSet :=
  let (nack, split) := retainNack s c.nack
  let nack := nack ++ split.toList
  let ack := insertAck s c.ack
  if s = c.nextExpected ∨ newer s c.nextExpected then
    { ack, nack := nack ++ skipped c.nextExpected s, nextExpected := next s }
  else { ack, nack, nextExpected := c.nextExpected }

/-- `ACKSet::take_ack_into`. -/
def takeAckInto (c : AckSet) : List (ℕ × ℕ) × AckSet := (c.ack, { c with ack := [] })

/-- `ACKSet::take_nack_into`. -/
def takeNackInto (c : AckSet) : List (ℕ × ℕ) × AckSet := (c.nack, { c with nack := [] })

end AckSet

/-- Numbers 0, 1, 2 and 4: the test `test_ackset` of the source. -/
example : ((((AckSet.empty.insert 0).insert 1).insert 2).insert 4) =
    ⟨[(0, 2), (4, 4)], [(3, 3)], 5⟩ := by decide

end RustRaknet.Indexes

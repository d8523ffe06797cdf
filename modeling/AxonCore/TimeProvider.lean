import Mathlib.Order.Nat
import Mathlib.Order.Monotone.Defs

/-! # Slots and epochs

    Epochs are ranges of slots of the same length, from the genesis slot on.  Slots and
    epochs are natural numbers. -/

namespace AxonCore

/-- The slots or epochs of the loop `for i := first; i <= last; i++`. -/
def upTo (first last : Nat) : List Nat := List.range' first (last + 1 - first)

@[simp] theorem mem_upTo {first last i : Nat} : i ∈ upTo first last ↔ first ≤ i ∧ i ≤ last := by
  unfold upTo
  rw [List.mem_range'_1]
  omega

/-- `iotago.TimeProvider`, as far as it maps slots to epochs. -/
structure TimeProvider where
  genesisSlot : Nat
  epochDurationSlots : Nat
  epochDurationSlots_pos : 0 < epochDurationSlots

namespace TimeProvider

/-- Epochs of four slots. -/
def fourSlots : TimeProvider := ⟨0, 4, by decide⟩

variable (tp : TimeProvider) {slot epoch : Nat}

/-- `EpochFromSlot`. -/
def epochFromSlot (slot : Nat) : Nat :=
  if slot ≤ tp.genesisSlot then 0 else (slot - tp.genesisSlot) / tp.epochDurationSlots

/-- `EpochStart`. -/
def epochStart (epoch : Nat) : Nat := tp.genesisSlot + epoch * tp.epochDurationSlots

/-- `EpochEnd`: the last slot of the epoch. -/
def epochEnd (epoch : Nat) : Nat := tp.genesisSlot + (epoch + 1) * tp.epochDurationSlots - 1

theorem epochFromSlot_eq (slot : Nat) :
    tp.epochFromSlot slot = (slot - tp.genesisSlot) / tp.epochDurationSlots := by
  unfold epochFromSlot
  split
  · rw [Nat.sub_eq_zero_of_le (by assumption), Nat.zero_div]
  · rfl

theorem epochFromSlot_mono : Monotone tp.epochFromSlot := by
  intro slot slot' h
  rw [epochFromSlot_eq, epochFromSlot_eq]
  exact Nat.div_le_div_right (Nat.sub_le_sub_right h _)

theorem epochEnd_add_one (epoch : Nat) : tp.epochEnd epoch + 1 = tp.epochStart (epoch + 1) := by
  have hpos : 0 < (epoch + 1) * tp.epochDurationSlots :=
    Nat.mul_pos (Nat.succ_pos epoch) tp.epochDurationSlots_pos
  unfold epochEnd epochStart
  omega

theorem epochEnd_mono : Monotone tp.epochEnd := by
  intro epoch epoch' h
  have hmul := Nat.mul_le_mul_right tp.epochDurationSlots (Nat.succ_le_succ h)
  exact Nat.sub_le_sub_right (Nat.add_le_add_left hmul _) 1

theorem epochStart_lt_succ (epoch : Nat) : tp.epochStart epoch < tp.epochStart (epoch + 1) := by
  have hpos := tp.epochDurationSlots_pos
  unfold epochStart
  rw [Nat.add_mul]
  omega

theorem epochFromSlot_eq_iff (h : tp.genesisSlot ≤ slot) :
    tp.epochFromSlot slot = epoch ↔ tp.epochStart epoch ≤ slot ∧ slot ≤ tp.epochEnd epoch := by
  have hend := tp.epochEnd_add_one epoch
  have hpos := tp.epochDurationSlots_pos
  rw [epochFromSlot_eq, Nat.div_eq_iff hpos]
  unfold epochStart at hend ⊢
  rw [Nat.add_mul] at hend
  omega

theorem epochEnd_lt_iff : tp.epochEnd epoch < slot ↔ epoch < tp.epochFromSlot slot := by
  have hend := tp.epochEnd_add_one epoch
  rw [epochFromSlot_eq, Nat.lt_iff_add_one_le, Nat.lt_iff_add_one_le,
    Nat.le_div_iff_mul_le tp.epochDurationSlots_pos, hend]
  unfold epochStart
  have hpos : 0 < (epoch + 1) * tp.epochDurationSlots :=
    Nat.mul_pos (Nat.succ_pos epoch) tp.epochDurationSlots_pos
  omega

theorem epochFromSlot_succ (h : tp.genesisSlot ≤ slot) :
    tp.epochFromSlot (slot + 1) =
      if tp.epochEnd (tp.epochFromSlot slot) = slot then tp.epochFromSlot slot + 1
      else tp.epochFromSlot slot := by
  obtain ⟨hstart, hend⟩ := (tp.epochFromSlot_eq_iff h).mp rfl
  have hnext := tp.epochEnd_add_one (tp.epochFromSlot slot)
  rw [tp.epochFromSlot_eq_iff (by omega)]
  split
  · have hlt := tp.epochStart_lt_succ (tp.epochFromSlot slot + 1)
    have hnext' := tp.epochEnd_add_one (tp.epochFromSlot slot + 1)
    omega
  · omega

end TimeProvider

end AxonCore

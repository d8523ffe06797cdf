import Mathlib.Tactic.Common

/-! # Votes and seats

    The seats and the threshold test that the consensus gadgets share.  Slots and
    epochs are natural numbers. -/

namespace AxonCore

/-- `account.SeatIndex`. -/
abbrev SeatIndex := UInt8

/-- `votes.IsThresholdReached`.  The product `int(float64(totalWeight) * threshold)`
    is floating-point arithmetic; it enters as the function `scale`. -/
def isThresholdReached (objectWeight totalWeight : Nat) (scale : Nat → Nat) : Bool :=
  if totalWeight = 0 then false else decide (scale totalWeight < objectWeight)

theorem isThresholdReached_mono {n m total : Nat} {scale : Nat → Nat} (hnm : n ≤ m)
    (h : isThresholdReached n total scale = true) : isThresholdReached m total scale = true := by
  unfold isThresholdReached at h ⊢
  split_ifs at h with h0
  rw [if_neg h0, decide_eq_true_eq]
  exact Nat.lt_of_lt_of_le (of_decide_eq_true h) hnm

theorem isThresholdReached_pos {n total : Nat} {scale : Nat → Nat}
    (h : isThresholdReached n total scale = true) : 0 < n := by
  unfold isThresholdReached at h
  split_ifs at h
  exact Nat.lt_of_le_of_lt (Nat.zero_le _) (of_decide_eq_true h)

/-- `int(float64(n) * 0.67)`, the product with the default of the threshold
    options, for the committee sizes that occur. -/
def superMajority (n : Nat) : Nat := n * 67 / 100

end AxonCore

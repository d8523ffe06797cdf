import Mathlib.Data.Finset.Card
import AxonCore.Lib.Run
import AxonCore.Votes

/-! # The total weight slot gadget

    A confirmed block votes, with the commitment it contains, for the slots up
    to that commitment.  The votes are counted per slot of the blocks: a
    `SlotTracker` holds the votes of the blocks of one slot, and a slot is
    finalized once enough accounts voted for it within one tracker. -/

namespace AxonCore.SlotGadget

open AxonCore.Lib

variable {AccountID : Type} [DecidableEq AccountID]

/-! ## Section 1: The slot tracker -/

/-- The votes of the blocks of one slot.  Missing entries of the two maps are
    slot `0` and the empty set. -/
structure SlotTracker (AccountID : Type) where
  votesPerIdentity : AccountID → Nat
  votersPerSlot : Nat → Finset AccountID

/-- `NewSlotTracker`. -/
def newSlotTracker : SlotTracker AccountID where
  votesPerIdentity := fun _ => 0
  votersPerSlot := fun _ => ∅

/-- `s.slotVoters(slot).Add(voterID)`. -/
def addVoter (voters : Nat → Finset AccountID) (voterID : AccountID) (slot : Nat) :
    Nat → Finset AccountID :=
  fun i => if i = slot then insert voterID (voters i) else voters i

/-- `for i := from + 1; i <= to; i++ { s.slotVoters(i).Add(voterID) }`. -/
def addVoterUpTo (voters : Nat → Finset AccountID) (voterID : AccountID)
    (fromSlot toSlot : Nat) : Nat → Finset AccountID :=
  (List.range' (fromSlot + 1) (toSlot - fromSlot)).foldl (fun v i => addVoter v voterID i) voters

/-- `SlotTracker.TrackVotes`: the tracker, `prevLatestSlot`, `latestSlot` and
    `updated`. -/
def SlotTracker.trackVotes (t : SlotTracker AccountID) (slot : Nat) (voterID : AccountID)
    (cutoffIndex : Nat) : SlotTracker AccountID × Nat × Nat × Bool :=
  if voterID ∈ t.votersPerSlot slot then (t, 0, 0, false)
  else
    let previousSlot := t.votesPerIdentity voterID
    if previousSlot < slot then
      ({ votesPerIdentity := fun a => if a = voterID then slot else t.votesPerIdentity a
         votersPerSlot := addVoterUpTo t.votersPerSlot voterID
           (max cutoffIndex previousSlot) slot },
        previousSlot, slot, true)
    else (t, previousSlot, previousSlot, false)

/-- `SlotTracker.Voters`. -/
def SlotTracker.voters (t : SlotTracker AccountID) (slot : Nat) : Finset AccountID :=
  t.votersPerSlot slot

/-! ## Section 2: The gadget -/

/-- What the gadget reads: the committees of the seat manager and the option. -/
structure Gadget (AccountID : Type) where
  seatCountInSlot : Nat → Nat
  /-- Whether the account holds a seat in the committee of the slot. -/
  hasSeat : Nat → AccountID → Bool
  optsSlotFinalizationThreshold : Nat → Nat

/-- What the gadget reads of a confirmed block. -/
structure Block (AccountID : Type) where
  slot : Nat
  /-- The slot of the block's `SlotCommitmentID`. -/
  slotCommitment : Nat
  issuerID : AccountID
  deriving DecidableEq

/-- `slotFinalized` lists the triggered `SlotFinalized` events. -/
structure State (AccountID : Type) where
  slotTrackers : Nat → SlotTracker AccountID
  lastFinalizedSlot : Nat
  slotFinalized : List Nat

/-- The gadget after its initialization, with the stored latest finalized slot. -/
def initialState (latestFinalizedSlot : Nat) : State AccountID where
  slotTrackers := fun _ => newSlotTracker
  lastFinalizedSlot := latestFinalizedSlot
  slotFinalized := []

/-- Whether the voters of slot `i` in the tracker reach the threshold. -/
def isFinalizable (g : Gadget AccountID) (voters : Finset AccountID) (i : Nat) : Bool :=
  isThresholdReached voters.card (g.seatCountInSlot i) g.optsSlotFinalizationThreshold

/-- The loop of `refreshSlotFinalization`, with `n` slots to go: the new last
    finalized slot and `finalizedSlots`. -/
def finalizeFrom (g : Gadget AccountID) (tracker : SlotTracker AccountID) :
    Nat → Nat → Nat → Nat × List Nat
  | 0, _, lastFinalizedSlot => (lastFinalizedSlot, [])
  | n + 1, i, lastFinalizedSlot =>
    if isFinalizable g (tracker.voters i) i then
      let (last, finalizedSlots) := finalizeFrom g tracker n (i + 1) i
      (last, i :: finalizedSlots)
    else (lastFinalizedSlot, [])

/-- `refreshSlotFinalization`. -/
def refreshSlotFinalization (g : Gadget AccountID) (tracker : SlotTracker AccountID)
    (lastFinalizedSlot previousLatestSlotIndex newLatestSlotIndex : Nat) :
    Nat × List Nat :=
  let start := max lastFinalizedSlot previousLatestSlotIndex
  finalizeFrom g tracker (newLatestSlotIndex - start) (start + 1) lastFinalizedSlot

/-- `slotTrackers.Delete` for each of the slots. -/
def deleteTrackers (trackers : Nat → SlotTracker AccountID) (slots : List Nat) :
    Nat → SlotTracker AccountID :=
  fun b => if b ∈ slots then newSlotTracker else trackers b

/-- `trackVotes`. -/
def trackVotes (g : Gadget AccountID) (s : State AccountID) (block : Block AccountID) :
    State AccountID :=
  let (tracker, prevLatestSlot, latestSlot, updated) :=
    (s.slotTrackers block.slot).trackVotes block.slotCommitment block.issuerID s.lastFinalizedSlot
  let slotTrackers := fun b => if b = block.slot then tracker else s.slotTrackers b
  if updated then
    let (last, finalizedSlots) :=
      refreshSlotFinalization g tracker s.lastFinalizedSlot prevLatestSlot latestSlot
    { slotTrackers := deleteTrackers slotTrackers finalizedSlots
      lastFinalizedSlot := last
      slotFinalized := s.slotFinalized ++ finalizedSlots }
  else { s with slotTrackers := slotTrackers }

/-- `Reset`. -/
def reset (s : State AccountID) (targetSlot : Nat) : State AccountID :=
  { s with slotTrackers := fun b => if targetSlot < b then newSlotTracker else s.slotTrackers b }

/-! ## Section 3: Runs -/

/-- What happens to the gadget. -/
inductive Input (AccountID : Type) where
  | blockConfirmed (block : Block AccountID)
  | reset (targetSlot : Nat)
  deriving DecidableEq

def step (g : Gadget AccountID) (s : State AccountID) : Input AccountID → Option (State AccountID)
  | .blockConfirmed block => some (trackVotes g s block)
  | .reset targetSlot => some (reset s targetSlot)

end AxonCore.SlotGadget

import Mathlib.Data.Finset.Card
import AxonCore.Lib.Run
import AxonCore.Lib.Walk
import AxonCore.Votes

/-! # The threshold block gadget

    Blocks are witnessed by the committee members that issue validation blocks
    in their future cone.  `TrackWitnessWeight` walks the past cone of a booked
    block, adds its issuer's seat to the blocks it meets and collects those that
    reach a threshold; `trackAcceptanceRatifierWeight` and
    `trackConfirmationRatifierWeight` do the same with the seats of pre-accepted
    and pre-confirmed blocks.

    A block ID determines the block's content, so the content is a fixed
    function of the ID and only the metadata and the cache change. -/

namespace AxonCore.BlockGadget

open AxonCore.Lib

variable {BlockID AccountID : Type} [DecidableEq BlockID]

/-! ## Section 1: Blocks, committees and options -/

/-- What the gadget reads: the content of the blocks, the committees of the
    seat manager and the options. -/
structure Gadget (BlockID AccountID : Type) where
  slot : BlockID → Nat
  parents : BlockID → List BlockID
  isValidationBlock : BlockID → Bool
  issuerID : BlockID → AccountID
  /-- The active root blocks of the eviction state. -/
  isRootBlock : BlockID → Bool
  epochFromSlot : Nat → Nat
  /-- `CommitteeInSlot` with the committee's `GetSeat`. -/
  committeeInSlot : Nat → Option (AccountID → Option SeatIndex)
  seatCountInSlot : Nat → Nat
  optsAcceptanceThreshold : Nat → Nat
  optsConfirmationThreshold : Nat → Nat
  optsConfirmationRatificationThreshold : Nat
  /-- The length of the longest path into the past of a block. -/
  height : BlockID → Nat
  /-- A block refers to its parents by their hashes, so there are no cycles. -/
  height_lt : ∀ b p, p ∈ parents b → height p < height b

/-- The metadata of a block. -/
structure Block where
  witnesses : Finset SeatIndex := ∅
  preAccepted : Bool := false
  acceptanceRatifiers : Finset SeatIndex := ∅
  accepted : Bool := false
  preConfirmed : Bool := false
  confirmationRatifiers : Finset SeatIndex := ∅
  confirmed : Bool := false
  weightPropagated : Bool := false

/-- The events of the gadget. -/
inductive Event (BlockID : Type) where
  | blockPreAccepted (block : BlockID)
  | blockAccepted (block : BlockID)
  | blockPreConfirmed (block : BlockID)
  | blockConfirmed (block : BlockID)
  deriving DecidableEq

/-- The metadata of all blocks. -/
abbrev Metadata (BlockID : Type) := BlockID → Block

/-- The block cache with the metadata of its blocks, and the triggered events. -/
structure State (BlockID : Type) where
  /-- The blocks that are in the block cache. -/
  stored : List BlockID
  /-- The blocks that were ever appended to the block DAG. -/
  appended : List BlockID
  block : Metadata BlockID
  events : List (Event BlockID)

def initialState : State BlockID where
  stored := []
  appended := []
  block := fun _ => {}
  events := []

/-! ## Section 2: Reading blocks -/

variable (g : Gadget BlockID AccountID)

/-- `Blocks.Block`: whether the block exists and, if so, whether it is a root
    block.  Root blocks are only looked up for blocks that are not stored. -/
def cachedBlock (stored : List BlockID) (id : BlockID) : Option Bool :=
  if id ∈ stored then some false else if g.isRootBlock id then some true else none

/-- `isCommitteeValidationBlock`. -/
def isCommitteeValidationBlock (block : BlockID) : Option SeatIndex :=
  if g.isValidationBlock block then
    match g.committeeInSlot (g.slot block) with
    | none => none
    | some getSeat => getSeat (g.issuerID block)
  else none

/-- `Block.Children`: appending a block registers it with each of its parents. -/
def children (appended : List BlockID) (block : BlockID) : List BlockID :=
  appended.filter (fun child => decide (block ∈ g.parents child))

/-- `anyChildInSet`. -/
def anyChildInSet (appended : List BlockID) (block : BlockID) (set : List BlockID) : Bool :=
  (children g appended block).any (fun child => decide (child ∈ set))

/-- One round of `propagate`: a block that is missing or a root block ends the
    walk, for the other ones `evaluateFunc` says whether it goes on. -/
def evaluateCached {α : Type} (g : Gadget BlockID AccountID) (stored : List BlockID)
    (evaluateFunc : α → BlockID → α × Bool) (a : α) (id : BlockID) : α × Bool :=
  match cachedBlock g stored id with
  | some false => evaluateFunc a id
  | _ => (a, false)

/-- `propagate`: a breadth-first past cone walk starting at `initialBlockIDs`.
    The cache does not change during a walk. -/
def propagate {α : Type} (g : Gadget BlockID AccountID) (stored : List BlockID)
    (initialBlockIDs : List BlockID) (evaluateFunc : α → BlockID → α × Bool) (a : α) : α :=
  walk (evaluateCached g stored evaluateFunc) g.parents stored initialBlockIDs a

/-! ## Section 3: Updating blocks -/

variable (m : Metadata BlockID) (id : BlockID)

/-- Update the metadata of one block. -/
def modify (f : Block → Block) : Metadata BlockID :=
  fun b => if b = id then f (m b) else m b

@[simp] theorem modify_self (f : Block → Block) : modify m id f id = f (m id) := by
  simp [modify]

@[simp] theorem modify_ne {id b : BlockID} (f : Block → Block)
    (h : b ≠ id) : modify m id f b = m b := by
  simp [modify, h]

/-- `AddWitness`; the second component is `added`. -/
def addWitness (seat : SeatIndex) : Metadata BlockID × Bool :=
  (modify m id (fun b => { b with witnesses := insert seat b.witnesses }),
    decide (seat ∉ (m id).witnesses))

/-- `AddAcceptanceRatifier`; the second component is `added`. -/
def addAcceptanceRatifier (seat : SeatIndex) : Metadata BlockID × Bool :=
  (modify m id (fun b => { b with acceptanceRatifiers := insert seat b.acceptanceRatifiers }),
    decide (seat ∉ (m id).acceptanceRatifiers))

/-- `AddConfirmationRatifier`; the second component is `added`. -/
def addConfirmationRatifier (seat : SeatIndex) : Metadata BlockID × Bool :=
  (modify m id (fun b => { b with confirmationRatifiers := insert seat b.confirmationRatifiers }),
    decide (seat ∉ (m id).confirmationRatifiers))

/-- One of the flags that the gadget sets at most once per block, with the
    event it triggers. -/
structure Flag (BlockID : Type) where
  isSet : Block → Bool
  set : Block → Block
  event : BlockID → Event BlockID

def preAcceptedFlag : Flag BlockID where
  isSet := Block.preAccepted
  set := fun b => { b with preAccepted := true }
  event := .blockPreAccepted

def acceptedFlag : Flag BlockID where
  isSet := Block.accepted
  set := fun b => { b with accepted := true }
  event := .blockAccepted

def preConfirmedFlag : Flag BlockID where
  isSet := Block.preConfirmed
  set := fun b => { b with preConfirmed := true }
  event := .blockPreConfirmed

def confirmedFlag : Flag BlockID where
  isSet := Block.confirmed
  set := fun b => { b with confirmed := true }
  event := .blockConfirmed

/-- `if block.Set…() { events.….Trigger(block) }`, recording the updated block. -/
def setAndTriggerBlock (flag : Flag BlockID) (r : State BlockID × List BlockID) (b : BlockID) :
    State BlockID × List BlockID :=
  if flag.isSet (r.1.block b) then r
  else
    ({ r.1 with block := modify r.1.block b flag.set, events := r.1.events ++ [flag.event b] },
      r.2 ++ [b])

/-- The loops over the collected blocks.  The second component lists the blocks
    whose flag was updated. -/
def setAndTrigger (flag : Flag BlockID) (blocks : List BlockID) (s : State BlockID) :
    State BlockID × List BlockID :=
  blocks.foldl (setAndTriggerBlock flag) (s, [])

/-! ## Section 4: Ratification -/

section

variable (online : Nat)

/-- `shouldAccept`. -/
def shouldAccept (b : Block) : Bool :=
  isThresholdReached b.acceptanceRatifiers.card online g.optsAcceptanceThreshold

/-- `shouldConfirm`. -/
def shouldConfirm (id : BlockID) (b : Block) : Bool :=
  isThresholdReached b.confirmationRatifiers.card (g.seatCountInSlot (g.slot id))
    g.optsConfirmationThreshold

/-- What a ratifier walk changes: the metadata, and the blocks collected in
    front of the list (`toAcceptByID` has the same elements). -/
structure RatifierWalk (BlockID : Type) where
  block : Metadata BlockID
  collected : List BlockID

/-- `evaluateFunc` of `trackAcceptanceRatifierWeight`. -/
def evaluateAcceptance (appended : List BlockID)
    (seat : SeatIndex) (a : RatifierWalk BlockID) (id : BlockID) :
    RatifierWalk BlockID × Bool :=
  if (a.block id).accepted then (a, false)
  else
    let (block, added) := addAcceptanceRatifier a.block id seat
    if anyChildInSet g appended id a.collected || shouldAccept g online (block id) then
      ({ block := block, collected := id :: a.collected }, true)
    else ({ a with block := block }, added)

variable (s : State BlockID) (votingBlock : BlockID)

/-- `trackAcceptanceRatifierWeight`. -/
def trackAcceptanceRatifierWeight : State BlockID :=
  match isCommitteeValidationBlock g votingBlock with
  | none => s
  | some seat =>
    let a := propagate g s.stored (g.parents votingBlock)
      (evaluateAcceptance g online s.appended seat) { block := s.block, collected := [] }
    (setAndTrigger acceptedFlag a.collected { s with block := a.block }).1

/-- `evaluateFunc` of `trackConfirmationRatifierWeight`. -/
def evaluateConfirmation (seat : SeatIndex) (a : RatifierWalk BlockID) (id : BlockID) :
    RatifierWalk BlockID × Bool :=
  let ratifierBlockIndex := g.slot votingBlock
  if g.optsConfirmationRatificationThreshold ≤ ratifierBlockIndex ∧
      g.slot id ≤ ratifierBlockIndex - g.optsConfirmationRatificationThreshold then (a, false)
  else if g.epochFromSlot ratifierBlockIndex ≠ g.epochFromSlot (g.slot id) then (a, false)
  else if (a.block id).confirmed then (a, false)
  else
    let (block, added) := addConfirmationRatifier a.block id seat
    if shouldConfirm g id (block id) then
      ({ block := block, collected := id :: a.collected }, true)
    else ({ a with block := block }, added)

/-- `trackConfirmationRatifierWeight`. -/
def trackConfirmationRatifierWeight : State BlockID :=
  match isCommitteeValidationBlock g votingBlock with
  | none => s
  | some seat =>
    let a := propagate g s.stored (g.parents votingBlock)
      (evaluateConfirmation g votingBlock seat) { block := s.block, collected := [] }
    (setAndTrigger confirmedFlag a.collected { s with block := a.block }).1

/-! ## Section 5: Witness weight -/

/-- `shouldPreAcceptAndPreConfirm`. -/
def shouldPreAcceptAndPreConfirm (id : BlockID) (b : Block) : Bool × Bool :=
  let committeeTotalSeats := g.seatCountInSlot (g.slot id)
  let blockSeats := b.witnesses.card
  if isThresholdReached blockSeats committeeTotalSeats g.optsConfirmationThreshold then
    (true, true)
  else if isThresholdReached blockSeats online g.optsAcceptanceThreshold then (true, false)
  else (false, false)

/-- What the witness walk changes: the metadata, and the blocks collected in
    front of the two lists (the sets by ID have the same elements). -/
structure WitnessWalk (BlockID : Type) where
  block : Metadata BlockID
  toPreAccept : List BlockID
  toPreConfirm : List BlockID

/-- `process`: collect the block if it reaches a threshold, or if one of its
    children was collected. -/
def process (appended : List BlockID)
    (votingBlock : BlockID) (a : WitnessWalk BlockID) (id : BlockID) :
    WitnessWalk BlockID × Bool :=
  let should := shouldPreAcceptAndPreConfirm g online id (a.block id)
  let preAccept := !(a.block id).preAccepted &&
    (should.1 || anyChildInSet g appended id a.toPreAccept)
  let preConfirm := !(a.block id).preConfirmed &&
    decide (g.epochFromSlot (g.slot votingBlock) = g.epochFromSlot (g.slot id)) &&
    (should.2 || anyChildInSet g appended id a.toPreConfirm)
  ({ a with
      toPreAccept := if preAccept then id :: a.toPreAccept else a.toPreAccept
      toPreConfirm := if preConfirm then id :: a.toPreConfirm else a.toPreConfirm },
    preAccept || preConfirm)

/-- `evaluateFunc` of `TrackWitnessWeight`. -/
def evaluateWitness (appended : List BlockID)
    (votingBlock : BlockID) (seat : SeatIndex) (a : WitnessWalk BlockID) (id : BlockID) :
    WitnessWalk BlockID × Bool :=
  let (block, added) := addWitness a.block id seat
  let (a', processed) := process g online appended votingBlock { a with block := block } id
  (a', added || processed)

/-- The part of `TrackWitnessWeight` before anything is set: the voting block
    votes for itself, then the walk starts at its parents. -/
def witnessWalk (seat : SeatIndex) : WitnessWalk BlockID :=
  let (block, added) := addWitness s.block votingBlock seat
  let a : WitnessWalk BlockID := { block := block, toPreAccept := [], toPreConfirm := [] }
  let a := if added then (process g online s.appended votingBlock a votingBlock).1 else a
  propagate g s.stored (g.parents votingBlock)
    (evaluateWitness g online s.appended votingBlock seat) a

/-- The part of `TrackWitnessWeight` after the witness walk. -/
def applyWitnessWalk (a : WitnessWalk BlockID) : State BlockID :=
  let (s, acceptanceRatifierWeights) :=
    setAndTrigger preAcceptedFlag a.toPreAccept { s with block := a.block }
  let (s, confirmationRatifierWeights) := setAndTrigger preConfirmedFlag a.toPreConfirm s
  let s := acceptanceRatifierWeights.foldl (trackAcceptanceRatifierWeight g online) s
  confirmationRatifierWeights.foldl (trackConfirmationRatifierWeight g) s

/-- `SetWeightPropagated`. -/
def setWeightPropagated (block : BlockID) : State BlockID :=
  { s with block := modify s.block block (fun b => { b with weightPropagated := true }) }

/-- `TrackWitnessWeight`, with `online` the size of the online committee. -/
def trackWitnessWeight : State BlockID :=
  let s :=
    match isCommitteeValidationBlock g votingBlock with
    | none => s
    | some seat => applyWitnessWalk g online s (witnessWalk g online s votingBlock seat)
  setWeightPropagated s votingBlock

end

/-! ## Section 6: Runs -/

/-- What happens to the gadget. -/
inductive Input (BlockID : Type) where
  /-- A block is appended to the block DAG. -/
  | append (block : BlockID)
  /-- A booked block is tracked, with the given size of the online committee. -/
  | track (block : BlockID) (online : Nat)
  /-- Blocks are evicted from the block cache. -/
  | evict (blocks : List BlockID)

/-- A block is tracked once its parents were: each of them is a root block, or
    was appended and, unless it is evicted by now, tracked. -/
def parentsTracked (s : State BlockID) (block : BlockID) : Bool :=
  (g.parents block).all (fun p =>
    g.isRootBlock p ||
      (decide (p ∈ s.appended) && (decide (p ∉ s.stored) || (s.block p).weightPropagated)))

def step (s : State BlockID) : Input BlockID → Option (State BlockID)
  | .append b =>
    if b ∈ s.appended ∨ g.isRootBlock b = true then none
    else some { s with stored := b :: s.stored, appended := b :: s.appended }
  | .track b online =>
    if b ∈ s.stored ∧ parentsTracked g s b = true then some (trackWitnessWeight g online s b)
    else none
  | .evict bs => some { s with stored := s.stored.filter (fun b => decide (b ∉ bs)) }

/-! ## Section 7: A small block DAG -/

/-- Block `3` refers to block `1` directly and through block `2`; block `0` is a
    root block.  Each block has a slot of its own, and an epoch of its own.  Block
    `3` is the only validation block; its issuer holds seat `0`. -/
def triangleGadget (seatCountInSlot : Nat → Nat) : Gadget Nat Unit where
  slot := fun b => b
  parents := fun b =>
    match b with
    | 1 => [0]
    | 2 => [1]
    | 3 => [1, 2]
    | _ => []
  isValidationBlock := fun b => b == 3
  issuerID := fun _ => ()
  isRootBlock := fun b => b == 0
  epochFromSlot := fun slot => slot
  committeeInSlot := fun _ => some (fun _ => some 0)
  seatCountInSlot := seatCountInSlot
  optsAcceptanceThreshold := superMajority
  optsConfirmationThreshold := superMajority
  optsConfirmationRatificationThreshold := 2
  height := fun b => b
  height_lt := by
    intro b p hp
    split at hp <;> simp at hp <;> omega

/-- Append the blocks of the triangle and track them, parents first. -/
def triangleInputs (online : Nat) : List (Input Nat) :=
  [.append 1, .append 2, .append 3, .track 1 online, .track 2 online, .track 3 online]

end AxonCore.BlockGadget

import AxonCore.TimeProvider
import AxonCore.Lib.Codec
import AxonCore.Lib.Keyed

/-! # The eviction state

    The accepted blocks of a slot are its root blocks.  Those of the last slots before the
    latest commitment are active: a new block may refer to them.  The window reaches back
    `MaxCommittableAge` slots, or to the latest non-empty slot if that is earlier, so that
    there is always something to refer to.

    * `State`: the root blocks by slot and the settings the window depends on.
    * `State.activeIndexRange`, `State.allActiveRootBlocks`: the window.
    * `State.export`, `State.import`, `State.rollback`: the window of another slot is set up
      again, in a new node from a snapshot and in a fork.
    * `step`: blocks are accepted, and slots are committed, finalized and pruned. -/

namespace AxonCore.Eviction

open Lib

/-! ## Section 1: The window -/

structure BlockID where
  slot : Nat
  identifier : Nat
  deriving DecidableEq

/-- The protocol parameters. -/
structure Params where
  genesisSlot : Nat
  maxCommittableAge : Nat
  maxCommittableAge_pos : 0 < maxCommittableAge
  genesisBlockID : BlockID
  genesisBlockID_slot : genesisBlockID.slot = genesisSlot
  genesisCommitmentID : Nat

/-- The eviction state with the storage and the settings that it works on. -/
structure State where
  /-- The root blocks of a slot with the commitments that they contain. -/
  rootBlocks : Nat → Map BlockID Nat
  /-- The slots before this one are pruned. -/
  firstRetainedSlot : Nat
  latestNonEmptySlot : Nat
  latestFinalizedSlot : Nat
  lastCommittedSlot : Nat

namespace State

variable (p : Params) (s : State)

/-- `rootBlockStorageFunc`; a pruned slot gives an error. -/
def rootBlockStorageFunc (slot : Nat) : Option (Map BlockID Nat) :=
  if slot < s.firstRetainedSlot then none else some (s.rootBlocks slot)

/-- `activeIndexRange`. -/
def activeIndexRange (targetSlot : Nat) : Nat × Nat :=
  if targetSlot < p.maxCommittableAge + p.genesisSlot then (p.genesisSlot, targetSlot)
  else
    let rootBlocksWindowStart := (targetSlot - p.maxCommittableAge) + 1
    if rootBlocksWindowStart > s.latestNonEmptySlot then (s.latestNonEmptySlot, targetSlot)
    else (rootBlocksWindowStart, targetSlot)

/-- The loops over slots, which all go on with the next slot if a slot is pruned. -/
def forEachSlot {σ : Type} (s : State) (slots : List Nat) (body : σ → Nat → Map BlockID Nat → σ)
    (x : σ) : σ :=
  slots.foldl (fun x slot =>
    match s.rootBlockStorageFunc slot with
    | none => x
    | some storage => body x slot storage) x

/-- `Store` of a root block in the storage of its slot. -/
def store (id : BlockID) (commitmentID : Nat) : State :=
  { s with rootBlocks :=
      Function.update s.rootBlocks id.slot ((s.rootBlocks id.slot).insert id commitmentID) }

/-- `AddRootBlock`; it panics if the slot is pruned. -/
def addRootBlock (id : BlockID) (commitmentID : Nat) : Option State :=
  if id.slot < (s.activeIndexRange p s.lastCommittedSlot).1 then some s
  else (s.rootBlockStorageFunc id.slot).map fun _ => s.store id commitmentID

/-! ## Section 2: Snapshots and forks -/

end State

/-- How the values of a snapshot are written. -/
structure Codecs (β : Type) where
  length : Codec β Nat
  blockID : Codec β BlockID
  commitmentID : Codec β Nat
  slot : Codec β Nat

namespace State

variable (p : Params) {β : Type} (c : Codecs β)

/-- What the loop of `Export` has written. -/
structure Exported (β : Type) where
  elements : List β
  elementsCount : Nat
  latestNonEmptySlot : Nat

/-- One root block of the slot. -/
def exportRootBlock (currentSlot : Nat) (e : Exported β)
    (rootBlock : Sigma fun _ : BlockID => Nat) : Exported β :=
  { elements := e.elements ++ (c.blockID.write rootBlock.1 ++ c.commitmentID.write rootBlock.2)
    elementsCount := e.elementsCount + 1
    latestNonEmptySlot := currentSlot }

variable (s : State)

/-- `Export`. -/
def «export» (targetSlot : Nat) : List β :=
  let lowerTarget :=
    if s.latestFinalizedSlot > targetSlot then targetSlot else s.latestFinalizedSlot
  let (start, _) := s.activeIndexRange p lowerTarget
  let exported := s.forEachSlot (upTo start targetSlot) (fun e currentSlot storage =>
    storage.entries.foldl (exportRootBlock c currentSlot) e) ⟨[], 0, p.genesisSlot⟩
  writeCollection c.length exported.elementsCount exported.elements ++
    c.slot.write exported.latestNonEmptySlot

/-- One root block of `Import`. -/
def importRootBlock : Reader β State := fun bs =>
  (c.blockID.read bs).bind fun (rootBlockID, bs) =>
    (c.commitmentID.read bs).bind fun (commitmentID, bs) =>
      (s.rootBlockStorageFunc rootBlockID.slot).map fun _ => (s.store rootBlockID commitmentID, bs)

/-- `Import`. -/
def «import» (bs : List β) : Option State :=
  (readCollection c.length (importRootBlock c) s bs).bind fun (s, bs) =>
    (c.slot.read bs).map fun (latestNonEmptySlot, _) => { s with latestNonEmptySlot }

/-- `Rollback`. -/
def rollback (lowerTarget targetSlot : Nat) : State :=
  let (start, _) := s.activeIndexRange p lowerTarget
  let latestNonEmptySlot := s.forEachSlot (upTo start targetSlot)
    (fun _ currentSlot _ => currentSlot) p.genesisSlot
  { s with latestNonEmptySlot }

/-- A state over an empty storage, initialized with the slot of a commitment. -/
def empty (lastCommittedSlot : Nat) : State where
  rootBlocks := fun _ => ∅
  firstRetainedSlot := 0
  latestNonEmptySlot := 0
  latestFinalizedSlot := 0
  lastCommittedSlot := lastCommittedSlot

end State

/-! ## Section 3: Histories -/

/-- The eviction state and the blocks the notarization has accepted by slot. -/
structure Node where
  state : State
  acceptedBlocks : Nat → List BlockID

inductive Input where
  /-- A block of a slot that is not committed is accepted. -/
  | accept (id : BlockID) (commitmentID : Nat)
  /-- The next slot is committed. -/
  | commit
  | finalize (slot : Nat)
  /-- The slots before this one are pruned. -/
  | prune (slot : Nat)

namespace Node

variable (p : Params)

/-- The end of `createCommitment`: a slot with accepted blocks is not empty.  Then
    `AdvanceActiveWindowToIndex` is called. -/
def commit (n : Node) : Node :=
  let slot := n.state.lastCommittedSlot + 1
  { n with state := { n.state with
      latestNonEmptySlot :=
        if (n.acceptedBlocks slot).length > 0 then max n.state.latestNonEmptySlot slot
        else n.state.latestNonEmptySlot
      lastCommittedSlot := slot } }

/-- One input; `none` where it cannot happen. -/
def step (n : Node) : Input → Option Node
  | .accept id commitmentID =>
    if id.slot ≤ n.state.lastCommittedSlot then none
    else (n.state.addRootBlock p id commitmentID).map fun state =>
      { state
        acceptedBlocks := Function.update n.acceptedBlocks id.slot
          (id :: n.acceptedBlocks id.slot) }
  | .commit => some n.commit
  | .finalize slot =>
    if slot ≤ n.state.lastCommittedSlot then
      some { n with state := { n.state with latestFinalizedSlot := slot } }
    else none
  | .prune slot =>
    if n.state.firstRetainedSlot ≤ slot ∧ slot ≤ n.state.lastCommittedSlot then
      some { n with state := { n.state with firstRetainedSlot := slot } }
    else none

/-- A node at genesis, with the genesis block as the only root block. -/
def genesis : Node where
  state :=
    { rootBlocks := Function.update (fun _ => ∅) p.genesisSlot
        (AList.singleton p.genesisBlockID p.genesisCommitmentID)
      firstRetainedSlot := 0
      latestNonEmptySlot := p.genesisSlot
      latestFinalizedSlot := p.genesisSlot
      lastCommittedSlot := p.genesisSlot }
  acceptedBlocks := fun _ => []

end Node

end AxonCore.Eviction

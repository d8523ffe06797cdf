import Mathlib.Data.Finset.Insert
import AxonCore.Lib.Run

/-! # The notarization manager

    The manager collects the accepted blocks of each slot and creates the commitments of
    the slots one after the other.  To create a commitment it commits its own set of
    accepted blocks and then calls the other components, each of which may return an
    error.  What was done before the error is not undone; the slot is tried again with
    the next accepted block.

    The other components enter through what their calls return: `SubCommits` has the
    results for one call of `createCommitment`, and the calls are numbered.  The log keeps
    what was handed to the manager, what it tried and what it published. -/

namespace AxonCore.Notarization

/-! ## Section 1: Commitments -/

structure BlockID where
  slot : Nat
  identifier : Nat
  deriving DecidableEq

/-- `iotago.Roots`. -/
structure Roots where
  tangleRoot : Nat
  stateMutationRoot : Nat
  attestationsRoot : Nat
  stateRoot : Nat
  accountRoot : Nat
  committeeRoot : Nat
  rewardsRoot : Nat
  protocolParametersHash : Nat
  deriving DecidableEq

/-- `iotago.Commitment`. -/
structure Commitment where
  slot : Nat
  previousCommitmentID : Nat
  rootsID : Nat
  cumulativeWeight : Nat
  referenceManaCost : Nat
  deriving DecidableEq

/-- What the calls of one `createCommitment` return; `none` and `false` are errors. -/
structure SubCommits where
  /-- `acceptedBlocksSet.Commit`. -/
  acceptedBlocks : Bool
  /-- The cumulative weight and the root of the attestations. -/
  attestation : Option (Nat × Nat)
  /-- The roots of the state, the mutations and the accounts. -/
  ledger : Option (Nat × Nat × Nat)
  /-- The roots of the committee and the rewards. -/
  sybilProtection : Option (Nat × Nat)
  upgradeOrchestrator : Option Nat
  rmc : Option Nat
  /-- `model.CommitmentFromCommitment`, with its validation. -/
  modelCommitment : Bool
  rootsStorage : Bool
  commitments : Bool
  setLatestCommitment : Bool
  advanceLatestNonEmptySlot : Bool

structure Params where
  minCommittableAge : Nat
  /-- The root of a set of accepted blocks. -/
  root : Finset BlockID → Nat
  /-- `Roots.ID`. -/
  rootsID : Roots → Nat
  /-- `Commitment.ID`. -/
  commitmentID : Commitment → Nat
  /-- What the components return in each call of `createCommitment`. -/
  subCommits : Nat → SubCommits

/-! ## Section 2: State -/

/-- `SlotMutations`. -/
structure SlotMutations where
  acceptedBlocksBySlot : Nat → Finset BlockID
  latestCommittedSlot : Nat

/-- `notarization.SlotCommittedDetails`, with the roots of the commitment. -/
structure SlotCommittedDetails where
  commitment : Commitment
  roots : Roots
  acceptedBlocks : Finset BlockID
  deriving DecidableEq

inductive Event where
  /-- A block is handed over as accepted. -/
  | accepted (b : BlockID)
  /-- The accepted blocks of the slot are committed. -/
  | attempt (slot : Nat)
  /-- `SlotCommitted`: the commitment is published. -/
  | slotCommitted (details : SlotCommittedDetails)
  /-- The commitment is stored as the latest one. -/
  | latestCommitment (c : Commitment)
  deriving DecidableEq

/-- `slotnotarization.Manager`, with the settings it writes. -/
structure Manager where
  slotMutations : SlotMutations
  forceCommitMode : Bool
  latestCommitment : Commitment
  latestNonEmptySlot : Nat
  /-- The number of calls of `createCommitment`. -/
  calls : Nat
  log : List Event

/-- `NewManager`. -/
def newManager (latestCommitment : Commitment) (latestNonEmptySlot : Nat) : Manager where
  slotMutations := ⟨fun _ => ∅, latestCommitment.slot⟩
  forceCommitMode := false
  latestCommitment := latestCommitment
  latestNonEmptySlot := latestNonEmptySlot
  calls := 0
  log := []

/-- `AddAcceptedBlock`: a block of a committed slot is refused. -/
def SlotMutations.addAcceptedBlock (s : SlotMutations) (b : BlockID) : SlotMutations :=
  if b.slot ≤ s.latestCommittedSlot then s
  else
    { s with
      acceptedBlocksBySlot := Function.update s.acceptedBlocksBySlot b.slot
        (insert b (s.acceptedBlocksBySlot b.slot)) }

/-- `SlotMutations.Commit`, if the set can be committed. -/
def SlotMutations.commit (s : SlotMutations) (slot : Nat) : SlotMutations where
  acceptedBlocksBySlot := Function.update s.acceptedBlocksBySlot slot ∅
  latestCommittedSlot := slot

/-! ## Section 3: Creating a commitment -/

variable (p : Params)

/-- The roots, the cumulative weight and the reference mana cost, if no component returns
    an error. -/
def SubCommits.collect (sub : SubCommits) (tangleRoot : Nat) : Option (Roots × Nat × Nat) :=
  sub.attestation.bind fun (cumulativeWeight, attestationsRoot) =>
  sub.ledger.bind fun (stateRoot, mutationRoot, accountRoot) =>
  sub.sybilProtection.bind fun (committeeRoot, rewardsRoot) =>
  sub.upgradeOrchestrator.bind fun protocolParametersAndVersionsHash =>
  sub.rmc.map fun rmc =>
    ({ tangleRoot := tangleRoot
       stateMutationRoot := mutationRoot
       attestationsRoot := attestationsRoot
       stateRoot := stateRoot
       accountRoot := accountRoot
       committeeRoot := committeeRoot
       rewardsRoot := rewardsRoot
       protocolParametersHash := protocolParametersAndVersionsHash }, cumulativeWeight, rmc)

/-- The commitment is published and becomes the latest one. -/
def Manager.publish (m : Manager) (sub : SubCommits) (details : SlotCommittedDetails) :
    Manager × Option Commitment :=
  let m := { m with log := m.log ++ [.slotCommitted details] }
  if sub.setLatestCommitment = false then (m, none)
  else
    let m := { m with
      latestCommitment := details.commitment
      log := m.log ++ [.latestCommitment details.commitment] }
    if details.acceptedBlocks = ∅ then (m, some details.commitment)
    else if sub.advanceLatestNonEmptySlot = false then (m, none)
    else
      ({ m with latestNonEmptySlot := max m.latestNonEmptySlot details.commitment.slot },
        some details.commitment)

/-- `createCommitment`: the manager after the call, and the commitment or an error. -/
def Manager.createCommitment (m : Manager) (slot : Nat) : Manager × Option Commitment :=
  let sub := p.subCommits m.calls
  let m := { m with calls := m.calls + 1 }
  if slot ≠ m.latestCommitment.slot + 1 then (m, none)
  else if sub.acceptedBlocks = false then (m, none)
  else
    let acceptedBlocksSet := m.slotMutations.acceptedBlocksBySlot slot
    let m := { m with
      slotMutations := m.slotMutations.commit slot
      log := m.log ++ [.attempt slot] }
    match sub.collect (p.root acceptedBlocksSet) with
    | none => (m, none)
    | some (roots, cumulativeWeight, rmc) =>
      if (sub.modelCommitment && sub.rootsStorage && sub.commitments) = false then (m, none)
      else
        m.publish sub
          { commitment :=
              { slot := slot
                previousCommitmentID := p.commitmentID m.latestCommitment
                rootsID := p.rootsID roots
                cumulativeWeight := cumulativeWeight
                referenceManaCost := rmc }
            roots := roots
            acceptedBlocks := acceptedBlocksSet }

/-! ## Section 4: Calls of the manager -/

/-- `isCommittable`. -/
def isCommittable (slot acceptedBlockSlot : Nat) : Bool :=
  slot + p.minCommittableAge ≤ acceptedBlockSlot

/-- The loop of `tryCommitSlotUntil`, from a slot on. -/
def Manager.tryCommitLoop (acceptedBlockIndex : Nat) :
    (rounds i : Nat) → Manager → Manager
  | 0, _, m => m
  | rounds + 1, i, m =>
    if isCommittable p i acceptedBlockIndex = false then m
    else
      match m.createCommitment p i with
      | (m, none) => m
      | (m, some _) => tryCommitLoop acceptedBlockIndex rounds (i + 1) m

/-- `tryCommitSlotUntil`. -/
def Manager.tryCommitSlotUntil (m : Manager) (acceptedBlockIndex : Nat) : Manager :=
  tryCommitLoop p acceptedBlockIndex (acceptedBlockIndex - m.latestCommitment.slot)
    (m.latestCommitment.slot + 1) m

/-- `tryCommitUntil`. -/
def Manager.tryCommitUntil (m : Manager) (commitUntilSlot : Nat) : Manager :=
  if m.forceCommitMode then m
  else if m.latestCommitment.slot < commitUntilSlot then m.tryCommitSlotUntil p commitUntilSlot
  else m

/-- The handler of `AcceptedBlockProcessed`: `notarizeAcceptedBlock`, then
    `tryCommitUntil`. -/
def Manager.acceptedBlockProcessed (m : Manager) (b : BlockID) : Manager :=
  { m with
    slotMutations := m.slotMutations.addAcceptedBlock b
    log := m.log ++ [Event.accepted b] }.tryCommitUntil p b.slot

/-- `ForceCommit`, without the acceptance time of the tip selection. -/
def Manager.forceCommit (m : Manager) (slot : Nat) : Manager × Option Commitment :=
  m.createCommitment p slot

/-- The loop of `ForceCommitUntil`: the manager, and whether it went through. -/
def Manager.forceCommitLoop : (rounds i : Nat) → Manager → Manager × Bool
  | 0, _, m => (m, true)
  | rounds + 1, i, m =>
    match m.forceCommit p i with
    | (m, none) => (m, false)
    | (m, some _) => forceCommitLoop rounds (i + 1) m

/-- `ForceCommitUntil`: the manager, and whether it returned without an error. -/
def Manager.forceCommitUntil (m : Manager) (commitUntilSlot : Nat) : Manager × Bool :=
  if m.forceCommitMode then (m, false)
  else
    match forceCommitLoop p (commitUntilSlot - m.latestCommitment.slot)
        (m.latestCommitment.slot + 1) { m with forceCommitMode := true } with
    | (m, false) => (m, false)
    | (m, true) => ({ m with forceCommitMode := false }, true)

inductive Input where
  | accepted (b : BlockID)
  | tryCommitUntil (slot : Nat)
  | forceCommit (slot : Nat)
  | forceCommitUntil (slot : Nat)

def step (m : Manager) : Input → Manager
  | .accepted b => m.acceptedBlockProcessed p b
  | .tryCommitUntil slot => m.tryCommitUntil p slot
  | .forceCommit slot => (m.forceCommit p slot).1
  | .forceCommitUntil slot => (m.forceCommitUntil p slot).1

end AxonCore.Notarization

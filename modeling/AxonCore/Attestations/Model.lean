import Mathlib.Data.Finset.Insert
import AxonCore.Lib.Codec
import AxonCore.Lib.Greatest
import AxonCore.Lib.Keyed

/-! # The attestation manager

    A validation block of a committee member attests to the commitment it names.  The
    manager keeps the attestations of a slot until the slot is committed, then moves
    them to a window of pending attestations, and stores those at the lower end of the
    window with the commitment.

    The window is a map for every slot: an attestation is copied to all slots from the
    cutoff slot up to the slot that it commits to, but only if it beats the one at the
    cutoff slot.

    The parts of the storage that the manager uses are the committed attestations and
    the tracker that keeps the window over a restart.  `none` stands for a returned
    error. -/

namespace AxonCore.Attestations

open AxonCore.Lib Function

/-! ## Section 1: Attestations -/

abbrev AccountID := Nat
abbrev BlockIssuerKey := Nat

/-- The signature of a block: the key it was made with and whether it verifies. -/
structure Signature where
  publicKey : BlockIssuerKey
  valid : Bool
  deriving DecidableEq

/-- `iotago.Attestation`. -/
structure Attestation where
  /-- The slot of `BlockID`. -/
  slot : Nat
  issuerID : AccountID
  /-- The slot of `SlotCommitmentID`. -/
  committedSlot : Nat
  issuingTime : Nat
  bodyHash : Nat
  signature : Signature
  deriving DecidableEq

/-- `Attestation.Compare`: the committed slot decides, then the time, then the hash. -/
def Attestation.compare : Attestation → Attestation → Ordering :=
  compareLex (compareOn Attestation.committedSlot)
    (compareLex (compareOn Attestation.issuingTime) (compareOn Attestation.bodyHash))

instance : Std.TransCmp Attestation.compare :=
  inferInstanceAs (Std.TransCmp (compareLex _ _))

theorem Attestation.committedSlot_le {a b : Attestation} (h : (a.compare b).isLE) :
    a.committedSlot ≤ b.committedSlot := by
  by_contra hlt
  have hgt : Ord.compare a.committedSlot b.committedSlot = .gt := Nat.compare_eq_gt.mpr (by omega)
  unfold Attestation.compare compareLex compareOn at h
  rw [hgt] at h
  cases h

/-- `blocks.Block`, as far as the manager reads it, with the slot of its ID. -/
structure Block where
  slot : Nat
  issuerID : AccountID
  isValidationBlock : Bool
  committedSlot : Nat
  issuingTime : Nat
  bodyHash : Nat
  signature : Signature
  deriving DecidableEq

/-- `iotago.NewAttestation`. -/
def newAttestation (b : Block) : Attestation where
  slot := b.slot
  issuerID := b.issuerID
  committedSlot := b.committedSlot
  issuingTime := b.issuingTime
  bodyHash := b.bodyHash
  signature := b.signature

/-! ## Section 2: The manager -/

/-- The protocol parameters and the committees. -/
structure Params where
  genesisSlot : Nat
  maxCommittableAge : Nat
  /-- `CommitteeInSlot`: the accounts with a seat, if the committee is known. -/
  committee : Nat → Option (Finset AccountID)

/-- Attestations by slot and account. -/
abbrev Window := Nat → Map AccountID Attestation

/-- The bucketed storage. -/
structure Storage where
  /-- The committed attestations. -/
  attestations : Window
  /-- The window that was written on shutdown. -/
  tracker : Window

/-- `slotattestation.Manager`. -/
structure Manager where
  futureAttestations : Window
  pendingAttestations : Window
  bucketedStorage : Storage
  lastCommittedSlot : Nat
  lastCumulativeWeight : Nat

/-- `NewManager`. -/
def newManager (lastCommittedSlot lastCumulativeWeight : Nat) (bucketedStorage : Storage) :
    Manager where
  futureAttestations := fun _ => ∅
  pendingAttestations := fun _ => ∅
  bucketedStorage := bucketedStorage
  lastCommittedSlot := lastCommittedSlot
  lastCumulativeWeight := lastCumulativeWeight

variable (p : Params)

/-- `computeAttestationCommitmentOffset`: the cutoff slot, and whether the window above
    genesis is full. -/
def computeAttestationCommitmentOffset (slot : Nat) : Nat × Bool :=
  if slot < p.genesisSlot + p.maxCommittableAge then (p.genesisSlot, false)
  else (slot - p.maxCommittableAge, true)

/-- `AddAttestationFromValidationBlock`. -/
def Manager.addAttestationFromValidationBlock (m : Manager) (b : Block) : Option Manager :=
  if b.isValidationBlock then
    (p.committee b.slot).map fun committee =>
      if b.issuerID ∉ committee then m
      else if b.slot ≤ m.lastCommittedSlot then m
      else
        let future := m.futureAttestations b.slot
        { m with
          futureAttestations := update m.futureAttestations b.slot
            (future.insert b.issuerID
              (keepGreater Attestation.compare (future.lookup b.issuerID) (newAttestation b))) }
  else some m

/-- The slots of a loop `for i := low; i <= high; i++`. -/
def slotsFrom (low high : Nat) : List Nat := List.range' low (high + 1 - low)

/-- `Set` in the storage of one slot. -/
def setAttestation (a : Attestation) (pending : Window) (slot : Nat) : Window :=
  update pending slot ((pending slot).insert a.issuerID a)

/-- `applyToPendingAttestations`. -/
def applyToPendingAttestations (cutoffSlot : Nat) (pending : Window) (a : Attestation) : Window :=
  if a.committedSlot < cutoffSlot then pending
  else
    match (pending cutoffSlot).lookup a.issuerID with
    | none => (slotsFrom cutoffSlot a.committedSlot).foldl (setAttestation a) pending
    | some current =>
      if a.compare current = .gt then
        (slotsFrom cutoffSlot a.committedSlot).foldl (setAttestation a) pending
      -- `Compute` stores the current value again
      else update pending cutoffSlot ((pending cutoffSlot).insert a.issuerID current)

/-- The attestations of a map, in the order of a stream. -/
def values (attestations : Map AccountID Attestation) : List Attestation :=
  attestations.entries.map Sigma.snd

/-- One attestation of `Commit`: it counts if its issuer has a seat in the committee of
    its own slot. -/
def commitAttestation (s : Map AccountID Attestation × Nat) (a : Attestation) :
    Option (Map AccountID Attestation × Nat) :=
  (p.committee a.slot).map fun committee =>
    if a.issuerID ∈ committee then (s.1.insert a.issuerID a, s.2 + 1) else s

/-- `Commit`: the manager and the new cumulative weight. -/
def Manager.commit (m : Manager) (slot : Nat) : Option (Manager × Nat) :=
  let (cutoffSlot, valid) := computeAttestationCommitmentOffset p slot
  let futureAttestations := update m.futureAttestations slot ∅
  let pending := (values (m.futureAttestations slot)).foldl
    (applyToPendingAttestations cutoffSlot) m.pendingAttestations
  if valid then
    (run (commitAttestation p) (m.bucketedStorage.attestations slot, m.lastCumulativeWeight)
      (values (pending cutoffSlot))).map fun (tree, weight) =>
      ({ m with
          futureAttestations := futureAttestations
          pendingAttestations := update pending cutoffSlot ∅
          bucketedStorage := { m.bucketedStorage with
            attestations := update m.bucketedStorage.attestations slot tree }
          lastCommittedSlot := slot
          lastCumulativeWeight := weight }, weight)
  else
    some ({ m with
      futureAttestations := futureAttestations
      pendingAttestations := pending
      lastCommittedSlot := slot }, 0)

/-- `Get`: the attestations that are included in the commitment of a slot. -/
def Manager.get (m : Manager) (slot : Nat) : Option (List Attestation) :=
  if m.lastCommittedSlot < slot then none
  else if (computeAttestationCommitmentOffset p slot).2 = false then none
  else some (values (m.bucketedStorage.attestations slot))

/-! ## Section 3: Restart, snapshot and rollback -/

/-- The attestations of a slot are written to the tracker. -/
def writeTracker (pending tracker : Window) (slot : Nat) : Window :=
  update tracker slot
    ((values (pending slot)).foldl (fun s a => s.insert a.issuerID a) (tracker slot))

/-- `writeToDisk`: the storage after it. -/
def Manager.writeToDisk (m : Manager) : Storage :=
  let (cutoffIndex, isValid) := computeAttestationCommitmentOffset p m.lastCommittedSlot
  if isValid then
    { m.bucketedStorage with
      tracker := (slotsFrom cutoffIndex m.lastCommittedSlot).foldl
        (writeTracker m.pendingAttestations) m.bucketedStorage.tracker }
  else m.bucketedStorage

/-- One slot of `RestoreFromDisk`: its attestations are applied and the tracker of the
    slot is cleared. -/
def restoreSlot (cutoffIndex : Nat) (m : Manager) (slot : Nat) : Manager :=
  { m with
    pendingAttestations := (values (m.bucketedStorage.tracker slot)).foldl
      (applyToPendingAttestations cutoffIndex) m.pendingAttestations
    bucketedStorage := { m.bucketedStorage with
      tracker := update m.bucketedStorage.tracker slot ∅ } }

/-- `RestoreFromDisk`. -/
def Manager.restoreFromDisk (m : Manager) : Manager :=
  let (cutoffIndex, isValid) := computeAttestationCommitmentOffset p m.lastCommittedSlot
  if isValid then
    (slotsFrom cutoffIndex m.lastCommittedSlot).foldl (restoreSlot cutoffIndex) m
  else m

/-- The committed attestations of a slot are applied to the window. -/
def Manager.applyCommitted (m : Manager) (cutoffSlot : Nat) (attestations : List Attestation) :
    Manager :=
  { m with
    pendingAttestations :=
      attestations.foldl (applyToPendingAttestations cutoffSlot) m.pendingAttestations }

/-- `Rollback`. -/
def Manager.rollback (m : Manager) (targetSlot : Nat) : Option Manager :=
  if m.lastCommittedSlot < targetSlot then none
  else
    let (attestationSlot, isValid) := computeAttestationCommitmentOffset p targetSlot
    if isValid then
      some (m.applyCommitted attestationSlot (values (m.bucketedStorage.attestations targetSlot)))
    else some m

/-- The streams of the primitive types. -/
structure Codecs (β : Type) where
  /-- The length prefix of a collection. -/
  length : Codec β Nat
  /-- An attestation with its size. -/
  attestation : Codec β Attestation

variable {β : Type} (c : Codecs β)

/-- `Export`. -/
def Manager.«export» (m : Manager) (targetSlot : Nat) : Option (List β) :=
  if m.lastCommittedSlot < targetSlot then none
  else if (computeAttestationCommitmentOffset p targetSlot).2 = false then
    some (writeCollection c.length 0 [])
  else
    let attestations := values (m.bucketedStorage.attestations targetSlot)
    some (writeCollection c.length attestations.length (attestations.flatMap c.attestation.write))

/-- One attestation, as `Import` reads it. -/
def readAttestation (attestations : List Attestation) : Reader β (List Attestation) := fun bs =>
  (c.attestation.read bs).map fun (a, bs) => (attestations ++ [a], bs)

/-- `Import`. -/
def Manager.«import» (m : Manager) (bs : List β) : Option Manager :=
  (readCollection c.length (readAttestation c) [] bs).map fun (attestations, _) =>
    let (attestationSlotIndex, isValid) :=
      computeAttestationCommitmentOffset p m.lastCommittedSlot
    if isValid then m.applyCommitted attestationSlotIndex attestations else m

/-! ## Section 4: Runs -/

/-- The manager, and the cumulative weights of the stored commitments. -/
structure Node where
  manager : Manager
  cumulativeWeight : Nat → Nat

inductive Input where
  | add (b : Block)
  /-- The next slot is committed. -/
  | commit

/-- A block that is refused with an error leaves the manager as it is. -/
def step (n : Node) : Input → Option Node
  | .add b =>
    some { n with
      manager := (n.manager.addAttestationFromValidationBlock p b).getD n.manager }
  | .commit =>
    (n.manager.commit p (n.manager.lastCommittedSlot + 1)).map fun (m, newCW) =>
      { manager := m
        cumulativeWeight :=
          update n.cumulativeWeight (n.manager.lastCommittedSlot + 1) newCW }

def emptyStorage : Storage where
  attestations := fun _ => ∅
  tracker := fun _ => ∅

/-- The node at genesis. -/
def genesis : Node where
  manager := newManager p.genesisSlot 0 emptyStorage
  cumulativeWeight := fun _ => 0

end AxonCore.Attestations

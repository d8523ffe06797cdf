import AxonCore.Accounts.Model
import AxonCore.Lib.Codec
import AxonCore.Lib.Tally
import AxonCore.TimeProvider
import AxonCore.Votes

/-! # The upgrade orchestrator

    Validators signal in their validation blocks the protocol version that they support.
    The orchestrator keeps the latest signal of each seat, slot by slot: when a slot is
    committed its signals are stored and carried over to the next slot of the epoch.  At
    the end of an epoch a version that a super-majority supports is decided for the epoch,
    and a version that was decided for enough epochs of the signaling window is scheduled.

    The settings with the scheduled versions are not part of the orchestrator.  The
    parameters are the same for all versions; the storages do not fail and the epochs of
    the signaling window are not pruned. -/

namespace AxonCore.Upgrade

open AxonCore.Lib Function

open AxonCore.Accounts (AccountID Block BlockBody SignaledBlock VersionAndHash)

/-! ## Section 1: State -/

/-- The protocol parameters and the committees. -/
structure Params where
  timeProvider : TimeProvider
  /-- `CommitteeInEpoch`: the seats of the accounts, if the committee is known. -/
  committeeInEpoch : Nat → Option (Map AccountID SeatIndex)
  targetCommitteeSize : Nat
  /-- `int(float64(n) * votes.SuperMajority)`. -/
  superMajority : Nat → Nat
  superMajority_half : ∀ n, n ≤ 2 * superMajority n + 1
  windowSize : Nat
  windowTargetRatio : Nat
  activationOffset : Nat
  /-- The order in which a map of versions is iterated. -/
  mapOrder : List VersionAndHash → List VersionAndHash
  mapOrder_perm : ∀ keys, (mapOrder keys).Perm keys

/-- The latest signal of each seat. -/
abbrev Signals := Map SeatIndex SignaledBlock

/-- `permanent.Settings`: the epoch and the parameters hash of the versions. -/
structure Settings where
  versions : Map Nat (Nat × Nat)

structure Storage where
  /-- `upgradeSignalsPerSlotFunc`. -/
  upgradeSignals : Nat → Signals
  decidedUpgradeSignals : Nat → Option VersionAndHash

/-- `signalingupgradeorchestrator.Orchestrator`. -/
structure Orchestrator where
  lastCommittedSlot : Nat
  /-- `none` for a slot without a map. -/
  latestSignals : Nat → Option Signals
  storage : Storage

/-- `NewOrchestrator`. -/
def newOrchestrator (storage : Storage) : Orchestrator where
  lastCommittedSlot := 0
  latestSignals := fun _ => none
  storage := storage

/-- `EpochForVersion`. -/
def Settings.epochForVersion (s : Settings) (version : Nat) : Option Nat :=
  (s.versions.lookup version).map Prod.fst

/-- `StoreFutureProtocolParametersHash`. -/
def Settings.storeFutureProtocolParametersHash (s : Settings) (version hash epoch : Nat) :
    Settings :=
  ⟨s.versions.insert version (epoch, hash)⟩

/-- `decidedUpgradeSignals.Load`: the zero value if nothing is stored. -/
def Storage.load (s : Storage) (epoch : Nat) : VersionAndHash :=
  (s.decidedUpgradeSignals epoch).getD ⟨0, 0⟩

/-- `decidedUpgradeSignals.Store`. -/
def Storage.store (s : Storage) (epoch : Nat) (v : VersionAndHash) : Storage :=
  { s with decidedUpgradeSignals := update s.decidedUpgradeSignals epoch (some v) }

variable (p : Params)

/-- `CommitteeInSlot`. -/
def Params.committeeInSlot (slot : Nat) : Option (Map AccountID SeatIndex) :=
  p.committeeInEpoch (p.timeProvider.epochFromSlot slot)

/-- `SeatCountInEpoch`. -/
def Params.seatCountInEpoch (epoch : Nat) : Nat :=
  match p.committeeInEpoch epoch with
  | some committee => committee.keys.length
  | none => p.targetCommitteeSize

/-- The slot is the last one of its epoch. -/
def Params.lastSlotInEpoch (slot : Nat) : Bool :=
  p.timeProvider.epochEnd (p.timeProvider.epochFromSlot slot) = slot

/-! ## Section 2: Tracking blocks -/

/-- `addNewSignaledBlock`. -/
def addNewSignaledBlock (latestSignals : Signals) (seat : SeatIndex)
    (newSignaledBlock : SignaledBlock) : Signals :=
  latestSignals.insert seat
    (match latestSignals.lookup seat with
    | none => newSignaledBlock
    | some currentValue =>
      if newSignaledBlock.greater currentValue then newSignaledBlock else currentValue)

section

variable (settings : Settings)

/-- What a block signals: the seat of its issuer and the signal, if it is a validation
    block of a committee member and its version is not known yet. -/
def signalOf (b : Block) : Option (SeatIndex × SignaledBlock) :=
  match b.body with
  | .basic _ => none
  | .validation highestSupportedVersion protocolParametersHash =>
    (p.committeeInSlot b.slot).bind fun committee =>
    (committee.lookup b.issuerID).bind fun seat =>
    if (settings.epochForVersion highestSupportedVersion).isSome then none
    else some (seat, ⟨b.id, b.issuingTime, highestSupportedVersion, protocolParametersHash⟩)

/-- `TrackValidationBlock`. -/
def Orchestrator.trackValidationBlock (o : Orchestrator) (b : Block) : Orchestrator :=
  match signalOf p settings b with
  | none => o
  | some (seat, signaledBlock) =>
    { o with
      latestSignals := update o.latestSignals b.slot
        (some (addNewSignaledBlock ((o.latestSignals b.slot).getD ∅) seat signaledBlock)) }

/-! ## Section 3: Committing a slot -/

/-- The signals of a slot are evicted, stored and carried over to the next slot. -/
def Orchestrator.commitSignals (o : Orchestrator) (slot : Nat) : Orchestrator × Option Signals :=
  match o.latestSignals slot with
  | none => (o, none)
  | some signaledBlockPerSeat =>
    let latestSignals := update o.latestSignals slot none
    ({ lastCommittedSlot := o.lastCommittedSlot + 1
       latestSignals :=
        if p.lastSlotInEpoch slot then latestSignals
        else update latestSignals (slot + 1)
          (some (signaledBlockPerSeat.entries.foldl
            (fun s e => addNewSignaledBlock s e.1 e.2) ((latestSignals (slot + 1)).getD ∅)))
       storage := { o.storage with
        upgradeSignals := update o.storage.upgradeSignals slot
          (signaledBlockPerSeat.entries.foldl (fun s e => s.insert e.1 e.2)
            (o.storage.upgradeSignals slot)) } },
      some signaledBlockPerSeat)

/-- `maxVersionByCount`. -/
def maxVersionByCount (versionSupporters : Map VersionAndHash Nat) : VersionAndHash × Nat :=
  leader ⟨0, 0⟩ (p.mapOrder versionSupporters.keys) versionSupporters

/-- `signalingWindowStart`. -/
def signalingWindowStart (epoch : Nat) : Nat :=
  if epoch < p.windowSize then 0 else epoch - p.windowSize

/-- The epochs of the signaling window. -/
def signalingWindow (epoch : Nat) : List Nat :=
  List.range' (signalingWindowStart p epoch) (epoch + 1 - signalingWindowStart p epoch)

/-- The versions that were decided in the signaling window; version 0 stands for none. -/
def Storage.windowVersions (s : Storage) (currentEpoch : Nat) : List VersionAndHash :=
  ((signalingWindow p currentEpoch).map s.load).filter fun version => version.version ≠ 0

/-- `signalingThresholdReached`. -/
def Storage.signalingThresholdReached (s : Storage) (currentEpoch : Nat) : Option VersionAndHash :=
  let (versionMostSignaled, signaledCount) :=
    maxVersionByCount p (tally (s.windowVersions p currentEpoch))
  if signaledCount < p.windowTargetRatio then none else some versionMostSignaled

/-- The version and hash that a signal is for. -/
def versionAndHash (s : SignaledBlock) : VersionAndHash :=
  ⟨s.highestSupportedVersion, s.protocolParametersHash⟩

/-- The versions that the seats signal. -/
def supportedVersions (signaledBlockPerSeat : Signals) : List VersionAndHash :=
  signaledBlockPerSeat.entries.map fun e => versionAndHash e.2

/-- The version that is decided for an epoch at its end. -/
def decideVersion (currentEpoch : Nat) (signaledBlockPerSeat : Signals) : Option VersionAndHash :=
  let (versionAndHashWithMostSupporters, mostSupporters) :=
    maxVersionByCount p (tally (supportedVersions signaledBlockPerSeat))
  if (settings.epochForVersion versionAndHashWithMostSupporters.version).isSome then none
  else if isThresholdReached mostSupporters (p.seatCountInEpoch currentEpoch)
      p.superMajority = false
  then none
  else some versionAndHashWithMostSupporters

/-- `tryUpgrade`. -/
def tryUpgrade (storage : Storage) (settings : Settings) (currentEpoch : Nat)
    (lastSlotInEpoch : Bool) (signaledBlockPerSeat : Option Signals) : Storage × Settings :=
  match signaledBlockPerSeat, lastSlotInEpoch with
  | some signaledBlockPerSeat, true =>
    match decideVersion p settings currentEpoch signaledBlockPerSeat with
    | none => (storage, settings)
    | some decided =>
      let storage := storage.store currentEpoch decided
      match storage.signalingThresholdReached p currentEpoch with
      | none => (storage, settings)
      | some tobeUpgraded =>
        (storage, settings.storeFutureProtocolParametersHash tobeUpgraded.version
          tobeUpgraded.hash (currentEpoch + p.activationOffset))
  | _, _ => (storage, settings)

/-- `Commit`, without the hash of the parameters that it returns. -/
def Orchestrator.commit (o : Orchestrator) (slot : Nat) : Orchestrator × Settings :=
  let (o, signaledBlockPerSeat) := o.commitSignals p slot
  let (storage, settings) := tryUpgrade p o.storage settings (p.timeProvider.epochFromSlot slot)
    (p.lastSlotInEpoch slot) signaledBlockPerSeat
  ({ o with storage := storage }, settings)

end

/-! ## Section 4: Restart, snapshot and reset -/

/-- `Reset`. -/
def Orchestrator.reset (o : Orchestrator) : Orchestrator :=
  { o with latestSignals := fun _ => none }

/-- Signals are loaded into the next slot. -/
def Orchestrator.loadSignals (o : Orchestrator) (slot : Nat)
    (signals : List (Sigma fun _ : SeatIndex => SignaledBlock)) : Orchestrator :=
  { o with
    latestSignals := update o.latestSignals (slot + 1)
      (some (signals.foldl (fun s e => s.insert e.1 e.2)
        ((o.latestSignals (slot + 1)).getD ∅))) }

/-- `RestoreFromDisk`. -/
def Orchestrator.restoreFromDisk (o : Orchestrator) (slot : Nat) : Orchestrator :=
  { o with lastCommittedSlot := slot }.loadSignals slot (o.storage.upgradeSignals slot).entries

/-- The streams of the primitive types. -/
structure Codecs (β : Type) where
  slotIndex : Codec β Nat
  /-- The length prefixes of the collections. -/
  length : Codec β Nat
  seat : Codec β SeatIndex
  /-- A signaled block with its size. -/
  signaledBlock : Codec β SignaledBlock
  epochIndex : Codec β Nat
  versionAndHash : Codec β VersionAndHash

variable {β : Type} (c : Codecs β)

/-- One element of the exported signals. -/
def signalBytes (e : Sigma fun _ : SeatIndex => SignaledBlock) : List β :=
  c.seat.write e.1 ++ c.signaledBlock.write e.2

/-- One element of the exported versions. -/
def decidedBytes (e : Nat × VersionAndHash) : List β :=
  c.epochIndex.write e.1 ++ c.versionAndHash.write e.2

/-- The decided versions of the signaling window, with their epochs. -/
def Storage.exportedVersions (s : Storage) (currentEpoch : Nat) : List (Nat × VersionAndHash) :=
  ((signalingWindow p currentEpoch).map fun epoch => (epoch, s.load epoch)).filter
    fun e => e.2.version ≠ 0

/-- `Export`. -/
def Orchestrator.«export» (o : Orchestrator) (targetSlot : Nat) : List β :=
  let signals := (o.storage.upgradeSignals targetSlot).entries
  let decided := o.storage.exportedVersions p (p.timeProvider.epochFromSlot targetSlot)
  c.slotIndex.write targetSlot ++
    writeCollection c.length signals.length (signals.flatMap (signalBytes c)) ++
    writeCollection c.length decided.length (decided.flatMap (decidedBytes c))

/-- One signal, as `Import` reads it. -/
def readSignal (signals : Signals) : Reader β Signals := fun bs =>
  (c.seat.read bs).bind fun (seat, bs) =>
  (c.signaledBlock.read bs).map fun (signaledBlock, bs) => (signals.insert seat signaledBlock, bs)

/-- One decided version, as `Import` reads and stores it. -/
def readDecided (s : Storage) : Reader β Storage := fun bs =>
  (c.epochIndex.read bs).bind fun (epoch, bs) =>
  (c.versionAndHash.read bs).map fun (versionAndHash, bs) => (s.store epoch versionAndHash, bs)

/-- `Import`. -/
def Orchestrator.«import» (o : Orchestrator) (bs : List β) : Option Orchestrator :=
  (c.slotIndex.read bs).bind fun (slot, bs) =>
  (readCollection c.length (readSignal c) ∅ bs).bind fun (upgradeSignalMap, bs) =>
  let storage := { o.storage with
    upgradeSignals := update o.storage.upgradeSignals slot
      (upgradeSignalMap.entries.foldl (fun s e => s.insert e.1 e.2)
        (o.storage.upgradeSignals slot)) }
  (readCollection c.length (readDecided c) storage bs).map fun (storage, _) =>
    { o with lastCommittedSlot := slot, storage := storage }.loadSignals slot
      upgradeSignalMap.entries

/-! ## Section 5: Runs -/

/-- The orchestrator, the settings, and the slot of the latest commitment. -/
structure Node where
  orchestrator : Orchestrator
  settings : Settings
  slot : Nat

inductive Input where
  | track (b : Block)
  /-- The next slot is committed. -/
  | commit
  deriving DecidableEq

def step (n : Node) : Input → Node
  | .track b =>
    { n with orchestrator := n.orchestrator.trackValidationBlock p n.settings b }
  | .commit =>
    let (o, settings) := n.orchestrator.commit p n.settings (n.slot + 1)
    { orchestrator := o, settings := settings, slot := n.slot + 1 }

def emptyStorage : Storage where
  upgradeSignals := fun _ => ∅
  decidedUpgradeSignals := fun _ => none

/-- The node at genesis, with the versions that are known from the beginning. -/
def genesis (settings : Settings) : Node where
  orchestrator := newOrchestrator emptyStorage
  settings := settings
  slot := p.timeProvider.genesisSlot

end AxonCore.Upgrade

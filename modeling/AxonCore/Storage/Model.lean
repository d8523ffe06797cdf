import Mathlib.Data.List.Basic
import AxonCore.TimeProvider
import AxonCore.Lib.Run

/-! # The prunable storage

    Data of a slot is stored in the bucket of the slot's epoch, under the slot and the kind
    of the data.  Data of an epoch (rewards, statistics, decided upgrade signals,
    committees) is stored in epoch stores that remember the highest epoch written to.

    `Rollback` brings the storage back to a target slot.  It prunes the later slots from the
    bucket of the target epoch, rolls back each of the epoch stores and deletes the buckets
    of the later epochs.

    * `Storage`: the buckets, the epoch stores and the latest stored slot.
    * `Storage.rollback`: `Storage.Rollback` with all of its loops.
    * `Node`: what the engine writes while it commits slot after slot. -/

namespace AxonCore.Stores

open Function

variable {α : Type}

/-! ## Section 1: Epoch stores -/

/-- `BaseStore` and `EpochKVStore`: the values by epoch and the highest epoch accessed.
    The cache in front of the committees always agrees with the store. -/
structure EpochStore (α : Type) where
  entries : Nat → Option α
  lastAccessedEpoch : Nat

namespace EpochStore

def empty : EpochStore α := ⟨fun _ => none, 0⟩

variable (s : EpochStore α) (epoch : Nat)

/-- `Load`; an epoch that was never stored gives no value. -/
def load : Option α := s.entries epoch

/-- `Store`. -/
def store (value : α) : EpochStore α :=
  { entries := update s.entries epoch (some value)
    lastAccessedEpoch := if s.lastAccessedEpoch ≥ epoch then s.lastAccessedEpoch else epoch }

theorem load_store (value : α) (e : Nat) :
    (s.store epoch value).load e = if e = epoch then some value else s.load e := by
  show update s.entries epoch (some value) e = _
  rw [update_apply]
  rfl

/-- `DeleteEpoch`. -/
def deleteEpoch : EpochStore α :=
  { s with entries := update s.entries epoch none }

/-- `RollbackEpochs`, and the epoch that it returns. -/
def rollbackEpochs : EpochStore α × Nat :=
  ((upTo epoch s.lastAccessedEpoch).foldl deleteEpoch s, s.lastAccessedEpoch)

/-- `Prune`: the epochs up to `epoch - pruningDelay`, if there are any. -/
def prune (epoch pruningDelay : Nat) : EpochStore α :=
  if epoch < pruningDelay then s else (upTo 0 (epoch - pruningDelay)).foldl deleteEpoch s

end EpochStore

/-! ## Section 2: Buckets -/

/-- The kinds of data of a slot, by their key prefixes. -/
inductive SlotKind where
  | blocks
  | rootBlocks
  | mutations
  | attestations
  | accountDiffs
  | performanceFactors
  | upgradeSignals
  | roots
  | blockMetadata
  deriving DecidableEq

/-- The database of one epoch.  The candidates for the committee are kept here too, under
    the first slot of the epoch. -/
structure Bucket (α : Type) where
  slots : Nat → SlotKind → Option α
  /-- The accounts that registered, with the slots of their candidacies. -/
  committeeCandidates : List (Nat × Nat)

def Bucket.empty : Bucket α := ⟨fun _ _ => none, []⟩

/-- The buckets by epoch. -/
structure BucketManager (α : Type) where
  buckets : Nat → Bucket α

namespace BucketManager

variable (tp : TimeProvider) (b : BucketManager α)

/-- A change of one bucket. -/
def modify (epoch : Nat) (f : Bucket α → Bucket α) : BucketManager α :=
  ⟨update b.buckets epoch (f (b.buckets epoch))⟩

/-- `DeleteBucket`. -/
def deleteBucket (epoch : Nat) : BucketManager α :=
  b.modify epoch fun _ => Bucket.empty

/-- `DeletePrefix` of a slot in the bucket of an epoch. -/
def deletePrefix (epoch : Nat) (b : BucketManager α) (slot : Nat) : BucketManager α :=
  b.modify epoch fun bucket =>
    { slots := update bucket.slots slot fun _ => none
      committeeCandidates :=
        if slot = tp.epochStart epoch then [] else bucket.committeeCandidates }

/-- `PruneSlots`. -/
def pruneSlots (epoch startPruneRange endPruneRange : Nat) : BucketManager α :=
  (upTo startPruneRange endPruneRange).foldl (deletePrefix tp epoch) b

/-- A write through `getKVStoreFromSlot`. -/
def storeSlot (kind : SlotKind) (slot : Nat) (value : α) : BucketManager α :=
  b.modify (tp.epochFromSlot slot) fun bucket =>
    { bucket with
      slots := update bucket.slots slot
        (update (bucket.slots slot) kind (some value)) }

/-- The data of a slot. -/
def slotData (slot : Nat) : SlotKind → Option α :=
  (b.buckets (tp.epochFromSlot slot)).slots slot

end BucketManager

/-! ## Section 3: The prunable storage -/

/-- `account.SeatedAccounts`, as far as the storage reads it. -/
structure SeatedAccounts where
  accounts : List Nat
  reused : Bool
  deriving DecidableEq

/-- The protocol parameters.  An epoch is long enough for the committee of the next epoch to
    be known `MaxCommittableAge` slots before its end. -/
structure Params where
  timeProvider : TimeProvider
  maxCommittableAge : Nat
  epochNearingThreshold : Nat
  maxCommittableAge_lt : maxCommittableAge + 1 < timeProvider.epochDurationSlots

structure Prunable (α : Type) where
  prunableSlotStore : BucketManager α
  /-- The last pruned epoch of the buckets, if there is one. -/
  lastPrunedEpoch : Option Nat
  decidedUpgradeSignals : EpochStore α
  poolRewards : EpochStore α
  poolStats : EpochStore α
  committee : EpochStore SeatedAccounts

namespace Prunable

variable (p : Params)

/-- `NextIndex` of the last pruned epoch. -/
def nextIndex (s : Prunable α) : Nat := (s.lastPrunedEpoch.map (· + 1)).getD 0

/-- `IsTooOld`. -/
def isTooOld (s : Prunable α) (epoch : Nat) : Bool := epoch < s.nextIndex

/-- `shouldRollbackCommittee`. -/
def shouldRollbackCommittee (committee : EpochStore SeatedAccounts) (epoch targetSlot : Nat) :
    Bool :=
  let targetSlotEpoch := p.timeProvider.epochFromSlot targetSlot
  let pointOfNoReturn := p.timeProvider.epochEnd targetSlotEpoch - p.maxCommittableAge
  if epoch ≥ targetSlotEpoch + 1 then
    if targetSlot < pointOfNoReturn then
      match committee.load (targetSlotEpoch + 1) with
      | none => false
      | some c => c.reused
    else false
  else true

/-- `rollbackCommitteeEpochs`, and the epoch that it returns. -/
def rollbackCommitteeEpochs (committee : EpochStore SeatedAccounts) (epoch targetSlot : Nat) :
    EpochStore SeatedAccounts × Nat :=
  ((upTo epoch committee.lastAccessedEpoch).foldl (fun c epochToPrune =>
      if shouldRollbackCommittee p c epochToPrune targetSlot then c.deleteEpoch epochToPrune
      else c) committee,
    committee.lastAccessedEpoch)

/-- `rollbackCommitteesCandidates`. -/
def rollbackCommitteesCandidates (b : BucketManager α) (targetSlotEpoch deletionStartSlot : Nat) :
    BucketManager α :=
  b.modify targetSlotEpoch fun bucket =>
    { bucket with
      committeeCandidates :=
        bucket.committeeCandidates.filter fun c => !decide (c.2 ≥ deletionStartSlot) }

/-- What `Rollback` does where it succeeds. -/
def rolledBack (s : Prunable α) (targetEpoch startPruneRange endPruneRange : Nat) : Prunable α :=
  let slots := s.prunableSlotStore.pruneSlots p.timeProvider targetEpoch startPruneRange
    endPruneRange
  let slots := rollbackCommitteesCandidates slots targetEpoch startPruneRange
  let targetSlot := startPruneRange - 1
  let (committee, lastPrunedCommitteeEpoch) :=
    rollbackCommitteeEpochs p s.committee (targetEpoch + 1) targetSlot
  -- the rewards of an epoch were calculated at its end
  if p.timeProvider.epochEnd targetEpoch ≠ targetSlot then
    let (poolStats, lastPrunedPoolStatsEpoch) := s.poolStats.rollbackEpochs targetEpoch
    let (decidedUpgradeSignals, lastPrunedDecidedUpgradeSignalsEpoch) :=
      s.decidedUpgradeSignals.rollbackEpochs targetEpoch
    let (poolRewards, lastPrunedPoolRewardsEpoch) := s.poolRewards.rollbackEpochs targetEpoch
    { prunableSlotStore := (upTo (targetEpoch + 1)
        (max lastPrunedCommitteeEpoch (max lastPrunedPoolStatsEpoch
          (max lastPrunedDecidedUpgradeSignalsEpoch lastPrunedPoolRewardsEpoch)))).foldl
        BucketManager.deleteBucket slots
      lastPrunedEpoch := s.lastPrunedEpoch
      decidedUpgradeSignals, poolRewards, poolStats, committee }
  else
    { s with
      prunableSlotStore := (upTo (targetEpoch + 1) lastPrunedCommitteeEpoch).foldl
        BucketManager.deleteBucket slots
      committee }

/-- `Rollback`: the candidates of a pruned epoch cannot be read. -/
def rollback (s : Prunable α) (targetEpoch startPruneRange endPruneRange : Nat) :
    Option (Prunable α) :=
  if s.isTooOld targetEpoch then none
  else some (rolledBack p s targetEpoch startPruneRange endPruneRange)

/-- The pruning delays of the epoch stores. -/
structure Delays where
  decidedUpgradeSignals : Nat
  poolRewards : Nat
  poolStats : Nat
  committee : Nat

/-- `Prune`. -/
def prune (s : Prunable α) (epoch : Nat) (delays : Delays) : Prunable α :=
  { prunableSlotStore := s.prunableSlotStore.deleteBucket epoch
    lastPrunedEpoch := some epoch
    decidedUpgradeSignals := s.decidedUpgradeSignals.prune epoch delays.decidedUpgradeSignals
    poolRewards := s.poolRewards.prune epoch delays.poolRewards
    poolStats := s.poolStats.prune epoch delays.poolStats
    committee := s.committee.prune epoch delays.committee }

end Prunable

/-- The prunable storage with the latest stored slot of the settings. -/
structure Storage (α : Type) where
  prunable : Prunable α
  latestStoredSlot : Nat

namespace Storage

variable (p : Params) (s : Storage α)

/-- A write to the data of a slot.  `Blocks` is the one accessor that does not advance the
    latest stored slot. -/
def storeSlot (kind : SlotKind) (slot : Nat) (value : α) : Storage α :=
  { prunable := { s.prunable with
      prunableSlotStore := s.prunable.prunableSlotStore.storeSlot p.timeProvider kind slot value }
    latestStoredSlot :=
      if kind = .blocks then s.latestStoredSlot
      else if s.latestStoredSlot ≥ slot then s.latestStoredSlot else slot }

/-- `pruningRange`. -/
def pruningRange (targetSlot : Nat) : Nat × Nat × Nat :=
  let targetEpoch := p.timeProvider.epochFromSlot targetSlot
  let startSlot := targetSlot + 1
  let endSlot := s.latestStoredSlot
  if p.timeProvider.epochFromSlot startSlot > targetEpoch then (targetEpoch, startSlot, 0)
  else (targetEpoch, startSlot, endSlot)

/-- `Rollback`. -/
def rollback (targetSlot : Nat) : Option (Storage α) :=
  let (targetEpoch, startSlot, endSlot) := s.pruningRange p targetSlot
  (s.prunable.rollback p targetEpoch startSlot endSlot).map fun prunable => { s with prunable }

/-- The data of a slot. -/
def slotData (slot : Nat) : SlotKind → Option α :=
  s.prunable.prunableSlotStore.slotData p.timeProvider slot

end Storage

/-! ## Section 4: What the engine writes -/

/-- The storage, and the latest committed and the latest finalized slot. -/
structure Node (α : Type) where
  storage : Storage α
  latestCommittedSlot : Nat
  latestFinalizedSlot : Nat

/-- What makes the engine write to the storage. -/
inductive Input (α : Type) where
  /-- An accepted block is stored, and added to the root blocks of its slot. -/
  | blockAccepted (slot : Nat) (block rootBlock : α)
  /-- Data of a slot that is not yet committed, such as block metadata. -/
  | track (kind : SlotKind) (slot : Nat) (value : α)
  /-- The candidacy of an account. -/
  | candidate (account slot : Nat)
  /-- The next slot is committed.  Rewards, statistics and decided upgrade signals are used
      if it is the last slot of an epoch. -/
  | commit (slotData : List (SlotKind × α)) (rewards : Option α) (stats : α) (decided : Option α)
  /-- A slot is finalized; with the committee that is selected, if there are candidates. -/
  | finalize (slot : Nat) (newCommittee : Option (List Nat))
  /-- The next epoch is pruned, in a call that goes at least up to it. -/
  | prune (epoch : Nat) (delays : Prunable.Delays)

namespace Node

variable (p : Params)

/-- The committee of the current epoch also serves in the next one (`ReuseCommittee`). -/
def reuseCommittee (committee : EpochStore SeatedAccounts) (currentEpoch targetEpoch : Nat) :
    Option (EpochStore SeatedAccounts) :=
  (committee.load currentEpoch).map fun c =>
    committee.store targetEpoch { c with reused := true }

/-- The committee part of `SybilProtection.CommitSlot`. -/
def commitCommittee (committee : EpochStore SeatedAccounts) (slot : Nat) :
    Option (EpochStore SeatedAccounts) :=
  let currentEpoch := p.timeProvider.epochFromSlot slot
  if slot + p.maxCommittableAge = p.timeProvider.epochEnd currentEpoch then
    match committee.load (currentEpoch + 1) with
    | some _ => some committee
    | none => reuseCommittee committee currentEpoch (currentEpoch + 1)
  else some committee

/-- What the commitment of an epoch's last slot stores. -/
def applyEpoch (s : Prunable α) (epoch : Nat) (rewards : Option α) (stats : α)
    (decided : Option α) : Prunable α :=
  { s with
    poolStats := s.poolStats.store epoch stats
    poolRewards := match rewards with
      | some r => s.poolRewards.store epoch r
      | none => s.poolRewards
    decidedUpgradeSignals := match decided with
      | some d => s.decidedUpgradeSignals.store epoch d
      | none => s.decidedUpgradeSignals }

/-- The writes of a committed slot; its blocks were stored when they were accepted. -/
def storeCommitted (s : Storage α) (slot : Nat) (slotData : List (SlotKind × α)) : Storage α :=
  (slotData.filter fun d => d.1 ≠ .blocks).foldl (fun s d => s.storeSlot p d.1 slot d.2) s

variable (n : Node α)

/-- The commitment of the next slot; its data cannot be stored in a pruned epoch. -/
def commit (slotData : List (SlotKind × α)) (rewards : Option α) (stats : α)
    (decided : Option α) : Option (Node α) :=
  let slot := n.latestCommittedSlot + 1
  let epoch := p.timeProvider.epochFromSlot slot
  if n.storage.prunable.isTooOld epoch then none else
  (commitCommittee p n.storage.prunable.committee slot).map fun committee =>
    let s := storeCommitted p n.storage slot slotData
    let prunable := { s.prunable with committee }
    { n with
      storage := { s with
        prunable :=
          if slot = p.timeProvider.epochEnd epoch then
            applyEpoch prunable epoch rewards stats decided
          else prunable }
      latestCommittedSlot := slot }

/-- A slot is finalized, with `SybilProtection.slotFinalized`. -/
def finalize (slot : Nat) (newCommittee : Option (List Nat)) : Option (Node α) :=
  let n := { n with latestFinalizedSlot := slot }
  let epoch := p.timeProvider.epochFromSlot slot
  let epochEndSlot := p.timeProvider.epochEnd epoch
  let committee := n.storage.prunable.committee
  if slot + p.epochNearingThreshold = epochEndSlot ∧
      n.latestCommittedSlot < epochEndSlot - p.maxCommittableAge then
    let selected := match newCommittee with
      | some accounts => some (committee.store (epoch + 1) ⟨accounts, false⟩)
      | none => reuseCommittee committee epoch (epoch + 1)
    selected.map fun committee =>
      { n with storage := { n.storage with
          prunable := { n.storage.prunable with committee } } }
  else some n

/-- A block belongs to a slot at most `MaxCommittableAge` after the latest commitment, because
    it has to contain a commitment that is known and not older than that; and nothing is
    stored in a pruned epoch. -/
def InWindow (slot : Nat) : Prop :=
  slot ≤ n.latestCommittedSlot + p.maxCommittableAge ∧
    n.storage.prunable.isTooOld (p.timeProvider.epochFromSlot slot) = false

instance (slot : Nat) : Decidable (n.InWindow p slot) := inferInstanceAs (Decidable (_ ∧ _))

/-- `latestPrunableEpoch`: the second epoch before that of the latest finalized slot, and the
    first one if there is none. -/
def latestPrunableEpoch : Nat := p.timeProvider.epochFromSlot n.latestFinalizedSlot - 2

/-- One input; `none` where the engine stops or does not allow it. -/
def step : Input α → Option (Node α)
  | .blockAccepted slot block rootBlock =>
    if n.InWindow p slot then
      some { n with storage :=
        (n.storage.storeSlot p .blocks slot block).storeSlot p .rootBlocks slot rootBlock }
    else none
  | .track kind slot value =>
    if n.InWindow p slot ∧ kind ≠ .blocks then
      some { n with storage := n.storage.storeSlot p kind slot value }
    else none
  | .candidate account slot =>
    if n.InWindow p slot then
      some { n with storage := { n.storage with
        prunable := { n.storage.prunable with
          prunableSlotStore := n.storage.prunable.prunableSlotStore.modify
            (p.timeProvider.epochFromSlot slot) fun bucket =>
              { bucket with
                committeeCandidates := (account, slot) :: bucket.committeeCandidates } } } }
    else none
  | .commit slotData rewards stats decided => n.commit p slotData rewards stats decided
  | .finalize slot newCommittee =>
    if slot ≤ n.latestCommittedSlot then n.finalize p slot newCommittee else none
  | .prune epoch delays =>
    if epoch = n.storage.prunable.nextIndex ∧ epoch ≤ n.latestPrunableEpoch p then
      some { n with storage := { n.storage with
        prunable := n.storage.prunable.prune epoch delays } }
    else none

/-- A node at genesis, with the committee of the first epoch. -/
def genesis (accounts : List Nat) : Node α :=
  { storage :=
      { prunable :=
          { prunableSlotStore := ⟨fun _ => Bucket.empty⟩
            lastPrunedEpoch := none
            decidedUpgradeSignals := .empty
            poolRewards := .empty
            poolStats := .empty
            committee := EpochStore.empty.store 0 ⟨accounts, false⟩ }
        latestStoredSlot := p.timeProvider.genesisSlot }
    latestCommittedSlot := p.timeProvider.genesisSlot
    latestFinalizedSlot := p.timeProvider.genesisSlot }

end Node

end AxonCore.Stores

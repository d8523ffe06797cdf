import AxonCore.Committee.Accounts
import AxonCore.Storage.Model

/-! # The performance tracker

    The tracker counts the validation blocks of the committee members, slot by slot.  At the
    end of an epoch it turns the counts into the rewards of the pools, from which validators
    and delegators later get their shares.  It also registers the candidates for the next
    committee.

    Parameters that may change with the protocol version are functions of the epoch.  What
    panics or fails has no result. -/

namespace AxonCore.Performance

open AxonCore.Lib AxonCore.Committee AxonCore.Stores

/-! ## Section 1: Data -/

/-- The protocol parameters, with the time and mana functions of the protocol. -/
structure Params where
  timeProvider : TimeProvider
  slotsPerEpochExponent : Nat
  epochDurationSlots_eq : timeProvider.epochDurationSlots = 2 ^ slotsPerEpochExponent
  slotDurationSeconds : Nat
  /-- `SlotStartTime`, in nanoseconds. -/
  slotStartTime : Nat → Int
  maxCommittableAge : Nat
  minCommittableAge : Nat
  validationBlocksPerSlot : Nat → UInt8
  profitMarginExponent : Nat → Nat
  poolCoefficientExponent : Nat → Nat
  retentionPeriod : Nat → Nat
  /-- `TargetReward`. -/
  targetReward : Nat → Option Nat
  /-- `DecayManaByEpochs`: the amount that is left of some mana between two epochs. -/
  decayManaByEpochs : Nat → Nat → Nat → Option Nat

/-- `model.ValidatorPerformance`. -/
structure ValidatorPerformance (Hash : Type) where
  slotActivityVector : BitVec 32
  blocksIssuedCount : UInt8
  /-- The version and the hash of its parameters; there is none before the first block. -/
  highestSupportedVersionAndHash : Option (Nat × Hash)
  deriving DecidableEq

/-- `model.NewValidatorPerformance`. -/
def ValidatorPerformance.new {Hash : Type} : ValidatorPerformance Hash := ⟨0, 0, none⟩

/-- `model.PoolsStats`. -/
structure PoolsStats where
  totalStake : Nat
  totalValidatorStake : Nat
  profitMargin : Nat
  deriving DecidableEq, Repr

/-- `model.PoolRewards`. -/
structure PoolRewards where
  poolStake : Nat
  poolRewards : Nat
  fixedCost : Nat
  deriving DecidableEq, Repr

/-- `blocks.Block`, as far as the tracker reads it. -/
structure Block (ID Hash : Type) where
  slot : Nat
  issuerID : ID
  /-- In nanoseconds. -/
  issuingTime : Int
  /-- The supported version and parameters of a validation block. -/
  validationBlock : Option (Nat × Hash)
  isCandidacyAnnouncement : Bool

/-- `Tracker`, with its stores. -/
structure Tracker (ID Hash : Type) where
  /-- The reward maps that were committed. -/
  rewards : EpochStore (Map ID PoolRewards)
  poolStatsStore : EpochStore PoolsStats
  committeeStore : EpochStore (SeatedAccounts ID)
  committeeCandidates : Nat → Map ID Nat
  nextEpochCommitteeCandidates : Map ID Nat
  /-- The performances in a slot; there is no store for a pruned slot. -/
  validatorPerformances : Nat → Option (Map ID (ValidatorPerformance Hash))
  latestAppliedEpoch : Nat

variable {ID Hash : Type}

namespace Tracker

variable [LinearOrder ID] (p : Params)

/-! ## Section 2: Candidates -/

variable (t : Tracker ID Hash)

/-- `NewTracker` over the stores of a tracker that was stopped. -/
def restart (latestAppliedEpoch : Nat) : Tracker ID Hash :=
  { t with
    nextEpochCommitteeCandidates := ∅
    latestAppliedEpoch := latestAppliedEpoch }

/-- One candidate of the loop in `Reset`. -/
def resetCandidate (lastCommittedSlot : Nat) (candidates : Map ID Nat)
    (e : Sigma fun _ : ID => Nat) : Map ID Nat :=
  if e.2 > lastCommittedSlot then candidates.erase e.1 else candidates

/-- `Reset`. -/
def reset (lastCommittedSlot : Nat) : Tracker ID Hash :=
  { t with
    nextEpochCommitteeCandidates := t.nextEpochCommitteeCandidates.entries.foldl
      (resetCandidate lastCommittedSlot) t.nextEpochCommitteeCandidates }

/-- A candidate is written to the store of an epoch. -/
def storeCandidate (epoch : Nat) (issuerID : ID) (slot : Nat) : Tracker ID Hash :=
  { t with
    committeeCandidates := Function.update t.committeeCandidates epoch
      ((t.committeeCandidates epoch).insert issuerID slot)
    nextEpochCommitteeCandidates := t.nextEpochCommitteeCandidates.insert issuerID slot }

/-- `TrackCandidateBlock`: the lowest slot counts. -/
def trackCandidateBlock (block : Block ID Hash) : Tracker ID Hash :=
  if block.isCandidacyAnnouncement then
    let blockEpoch := p.timeProvider.epochFromSlot block.slot
    match t.nextEpochCommitteeCandidates.lookup block.issuerID with
    | none => t.storeCandidate blockEpoch block.issuerID block.slot
    | some currentValue =>
      if currentValue > block.slot then t.storeCandidate blockEpoch block.issuerID block.slot else t
  else t

/-! ## Section 3: Performances -/

/-- `LoadCommitteeForEpoch`. -/
def loadCommitteeForEpoch (epoch : Nat) : Option (SeatedAccounts ID) :=
  t.committeeStore.load epoch

/-- `isCommitteeMember`; there may be no committee. -/
def isCommitteeMember (slot : Nat) (accountID : ID) : Option Bool :=
  (t.loadCommitteeForEpoch (p.timeProvider.epochFromSlot slot)).map fun committee =>
    committee.hasAccount accountID

/-- `subslotIndex`, with the number of blocks of the epoch that was applied last.  It panics
    without subslots. -/
def subslotIndex (slot : Nat) (issuingTime : Int) : Option Int :=
  let valBlocksNum : Int := (p.validationBlocksPerSlot t.latestAppliedEpoch).toNat
  let subslotDur := ((p.slotDurationSeconds : Int) * 1000000000).tdiv valBlocksNum
  if subslotDur = 0 then none
  else some ((issuingTime - p.slotStartTime slot).tdiv subslotDur)

/-- The performance after one more block in a subslot. -/
def countBlock (validationBlocksPerSlot : UInt8) (subslot : Nat) (versionAndHash : Nat × Hash)
    (performance : ValidatorPerformance Hash) : ValidatorPerformance Hash where
  slotActivityVector := performance.slotActivityVector ||| (1#32 <<< subslot)
  blocksIssuedCount :=
    if performance.blocksIssuedCount < validationBlocksPerSlot + 1
    then performance.blocksIssuedCount + 1 else performance.blocksIssuedCount
  highestSupportedVersionAndHash := some versionAndHash

/-- The performance of an account is written to the store of a slot. -/
def storePerformance (slot : Nat)
    (performances : Map ID (ValidatorPerformance Hash)) (accountID : ID)
    (performance : ValidatorPerformance Hash) : Tracker ID Hash :=
  { t with
    validatorPerformances := Function.update t.validatorPerformances slot
      (some (performances.insert accountID performance)) }

/-- `trackCommitteeMemberPerformance`.  A negative shift panics. -/
def trackCommitteeMemberPerformance (versionAndHash : Nat × Hash)
    (block : Block ID Hash) : Option (Tracker ID Hash) :=
  match t.validatorPerformances block.slot with
  | none => some t
  | some performances =>
    (t.subslotIndex p block.slot block.issuingTime).bind fun subslot =>
      if subslot < 0 then none
      else
        let performance := (performances.lookup block.issuerID).getD ValidatorPerformance.new
        let validationBlocksPerSlot :=
          p.validationBlocksPerSlot (p.timeProvider.epochFromSlot block.slot)
        some (t.storePerformance block.slot performances block.issuerID
          (countBlock validationBlocksPerSlot subslot.toNat versionAndHash performance))

/-- `TrackValidationBlock`. -/
def trackValidationBlock (block : Block ID Hash) : Option (Tracker ID Hash) :=
  match block.validationBlock with
  | none => some t
  | some versionAndHash =>
    match t.isCommitteeMember p block.slot block.issuerID with
    | some true => t.trackCommitteeMemberPerformance p versionAndHash block
    | _ => some t

/-! ## Section 4: The end of an epoch -/

/-- `bits.OnesCount32`. -/
def onesCount (x : BitVec 32) : Nat := (List.range 32).countP fun i => x.getLsbD i

/-- The sum of the slot performance factors, or `none` if a slot has too many blocks. -/
def sumPerformanceFactors (validationBlocksPerSlot : UInt8) :
    List (Option (ValidatorPerformance Hash)) → Option Nat
  | [] => some 0
  | none :: slots => sumPerformanceFactors validationBlocksPerSlot slots
  | some pf :: slots =>
    if pf.blocksIssuedCount > validationBlocksPerSlot then none
    else (sumPerformanceFactors validationBlocksPerSlot slots).map
      (onesCount pf.slotActivityVector + ·)

/-- `aggregatePerformanceFactors`. -/
def aggregatePerformanceFactors (slotActivityVector : List (Option (ValidatorPerformance Hash)))
    (epoch : Nat) : Nat :=
  (sumPerformanceFactors (p.validationBlocksPerSlot epoch) slotActivityVector).getD 0 /
    2 ^ p.slotsPerEpochExponent

/-- The performances of an account in the slots of an epoch; a slot without a store has
    none. -/
def validatorPerformancesInEpoch (epoch : Nat) (accountID : ID) :
    List (Option (ValidatorPerformance Hash)) :=
  (upTo (p.timeProvider.epochStart epoch) (p.timeProvider.epochEnd epoch)).map fun slot =>
    (t.validatorPerformances slot).map fun performances =>
      (performances.lookup accountID).getD ValidatorPerformance.new

/-- The performance factor of an account in an epoch. -/
def epochPerformanceFactor (epoch : Nat) (accountID : ID) : Nat :=
  aggregatePerformanceFactors p (t.validatorPerformancesInEpoch p epoch accountID) epoch

/-- `calculatePoolCoefficient`. -/
def calculatePoolCoefficient (poolStake totalStake validatorStake totalValidatorStake slot : Nat) :
    Except ArithmeticError Nat :=
  let poolCoeffExponent := p.poolCoefficientExponent (p.timeProvider.epochFromSlot slot)
  (safeLeftShift poolStake poolCoeffExponent).bind fun scaledUpPoolStake =>
    (safeDiv scaledUpPoolStake totalStake).bind fun result1 =>
      (safeLeftShift validatorStake poolCoeffExponent).bind fun scaledUpValidatorStake =>
        (safeDiv scaledUpValidatorStake totalValidatorStake).bind fun result2 =>
          safeAdd result1 result2

/-- `poolReward`, for a given target reward. -/
def scaledReward (slot targetReward totalValidatorsStake totalStake poolStake validatorStake
    performanceFactor : Nat) : Except ArithmeticError Nat :=
  let epoch := p.timeProvider.epochFromSlot slot
  (calculatePoolCoefficient p poolStake totalStake validatorStake totalValidatorsStake slot).bind
    fun poolCoefficient =>
      (safeMul poolCoefficient targetReward).bind fun result =>
        (safeMul (result / 2 ^ p.poolCoefficientExponent epoch) performanceFactor).bind
          fun scaledPoolReward =>
            (safeDiv scaledPoolReward (p.validationBlocksPerSlot epoch).toNat).bind fun result =>
              .ok (result / 2)

/-- `poolReward`. -/
def poolReward (slot totalValidatorsStake totalStake poolStake validatorStake
    performanceFactor : Nat) : Option Nat :=
  (p.targetReward (p.timeProvider.epochFromSlot slot)).bind fun targetReward =>
    (scaledReward p slot targetReward totalValidatorsStake totalStake poolStake validatorStake
      performanceFactor).toOption

/-- `calculateProfitMargin`; the sum of the stakes is not checked.  The outer `none` is the
    panic of a division by zero. -/
def calculateProfitMargin (totalValidatorsStake totalPoolStake profitMarginExponent : Nat) :
    Option (Except ArithmeticError Nat) :=
  match safeLeftShift totalValidatorsStake profitMarginExponent with
  | .error e => some (.error e)
  | .ok scaledUpTotalValidatorStake =>
    let stakes := (totalValidatorsStake + totalPoolStake) % wordSize
    if stakes = 0 then none else some (.ok (scaledUpTotalValidatorStake / stakes))

/-- The reward of one pool is written to the map. -/
def applyPool (epoch : Nat) (committeeAccounts : Accounts ID)
    (rewardsMap : Map ID PoolRewards) (account : Sigma fun _ : ID => Pool) :
    Option (Map ID PoolRewards) :=
  let performanceFactor := t.epochPerformanceFactor p epoch account.1
  if performanceFactor = 0 then some rewardsMap
  else
    (poolReward p (p.timeProvider.epochEnd epoch) committeeAccounts.totalValidatorStake
      committeeAccounts.totalStake account.2.poolStake account.2.validatorStake
      performanceFactor).map fun poolReward =>
        rewardsMap.insert account.1 ⟨account.2.poolStake, poolReward, account.2.fixedCost⟩

/-- The stores after an epoch was applied. -/
def storeEpoch (epoch : Nat) (poolsStats : PoolsStats)
    (rewardsMap : Map ID PoolRewards) : Tracker ID Hash :=
  { t with
    poolStatsStore := t.poolStatsStore.store epoch poolsStats
    rewards := t.rewards.store epoch rewardsMap
    latestAppliedEpoch := epoch }

/-- `ApplyEpoch`; `none` if it fails or panics. -/
def applyEpoch (epoch : Nat) (committee : SeatedAccounts ID) : Option (Tracker ID Hash) :=
  committee.accountsOf.toOption.bind fun committeeAccounts =>
    (calculateProfitMargin committeeAccounts.totalValidatorStake committeeAccounts.totalStake
      (p.profitMarginExponent epoch)).bind fun profitMargin =>
        profitMargin.toOption.bind fun profitMargin =>
          (run (t.applyPool p epoch committeeAccounts) ((t.rewards.load epoch).getD ∅)
            committeeAccounts.accountPools.entries).map fun rewardsMap =>
              t.storeEpoch epoch ⟨committeeAccounts.totalStake,
                committeeAccounts.totalValidatorStake, profitMargin⟩ rewardsMap

end Tracker

end AxonCore.Performance

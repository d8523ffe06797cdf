import Mathlib.Data.Finset.SDiff
import AxonCore.Lib.Keyed

/-! # The accounts ledger

    The manager keeps the data of all accounts at the latest committed slot in a
    tree, and one diff per slot and account.  A slot is committed by applying the
    diffs forward (`applyDiff`).  The data of an account at an earlier slot is
    found by applying the diffs backward (`account`, `pastAccounts`), and the whole
    tree is taken back in the same way (`rollbackFromTo`).

    Forward and backward are two separate programs that go through the fields of
    the data one by one.  Credits, stakes and epochs are the fixed-width integers
    of the code, slots are natural numbers, and sets of block issuer keys are
    finite sets.  `none` stands for a returned error or a panic. -/

namespace AxonCore.Accounts

open AxonCore.Lib Function

/-! ## Section 1: Account data and diffs -/

abbrev AccountID := Nat
/-- Zero is the empty output ID. -/
abbrev OutputID := Nat
abbrev BlockIssuerKey := Nat

/-- `iotago.EmptyOutputID`. -/
def emptyOutputID : OutputID := 0

/-- `iotago.MaxSlotIndex`. -/
def maxSlotIndex : Nat := 4294967295

/-- `safemath.SafeAdd` on `int64`. -/
def safeAdd (x y : Int64) : Option Int64 :=
  if -9223372036854775808 ≤ x.toInt + y.toInt ∧ x.toInt + y.toInt < 9223372036854775808
    then some (x + y) else none

/-- `safemath.SafeSub` on `int64`. -/
def safeSub (x y : Int64) : Option Int64 :=
  if -9223372036854775808 ≤ x.toInt - y.toInt ∧ x.toInt - y.toInt < 9223372036854775808
    then some (x - y) else none

/-- `int64(epoch)` for an epoch index. -/
def epochToInt64 (epoch : UInt32) : Int64 := epoch.toUInt64.toInt64

/-- `iotago.EpochIndex(x)` for an `int64`. -/
def epochOfInt64 (x : Int64) : UInt32 := x.toUInt64.toUInt32

/-- `model.VersionAndHash`. -/
structure VersionAndHash where
  version : Nat
  hash : Nat
  deriving DecidableEq

/-- `accounts.BlockIssuanceCredits`. -/
structure Credits where
  value : Int64
  updateSlot : Nat
  deriving DecidableEq

/-- `BlockIssuanceCredits.Update`. -/
def Credits.update (c : Credits) (change : Int64) (slot : Nat) : Credits :=
  { value := c.value + change, updateSlot := slot }

/-- `accounts.AccountData`. -/
@[ext] structure AccountData where
  id : AccountID
  credits : Credits
  expirySlot : Nat
  outputID : OutputID
  blockIssuerKeys : Finset BlockIssuerKey
  validatorStake : UInt64
  delegationStake : UInt64
  fixedCost : UInt64
  stakeEndEpoch : UInt32
  latestSupportedProtocolVersionAndHash : VersionAndHash
  deriving DecidableEq

/-- `NewAccountData` without options. -/
def newAccountData (id : AccountID) : AccountData where
  id := id
  credits := ⟨0, 0⟩
  expirySlot := 0
  outputID := emptyOutputID
  blockIssuerKeys := ∅
  validatorStake := 0
  delegationStake := 0
  fixedCost := 0
  stakeEndEpoch := 0
  latestSupportedProtocolVersionAndHash := ⟨0, 0⟩

/-- `model.AccountDiff`. -/
structure AccountDiff where
  bicChange : Int64
  previousUpdatedSlot : Nat
  newExpirySlot : Nat
  previousExpirySlot : Nat
  newOutputID : OutputID
  previousOutputID : OutputID
  blockIssuerKeysAdded : Finset BlockIssuerKey
  blockIssuerKeysRemoved : Finset BlockIssuerKey
  validatorStakeChange : Int64
  delegationStakeChange : Int64
  stakeEndEpochChange : Int64
  fixedCostChange : Int64
  newLatestSupportedVersionAndHash : VersionAndHash
  prevLatestSupportedVersionAndHash : VersionAndHash
  deriving DecidableEq

/-- `NewAccountDiff`. -/
def newAccountDiff : AccountDiff where
  bicChange := 0
  previousUpdatedSlot := 0
  newExpirySlot := 0
  previousExpirySlot := 0
  newOutputID := emptyOutputID
  previousOutputID := emptyOutputID
  blockIssuerKeysAdded := ∅
  blockIssuerKeysRemoved := ∅
  validatorStakeChange := 0
  delegationStakeChange := 0
  stakeEndEpochChange := 0
  fixedCostChange := 0
  newLatestSupportedVersionAndHash := ⟨0, 0⟩
  prevLatestSupportedVersionAndHash := ⟨0, 0⟩

/-- The diffs of one slot while it is being committed. -/
abbrev AccountDiffs := Map AccountID AccountDiff

/-- The stored diffs of one slot, each with the flag of `destroyedAccounts`. -/
abbrev DiffStore := Map AccountID (AccountDiff × Bool)

/-! ## Section 2: One diff forward and backward -/

/-- The credits after a diff is taken back. -/
def AccountDiff.rollbackCredits (d : AccountDiff) (destroyed : Bool) (c : Credits) : Credits :=
  if d.bicChange ≠ 0 ∨ destroyed = true then
    c.update (-d.bicChange) d.previousUpdatedSlot
  else c

/-- The test of `rollbackSlotDiffOnAccount` for an account created in the slot. -/
def AccountDiff.createsAccount (d : AccountDiff) : Bool :=
  d.previousOutputID == emptyOutputID && d.newOutputID != emptyOutputID

/-- The part of `rollbackSlotDiffOnAccount` after the diff has been loaded: the data,
    whether the account was created in the slot, and whether it was destroyed. -/
def AccountDiff.rollback (d : AccountDiff) (destroyed : Bool) (a : AccountData) :
    Option (AccountData × Bool × Bool) :=
  let credits := d.rollbackCredits destroyed a.credits
  let expirySlot :=
    if d.previousExpirySlot ≠ d.newExpirySlot then d.previousExpirySlot else a.expirySlot
  if d.createsAccount then
    -- the remaining fields are not taken back
    some ({ a with credits := credits, expirySlot := expirySlot }, true, false)
  else
    (safeSub a.validatorStake.toInt64 d.validatorStakeChange).bind fun validatorStake =>
    (safeSub a.delegationStake.toInt64 d.delegationStakeChange).bind fun delegationStake =>
    (safeSub (epochToInt64 a.stakeEndEpoch) d.stakeEndEpochChange).bind fun stakeEndEpoch =>
    (safeSub a.fixedCost.toInt64 d.fixedCostChange).bind fun fixedCost =>
    some ({ id := a.id
            credits := credits
            expirySlot := expirySlot
            outputID :=
              if d.previousOutputID ≠ emptyOutputID then d.previousOutputID else a.outputID
            blockIssuerKeys :=
              (a.blockIssuerKeys ∪ d.blockIssuerKeysRemoved) \ d.blockIssuerKeysAdded
            validatorStake := validatorStake.toUInt64
            delegationStake := delegationStake.toUInt64
            fixedCost := fixedCost.toUInt64
            stakeEndEpoch := epochOfInt64 stakeEndEpoch
            latestSupportedProtocolVersionAndHash :=
              if d.prevLatestSupportedVersionAndHash ≠ d.newLatestSupportedVersionAndHash then
                d.prevLatestSupportedVersionAndHash
              else a.latestSupportedProtocolVersionAndHash }, false, destroyed)

/-- `rollbackSlotDiffOnAccount`. -/
def rollbackSlotDiffOnAccount (store : DiffStore) (a : AccountData) :
    Option (AccountData × Bool × Bool) :=
  match store.lookup a.id with
  | none => some (a, false, false)
  | some (d, destroyed) => d.rollback destroyed a

/-- The body of `commitAccountTree` for an account that is not destroyed, with the
    diff after `decayCredits`. -/
def AccountDiff.apply (d : AccountDiff) (slot : Nat) («exists» : Bool) (a : AccountData) :
    Option AccountData :=
  (safeAdd a.validatorStake.toInt64 d.validatorStakeChange).bind fun validatorStake =>
  (safeAdd a.delegationStake.toInt64 d.delegationStakeChange).bind fun delegationStake =>
  (safeAdd (epochToInt64 a.stakeEndEpoch) d.stakeEndEpochChange).bind fun stakeEndEpoch =>
  (safeAdd a.fixedCost.toInt64 d.fixedCostChange).bind fun fixedCost =>
  some { id := a.id
         credits :=
          if d.bicChange ≠ 0 ∨ «exists» = false then a.credits.update d.bicChange slot
          else a.credits
         expirySlot :=
          if d.previousExpirySlot ≠ d.newExpirySlot then d.newExpirySlot else a.expirySlot
         outputID := if d.newOutputID ≠ emptyOutputID then d.newOutputID else a.outputID
         blockIssuerKeys :=
          (a.blockIssuerKeys ∪ d.blockIssuerKeysAdded) \ d.blockIssuerKeysRemoved
         validatorStake := validatorStake.toUInt64
         delegationStake := delegationStake.toUInt64
         fixedCost := fixedCost.toUInt64
         stakeEndEpoch := epochOfInt64 stakeEndEpoch
         latestSupportedProtocolVersionAndHash :=
          if d.prevLatestSupportedVersionAndHash ≠ d.newLatestSupportedVersionAndHash ∧
              a.latestSupportedProtocolVersionAndHash.version <
                d.newLatestSupportedVersionAndHash.version then
            d.newLatestSupportedVersionAndHash
          else a.latestSupportedProtocolVersionAndHash }

/-- The diff that `preserveDestroyedAccountData` makes of the data of an account. -/
def preserveDestroyedAccountData (a : AccountData) : AccountDiff :=
  { newAccountDiff with
    bicChange := -a.credits.value
    previousUpdatedSlot := a.credits.updateSlot
    newExpirySlot := 0
    previousExpirySlot := a.expirySlot
    newOutputID := emptyOutputID
    previousOutputID := a.outputID
    blockIssuerKeysRemoved := a.blockIssuerKeys
    validatorStakeChange := -a.validatorStake.toInt64
    delegationStakeChange := -a.delegationStake.toInt64
    stakeEndEpochChange := -epochToInt64 a.stakeEndEpoch
    fixedCostChange := -a.fixedCost.toInt64
    newLatestSupportedVersionAndHash := ⟨0, 0⟩
    prevLatestSupportedVersionAndHash := a.latestSupportedProtocolVersionAndHash }

/-! ## Section 3: The manager -/

/-- The protocol parameters and the mana decay provider. -/
structure Params where
  maxCommittableAge : Nat
  validationBlocksPerSlot : Nat
  epochDurationSlots : Nat
  punishmentEpochs : Nat
  /-- `iotago.AccountIDFromOutputID`: the ID of an account created by an output. -/
  accountIDFromOutputID : OutputID → AccountID
  /-- `DecayManaBySlots`: the mana left of an amount between two slots. -/
  decayManaBySlots : UInt64 → Nat → Nat → Option UInt64
  /-- `GenerateManaAndDecayBySlots` for an amount of base tokens between two slots. -/
  generateManaAndDecayBySlots : UInt64 → Nat → Nat → Option UInt64

/-- The body of a block, as far as the manager reads it. -/
inductive BlockBody where
  | basic (workScore : UInt64)
  | validation (highestSupportedVersion protocolParametersHash : Nat)
  deriving DecidableEq

/-- `blocks.Block`, with the slot of its ID. -/
structure Block where
  id : Nat
  slot : Nat
  issuerID : AccountID
  issuingTime : Nat
  body : BlockBody
  deriving DecidableEq

/-- `model.SignaledBlock`. -/
structure SignaledBlock where
  id : Nat
  issuingTime : Nat
  highestSupportedVersion : Nat
  protocolParametersHash : Nat
  deriving DecidableEq

/-- `SignaledBlock.Compare` gives 1: the version decides, then the time, then the ID. -/
def SignaledBlock.greater (s other : SignaledBlock) : Bool :=
  if s.highestSupportedVersion ≠ other.highestSupportedVersion then
    other.highestSupportedVersion < s.highestSupportedVersion
  else if s.issuingTime ≠ other.issuingTime then other.issuingTime < s.issuingTime
  else other.id < s.id

/-- `accountsledger.Manager`. -/
structure Manager where
  /-- The tracked blocks of each slot. -/
  blockBurns : Nat → List Block
  latestSupportedVersionSignals : Nat → Map AccountID SignaledBlock
  latestCommittedSlot : Nat
  accountsTree : Map AccountID AccountData
  /-- The diff stores of all slots, those of pruned slots included. -/
  slotDiffs : Nat → DiffStore
  /-- The slots below this one are pruned. -/
  prunedBelow : Nat

variable (p : Params) (m : Manager) (slot : Nat)

/-- `slotDiff`: an error if the slot is pruned. -/
def Manager.slotDiff : Option DiffStore :=
  if slot < m.prunedBelow then none else some (m.slotDiffs slot)

/-- `TrackBlock`. -/
def Manager.trackBlock (b : Block) : Manager :=
  let set := m.blockBurns b.slot
  let m := { m with
    blockBurns := update m.blockBurns b.slot (if b ∈ set then set else set ++ [b]) }
  match b.body with
  | .basic _ => m
  | .validation version hash =>
    let signals := m.latestSupportedVersionSignals b.slot
    let newSignaledBlock : SignaledBlock := ⟨b.id, b.issuingTime, version, hash⟩
    let signal := match signals.lookup b.issuerID with
      | none => newSignaledBlock
      | some currentValue =>
        if newSignaledBlock.greater currentValue then newSignaledBlock else currentValue
    { m with
      latestSupportedVersionSignals :=
        update m.latestSupportedVersionSignals b.slot (signals.insert b.issuerID signal) }

/-- The loop of `rollbackAccountTo`, from a slot downwards; `wasDestroyed` is
    collected on the way. -/
def Manager.rollbackAccountLoop (m : Manager) :
    (rounds diffSlot : Nat) → AccountData → (wasDestroyed : Bool) → Option (AccountData × Bool)
  | 0, _, a, wasDestroyed => some (a, wasDestroyed)
  | rounds + 1, diffSlot, a, wasDestroyed =>
    (m.slotDiff diffSlot).bind fun store =>
    (rollbackSlotDiffOnAccount store a).bind fun (a', createdInTheDiff, destroyed) =>
    -- a created account ends the loop, and what was collected is dropped
    if createdInTheDiff then some (a', false)
    else m.rollbackAccountLoop rounds (diffSlot - 1) a' (wasDestroyed || destroyed)

/-- `rollbackAccountTo`. -/
def Manager.rollbackAccountTo (a : AccountData) (targetSlot : Nat) : Option (AccountData × Bool) :=
  m.rollbackAccountLoop (m.latestCommittedSlot - targetSlot) m.latestCommittedSlot a false

/-- `Account`: an error, no account, or the data of the account. -/
def Manager.account (id : AccountID) (targetSlot : Nat) : Option (Option AccountData) :=
  if m.latestCommittedSlot < targetSlot then none
  else
    let loadedAccount := m.accountsTree.lookup id
    (m.rollbackAccountTo (loadedAccount.getD (newAccountData id)) targetSlot).map
      fun (a, wasDestroyed) =>
        if loadedAccount.isNone ∧ wasDestroyed = false then none else some a

/-- One account of `PastAccounts`; an error skips the account. -/
def Manager.pastAccount (id : AccountID) (targetSlot : Nat) : Option AccountData :=
  let loadedAccount := m.accountsTree.lookup id
  let default := { newAccountData id with credits := ⟨0, targetSlot⟩ }
  match m.rollbackAccountTo (loadedAccount.getD default) targetSlot with
  | none => none
  | some (a, wasDestroyed) =>
    if loadedAccount.isNone ∧ wasDestroyed = false then none else some a

/-- `PastAccounts`. -/
def Manager.pastAccounts (accountIDs : List AccountID) (targetSlot : Nat) :
    Map AccountID AccountData :=
  accountIDs.foldl (fun result id =>
    match m.pastAccount id targetSlot with
    | none => result
    | some a => result.insert id a) ∅

/-! ## Section 4: Committing a slot -/

/-- The order in which a map is iterated over. -/
structure MapOrder where
  order : List AccountID → List AccountID
  perm : ∀ keys, (order keys).Perm keys

/-- The order of the entries. -/
def MapOrder.entries : MapOrder := ⟨id, fun _ => .refl _⟩

/-- The orders of the six iterations of `ApplyDiff`. -/
structure MapOrders where
  validationBlockCount : MapOrder
  burns : MapOrder
  signals : MapOrder
  preserved : MapOrder
  committed : MapOrder
  stored : MapOrder

def MapOrders.entries : MapOrders :=
  ⟨.entries, .entries, .entries, .entries, .entries, .entries⟩

/-- `burns[id] += burn`. -/
def addBurn (burns : Map AccountID UInt64) (id : AccountID) (burn : UInt64) :
    Map AccountID UInt64 :=
  burns.insert id ((burns.lookup id).getD 0 + burn)

/-- The burn of one tracked block. -/
def burnBlock (rmc : UInt64) (burns : Map AccountID UInt64) (b : Block) : Map AccountID UInt64 :=
  match b.body with
  | .basic workScore => addBurn burns b.issuerID (workScore * rmc)
  | .validation _ _ => burns

/-- `Block.IsValidationBlock`. -/
def Block.isValidationBlock (b : Block) : Bool :=
  match b.body with
  | .basic _ => false
  | .validation _ _ => true

/-- The number of validation blocks of an account among the tracked blocks. -/
def validationBlockCount (blocks : List Block) (id : AccountID) : Nat :=
  (blocks.filter fun b => b.issuerID == id && b.isValidationBlock).length

/-- The penalty for the over-issuance of one validator. -/
def Manager.punish (blocks : List Block) (burns : Map AccountID UInt64)
    (id : AccountID) : Option (Map AccountID UInt64) :=
  let count := validationBlockCount blocks id
  if p.validationBlocksPerSlot < count then
    match m.account id m.latestCommittedSlot with
    | some (some a) =>
      (p.generateManaAndDecayBySlots a.validatorStake slot
        (slot + p.epochDurationSlots * p.punishmentEpochs)).map fun manaPunishment =>
          addBurn burns id (UInt64.ofNat (count - p.validationBlocksPerSlot) * manaPunishment)
    | _ => none
  else some burns

/-- `computeBlockBurnsForSlot`. -/
def Manager.computeBlockBurnsForSlot (rmc : UInt64) (o : MapOrder := .entries) :
    Option (Map AccountID UInt64) :=
  let blocks := m.blockBurns slot
  let issuers := (blocks.map Block.issuerID).dedup
  run (m.punish p slot blocks) (blocks.foldl (burnBlock rmc) ∅) (o.order issuers)

/-- One burn of `updateSlotDiffWithBurns`. -/
def Manager.burnDiff (id : AccountID) (burn : UInt64) :
    Option AccountDiff → Option AccountDiff
  | some d => some { d with bicChange := d.bicChange - burn.toInt64 }
  | none =>
    -- the account output was not updated, so the previous state is kept in the diff
    match m.account id (slot - 1) with
    | some (some a) => some { newAccountDiff with
        bicChange := 0 - burn.toInt64
        previousUpdatedSlot := a.credits.updateSlot
        newExpirySlot := a.expirySlot
        previousExpirySlot := a.expirySlot
        newOutputID := a.outputID
        previousOutputID := a.outputID }
    | _ => none

/-- `updateSlotDiffWithBurns`. -/
def Manager.updateSlotDiffWithBurns (diffs : AccountDiffs) (rmc : UInt64)
    (oCount oBurns : MapOrder := .entries) : Option AccountDiffs :=
  (m.computeBlockBurnsForSlot p slot rmc oCount).bind fun burns =>
    alterKeys (fun id d => (m.burnDiff slot id ((burns.lookup id).getD 0) d).map some)
      diffs (oBurns.order burns.keys)

/-- One signal of `updateSlotDiffWithVersionSignals`, for an account that supported
    the version `current`. -/
def signalDiff (current : VersionAndHash) (signaledBlock : SignaledBlock)
    (d : Option AccountDiff) : Option AccountDiff :=
  let newVersionAndHash : VersionAndHash :=
    ⟨signaledBlock.highestSupportedVersion, signaledBlock.protocolParametersHash⟩
  if current ≠ newVersionAndHash ∧ current.version < newVersionAndHash.version then
    some { d.getD newAccountDiff with
      newLatestSupportedVersionAndHash := newVersionAndHash
      prevLatestSupportedVersionAndHash := current }
  else d

/-- `updateSlotDiffWithVersionSignals`. -/
def Manager.updateSlotDiffWithVersionSignals (diffs : AccountDiffs) (o : MapOrder := .entries) :
    Option AccountDiffs :=
  let signals := m.latestSupportedVersionSignals slot
  alterKeys (fun id d =>
    let a := (m.accountsTree.lookup id).getD (newAccountData id)
    some (match signals.lookup id with
      | none => d
      | some signaledBlock =>
        signalDiff a.latestSupportedProtocolVersionAndHash signaledBlock d))
    diffs (o.order signals.keys)

variable (destroyedAccounts : List AccountID)

/-- The loop of `ApplyDiff` over the destroyed accounts; the diff of an account that is
    not in the tree would be nil and could not be stored. -/
def Manager.preserveDestroyed (diffs : AccountDiffs) (o : MapOrder := .entries) :
    Option AccountDiffs :=
  alterKeys (fun id d =>
    if id ∈ destroyedAccounts then
      (m.accountsTree.lookup id).map fun a => some (preserveDestroyedAccountData a)
    else some d) diffs (o.order diffs.keys)

/-- The decay of the credits of an account in the tree, recorded in its diff. -/
def decayCredits (loaded : Option AccountData) (d : AccountDiff) : Option AccountDiff :=
  match loaded with
  | none => some d
  | some a =>
    if d.bicChange ≠ 0 ∧ 0 < a.credits.value then
      (p.decayManaBySlots a.credits.value.toUInt64 a.credits.updateSlot slot).map
        fun decayedPreviousCredits =>
          { d with bicChange := d.bicChange - (a.credits.value - decayedPreviousCredits.toInt64) }
    else some d

/-- One round of `commitAccountTree`: the tree and the diffs. -/
def commitAccount (s : Map AccountID AccountData × AccountDiffs) (id : AccountID) :
    Option (Map AccountID AccountData × AccountDiffs) :=
  match s.2.lookup id with
  | none => some s
  | some d =>
    if id ∈ destroyedAccounts then some (s.1.erase id, s.2)
    else
      let loaded := s.1.lookup id
      (decayCredits p slot loaded d).bind fun d' =>
      (d'.apply slot loaded.isSome (loaded.getD (newAccountData id))).map fun a =>
        (s.1.insert id a, s.2.insert id d')

/-- `commitAccountTree`. -/
def Manager.commitAccountTree (diffs : AccountDiffs) (destroyedAccounts : List AccountID)
    (o : MapOrder := .entries) : Option (Map AccountID AccountData × AccountDiffs) :=
  run (commitAccount p slot destroyedAccounts) (m.accountsTree, diffs) (o.order diffs.keys)

/-- `AccountDiffs.Store` for every diff of the slot. -/
def storeDiffs (diffs : AccountDiffs) (store : DiffStore) (o : MapOrder := .entries) :
    Option DiffStore :=
  alterKeys (fun id _ =>
    some ((diffs.lookup id).map fun d => (d, decide (id ∈ destroyedAccounts))))
    store (o.order diffs.keys)

/-- `evict`. -/
def Manager.evict : Manager :=
  { m with
    blockBurns := update m.blockBurns slot []
    latestSupportedVersionSignals := update m.latestSupportedVersionSignals slot ∅ }

/-- The state in which `ApplyDiff` leaves the manager. -/
def Manager.committed (tree : Map AccountID AccountData) (store : DiffStore) : Manager :=
  let m := { m with
    accountsTree := tree
    slotDiffs := update m.slotDiffs slot store
    latestCommittedSlot := slot }
  if p.maxCommittableAge < slot then m.evict (slot - p.maxCommittableAge - 1) else m

/-- `ApplyDiff`. -/
def Manager.applyDiff (rmc : UInt64) (diffs : AccountDiffs) (destroyedAccounts : List AccountID)
    (o : MapOrders := .entries) : Option Manager :=
  if slot ≠ m.latestCommittedSlot + 1 then none
  else
    (m.updateSlotDiffWithBurns p slot diffs rmc o.validationBlockCount o.burns).bind fun diffs =>
    (m.updateSlotDiffWithVersionSignals slot diffs o.signals).bind fun diffs =>
    (m.preserveDestroyed destroyedAccounts diffs o.preserved).bind fun diffs =>
    (m.commitAccountTree p slot diffs destroyedAccounts o.committed).bind fun (tree, diffs) =>
    (m.slotDiff slot).bind fun store =>
    (storeDiffs destroyedAccounts diffs store o.stored).map (m.committed p slot tree)

end AxonCore.Accounts

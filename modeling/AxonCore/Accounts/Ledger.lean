import AxonCore.Accounts.Model

/-! # The account diffs of the ledger

    `Ledger.CommitSlot` builds the account diffs of a slot from the transactions it
    executed (`processStateDiffTransactions`), from the outputs that were created
    and destroyed (`processCreatedAndConsumedAccountOutputs`) and from the account
    data of the previous slot (`prepareAccountDiffs`), and hands them to the
    accounts manager.

    The ledger below carries the unspent output of every account beside the
    manager, so that a run is a history the virtual machine allows: an account
    output is spent once, and a new output for an account that has one spends the
    old one (`ValidStateDiff`). -/

namespace AxonCore.Accounts

open AxonCore.Lib

/-! ## Section 1: Outputs -/

/-- `iotago.BlockIssuerFeature`. -/
structure BlockIssuerFeature where
  expirySlot : Nat
  blockIssuerKeys : Finset BlockIssuerKey
  deriving DecidableEq

/-- `iotago.StakingFeature`. -/
structure StakingFeature where
  stakedAmount : UInt64
  fixedCost : UInt64
  endEpoch : UInt32
  deriving DecidableEq

/-- An output, as far as the ledger reads it. -/
inductive Output where
  /-- An account output; `none` stands for the zeroed account ID of a new account. -/
  | account (outputID : OutputID) (accountID : Option AccountID)
      (blockIssuer : Option BlockIssuerFeature) (staking : Option StakingFeature)
  /-- A basic output to an implicit account creation address, with the key of it. -/
  | implicitAccount (outputID : OutputID) (key : BlockIssuerKey)
  /-- A delegation output; its delegation ID is zeroed while it is delegating. -/
  | delegation (outputID : OutputID) (delegating : Bool) (validatorID : AccountID)
      (delegatedAmount : UInt64)
  | other (outputID : OutputID)
  deriving DecidableEq

variable (p : Params)

def Output.outputID : Output → OutputID
  | .account outputID _ _ _ => outputID
  | .implicitAccount outputID _ => outputID
  | .delegation outputID _ _ _ => outputID
  | .other outputID => outputID

/-- The account an output belongs to. -/
def Output.accountID : Output → Option AccountID
  | .account outputID accountID _ _ => some (accountID.getD (p.accountIDFromOutputID outputID))
  | .implicitAccount outputID _ => some (p.accountIDFromOutputID outputID)
  | .delegation _ _ _ _ => none
  | .other _ => none

/-- `FeatureSet().BlockIssuer()`. -/
def Output.blockIssuer : Output → Option BlockIssuerFeature
  | .account _ _ blockIssuer _ => blockIssuer
  | _ => none

/-- `FeatureSet().Staking()`. -/
def Output.staking : Output → Option StakingFeature
  | .account _ _ _ staking => staking
  | _ => none

def Output.isImplicitAccount : Output → Bool
  | .implicitAccount _ _ => true
  | _ => false

/-- The ledger tracks account outputs with one of the two features and the outputs
    of implicit accounts. -/
def Output.tracked (o : Output) : Bool :=
  o.blockIssuer.isSome || o.staking.isSome || o.isImplicitAccount

/-- The expiry slot of the account of a tracked output. -/
def Output.expirySlot (o : Output) : Option Nat :=
  if o.isImplicitAccount then some maxSlotIndex
  else o.blockIssuer.map BlockIssuerFeature.expirySlot

/-- `mempool.StateDiff`: the allotments of the executed transactions and the
    compacted changes of the outputs. -/
structure StateDiff where
  allotments : List (AccountID × UInt64)
  createdStates : List Output
  destroyedStates : List Output

/-! ## Section 2: Building the diffs -/

/-- `getAccountDiff`, which adds an empty diff where there is none, and a change of
    the diff. -/
def modifyDiff (diffs : AccountDiffs) (id : AccountID) (change : AccountDiff → AccountDiff) :
    AccountDiffs :=
  diffs.insert id (change ((diffs.lookup id).getD newAccountDiff))

/-- An allotment in the diff of its account.  The allotment to an account without the
    block issuer feature is burned. -/
def allotDiff (loaded : Option AccountData) (mana : UInt64) (d : AccountDiff) : AccountDiff :=
  match loaded with
  | none => d
  | some a => { d with
      bicChange := d.bicChange + mana.toInt64
      previousUpdatedSlot := a.credits.updateSlot
      previousExpirySlot := a.expirySlot
      newExpirySlot := a.expirySlot
      newOutputID := a.outputID
      previousOutputID := a.outputID }

/-- One allotment of `processStateDiffTransactions`. -/
def Manager.allot (m : Manager) (slot : Nat) (diffs : AccountDiffs)
    (allotment : AccountID × UInt64) : Option AccountDiffs :=
  (m.account allotment.1 (slot - 1)).map fun loaded =>
    modifyDiff diffs allotment.1 (allotDiff loaded allotment.2)

/-- `processStateDiffTransactions`, as far as the account diffs go. -/
def Manager.processStateDiffTransactions (m : Manager) (slot : Nat) (stateDiff : StateDiff) :
    Option AccountDiffs :=
  run (m.allot slot) ∅ stateDiff.allotments

/-- Adds a tracked output under the ID of its account. -/
def collectAccountOutput (outputs : Map AccountID Output) (o : Output) : Map AccountID Output :=
  match o.accountID p with
  | some id => if o.tracked then outputs.insert id o else outputs
  | none => outputs

/-- `createdAccountOutputs` and `consumedAccountOutputs`. -/
def collectAccountOutputs (states : List Output) : Map AccountID Output :=
  states.foldl (collectAccountOutput p) ∅

/-- `destroyedAccounts`: the consumed account outputs whose account is not created
    again in the slot.  Implicit accounts are not among them. -/
def destroyedAccounts (stateDiff : StateDiff) : List AccountID :=
  let createdAccountOutputs := collectAccountOutputs p stateDiff.createdStates
  stateDiff.destroyedStates.filterMap fun o =>
    match o.accountID p with
    | some id =>
      if o.tracked ∧ o.isImplicitAccount = false ∧ (createdAccountOutputs.lookup id).isNone then
        some id
      else none
    | none => none

/-- A spent delegation output takes its stake from the validator. -/
def removeDelegation (diffs : AccountDiffs) : Output → AccountDiffs
  | .delegation _ true validatorID delegatedAmount =>
    modifyDiff diffs validatorID fun d =>
      { d with delegationStakeChange := d.delegationStakeChange - delegatedAmount.toInt64 }
  | _ => diffs

/-- A new delegation output adds its stake to the validator. -/
def addDelegation (diffs : AccountDiffs) : Output → AccountDiffs
  | .delegation _ true validatorID delegatedAmount =>
    modifyDiff diffs validatorID fun d =>
      { d with delegationStakeChange := d.delegationStakeChange + delegatedAmount.toInt64 }
  | _ => diffs

/-- The changes that `processCreatedAndConsumedAccountOutputs` makes to the diffs. -/
def processDelegations (stateDiff : StateDiff) (diffs : AccountDiffs) : AccountDiffs :=
  stateDiff.createdStates.foldl addDelegation
    (stateDiff.destroyedStates.foldl removeDelegation diffs)

/-- The changes of the staking fields of an account that is transitioned. -/
def transitionStaking (a : AccountData) (consumedOutput createdOutput : Output)
    (d : AccountDiff) : AccountDiff :=
  match createdOutput.staking with
  | some stakingFeature =>
    { d with
      validatorStakeChange := stakingFeature.stakedAmount.toInt64 - a.validatorStake.toInt64
      stakeEndEpochChange :=
        epochToInt64 stakingFeature.endEpoch - epochToInt64 a.stakeEndEpoch
      fixedCostChange := stakingFeature.fixedCost.toInt64 - a.fixedCost.toInt64 }
  | none =>
    if consumedOutput.staking.isSome then
      { d with
        validatorStakeChange := -a.validatorStake.toInt64
        stakeEndEpochChange := -epochToInt64 a.stakeEndEpoch
        fixedCostChange := -a.fixedCost.toInt64 }
    else d

/-- Case 2 of `prepareAccountDiffs`: the account was transitioned. -/
def transitionDiff (a : AccountData) (consumedOutput createdOutput : Output) (d : AccountDiff) :
    Option AccountDiff :=
  consumedOutput.expirySlot.bind fun previousExpirySlot =>
  createdOutput.blockIssuer.map fun feature =>
    transitionStaking a consumedOutput createdOutput
      { d with
        previousExpirySlot := previousExpirySlot
        previousOutputID := consumedOutput.outputID
        newOutputID := createdOutput.outputID
        newExpirySlot := feature.expirySlot
        blockIssuerKeysAdded := feature.blockIssuerKeys \ a.blockIssuerKeys
        blockIssuerKeysRemoved := a.blockIssuerKeys \ feature.blockIssuerKeys }

/-- Case 3 of `prepareAccountDiffs`: the account was created. -/
def creationDiff (createdOutput : Output) (d : AccountDiff) : Option AccountDiff :=
  let d := { d with
    newOutputID := createdOutput.outputID
    previousOutputID := emptyOutputID
    previousExpirySlot := 0 }
  match createdOutput with
  | .account _ _ (some feature) staking =>
    let d := { d with
      blockIssuerKeysAdded := feature.blockIssuerKeys
      newExpirySlot := feature.expirySlot }
    match staking with
    | some stakingFeature => some { d with
        validatorStakeChange := stakingFeature.stakedAmount.toInt64
        stakeEndEpochChange := epochToInt64 stakingFeature.endEpoch
        fixedCostChange := stakingFeature.fixedCost.toInt64 }
    | none => some d
  | .account _ _ none _ => none
  | .implicitAccount _ key =>
    some { d with blockIssuerKeysAdded := {key}, newExpirySlot := maxSlotIndex }
  | .delegation _ _ _ _ => some d
  | .other _ => some d

/-- A consumed account of `prepareAccountDiffs`; `none` for the panic if the account is
    not present. -/
def Manager.consumedDiff (m : Manager) (slot : Nat) (id : AccountID)
    (consumedOutput createdOutput : Option Output) (d : Option AccountDiff) : Option AccountDiff :=
  match m.account id (slot - 1) with
  | some (some a) =>
    match consumedOutput, createdOutput with
    | some consumedOutput, some createdOutput =>
      transitionDiff a consumedOutput createdOutput (d.getD newAccountDiff)
    -- case 1: the diff is made when the account is deleted
    | _, _ => some (d.getD newAccountDiff)
  | _ => none

/-- A created account of `prepareAccountDiffs`, if it is not consumed in the same slot. -/
def createdDiff (consumedOutput createdOutput : Option Output) (d : Option AccountDiff) :
    Option (Option AccountDiff) :=
  match consumedOutput, createdOutput with
  | none, some createdOutput => (creationDiff createdOutput (d.getD newAccountDiff)).map some
  | _, _ => some d

/-- `prepareAccountDiffs`. -/
def Manager.prepareAccountDiffs (m : Manager) (slot : Nat)
    (consumedAccounts createdAccounts : Map AccountID Output) (diffs : AccountDiffs) :
    Option AccountDiffs :=
  (alterKeys (fun id d => (m.consumedDiff slot id (consumedAccounts.lookup id)
    (createdAccounts.lookup id) d).map some) diffs consumedAccounts.keys).bind fun diffs =>
  alterKeys (fun id d => createdDiff (consumedAccounts.lookup id) (createdAccounts.lookup id) d)
    diffs createdAccounts.keys

/-- The diffs that `CommitSlot` hands to `ApplyDiff`. -/
def Manager.ledgerDiffs (m : Manager) (slot : Nat) (stateDiff : StateDiff) : Option AccountDiffs :=
  (m.processStateDiffTransactions slot stateDiff).bind fun diffs =>
  m.prepareAccountDiffs slot (collectAccountOutputs p stateDiff.destroyedStates)
    (collectAccountOutputs p stateDiff.createdStates) (processDelegations stateDiff diffs)

/-! ## Section 3: Runs -/

/-- The accounts manager with the unspent output of every account. -/
structure Ledger where
  manager : Manager
  accountOutput : AccountID → Option Output

/-- The account IDs of the account outputs of a list, tracked or not. -/
def accountIDs (states : List Output) : List AccountID :=
  states.filterMap (Output.accountID p)

section

variable (accountOutput : AccountID → Option Output)

/-- What the virtual machine allows in the transactions of a slot. -/
structure ValidStateDiff (stateDiff : StateDiff) :
    Prop where
  /-- An account has at most one output, before and after the slot. -/
  created_nodup : (accountIDs p stateDiff.createdStates).Nodup
  destroyed_nodup : (accountIDs p stateDiff.destroyedStates).Nodup
  /-- Only unspent outputs are spent. -/
  destroyed_unspent : ∀ o ∈ stateDiff.destroyedStates, ∀ id ∈ o.accountID p,
    accountOutput id = some o
  /-- An account that has an output gets a new one by spending the old one. -/
  created_chain : ∀ o ∈ stateDiff.createdStates, ∀ id ∈ o.accountID p,
    accountOutput id = none ∨ id ∈ accountIDs p stateDiff.destroyedStates
  created_nonempty : ∀ o ∈ stateDiff.createdStates, o.outputID ≠ emptyOutputID
  /-- The staking feature needs the block issuer feature. -/
  created_staking : ∀ o ∈ stateDiff.createdStates, o.staking.isSome → o.blockIssuer.isSome
  /-- An implicit account is only spent to convert it to a block issuer account. -/
  implicit_converted : ∀ o ∈ stateDiff.destroyedStates, o.isImplicitAccount →
    ∃ o' ∈ stateDiff.createdStates, o'.accountID p = o.accountID p ∧ o'.blockIssuer.isSome

/-- The unspent output of every account after a slot. -/
def spendOutputs (stateDiff : StateDiff) (id : AccountID) : Option Output :=
  match stateDiff.createdStates.find? (fun o => o.accountID p == some id) with
  | some o => some o
  | none => if id ∈ accountIDs p stateDiff.destroyedStates then none else accountOutput id

instance (stateDiff : StateDiff) :
    Decidable (ValidStateDiff p accountOutput stateDiff) :=
  decidable_of_iff
    ((accountIDs p stateDiff.createdStates).Nodup ∧ (accountIDs p stateDiff.destroyedStates).Nodup ∧
      (∀ o ∈ stateDiff.destroyedStates, ∀ id ∈ o.accountID p, accountOutput id = some o) ∧
      (∀ o ∈ stateDiff.createdStates, ∀ id ∈ o.accountID p,
        accountOutput id = none ∨ id ∈ accountIDs p stateDiff.destroyedStates) ∧
      (∀ o ∈ stateDiff.createdStates, o.outputID ≠ emptyOutputID) ∧
      (∀ o ∈ stateDiff.createdStates, o.staking.isSome → o.blockIssuer.isSome) ∧
      (∀ o ∈ stateDiff.destroyedStates, o.isImplicitAccount →
        ∃ o' ∈ stateDiff.createdStates, o'.accountID p = o.accountID p ∧ o'.blockIssuer.isSome))
    ⟨fun h => ⟨h.1, h.2.1, h.2.2.1, h.2.2.2.1, h.2.2.2.2.1, h.2.2.2.2.2.1, h.2.2.2.2.2.2⟩,
      fun h => ⟨h.1, h.2, h.3, h.4, h.5, h.6, h.7⟩⟩

end

/-- `CommitSlot`, as far as the accounts go, for the next slot. -/
def Ledger.commitSlot (l : Ledger) (rmc : UInt64) (stateDiff : StateDiff) : Option Ledger :=
  let slot := l.manager.latestCommittedSlot + 1
  (l.manager.ledgerDiffs p slot stateDiff).bind fun diffs =>
  (l.manager.applyDiff p slot rmc diffs (destroyedAccounts p stateDiff)).map fun m =>
    { manager := m, accountOutput := spendOutputs p l.accountOutput stateDiff }

/-- What happens to the ledger. -/
inductive Input where
  | trackBlock (b : Block)
  | commitSlot (rmc : UInt64) (stateDiff : StateDiff)
  /-- The storage prunes the slots below a slot. -/
  | prune (slot : Nat)

def step (l : Ledger) : Input → Option Ledger
  | .trackBlock b => some { l with manager := l.manager.trackBlock b }
  | .commitSlot rmc stateDiff =>
    if ValidStateDiff p l.accountOutput stateDiff then l.commitSlot p rmc stateDiff else none
  | .prune slot =>
    if slot ≤ l.manager.latestCommittedSlot + 1 then
      some { l with manager := { l.manager with prunedBelow := max l.manager.prunedBelow slot } }
    else none

/-- The data that `AddAccount` gives an account at a slot. -/
def genesisAccountData (slot : Nat) (id : AccountID) (outputID : OutputID)
    (feature : BlockIssuerFeature) (staking : Option StakingFeature) (credits : Int64) :
    AccountData :=
  { newAccountData id with
    credits := ⟨credits, slot⟩
    outputID := outputID
    blockIssuerKeys := feature.blockIssuerKeys
    expirySlot := feature.expirySlot
    validatorStake := (staking.map StakingFeature.stakedAmount).getD 0
    stakeEndEpoch := (staking.map StakingFeature.endEpoch).getD 0
    fixedCost := (staking.map StakingFeature.fixedCost).getD 0 }

/-- `AddAccount`, which fills the tree before the first slot is committed. -/
def addAccount (l : Ledger) : Output × Int64 → Option Ledger
  | (.account outputID (some id) (some feature) staking, credits) =>
    if outputID ≠ emptyOutputID ∧ l.accountOutput id = none then
      some {
        manager := { l.manager with
          accountsTree := l.manager.accountsTree.insert id
            (genesisAccountData l.manager.latestCommittedSlot id outputID feature staking credits) }
        accountOutput := Function.update l.accountOutput id
          (some (.account outputID (some id) (some feature) staking)) }
    else none
  | _ => none

/-- A manager without accounts at a slot. -/
def emptyManager (slot : Nat) : Manager where
  blockBurns := fun _ => []
  latestSupportedVersionSignals := fun _ => ∅
  latestCommittedSlot := slot
  accountsTree := ∅
  slotDiffs := fun _ => ∅
  prunedBelow := 0

/-- The ledger at the genesis slot, with the given accounts. -/
def genesis (slot : Nat) (accounts : List (Output × Int64)) : Option Ledger :=
  run addAccount { manager := emptyManager slot, accountOutput := fun _ => none } accounts

end AxonCore.Accounts

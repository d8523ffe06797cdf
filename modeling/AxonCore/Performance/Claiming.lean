import AxonCore.Storage.History
import AxonCore.Performance.Emission
import AxonCore.Performance.Rewards

/-! # Reward claims

    A transaction claims the rewards of a range of epochs, and commits to a slot.  The reward is
    computed when its signatures are validated, which different nodes do at different moments, with
    the rewards that the tracker has then.

    `ValidatorReward` and `DelegatorReward` cut the range off at the epoch that the tracker applied
    last.  That epoch grows with every epoch that is committed, and a restart sets it to the epoch
    of the last committed slot, which is not applied yet.  If the last claimed epoch had ended by
    the slot of the commitment, the cut-off never takes effect, and the rewards of the claimed
    epochs do not change any more: all nodes of a chain compute the same reward
    (`reward_objective`).  The last epoch of a delegation is the one before the claiming epoch,
    which is later than the slot by `MinCommittableAge`, so it may end after that slot; then the
    reward depends on the moment. -/

namespace AxonCore.Performance

open AxonCore.Lib AxonCore.Committee AxonCore.Stores Option EpochStore Tracker

variable {ID Hash : Type} [LinearOrder ID]

/-! ## Section 1: Claims -/

/-- A reward input with the output that it refers to. -/
inductive RewardClaim (ID : Type) where
  /-- An account output with a staking feature. -/
  | staking (accountID : ID) (stakedAmount startEpoch endEpoch : Nat)
  /-- A delegation output; `delegating` if its delegation ID is zeroed. -/
  | delegation (validatorID : ID) (delegatedAmount startEpoch endEpoch : Nat) (delegating : Bool)

/-- `EpochIndex` is a word of 32 bits. -/
def maxEpochIndex : Nat := 2 ^ 32 - 1

section Claim

variable (p : Params)

/-- The epoch of the future bounded slot of a commitment. -/
def claimingEpoch (commitmentSlot : Nat) : Nat :=
  p.timeProvider.epochFromSlot (commitmentSlot + p.minCommittableAge)

namespace RewardClaim

/-- The first claimed epoch. -/
def firstEpoch (commitmentSlot : Nat) : RewardClaim ID → Nat
  | .staking _ _ startEpoch _ =>
    earliestRewardEpoch p (if startEpoch ≠ 0 then startEpoch + 1 else startEpoch)
      (claimingEpoch p commitmentSlot)
  | .delegation _ _ startEpoch _ _ =>
    earliestRewardEpoch p startEpoch (claimingEpoch p commitmentSlot)

/-- The last claimed epoch.  For a delegation in delegating state the subtraction of the source
    wraps around in epoch 0. -/
def lastEpoch (commitmentSlot : Nat) : RewardClaim ID → Nat
  | .staking _ _ _ endEpoch => endEpoch
  | .delegation _ _ _ endEpoch delegating =>
    if delegating then
      if claimingEpoch p commitmentSlot = 0 then maxEpochIndex
      else claimingEpoch p commitmentSlot - 1
    else endEpoch

end RewardClaim

/-- The reward of an input in `ValidateSignatures`. -/
def Tracker.reward (t : Tracker ID Hash) (commitmentSlot : Nat) (claim : RewardClaim ID) :
    Option Nat :=
  let claimingEpoch := claimingEpoch p commitmentSlot
  match claim with
  | .staking accountID stakedAmount startEpoch endEpoch =>
    (t.validatorReward p accountID stakedAmount startEpoch endEpoch claimingEpoch).map
      fun result => result.1.reward
  | .delegation validatorID delegatedAmount startEpoch endEpoch delegating =>
    let delegationEnd :=
      RewardClaim.lastEpoch p commitmentSlot
        (.delegation validatorID delegatedAmount startEpoch endEpoch delegating)
    (t.delegatorReward p validatorID delegatedAmount startEpoch delegationEnd claimingEpoch).map
      fun result => result.1.reward

end Claim

/-! ## Section 2: Nodes -/

/-- A node, as far as rewards are concerned. -/
structure Node (ID Hash : Type) where
  tracker : Tracker ID Hash
  lastCommittedSlot : Nat
  /-- The rewards and statistics of earlier epochs were pruned. -/
  firstRetainedEpoch : Nat

inductive NodeOp (ID Hash : Type) where
  | track (block : Block ID Hash)
  | storeCommittee (epoch : Nat) (committee : SeatedAccounts ID)
  /-- The next slot is committed. -/
  | commit
  | restart
  /-- The rewards and statistics of the epochs up to `epoch` are pruned. -/
  | prune (epoch : Nat)
  /-- The performances in the slots up to `slot` are pruned. -/
  | pruneSlots (slot : Nat)

namespace Node

variable (p : Params) {epoch : Nat}

/-- The part of `CommitSlot` that applies an epoch. -/
def commitSlot (t : Tracker ID Hash) (slot : Nat) : Option (Tracker ID Hash) :=
  let currentEpoch := p.timeProvider.epochFromSlot slot
  if slot = p.timeProvider.epochEnd currentEpoch then
    (t.loadCommitteeForEpoch currentEpoch).bind fun committee =>
      t.applyEpoch p currentEpoch committee
  else some t

/-- The stores without the epochs up to `epoch`. -/
def pruneEpochs (t : Tracker ID Hash) (epoch : Nat) : Tracker ID Hash :=
  { t with
    rewards := (upTo 0 epoch).foldl deleteEpoch t.rewards
    poolStatsStore := (upTo 0 epoch).foldl deleteEpoch t.poolStatsStore }

/-- One operation. -/
def step (n : Node ID Hash) : NodeOp ID Hash → Option (Node ID Hash)
  | .track block =>
    (n.tracker.trackValidationBlock p block).map fun t => { n with tracker := t }
  | .storeCommittee epoch committee =>
    some { n with
      tracker := { n.tracker with
        committeeStore := n.tracker.committeeStore.store epoch committee } }
  | .commit =>
    (commitSlot p n.tracker (n.lastCommittedSlot + 1)).map fun t =>
      { n with tracker := t, lastCommittedSlot := n.lastCommittedSlot + 1 }
  | .restart =>
    some { n with
      tracker := n.tracker.restart (p.timeProvider.epochFromSlot n.lastCommittedSlot) }
  | .prune epoch =>
    some { n with
      tracker := pruneEpochs n.tracker epoch
      firstRetainedEpoch := max n.firstRetainedEpoch (epoch + 1) }
  | .pruneSlots slot =>
    some { n with
      tracker := { n.tracker with
        validatorPerformances := fun s =>
          if s ≤ slot then none else n.tracker.validatorPerformances s } }

/-- The rewards and the statistics of every epoch of a chain. -/
abbrev Chain (ID : Type) := Nat → Option (Map ID PoolRewards) × Option PoolsStats

section

variable (chain : Chain ID)

/-- What the tracker has for an epoch is what the chain has; the order of the rewards does not
    matter. -/
def Holds (t : Tracker ID Hash) (epoch : Nat) : Prop :=
  SameEntries ((t.rewards.load epoch).getD ∅) ((chain epoch).1.getD ∅) ∧
    t.poolStatsStore.load epoch = (chain epoch).2

/-- The node is on the chain: an epoch that it applies gets the rewards that the chain has, as
    their root is committed. -/
def OnChain (n : Node ID Hash) : NodeOp ID Hash → Prop
  | .commit => ∀ t ∈ commitSlot p n.tracker (n.lastCommittedSlot + 1),
      n.lastCommittedSlot + 1 = p.timeProvider.epochEnd
        (p.timeProvider.epochFromSlot (n.lastCommittedSlot + 1)) →
      Holds chain t (p.timeProvider.epochFromSlot (n.lastCommittedSlot + 1))
  | _ => True

instance (t : Tracker ID Hash) (epoch : Nat) : Decidable (Holds chain t epoch) :=
  inferInstanceAs (Decidable (_ ∧ _))

instance (n : Node ID Hash) : DecidablePred (OnChain p chain n)
  | .commit => decidableForallMem _
  | .track _ => isTrue trivial
  | .storeCommittee _ _ => isTrue trivial
  | .restart => isTrue trivial
  | .prune _ => isTrue trivial
  | .pruneSlots _ => isTrue trivial

/-- A node at genesis. -/
structure Genesis (n : Node ID Hash) : Prop where
  slot : n.lastCommittedSlot = p.timeProvider.genesisSlot
  applied : n.tracker.latestAppliedEpoch = 0
  holds : ∀ epoch < p.timeProvider.epochFromSlot (n.lastCommittedSlot + 1),
    Holds chain n.tracker epoch

/-- A node that can be reached on a chain. -/
def Reached (n : Node ID Hash) : Prop :=
  ∃ (genesis : Node ID Hash) (ops : List (NodeOp ID Hash)), Genesis p chain genesis ∧
    AllSteps (step p) (OnChain p chain) genesis ops ∧ run (step p) genesis ops = some n

end

/-! ## Section 3: Applied epochs -/

variable {p} {chain : Chain ID} {n n' : Node ID Hash}

/-- Every epoch that has ended was applied, and has the data of the chain while it is retained. -/
structure Applied (p : Params) (chain : Chain ID) (n : Node ID Hash) : Prop where
  genesis : p.timeProvider.genesisSlot ≤ n.lastCommittedSlot
  applied : p.timeProvider.epochFromSlot (n.lastCommittedSlot + 1) ≤
    n.tracker.latestAppliedEpoch + 1
  holds : ∀ epoch < p.timeProvider.epochFromSlot (n.lastCommittedSlot + 1),
    n.firstRetainedEpoch ≤ epoch → Holds chain n.tracker epoch

theorem Genesis.initial (h : Genesis p chain n) : Applied p chain n where
  genesis := Nat.le_of_eq h.slot.symm
  applied := by
    have hgenesis : p.timeProvider.epochFromSlot p.timeProvider.genesisSlot = 0 := by
      unfold TimeProvider.epochFromSlot
      rw [if_pos (Nat.le_refl _)]
    rw [h.slot, p.timeProvider.epochFromSlot_succ (Nat.le_refl _), hgenesis]
    split <;> omega
  holds epoch hepoch _ := h.holds epoch hepoch

theorem trackValidationBlock_eq {t t' : Tracker ID Hash} {block : Block ID Hash}
    (h : t.trackValidationBlock p block = some t') :
    ∃ performances, t' = { t with validatorPerformances := performances } := by
  rcases trackValidationBlock_cases h with ⟨rfl, _⟩ | ⟨_, _, _, _, _, _, rfl⟩
  · exact ⟨t'.validatorPerformances, rfl⟩
  · exact ⟨_, rfl⟩

theorem applyEpoch_eq {t t' : Tracker ID Hash} {committee : SeatedAccounts ID}
    (h : t.applyEpoch p epoch committee = some t') :
    ∃ poolsStats rewardsMap, t' = t.storeEpoch epoch poolsStats rewardsMap := by
  obtain ⟨accounts, _, h⟩ := bind_eq_some_iff.mp h
  obtain ⟨margin, _, h⟩ := bind_eq_some_iff.mp h
  obtain ⟨profitMargin, _, h⟩ := bind_eq_some_iff.mp h
  obtain ⟨rewardsMap, _, h⟩ := map_eq_some_iff.mp h
  exact ⟨_, rewardsMap, h.symm⟩

theorem Applied.commit (h : Applied p chain n) {t : Tracker ID Hash}
    (hchain : OnChain p chain n .commit)
    (hcommit : commitSlot p n.tracker (n.lastCommittedSlot + 1) = some t) :
    Applied p chain { n with tracker := t, lastCommittedSlot := n.lastCommittedSlot + 1 } := by
  have hgenesis : p.timeProvider.genesisSlot ≤ n.lastCommittedSlot + 1 :=
    Nat.le_succ_of_le h.genesis
  have hnext := p.timeProvider.epochFromSlot_succ hgenesis
  have honchain := hchain t hcommit
  unfold commitSlot at hcommit
  by_cases hend : n.lastCommittedSlot + 1 =
      p.timeProvider.epochEnd (p.timeProvider.epochFromSlot (n.lastCommittedSlot + 1))
  · -- the current epoch ends with this slot
    rw [if_pos hend.symm] at hnext
    simp only [← hend, if_true] at hcommit
    obtain ⟨committee, _, happly⟩ := bind_eq_some_iff.mp hcommit
    obtain ⟨poolsStats, rewardsMap, hstore⟩ := applyEpoch_eq happly
    refine ⟨hgenesis, ?_, fun epoch hepoch hretained => ?_⟩
    · rw [hnext, hstore]
      exact Nat.le_refl _
    · rw [hnext] at hepoch
      by_cases hcurrent : epoch = p.timeProvider.epochFromSlot (n.lastCommittedSlot + 1)
      · rw [hcurrent]
        exact honchain hend
      · have hold := h.holds epoch (by omega) hretained
        unfold Holds
        rw [hstore, storeEpoch, load_store, load_store,
          if_neg hcurrent, if_neg hcurrent]
        exact hold
  · rw [if_neg (fun heq => hend heq.symm)] at hnext
    simp only [hend, if_false, some.injEq] at hcommit
    subst hcommit
    refine ⟨hgenesis, ?_, ?_⟩
    · rw [hnext]
      exact h.applied
    · rw [hnext]
      exact h.holds

theorem Applied.step (h : Applied p chain n) {op : NodeOp ID Hash} (hchain : OnChain p chain n op)
    (hstep : n.step p op = some n') : Applied p chain n' := by
  cases op with
  | track block =>
    obtain ⟨t, ht, rfl⟩ := map_eq_some_iff.mp hstep
    obtain ⟨performances, rfl⟩ := trackValidationBlock_eq ht
    exact ⟨h.genesis, h.applied, h.holds⟩
  | storeCommittee epoch committee =>
    rw [← some.inj hstep]
    exact ⟨h.genesis, h.applied, h.holds⟩
  | commit =>
    obtain ⟨t, ht, rfl⟩ := map_eq_some_iff.mp hstep
    exact h.commit hchain ht
  | restart =>
    rw [← some.inj hstep]
    refine ⟨h.genesis, ?_, h.holds⟩
    -- at most the epoch of the last committed slot has ended
    show p.timeProvider.epochFromSlot (n.lastCommittedSlot + 1) ≤
      p.timeProvider.epochFromSlot n.lastCommittedSlot + 1
    rw [p.timeProvider.epochFromSlot_succ h.genesis]
    split <;> omega
  | prune epoch =>
    rw [← some.inj hstep]
    refine ⟨h.genesis, h.applied, fun e he hretained => ?_⟩
    have hretained : max n.firstRetainedEpoch (epoch + 1) ≤ e := hretained
    have hnot : e ∉ upTo 0 epoch := by
      rw [mem_upTo]
      omega
    have hold := h.holds e he (by omega)
    show SameEntries ((((upTo 0 epoch).foldl deleteEpoch n.tracker.rewards).entries e).getD ∅) _ ∧
      ((upTo 0 epoch).foldl deleteEpoch n.tracker.poolStatsStore).entries e = _
    rw [entries_foldl_deleteEpoch, entries_foldl_deleteEpoch, if_neg hnot,
      if_neg hnot]
    exact hold
  | pruneSlots slot =>
    rw [← some.inj hstep]
    exact ⟨h.genesis, h.applied, h.holds⟩

theorem Reached.applied (h : Reached p chain n) : Applied p chain n := by
  obtain ⟨genesis, ops, hgenesis, hchain, hrun⟩ := h
  exact run_invariant_of (fun _ _ _ hs hG hstep => Applied.step hs hG hstep) hgenesis.initial hchain
    hrun

end Node

/-! ## Section 4: What a reward depends on -/

section Dependence

variable {p : Params} {t t' : Tracker ID Hash}
  {firstRewardEpoch lastRewardEpoch commitmentSlot : Nat} {claim : RewardClaim ID}

/-- Two trackers have the same data for a range of epochs. -/
def SameData (firstRewardEpoch lastRewardEpoch : Nat) (t t' : Tracker ID Hash) : Prop :=
  ∀ epoch ∈ upTo firstRewardEpoch lastRewardEpoch,
    SameEntries ((t.rewards.load epoch).getD ∅) ((t'.rewards.load epoch).getD ∅) ∧
      t.poolStatsStore.load epoch = t'.poolStatsStore.load epoch

theorem reward_eq_of_sameData (hlast : claim.lastEpoch p commitmentSlot ≤ t.latestAppliedEpoch)
    (hlast' : claim.lastEpoch p commitmentSlot ≤ t'.latestAppliedEpoch)
    (hdata : SameData (claim.firstEpoch p commitmentSlot) (claim.lastEpoch p commitmentSlot) t t') :
    t.reward p commitmentSlot claim = t'.reward p commitmentSlot claim := by
  cases claim with
  | staking accountID stakedAmount startEpoch endEpoch =>
    have hcut : ¬ endEpoch > t.latestAppliedEpoch := Nat.not_lt.mpr hlast
    have hcut' : ¬ endEpoch > t'.latestAppliedEpoch := Nat.not_lt.mpr hlast'
    unfold reward validatorReward
    simp only [if_neg hcut, if_neg hcut']
    congr 2
    apply run_congr
    intro epoch hepoch sum
    unfold addValidatorReward rewardsForAccount
    rw [(hdata epoch hepoch).1 accountID, (hdata epoch hepoch).2]
  | delegation validatorID delegatedAmount startEpoch endEpoch delegating =>
    unfold reward delegatorReward
    simp only [if_neg (Nat.not_lt.mpr hlast), if_neg (Nat.not_lt.mpr hlast')]
    congr 2
    apply run_congr
    intro epoch hepoch sum
    unfold addDelegatorReward rewardsForAccount
    rw [(hdata epoch hepoch).1 validatorID, (hdata epoch hepoch).2]

theorem reward_eq_zero
    (hnone : claim.lastEpoch p commitmentSlot < claim.firstEpoch p commitmentSlot) :
    t.reward p commitmentSlot claim = some 0 := by
  -- the cut-off makes the range only smaller
  have hempty : ∀ {first last : Nat}, last < first →
      upTo first (if last > t.latestAppliedEpoch then t.latestAppliedEpoch else last) = [] := by
    intro first last hlt
    apply List.eq_nil_iff_forall_not_mem.mpr
    intro epoch hepoch
    obtain ⟨hle, hge⟩ := mem_upTo.mp hepoch
    split at hge <;> omega
  cases claim with
  | staking accountID stakedAmount startEpoch endEpoch =>
    have hnone : endEpoch < earliestRewardEpoch p
        (if startEpoch ≠ 0 then startEpoch + 1 else startEpoch) (claimingEpoch p commitmentSlot) :=
      hnone
    unfold reward validatorReward
    simp only
    rw [hempty hnone]
    rfl
  | delegation validatorID delegatedAmount startEpoch endEpoch delegating =>
    have hnone : _ < earliestRewardEpoch p startEpoch (claimingEpoch p commitmentSlot) := hnone
    unfold reward delegatorReward
    simp only
    rw [hempty hnone]
    rfl

end Dependence

/-! ## Section 5: Objectivity -/

variable {p : Params} {chain : Node.Chain ID} {n n' : Node ID Hash}

/-- A claim for epochs that had ended by the slot of its commitment, or for no epoch at all, has
    the same reward on all nodes of the chain that have committed the slot and retain
    the rewards. -/
theorem reward_objective {commitmentSlot : Nat} {claim : RewardClaim ID}
    (hended : claim.lastEpoch p commitmentSlot < p.timeProvider.epochFromSlot (commitmentSlot + 1) ∨
      claim.lastEpoch p commitmentSlot < claim.firstEpoch p commitmentSlot)
    (hreached : n.Reached p chain) (hreached' : n'.Reached p chain)
    (hcommitted : commitmentSlot ≤ n.lastCommittedSlot)
    (hcommitted' : commitmentSlot ≤ n'.lastCommittedSlot)
    (hretained : n.firstRetainedEpoch ≤ claim.firstEpoch p commitmentSlot)
    (hretained' : n'.firstRetainedEpoch ≤ claim.firstEpoch p commitmentSlot) :
    n.tracker.reward p commitmentSlot claim = n'.tracker.reward p commitmentSlot claim := by
  rcases hended with hended | hnone
  · have happlied := hreached.applied
    have happlied' := hreached'.applied
    -- the epochs that had ended by the slot have ended for both nodes
    have hmono := p.timeProvider.epochFromSlot_mono (Nat.add_le_add_right hcommitted 1)
    have hmono' := p.timeProvider.epochFromSlot_mono (Nat.add_le_add_right hcommitted' 1)
    have hlast := happlied.applied
    have hlast' := happlied'.applied
    apply reward_eq_of_sameData (by omega) (by omega)
    intro epoch hepoch
    obtain ⟨hfirst, hle⟩ := mem_upTo.mp hepoch
    have hholds := happlied.holds epoch (by omega) (Nat.le_trans hretained hfirst)
    have hholds' := happlied'.holds epoch (by omega) (Nat.le_trans hretained' hfirst)
    exact ⟨fun id => (hholds.1 id).trans (hholds'.1 id).symm, hholds.2.trans hholds'.2.symm⟩
  · rw [reward_eq_zero hnone, reward_eq_zero hnone]

section Runs

open Tracker

/-- A node at genesis, with the committee of the first two epochs. -/
def genesisNode : Node Nat Unit :=
  ⟨{ epochOne with committeeStore := epochOne.committeeStore.store 0 twoMembers }, 0, 0⟩

/-- Slots 1 and 2 are committed; the blocks of epoch 1 are tracked in between. -/
def untilSlotTwo : List (NodeOp Nat Unit) :=
  .commit :: epochOneBlocks.map .track ++ [.commit]

/-- The rewards and statistics of the first two epochs, as `ApplyEpoch` computes them. -/
def shortChain : Node.Chain Nat := fun epoch =>
  match run (Node.step smallParams) genesisNode (untilSlotTwo ++ [.commit]) with
  | some n => (n.tracker.rewards.load epoch, n.tracker.poolStatsStore.load epoch)
  | none => (none, none)

/-- A delegation to account 1 since epoch 1, in delegating state. -/
def delegationSinceOne : RewardClaim Nat := .delegation 1 40 1 0 true

theorem genesisNode_genesis : Node.Genesis smallParams shortChain genesisNode :=
  ⟨rfl, rfl, fun _ hepoch => absurd hepoch (Nat.not_lt_zero _)⟩

/-- Epoch 1 has ended by slot 3.  A node that has just committed slot 3 and one that has also
    committed slot 4 and was restarted compute the same reward. -/
theorem reward_objective_restarted :
    ∃ n n', run (Node.step smallParams) genesisNode (untilSlotTwo ++ [.commit]) = some n ∧
      run (Node.step smallParams) genesisNode (untilSlotTwo ++ [.commit, .commit, .restart]) =
        some n' ∧
      n.tracker.latestAppliedEpoch = 1 ∧ n'.tracker.latestAppliedEpoch = 2 ∧
      n.tracker.reward smallParams 3 delegationSinceOne =
        n'.tracker.reward smallParams 3 delegationSinceOne := by
  obtain ⟨n, hrun, hslot, hretained, hlatest, n', hrun', hslot', hretained', hlatest'⟩ :
      ∃ n, run (Node.step smallParams) genesisNode (untilSlotTwo ++ [.commit]) = some n ∧
        n.lastCommittedSlot = 3 ∧ n.firstRetainedEpoch = 0 ∧ n.tracker.latestAppliedEpoch = 1 ∧
        ∃ n', run (Node.step smallParams) genesisNode
            (untilSlotTwo ++ [.commit, .commit, .restart]) = some n' ∧
          n'.lastCommittedSlot = 4 ∧ n'.firstRetainedEpoch = 0 ∧
          n'.tracker.latestAppliedEpoch = 2 := by
    decide +kernel
  have hreached : n.Reached smallParams shortChain :=
    ⟨genesisNode, _, genesisNode_genesis, by decide +kernel, hrun⟩
  have hreached' : n'.Reached smallParams shortChain :=
    ⟨genesisNode, _, genesisNode_genesis, by decide +kernel, hrun'⟩
  exact ⟨n, n', hrun, hrun', hlatest, hlatest',
    reward_objective (.inl (by decide)) hreached hreached' (by omega) (by omega)
      (hretained ▸ Nat.zero_le _) (hretained' ▸ Nat.zero_le _)⟩

/-- The claim of the same delegation with a commitment to slot 2: nothing as long as slot 2 is the
    last committed slot, and the reward of epoch 1 as soon as slot 3 is committed. -/
theorem reward_depends_on_moment :
    ∃ n n' : Node Nat Unit, n.Reached smallParams shortChain ∧ n'.Reached smallParams shortChain ∧
      2 ≤ n.lastCommittedSlot ∧ 2 ≤ n'.lastCommittedSlot ∧
      n.firstRetainedEpoch = 0 ∧ n'.firstRetainedEpoch = 0 ∧
      n.tracker.reward smallParams 2 delegationSinceOne = some 0 ∧
      n'.tracker.reward smallParams 2 delegationSinceOne ≠ some 0 := by
  obtain ⟨n, hrun, n', hrun', hmoments⟩ :
      ∃ n, run (Node.step smallParams) genesisNode untilSlotTwo = some n ∧
        ∃ n', run (Node.step smallParams) genesisNode (untilSlotTwo ++ [.commit]) = some n' ∧
          2 ≤ n.lastCommittedSlot ∧ 2 ≤ n'.lastCommittedSlot ∧
          n.firstRetainedEpoch = 0 ∧ n'.firstRetainedEpoch = 0 ∧
          n.tracker.reward smallParams 2 delegationSinceOne = some 0 ∧
          n'.tracker.reward smallParams 2 delegationSinceOne ≠ some 0 := by
    decide +kernel
  have hreached : n.Reached smallParams shortChain :=
    ⟨genesisNode, _, genesisNode_genesis, by decide +kernel, hrun⟩
  have hreached' : n'.Reached smallParams shortChain :=
    ⟨genesisNode, _, genesisNode_genesis, by decide +kernel, hrun'⟩
  exact ⟨n, n', hreached, hreached', hmoments⟩

end Runs

end AxonCore.Performance

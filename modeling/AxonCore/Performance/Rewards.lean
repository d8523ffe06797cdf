import Mathlib.Algebra.BigOperators.Ring.List
import AxonCore.Lib.Total
import AxonCore.Performance.Model

/-! # The shares of a pool

    The reward of a pool in an epoch is divided between its validator and its delegators.  The
    validator gets the fixed cost, its profit margin of the rest, and a share of what remains in
    proportion to its stake; a delegator gets a share of what remains.  If the reward does not
    cover the fixed cost, the validator gets nothing and the whole reward is shared.

    The profit margin is a fixed-point number, `TotalValidatorStake` over the sum of both total
    stakes.  That sum is the only operation that is not checked.  As long as it is a word the
    margin is at most one, and all shares of a pool together are at most its reward
    (`distribution_bounded`).  If the sum wraps around, the margin may exceed one, and then
    `scaleUpComplement` underflows; `distribution_bounded_iff` says for which totals. -/

namespace AxonCore.Performance

open AxonCore.Lib AxonCore.Committee AxonCore.Stores List

/-! ## Section 1: The undecayed reward of an epoch -/

/-- `scaleUpComplement`. -/
def scaleUpComplement (val shift : Nat) : Except ArithmeticError Nat :=
  (safeLeftShift 1 shift).bind fun shiftedOne => safeSub shiftedOne val

variable (profitMarginExponent profitMargin : Nat)

/-- The part of `ValidatorReward` for the pool of one epoch; `none` if the epoch is skipped. -/
def validatorEpochReward (pool : PoolRewards)
    (stakedAmount : Nat) : Except ArithmeticError (Option Nat) :=
  -- all rewards go to the delegators
  if pool.poolRewards < pool.fixedCost then .ok none
  else
    let poolRewardsNoFixedCost := pool.poolRewards - pool.fixedCost
    (scaleUpComplement profitMargin profitMarginExponent).bind fun profitMarginComplement =>
      (safeMul profitMargin poolRewardsNoFixedCost).bind fun result =>
        let profitMarginFactor := result / 2 ^ profitMarginExponent
        (safeMul profitMarginComplement poolRewardsNoFixedCost).bind fun result =>
          (safe64MulDiv (result / 2 ^ profitMarginExponent) stakedAmount pool.poolStake).bind
            fun residualValidatorFactor =>
              (safeAdd pool.fixedCost profitMarginFactor).bind fun result =>
                (safeAdd result residualValidatorFactor).map some

/-- The part of `DelegatorReward` for the pool of one epoch. -/
def delegatorEpochReward (pool : PoolRewards)
    (delegatedAmount : Nat) : Except ArithmeticError Nat :=
  (scaleUpComplement profitMargin profitMarginExponent).bind fun profitMarginComplement =>
    let poolReward :=
      if pool.poolRewards ≥ pool.fixedCost then pool.poolRewards - pool.fixedCost
      else pool.poolRewards
    (safeMul profitMarginComplement poolReward).bind fun result =>
      safe64MulDiv (result / 2 ^ profitMarginExponent) delegatedAmount pool.poolStake

/-! ## Section 2: The reward of a claim -/

/-- `decayEndEpoch`. -/
def decayEndEpoch (claimingEpoch lastRewardEpoch : Nat) : Nat :=
  max (if claimingEpoch ≥ 1 then claimingEpoch - 1 else claimingEpoch) lastRewardEpoch

/-- `earliestRewardEpoch`. -/
def earliestRewardEpoch (p : Params) (firstRewardEpoch claimingEpoch : Nat) : Nat :=
  let retentionPeriod := p.retentionPeriod claimingEpoch
  let earliestRetainedRewardEpoch :=
    if retentionPeriod < claimingEpoch then claimingEpoch - retentionPeriod else 0
  max earliestRetainedRewardEpoch firstRewardEpoch

/-- The reward so far, and the first epoch with a reward. -/
structure RewardSum where
  reward : Nat
  firstRewardEpoch : Nat
  deriving DecidableEq, Repr

variable {ID Hash : Type} [LinearOrder ID] (p : Params) {v : Nat} {ds : List Nat}

namespace Tracker

variable (t : Tracker ID Hash)

/-- `rewardsForAccount`. -/
def rewardsForAccount (accountID : ID) (epoch : Nat) : Option PoolRewards :=
  ((t.rewards.load epoch).getD ∅).lookup accountID

variable (validatorID : ID)

/-- One epoch of the loop in `ValidatorReward`; `none` if the loop returns an error. -/
def addValidatorReward
    (stakedAmount decayEndEpoch lastRewardEpoch : Nat) (sum : RewardSum) (epoch : Nat) :
    Option RewardSum :=
  match (t.rewardsForAccount validatorID epoch).filter fun pool => pool.poolStake ≠ 0 with
  | none =>
    if epoch < lastRewardEpoch ∧ sum.firstRewardEpoch = epoch
    then some { sum with firstRewardEpoch := epoch + 1 } else some sum
  | some pool =>
    (t.poolStatsStore.load epoch).bind fun poolStats =>
      (validatorEpochReward (p.profitMarginExponent epoch) poolStats.profitMargin pool
        stakedAmount).toOption.bind fun undecayedEpochRewards =>
          match undecayedEpochRewards with
          | none => some sum
          | some undecayedEpochRewards =>
            (p.decayManaByEpochs undecayedEpochRewards epoch decayEndEpoch).bind
              fun decayedEpochRewards =>
                (safeAdd sum.reward decayedEpochRewards).toOption.map fun reward =>
                  { sum with reward := reward }

/-- `ValidatorReward`: the reward, and the first and last epoch that it is for. -/
def validatorReward
    (stakedAmount startEpoch endEpoch claimingEpoch : Nat) : Option (RewardSum × Nat) :=
  -- the validators that bootstrap the network are rewarded from epoch 0 on
  let firstRewardEpoch := if startEpoch ≠ 0 then startEpoch + 1 else startEpoch
  let lastRewardEpoch := if endEpoch > t.latestAppliedEpoch then t.latestAppliedEpoch else endEpoch
  let decayEndEpoch := decayEndEpoch claimingEpoch lastRewardEpoch
  let firstRewardEpoch := earliestRewardEpoch p firstRewardEpoch claimingEpoch
  (run (t.addValidatorReward p validatorID stakedAmount decayEndEpoch lastRewardEpoch)
    ⟨0, firstRewardEpoch⟩ (upTo firstRewardEpoch lastRewardEpoch)).map fun sum =>
      (sum, lastRewardEpoch)

/-- One epoch of the loop in `DelegatorReward`.  The sum of the rewards is not checked. -/
def addDelegatorReward
    (delegatedAmount decayEndEpoch : Nat) (sum : RewardSum) (epoch : Nat) : Option RewardSum :=
  match (t.rewardsForAccount validatorID epoch).filter fun pool => pool.poolStake ≠ 0 with
  | none =>
    if sum.firstRewardEpoch = epoch
    then some { sum with firstRewardEpoch := epoch + 1 } else some sum
  | some pool =>
    (t.poolStatsStore.load epoch).bind fun poolStats =>
      (delegatorEpochReward (p.profitMarginExponent epoch) poolStats.profitMargin pool
        delegatedAmount).toOption.bind fun undecayedEpochRewards =>
          (p.decayManaByEpochs undecayedEpochRewards epoch decayEndEpoch).map
            fun decayedEpochRewards =>
              { sum with reward := (sum.reward + decayedEpochRewards) % wordSize }

/-- `DelegatorReward`. -/
def delegatorReward
    (delegatedAmount epochStart epochEnd claimingEpoch : Nat) : Option (RewardSum × Nat) :=
  let lastRewardEpoch := if epochEnd > t.latestAppliedEpoch then t.latestAppliedEpoch else epochEnd
  let decayEndEpoch := decayEndEpoch claimingEpoch lastRewardEpoch
  let firstRewardEpoch := earliestRewardEpoch p epochStart claimingEpoch
  (run (t.addDelegatorReward p validatorID delegatedAmount decayEndEpoch) ⟨0, firstRewardEpoch⟩
    (upTo firstRewardEpoch lastRewardEpoch)).map fun sum => (sum, lastRewardEpoch)

end Tracker

/-! ## Section 3: The profit margin -/

section Margin

variable {V P e m : Nat}

theorem calculateProfitMargin_eq_ok :
    Tracker.calculateProfitMargin V P e = some (.ok m) ↔
      V * 2 ^ e < wordSize ∧ (V + P) % wordSize ≠ 0 ∧ V * 2 ^ e / ((V + P) % wordSize) = m := by
  unfold Tracker.calculateProfitMargin safeLeftShift
  by_cases hshift : V * 2 ^ e < wordSize
  · rw [if_pos hshift]
    by_cases hzero : (V + P) % wordSize = 0
    · simp [hzero, hshift]
    · simp [hzero, hshift]
  · simp [hshift]

theorem scaleUpComplement_eq_underflow :
    scaleUpComplement m e = .error .underflow ↔ 2 ^ e < wordSize ∧ 2 ^ e < m := by
  unfold scaleUpComplement safeLeftShift safeSub
  rw [Nat.one_mul]
  by_cases hshift : 2 ^ e < wordSize
  · by_cases hle : m ≤ 2 ^ e
    · simp [Except.bind, hshift, hle]
    · simp [Except.bind, hshift, hle, Nat.lt_of_not_le hle]
  · simp [Except.bind, hshift]

theorem scaleUpComplement_eq_ok {c : Nat} (h : scaleUpComplement m e = .ok c) : m + c = 2 ^ e := by
  obtain ⟨one, hone, hsub⟩ := bind_eq_ok.mp h
  have h1 := (safeLeftShift_eq_ok.mp hone).2
  obtain ⟨hle, h2⟩ := safeSub_eq_ok.mp hsub
  omega

/-- The margin is at most one unless the sum of the stakes wraps around to a small number. -/
theorem margin_le_one_iff (hV : V < wordSize) (hP : P < wordSize)
    (hm : Tracker.calculateProfitMargin V P e = some (.ok m)) :
    m ≤ 2 ^ e ↔ V + P < wordSize ∨ (wordSize - P) * 2 ^ e < V + P - wordSize := by
  obtain ⟨_, hpos, rfl⟩ := calculateProfitMargin_eq_ok.mp hm
  by_cases hsum : V + P < wordSize
  · rw [Nat.mod_eq_of_lt hsum] at hpos ⊢
    have hle : V * 2 ^ e / (V + P) ≤ 2 ^ e :=
      Nat.div_le_of_le_mul (Nat.mul_le_mul_right _ (Nat.le_add_right V P))
    exact ⟨fun _ => .inl hsum, fun _ => hle⟩
  · -- the sum is `V + P - 2 ^ 64`, which is less than `V` by `2 ^ 64 - P`
    obtain ⟨s, hs⟩ : ∃ s, V + P = wordSize + s := ⟨V + P - wordSize, by omega⟩
    obtain ⟨g, hg⟩ : ∃ g, wordSize = P + g := ⟨wordSize - P, by omega⟩
    have hmod : (V + P) % wordSize = s := by
      rw [hs, Nat.add_mod_left]
      exact Nat.mod_eq_of_lt (by omega)
    have hVs : V = s + g := by omega
    have hsub1 : wordSize - P = g := by omega
    have hsub2 : V + P - wordSize = s := by omega
    rw [hmod] at hpos ⊢
    rw [hsub1, hsub2, ← Nat.lt_succ_iff, Nat.div_lt_iff_lt_mul (Nat.pos_of_ne_zero hpos), hVs,
      Nat.add_mul, Nat.succ_mul, Nat.mul_comm (2 ^ e) s, Nat.add_lt_add_iff_left]
    exact ⟨.inr, fun h => h.resolve_left (by omega)⟩

end Margin

/-! ## Section 4: The distribution -/

/-- The undecayed reward of a validator: nothing if the epoch is skipped or a computation
    fails. -/
def validatorAmount (pool : PoolRewards) (stakedAmount : Nat) : Nat :=
  (validatorEpochReward profitMarginExponent profitMargin pool stakedAmount).toOption.join.getD 0

/-- The undecayed reward of a delegator. -/
def delegatorAmount (pool : PoolRewards) (delegatedAmount : Nat) : Nat :=
  (delegatorEpochReward profitMarginExponent profitMargin pool delegatedAmount).toOption.getD 0

/-- Of an amount that is shared in proportion to stakes, the shares that are rounded down add
    up to at most the whole. -/
theorem shares_le {x stake : Nat} (h : v + ds.sum ≤ stake) :
    x * v / stake + (ds.map fun d => x * d / stake).sum ≤ x := by
  have hall := sum_map_div_le (fun d => x * d) stake (v :: ds)
  rw [map_cons, sum_cons, sum_map_mul_left, map_id', sum_cons] at hall
  exact Nat.le_trans hall (Nat.div_le_of_le_mul (by
    rw [Nat.mul_comm stake]
    exact Nat.mul_le_mul_left x h))

variable {e m c : Nat} {pool : PoolRewards}

theorem delegatorAmount_le (hc : scaleUpComplement m e = .ok c) (d : Nat) :
    delegatorAmount e m pool d ≤
      c * (if pool.poolRewards ≥ pool.fixedCost then pool.poolRewards - pool.fixedCost
        else pool.poolRewards) / 2 ^ e * d / pool.poolStake := by
  unfold delegatorAmount
  cases hreward : delegatorEpochReward e m pool d with
  | error err => exact Nat.zero_le _
  | ok reward =>
    obtain ⟨c', hc', hreward⟩ := bind_eq_ok.mp hreward
    obtain rfl : c = c' := Except.ok.inj (hc.symm.trans hc')
    obtain ⟨product, hproduct, hshare⟩ := bind_eq_ok.mp hreward
    have h1 := (safeMul_eq_ok.mp hproduct).2
    have h2 := (safe64MulDiv_eq_ok.mp hshare).2.2
    rw [← h1] at h2
    exact Nat.le_of_eq h2.symm

theorem validatorAmount_le (hc : scaleUpComplement m e = .ok c)
    (hcost : pool.fixedCost ≤ pool.poolRewards) (v : Nat) :
    validatorAmount e m pool v ≤ pool.fixedCost +
      m * (pool.poolRewards - pool.fixedCost) / 2 ^ e +
      c * (pool.poolRewards - pool.fixedCost) / 2 ^ e * v / pool.poolStake := by
  unfold validatorAmount
  cases hreward : validatorEpochReward e m pool v with
  | error err => exact Nat.zero_le _
  | ok reward =>
    unfold validatorEpochReward at hreward
    rw [if_neg (Nat.not_lt.mpr hcost)] at hreward
    obtain ⟨c', hc', hreward⟩ := bind_eq_ok.mp hreward
    obtain rfl : c = c' := Except.ok.inj (hc.symm.trans hc')
    obtain ⟨margin, hmargin, hreward⟩ := bind_eq_ok.mp hreward
    obtain ⟨rest, hrest, hreward⟩ := bind_eq_ok.mp hreward
    obtain ⟨residual, hresidual, hreward⟩ := bind_eq_ok.mp hreward
    obtain ⟨sum, hsum, hreward⟩ := bind_eq_ok.mp hreward
    obtain ⟨total, htotal, rfl⟩ := map_eq_ok.mp hreward
    have h1 := (safeMul_eq_ok.mp hmargin).2
    have h2 := (safeMul_eq_ok.mp hrest).2
    have h3 := (safe64MulDiv_eq_ok.mp hresidual).2.2
    have h4 := (safeAdd_eq_ok.mp hsum).2
    have h5 := (safeAdd_eq_ok.mp htotal).2
    rw [← h1] at h4
    rw [← h2] at h3
    show total ≤ _
    omega

theorem validatorAmount_eq_zero (hcost : pool.poolRewards < pool.fixedCost) (v : Nat) :
    validatorAmount e m pool v = 0 := by
  unfold validatorAmount validatorEpochReward
  rw [if_pos hcost]
  rfl

theorem distribution_bounded (h : v + ds.sum ≤ pool.poolStake) :
    validatorAmount e m pool v + (ds.map (delegatorAmount e m pool)).sum ≤ pool.poolRewards := by
  cases hc : scaleUpComplement m e with
  | error err =>
    -- without a complement nobody has a reward
    have hvalidator : validatorAmount e m pool v = 0 := by
      unfold validatorAmount validatorEpochReward
      rw [hc]
      split <;> rfl
    have hdelegator : ∀ d, delegatorAmount e m pool d = 0 := by
      intro d
      unfold delegatorAmount delegatorEpochReward
      rw [hc]
      rfl
    rw [hvalidator, map_congr_left (fun d _ => hdelegator d)]
    simp
  | ok c =>
    have hone := scaleUpComplement_eq_ok hc
    have hdelegators := sum_le_sum (f := delegatorAmount e m pool)
      (fun d (_ : d ∈ ds) => delegatorAmount_le hc d)
    split_ifs at hdelegators with hcost
    · have hvalidator := validatorAmount_le hc hcost v
      have hshares := shares_le (x := c * (pool.poolRewards - pool.fixedCost) / 2 ^ e) h
      -- margin and complement are parts of one
      have hparts : m * (pool.poolRewards - pool.fixedCost) / 2 ^ e +
          c * (pool.poolRewards - pool.fixedCost) / 2 ^ e ≤ pool.poolRewards - pool.fixedCost := by
        apply Nat.le_trans Nat.div_add_div_le_add_div
        rw [← Nat.add_mul, hone, Nat.mul_div_cancel_left _ (Nat.two_pow_pos e)]
      omega
    · have hshares := shares_le (x := c * pool.poolRewards / 2 ^ e) h
      have hpart : c * pool.poolRewards / 2 ^ e ≤ pool.poolRewards :=
        Nat.div_le_of_le_mul (Nat.mul_le_mul_right _ (by omega))
      rw [validatorAmount_eq_zero (Nat.lt_of_not_le hcost), Nat.zero_add]
      calc (ds.map (delegatorAmount e m pool)).sum
          ≤ (ds.map fun d => c * pool.poolRewards / 2 ^ e * d / pool.poolStake).sum := hdelegators
        _ ≤ c * pool.poolRewards / 2 ^ e := Nat.le_trans (Nat.le_add_left _ _) hshares
        _ ≤ pool.poolRewards := hpart

/-- No pool is over-distributed and no complement underflows, exactly if the sum of the total
    stakes is a word or wraps around to a number that is large enough. -/
theorem distribution_bounded_iff {V P : Nat} (hV : V < wordSize) (hP : P < wordSize)
    (hm : Tracker.calculateProfitMargin V P e = some (.ok m)) :
    (scaleUpComplement m e ≠ .error .underflow ∧
      ∀ (pool : PoolRewards) (v : Nat) (ds : List Nat), v + ds.sum ≤ pool.poolStake →
        validatorAmount e m pool v + (ds.map (delegatorAmount e m pool)).sum ≤ pool.poolRewards) ↔
      V + P < wordSize ∨ (wordSize - P) * 2 ^ e < V + P - wordSize := by
  rw [← margin_le_one_iff hV hP hm, Ne, scaleUpComplement_eq_underflow]
  constructor
  · intro h
    by_contra hgt
    apply h.1
    refine ⟨?_, Nat.lt_of_not_le hgt⟩
    -- a margin above one comes from a stake that could be shifted
    obtain ⟨hshift, _, hmargin⟩ := calculateProfitMargin_eq_ok.mp hm
    have hpos : 0 < V := by
      apply Nat.pos_of_ne_zero
      intro hzero
      rw [hzero, Nat.zero_mul, Nat.zero_div] at hmargin
      omega
    exact Nat.lt_of_le_of_lt (Nat.le_mul_of_pos_left _ hpos) hshift
  · intro hle
    exact ⟨fun h => Nat.not_lt.mpr hle h.2, fun pool v ds h => distribution_bounded h⟩

/-- A pool of which a tenth is staked by its validator. -/
theorem distribution_bounded_iff_tenth :
    validatorAmount 8 23 ⟨1000, 500, 20⟩ 100 = 106 ∧
      validatorAmount 8 23 ⟨1000, 500, 20⟩ 100 +
        ([300, 600].map (delegatorAmount 8 23 ⟨1000, 500, 20⟩)).sum ≤ 500 :=
  ⟨by decide, ((distribution_bounded_iff (V := 100) (P := 1000) (e := 8) (m := 23) (by decide)
    (by decide) (by decide)).mpr (.inl (by decide))).2 ⟨1000, 500, 20⟩ 100 [300, 600] (by decide)⟩

/-- With totals of `2 ^ 55` and `2 ^ 64 - 2 ^ 48` the margin is 258 / 256. -/
theorem margin_exceeds_one :
    Tracker.calculateProfitMargin (2 ^ 55) (2 ^ 64 - 2 ^ 48) 8 = some (.ok 258) ∧
      scaleUpComplement 258 8 = .error .underflow ∧
      validatorEpochReward 8 258 ⟨1000, 500, 20⟩ 100 = .error .underflow ∧
      delegatorEpochReward 8 258 ⟨1000, 500, 20⟩ 300 = .error .underflow := by
  decide

end AxonCore.Performance

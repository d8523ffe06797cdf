import Mathlib.Algebra.BigOperators.Ring.List
import AxonCore.Committee.Totals
import AxonCore.Performance.Model

/-! # The rewards of an epoch

    A tracked validation block sets at most one bit of the activity vector of its slot and
    raises the count of its issuer by one, up to one more than allowed.  So the vector of a
    validator that did not issue too many blocks has at most as many bits as blocks are
    allowed, and its performance factor is at most that number.

    The coefficients of the pools are their shares of two totals, rounded down.  They add up to
    at most two, and each reward is at most half of the target reward times the coefficient. -/

namespace AxonCore.Performance

open AxonCore.Lib AxonCore.Committee AxonCore.Stores List EpochStore

variable {ID Hash : Type} [LinearOrder ID] {v : UInt8} {pf : ValidatorPerformance Hash}

namespace Tracker

/-! ## Section 1: One block -/

theorem countP_le_succ {l : List Nat} (hl : l.Nodup) {q r : Nat → Bool} {i : Nat}
    (h : ∀ j ∈ l, r j = true → q j = true ∨ j = i) : l.countP r ≤ l.countP q + 1 := by
  induction l with
  | nil => simp
  | cons a l ih =>
    obtain ⟨ha, hl⟩ := nodup_cons.mp hl
    rw [countP_cons, countP_cons]
    by_cases hai : a = i
    · -- `a` is the additional element, so that the rest has none
      have hrest : l.countP r ≤ l.countP q := by
        apply countP_mono_left
        intro j hj hr
        apply (h j (mem_cons_of_mem a hj) hr).resolve_right
        intro hji
        exact ha (hai ▸ hji ▸ hj)
      split <;> split <;> omega
    · have hle := ih hl fun j hj => h j (mem_cons_of_mem a hj)
      have haq : r a = true → q a = true := fun hr =>
        (h a mem_cons_self hr).resolve_right hai
      by_cases hr : r a = true
      · simp only [if_pos hr, if_pos (haq hr)]
        omega
      · simp only [if_neg hr]
        omega

theorem onesCount_shift_le (x : BitVec 32) (i : Nat) :
    onesCount (x ||| (1#32 <<< i)) ≤ onesCount x + 1 := by
  apply countP_le_succ (i := i) nodup_range
  intro j _ hj
  rw [BitVec.getLsbD_or, Bool.or_eq_true] at hj
  apply hj.imp_right
  intro hbit
  have hbit : (BitVec.twoPow 32 i).getLsbD j = true := hbit
  rw [BitVec.getLsbD_twoPow, Bool.and_eq_true, decide_eq_true_eq, decide_eq_true_eq] at hbit
  exact hbit.2.symm

/-- The performance of a validator that issued `n` blocks in a slot. -/
structure Counted (validationBlocksPerSlot : UInt8) (n : Nat) (pf : ValidatorPerformance Hash) :
    Prop where
  count : pf.blocksIssuedCount.toNat = min n (validationBlocksPerSlot.toNat + 1)
  ones : onesCount pf.slotActivityVector ≤ n

theorem counted_new (v : UInt8) :
    Counted v 0 (ValidatorPerformance.new : ValidatorPerformance Hash) where
  count := by
    rw [Nat.zero_min]
    rfl
  ones := by
    show onesCount 0 ≤ 0
    decide

theorem Counted.countBlock {n : Nat} (h : Counted v n pf) (hv : v.toNat ≤ 32) (subslot : Nat)
    (versionAndHash : Nat × Hash) : Counted v (n + 1) (countBlock v subslot versionAndHash pf) where
  count := by
    have hlimit : (v + 1).toNat = v.toNat + 1 := by
      rw [UInt8.toNat_add]
      exact Nat.mod_eq_of_lt (by show v.toNat + 1 < 256; omega)
    have hcount := h.count
    show (if pf.blocksIssuedCount < v + 1 then pf.blocksIssuedCount + 1
      else pf.blocksIssuedCount).toNat = _
    have hless_iff : pf.blocksIssuedCount < v + 1 ↔ pf.blocksIssuedCount.toNat < v.toNat + 1 := by
      rw [UInt8.lt_iff_toNat_lt, hlimit]
    by_cases hless : pf.blocksIssuedCount < v + 1
    · have hlt := hless_iff.mp hless
      have hsucc : (pf.blocksIssuedCount + 1).toNat = pf.blocksIssuedCount.toNat + 1 := by
        rw [UInt8.toNat_add]
        exact Nat.mod_eq_of_lt (by show pf.blocksIssuedCount.toNat + 1 < 256; omega)
      rw [if_pos hless, hsucc]
      omega
    · have hge := mt hless_iff.mpr hless
      rw [if_neg hless]
      omega
  ones := Nat.le_trans (onesCount_shift_le _ _) (Nat.add_le_add_right h.ones 1)

variable {p : Params} {t t' : Tracker ID Hash} {block : Block ID Hash}
  {m : Map ID (ValidatorPerformance Hash)}

/-- The block is counted: it is a validation block of a member of the committee, and there is a
    store for its slot. -/
def Counts (p : Params) (t : Tracker ID Hash) (block : Block ID Hash) (versionAndHash : Nat × Hash)
    (m : Map ID (ValidatorPerformance Hash)) : Prop :=
  block.validationBlock = some versionAndHash ∧
    t.isCommitteeMember p block.slot block.issuerID = some true ∧
    t.validatorPerformances block.slot = some m

theorem trackValidationBlock_of_not (h : ∀ versionAndHash m, ¬ Counts p t block versionAndHash m) :
    t.trackValidationBlock p block = some t := by
  unfold trackValidationBlock
  split
  · rfl
  · split
    · unfold trackCommitteeMemberPerformance
      split
      · rfl
      · exact absurd ⟨‹_›, ‹_›, ‹_›⟩ (h _ _)
    · rfl

/-- A block that is counted; the tracker panics if its subslot is negative. -/
theorem trackValidationBlock_of_counts {versionAndHash : Nat × Hash}
    (h : Counts p t block versionAndHash m) :
    t.trackValidationBlock p block =
      (t.subslotIndex p block.slot block.issuingTime).bind fun subslot =>
        if subslot < 0 then none
        else some (t.storePerformance block.slot m block.issuerID (countBlock
          (p.validationBlocksPerSlot (p.timeProvider.epochFromSlot block.slot)) subslot.toNat
          versionAndHash ((m.lookup block.issuerID).getD ValidatorPerformance.new))) := by
  unfold trackValidationBlock trackCommitteeMemberPerformance
  simp only [h.1, h.2.1, h.2.2]

theorem trackValidationBlock_cases (h : t.trackValidationBlock p block = some t') :
    (t' = t ∧ ∀ versionAndHash m, ¬ Counts p t block versionAndHash m) ∨
    ∃ versionAndHash m subslot, Counts p t block versionAndHash m ∧
      t.subslotIndex p block.slot block.issuingTime = some subslot ∧ ¬ subslot < 0 ∧
      t' = t.storePerformance block.slot m block.issuerID (countBlock
        (p.validationBlocksPerSlot (p.timeProvider.epochFromSlot block.slot)) subslot.toNat
        versionAndHash ((m.lookup block.issuerID).getD ValidatorPerformance.new)) := by
  by_cases hcounts : ∃ versionAndHash m, Counts p t block versionAndHash m
  · obtain ⟨versionAndHash, m, hcounts⟩ := hcounts
    rw [trackValidationBlock_of_counts hcounts] at h
    obtain ⟨subslot, hsubslot, h⟩ := Option.bind_eq_some_iff.mp h
    split_ifs at h
    exact .inr ⟨versionAndHash, m, subslot, hcounts, hsubslot, ‹_›, (Option.some.inj h).symm⟩
  · push Not at hcounts
    rw [trackValidationBlock_of_not hcounts] at h
    exact .inl ⟨(Option.some.inj h).symm, hcounts⟩

/-! ## Section 2: The blocks of an epoch -/

/-- The number of validation blocks that an account issued in a slot. -/
def issued (blocks : List (Block ID Hash)) (slot : Nat) (id : ID) : Nat :=
  blocks.countP fun b => b.validationBlock.isSome && decide (b.slot = slot) &&
    decide (b.issuerID = id)

variable {epoch slot : Nat}

/-- No block of the epoch has been tracked, and it has not been applied. -/
structure Fresh (p : Params) (t : Tracker ID Hash) (epoch : Nat) : Prop where
  performances : ∀ slot, p.timeProvider.epochStart epoch ≤ slot →
    slot ≤ p.timeProvider.epochEnd epoch → t.validatorPerformances slot = some ∅
  rewards : t.rewards.load epoch = none

theorem epochFromSlot_of_mem (hstart : p.timeProvider.epochStart epoch ≤ slot)
    (hend : slot ≤ p.timeProvider.epochEnd epoch) : p.timeProvider.epochFromSlot slot = epoch := by
  have hgenesis : p.timeProvider.genesisSlot ≤ slot :=
    Nat.le_trans (Nat.le_add_right _ _) hstart
  exact (p.timeProvider.epochFromSlot_eq_iff hgenesis).mpr ⟨hstart, hend⟩

/-- What the tracker knows after some blocks: it has counted the blocks of the members of the
    committee. -/
structure Tracked (p : Params) (epoch : Nat) (t : Tracker ID Hash) (blocks : List (Block ID Hash))
    (t' : Tracker ID Hash) : Prop where
  committees : t'.committeeStore = t.committeeStore
  rewards : t'.rewards = t.rewards
  performances : ∀ slot, p.timeProvider.epochStart epoch ≤ slot →
    slot ≤ p.timeProvider.epochEnd epoch → ∃ m, t'.validatorPerformances slot = some m ∧
      ∀ id, Counted (p.validationBlocksPerSlot epoch)
        (if t.isCommitteeMember p slot id = some true then issued blocks slot id else 0)
        ((m.lookup id).getD ValidatorPerformance.new)

theorem Fresh.tracked (h : Fresh p t epoch) : Tracked p epoch t [] t where
  committees := rfl
  rewards := rfl
  performances slot hstart hend := by
    refine ⟨∅, h.performances slot hstart hend, ?_⟩
    intro id
    have hzero : (if t.isCommitteeMember p slot id = some true
        then issued ([] : List (Block ID Hash)) slot id else 0) = 0 := by
      split <;> rfl
    rw [hzero]
    exact counted_new _

theorem issued_append (blocks : List (Block ID Hash)) (block : Block ID Hash) (slot : Nat)
    (id : ID) : issued (blocks ++ [block]) slot id = issued blocks slot id +
      if block.validationBlock.isSome ∧ block.slot = slot ∧ block.issuerID = id then 1 else 0 := by
  unfold issued
  rw [countP_append]
  congr 1
  rw [countP_cons, countP_nil, Nat.zero_add]
  simp only [Bool.and_eq_true, decide_eq_true_eq, and_assoc]

variable {blocks : List (Block ID Hash)} {id : ID} {totalValidatorStake totalStake target : Nat}

theorem issued_append_of_not
    (hnot : ¬ (block.validationBlock.isSome ∧ block.slot = slot ∧ block.issuerID = id)) :
    issued (blocks ++ [block]) slot id = issued blocks slot id := by
  rw [issued_append, if_neg hnot, Nat.add_zero]

theorem Tracked.append_storePerformance (h : Tracked p epoch t blocks t')
    (hv : (p.validationBlocksPerSlot epoch).toNat ≤ 32) {versionAndHash : Nat × Hash}
    (hblock : block.validationBlock = some versionAndHash)
    (hmember : t.isCommitteeMember p block.slot block.issuerID = some true)
    (hm : t'.validatorPerformances block.slot = some m) (subslot : Nat) :
    Tracked p epoch t (blocks ++ [block]) (t'.storePerformance block.slot m block.issuerID
      (countBlock (p.validationBlocksPerSlot (p.timeProvider.epochFromSlot block.slot)) subslot
        versionAndHash ((m.lookup block.issuerID).getD ValidatorPerformance.new))) where
  committees := h.committees
  rewards := h.rewards
  performances slot hstart hend := by
    obtain ⟨m', hm', hcounted⟩ := h.performances slot hstart hend
    unfold storePerformance
    simp only [Function.update_apply]
    by_cases hslot : slot = block.slot
    · rw [hslot, hm, Option.some.injEq] at hm'
      subst hm'
      rw [if_pos hslot]
      refine ⟨_, rfl, fun id => ?_⟩
      have hepoch := epochFromSlot_of_mem hstart hend
      rw [lookup_insert_eq]
      by_cases hid : id = block.issuerID
      · -- one more block of this account in this slot
        rw [← hslot, ← hid] at hmember
        rw [if_pos hid, if_pos hmember, issued_append,
          if_pos ⟨by rw [hblock]; rfl, hslot.symm, hid.symm⟩, ← hslot, hepoch, ← hid]
        have hone := hcounted id
        rw [if_pos hmember] at hone
        exact hone.countBlock hv subslot versionAndHash
      · rw [if_neg hid, issued_append_of_not (fun hall => hid hall.2.2.symm)]
        exact hcounted id
    · rw [if_neg hslot]
      refine ⟨m', hm', fun id => ?_⟩
      rw [issued_append_of_not (fun hall => hslot hall.2.1.symm)]
      exact hcounted id

theorem Tracked.step (hv : (p.validationBlocksPerSlot epoch).toNat ≤ 32) {s s' : Tracker ID Hash}
    (h : Tracked p epoch t blocks s) (hstep : s.trackValidationBlock p block = some s') :
    Tracked p epoch t (blocks ++ [block]) s' := by
  have hmember : s.isCommitteeMember p block.slot block.issuerID =
      t.isCommitteeMember p block.slot block.issuerID := by
    unfold isCommitteeMember loadCommitteeForEpoch
    rw [h.committees]
  rcases trackValidationBlock_cases hstep with
    ⟨rfl, hnot⟩ | ⟨versionAndHash, m, subslot, ⟨hblock, htrue, hm⟩, _, _, rfl⟩
  · refine ⟨h.committees, h.rewards, fun slot hstart hend => ?_⟩
    obtain ⟨m, hm, hcounted⟩ := h.performances slot hstart hend
    refine ⟨m, hm, fun id => ?_⟩
    by_cases htrue : t.isCommitteeMember p slot id = some true
    · -- the slot has a store, so that the block is not one of this member
      have hone := hcounted id
      rw [if_pos htrue] at hone ⊢
      rw [issued_append_of_not]
      · exact hone
      · rintro ⟨hsome, rfl, rfl⟩
        obtain ⟨versionAndHash, hblock⟩ := Option.isSome_iff_exists.mp hsome
        exact hnot versionAndHash m ⟨hblock, hmember.trans htrue, hm⟩
    · have hone := hcounted id
      rwa [if_neg htrue] at hone ⊢
  · exact h.append_storePerformance hv hblock (hmember ▸ htrue) hm subslot.toNat

theorem Fresh.run (h : Fresh p t epoch) (hv : (p.validationBlocksPerSlot epoch).toNat ≤ 32)
    (hrun : Lib.run (trackValidationBlock p) t blocks = some t') :
    Tracked p epoch t blocks t' := by
  have hall := run_history_invariant_of (G := fun _ _ => True) (I := Tracked p epoch t)
    (fun _ _ _ _ hs _ hstep => Tracked.step hv hs hstep) h.tracked
    (allSteps_of_forall (fun _ _ _ => trivial) t) hrun
  rwa [nil_append] at hall

/-! ## Section 3: Performance factors -/

omit [LinearOrder ID] in
theorem sumPerformanceFactors_le :
    ∀ {slots : List (Option (ValidatorPerformance Hash))} {sum : Nat},
      (∀ pf, some pf ∈ slots → pf.blocksIssuedCount ≤ v →
        onesCount pf.slotActivityVector ≤ v.toNat) →
      sumPerformanceFactors v slots = some sum → sum ≤ slots.length * v.toNat := by
  intro slots
  induction slots with
  | nil =>
    intro sum _ hsum
    rw [sumPerformanceFactors, Option.some.injEq] at hsum
    omega
  | cons slot slots ih =>
    intro sum hones hsum
    have hrest : ∀ pf, some pf ∈ slots → pf.blocksIssuedCount ≤ v →
        onesCount pf.slotActivityVector ≤ v.toNat :=
      fun pf hpf => hones pf (mem_cons_of_mem slot hpf)
    rw [length_cons, Nat.add_mul, Nat.one_mul]
    cases slot with
    | none =>
      have hle := ih hrest hsum
      omega
    | some pf =>
      rw [sumPerformanceFactors] at hsum
      by_cases hcount : pf.blocksIssuedCount > v
      · rw [if_pos hcount] at hsum
        cases hsum
      · rw [if_neg hcount] at hsum
        obtain ⟨rest, hrestsum, rfl⟩ := Option.map_eq_some_iff.mp hsum
        have hle := ih hrest hrestsum
        have hpf := hones pf mem_cons_self (UInt8.not_lt.mp hcount)
        omega

omit [LinearOrder ID] in
/-- One slot with too many blocks spoils the epoch. -/
theorem sumPerformanceFactors_eq_none (hcount : v < pf.blocksIssuedCount) :
    ∀ {slots : List (Option (ValidatorPerformance Hash))}, some pf ∈ slots →
      sumPerformanceFactors v slots = none := by
  intro slots
  induction slots with
  | nil => exact fun hmem => absurd hmem not_mem_nil
  | cons slot slots ih =>
    intro hmem
    rcases mem_cons.mp hmem with heq | htail
    · rw [← heq, sumPerformanceFactors, if_pos hcount]
    · have hnone := ih htail
      cases slot with
      | none => exact hnone
      | some pf' =>
        rw [sumPerformanceFactors, hnone]
        split <;> rfl

theorem Tracked.mem_validatorPerformances (h : Tracked p epoch t blocks t') (id : ID)
    (hstart : p.timeProvider.epochStart epoch ≤ slot)
    (hend : slot ≤ p.timeProvider.epochEnd epoch) :
    ∃ pf, some pf ∈ t'.validatorPerformancesInEpoch p epoch id ∧
      Counted (p.validationBlocksPerSlot epoch)
        (if t.isCommitteeMember p slot id = some true then issued blocks slot id else 0) pf := by
  obtain ⟨m, hm, hcounted⟩ := h.performances slot hstart hend
  refine ⟨(m.lookup id).getD ValidatorPerformance.new, ?_, hcounted id⟩
  apply mem_map.mpr
  exact ⟨slot, mem_upTo.mpr ⟨hstart, hend⟩, by rw [hm]; rfl⟩

theorem Tracked.epochPerformanceFactor_le (h : Tracked p epoch t blocks t') (id : ID) :
    t'.epochPerformanceFactor p epoch id ≤ (p.validationBlocksPerSlot epoch).toNat := by
  have hlength : (t'.validatorPerformancesInEpoch p epoch id).length =
      2 ^ p.slotsPerEpochExponent := by
    have hnext := p.timeProvider.epochEnd_add_one epoch
    unfold validatorPerformancesInEpoch upTo
    rw [length_map, length_range', hnext, ← p.epochDurationSlots_eq]
    unfold TimeProvider.epochStart
    rw [Nat.add_mul]
    omega
  have hones : ∀ pf, some pf ∈ t'.validatorPerformancesInEpoch p epoch id →
      pf.blocksIssuedCount ≤ p.validationBlocksPerSlot epoch →
      onesCount pf.slotActivityVector ≤ (p.validationBlocksPerSlot epoch).toNat := by
    intro pf hpf hcount
    obtain ⟨slot, hslot, hpf⟩ := mem_map.mp hpf
    obtain ⟨hstart, hend⟩ := mem_upTo.mp hslot
    obtain ⟨m, hm, hcounted⟩ := h.performances slot hstart hend
    rw [hm, Option.map_some, Option.some.injEq] at hpf
    have hone := hcounted id
    rw [hpf] at hone
    have hexact := hone.count
    have hle := hone.ones
    rw [UInt8.le_iff_toNat_le] at hcount
    omega
  unfold epochPerformanceFactor aggregatePerformanceFactors
  cases hsum : sumPerformanceFactors (p.validationBlocksPerSlot epoch)
      (t'.validatorPerformancesInEpoch p epoch id) with
  | none =>
    rw [Option.getD_none, Nat.zero_div]
    exact Nat.zero_le _
  | some sum =>
    have hle := sumPerformanceFactors_le hones hsum
    rw [hlength] at hle
    rw [Option.getD_some]
    exact Nat.div_le_of_le_mul hle

/-- A member that issued too many blocks in a slot has performance factor zero. -/
theorem Tracked.epochPerformanceFactor_eq_zero (h : Tracked p epoch t blocks t')
    (hstart : p.timeProvider.epochStart epoch ≤ slot)
    (hend : slot ≤ p.timeProvider.epochEnd epoch)
    (hmember : t.isCommitteeMember p slot id = some true)
    (hissued : (p.validationBlocksPerSlot epoch).toNat < issued blocks slot id) :
    t'.epochPerformanceFactor p epoch id = 0 := by
  obtain ⟨pf, hmem, hcounted⟩ := h.mem_validatorPerformances id hstart hend
  rw [if_pos hmember] at hcounted
  have hcount : p.validationBlocksPerSlot epoch < pf.blocksIssuedCount := by
    have := hcounted.count
    rw [UInt8.lt_iff_toNat_lt]
    omega
  unfold epochPerformanceFactor aggregatePerformanceFactors
  rw [sumPerformanceFactors_eq_none hcount hmem, Option.getD_none, Nat.zero_div]

/-! ## Section 4: Pool rewards -/

/-- The pool coefficient, scaled up by `2 ^ exponent`. -/
def coefficient (exponent totalStake totalValidatorStake : Nat) (pool : Pool) : Nat :=
  pool.poolStake * 2 ^ exponent / totalStake +
    pool.validatorStake * 2 ^ exponent / totalValidatorStake

/-- The reward of a pool is at most half of the target reward times its coefficient. -/
theorem poolReward_le {reward : Nat} {pool : Pool} {performanceFactor : Nat}
    (htarget : p.targetReward epoch = some target)
    (hfactor : performanceFactor ≤ (p.validationBlocksPerSlot epoch).toNat)
    (hreward : poolReward p (p.timeProvider.epochEnd epoch) totalValidatorStake totalStake
      pool.poolStake pool.validatorStake performanceFactor = some reward) :
    reward ≤ coefficient (p.poolCoefficientExponent epoch) totalStake totalValidatorStake pool *
      target / (2 ^ p.poolCoefficientExponent epoch * 2) := by
  have hepoch : p.timeProvider.epochFromSlot (p.timeProvider.epochEnd epoch) = epoch :=
    epochFromSlot_of_mem (Nat.le_of_lt_succ (by
      rw [Nat.succ_eq_add_one, p.timeProvider.epochEnd_add_one]
      exact p.timeProvider.epochStart_lt_succ epoch)) (Nat.le_refl _)
  unfold poolReward at hreward
  rw [hepoch, htarget, Option.bind_some] at hreward
  have hok := toOption_eq_some.mp hreward
  unfold scaledReward calculatePoolCoefficient at hok
  rw [hepoch] at hok
  obtain ⟨poolCoefficient, hcoefficient, hok⟩ := bind_eq_ok.mp hok
  obtain ⟨scaled, hscaled, hok⟩ := bind_eq_ok.mp hok
  obtain ⟨weighted, hweighted, hok⟩ := bind_eq_ok.mp hok
  obtain ⟨quotient, hquotient, hok⟩ := bind_eq_ok.mp hok
  obtain ⟨shifted1, hshifted1, hcoefficient⟩ := bind_eq_ok.mp hcoefficient
  obtain ⟨result1, hresult1, hcoefficient⟩ := bind_eq_ok.mp hcoefficient
  obtain ⟨shifted2, hshifted2, hcoefficient⟩ := bind_eq_ok.mp hcoefficient
  obtain ⟨result2, hresult2, hcoefficient⟩ := bind_eq_ok.mp hcoefficient
  have h1 := (safeLeftShift_eq_ok.mp hshifted1).2
  have h2 := (safeDiv_eq_ok.mp hresult1).2
  have h3 := (safeLeftShift_eq_ok.mp hshifted2).2
  have h4 := (safeDiv_eq_ok.mp hresult2).2
  have h5 := (safeAdd_eq_ok.mp hcoefficient).2
  have h6 := (safeMul_eq_ok.mp hscaled).2
  have h7 := (safeMul_eq_ok.mp hweighted).2
  obtain ⟨hpos, h8⟩ := safeDiv_eq_ok.mp hquotient
  have h9 : quotient / 2 = reward := Except.ok.inj hok
  have hcoeff : poolCoefficient =
      coefficient (p.poolCoefficientExponent epoch) totalStake totalValidatorStake pool := by
    unfold coefficient
    rw [← h5, ← h2, ← h4, ← h1, ← h3]
  calc reward = quotient / 2 := h9.symm
    _ ≤ poolCoefficient * target / 2 ^ p.poolCoefficientExponent epoch / 2 := by
        apply Nat.div_le_div_right
        rw [← h8, ← h7, ← h6]
        apply Nat.div_le_of_le_mul
        rw [Nat.mul_comm]
        exact Nat.mul_le_mul_right _ hfactor
    _ = _ := by rw [Nat.div_div_eq_div_mul, hcoeff]

omit [LinearOrder ID] in
theorem sum_coefficient_le (exponent : Nat) {l : List (Sigma fun _ : ID => Pool)}
    (hstake : (l.map fun e => e.2.poolStake).sum = totalStake)
    (hvalidator : (l.map fun e => e.2.validatorStake).sum = totalValidatorStake) :
    (l.map fun e => coefficient exponent totalStake totalValidatorStake e.2).sum ≤
      2 ^ exponent * 2 := by
  have hshares : ∀ (f : Pool → Nat) (whole : Nat), (l.map fun e => f e.2).sum = whole →
      (l.map fun e => f e.2 * 2 ^ exponent / whole).sum ≤ 2 ^ exponent := by
    intro f whole hwhole
    calc (l.map fun e => f e.2 * 2 ^ exponent / whole).sum
        ≤ (l.map fun e => f e.2 * 2 ^ exponent).sum / whole := sum_map_div_le _ _ _
      _ = whole * 2 ^ exponent / whole := by rw [sum_map_mul_right, hwhole]
      _ ≤ 2 ^ exponent := Nat.div_le_of_le_mul (Nat.le_refl _)
  have h1 := hshares Pool.poolStake totalStake hstake
  have h2 := hshares Pool.validatorStake totalValidatorStake hvalidator
  have hsum : (l.map fun e => coefficient exponent totalStake totalValidatorStake e.2).sum =
      (l.map fun e => e.2.poolStake * 2 ^ exponent / totalStake).sum +
        (l.map fun e => e.2.validatorStake * 2 ^ exponent / totalValidatorStake).sum :=
    sum_map_add
  omega

variable {accounts : Accounts ID}

/-- What the loop of `ApplyEpoch` adds to a map: rewards within the shares of the pools, and
    only for pools whose performance factor is not zero. -/
theorem run_applyPool (htarget : p.targetReward epoch = some target)
    (hfactor : ∀ id, t.epochPerformanceFactor p epoch id ≤
      (p.validationBlocksPerSlot epoch).toNat) :
    ∀ {pools : List (Sigma fun _ : ID => Pool)} {m m' : Map ID PoolRewards}, pools.NodupKeys →
      (∀ e ∈ pools, m.lookup e.1 = none) →
      Lib.run (t.applyPool p epoch accounts) m pools = some m' →
      total PoolRewards.poolRewards m' ≤ total PoolRewards.poolRewards m +
        (pools.map fun e => coefficient (p.poolCoefficientExponent epoch) accounts.totalStake
          accounts.totalValidatorStake e.2 * target /
            (2 ^ p.poolCoefficientExponent epoch * 2)).sum := by
  intro pools
  induction pools with
  | nil =>
    intro m m' _ _ hrun
    rw [run_nil, Option.some.injEq] at hrun
    rw [hrun]
    exact Nat.le_add_right _ _
  | cons e pools ih =>
    intro m m' hnodup habsent hrun
    rw [nodupKeys_cons] at hnodup
    obtain ⟨b, hstep, hrest⟩ := Option.bind_eq_some_iff.mp hrun
    rw [map_cons, sum_cons]
    unfold applyPool at hstep
    by_cases hzero : t.epochPerformanceFactor p epoch e.1 = 0
    · -- the pool gets no entry
      simp only [hzero, if_true, Option.some.injEq] at hstep
      subst hstep
      have hle := ih hnodup.2 (fun e' he' => habsent e' (mem_cons_of_mem e he')) hrest
      exact Nat.le_trans hle (Nat.add_le_add_left (Nat.le_add_left _ _) _)
    · simp only [hzero, if_false] at hstep
      obtain ⟨reward, hreward, rfl⟩ := Option.map_eq_some_iff.mp hstep
      have hone := poolReward_le htarget (hfactor e.1) hreward
      have hle := ih hnodup.2 (by
        intro e' he'
        have hne : e'.1 ≠ e.1 := fun heq => hnodup.1 (heq ▸ mem_keys_of_mem he')
        rw [lookup_insert_eq, if_neg hne]
        exact habsent e' (mem_cons_of_mem e he')) hrest
      rw [total_insert_of_none _ (habsent e mem_cons_self)] at hle
      simp only at hle
      omega

theorem lookup_run_applyPool :
    ∀ {pools : List (Sigma fun _ : ID => Pool)} {m m' : Map ID PoolRewards},
      (id ∈ pools.keys → t.epochPerformanceFactor p epoch id = 0) →
      Lib.run (t.applyPool p epoch accounts) m pools = some m' → m'.lookup id = m.lookup id := by
  intro pools
  induction pools with
  | nil =>
    intro m m' _ hrun
    rw [run_nil, Option.some.injEq] at hrun
    rw [hrun]
  | cons e pools ih =>
    intro m m' hzero hrun
    obtain ⟨b, hstep, hrest⟩ := Option.bind_eq_some_iff.mp hrun
    have htail : id ∈ pools.keys → t.epochPerformanceFactor p epoch id = 0 :=
      fun hmem => hzero (mem_cons_of_mem e.1 hmem)
    rw [ih htail hrest]
    unfold applyPool at hstep
    by_cases hfactor : t.epochPerformanceFactor p epoch e.1 = 0
    · simp only [hfactor, if_true, Option.some.injEq] at hstep
      rw [← hstep]
    · simp only [hfactor, if_false] at hstep
      obtain ⟨reward, _, rfl⟩ := Option.map_eq_some_iff.mp hstep
      have hne : id ≠ e.1 := fun heq => hfactor (heq ▸ hzero (heq ▸ mem_cons_self))
      rw [lookup_insert_eq, if_neg hne]

omit [LinearOrder ID] in
theorem sum_shares_le (h : accounts.Balanced) (exponent target : Nat) :
    (accounts.accountPools.entries.map fun e => coefficient exponent accounts.totalStake
      accounts.totalValidatorStake e.2 * target / (2 ^ exponent * 2)).sum ≤ target := by
  have hsum := sum_coefficient_le exponent h.totalStake.symm
    h.totalValidatorStake.symm
  calc (accounts.accountPools.entries.map fun e => coefficient exponent accounts.totalStake
        accounts.totalValidatorStake e.2 * target / (2 ^ exponent * 2)).sum
      ≤ (accounts.accountPools.entries.map fun e => coefficient exponent accounts.totalStake
          accounts.totalValidatorStake e.2 * target).sum / (2 ^ exponent * 2) :=
        sum_map_div_le _ _ _
    _ ≤ target := by
        rw [sum_map_mul_right]
        apply Nat.div_le_of_le_mul
        exact Nat.mul_le_mul_right target hsum

/-! ## Section 5: The bound on the emission -/

/-- The rewards of an epoch do not exceed its target reward, no performance factor exceeds the
    number of blocks that are allowed in a slot, and who issued more blocks than that in some
    slot has no reward. -/
theorem emission_bounded {committee : SeatedAccounts ID} {blocks : List (Block ID Hash)}
    {t'' : Tracker ID Hash} (hv : (p.validationBlocksPerSlot epoch).toNat ≤ 32)
    (hfresh : Fresh p t epoch)
    (hcommittee : t.loadCommitteeForEpoch epoch = some committee)
    (hrun : Lib.run (trackValidationBlock p) t blocks = some t')
    (happly : t'.applyEpoch p epoch committee = some t'') :
    ∃ rewardsMap, t''.rewards.load epoch = some rewardsMap ∧
      (∀ target, p.targetReward epoch = some target →
        total PoolRewards.poolRewards rewardsMap ≤ target) ∧
      (∀ id, t'.epochPerformanceFactor p epoch id ≤ (p.validationBlocksPerSlot epoch).toNat) ∧
      ∀ id slot, p.timeProvider.epochStart epoch ≤ slot → slot ≤ p.timeProvider.epochEnd epoch →
        (p.validationBlocksPerSlot epoch).toNat < issued blocks slot id →
        rewardsMap.lookup id = none := by
  have htracked := hfresh.run hv hrun
  obtain ⟨accounts, haccounts, happly⟩ := Option.bind_eq_some_iff.mp happly
  obtain ⟨margin, _, happly⟩ := Option.bind_eq_some_iff.mp happly
  obtain ⟨profitMargin, _, happly⟩ := Option.bind_eq_some_iff.mp happly
  obtain ⟨rewardsMap, hloop, rfl⟩ := Option.map_eq_some_iff.mp happly
  rw [htracked.rewards, hfresh.rewards, Option.getD_none] at hloop
  obtain ⟨hbalanced, hseats⟩ := SeatedAccounts.accountsOf_spec (toOption_eq_some.mp haccounts)
  refine ⟨rewardsMap, by rw [storeEpoch, load_store, if_pos rfl], ?_,
    htracked.epochPerformanceFactor_le, ?_⟩
  · intro target htarget
    have hle := run_applyPool htarget htracked.epochPerformanceFactor_le
      accounts.accountPools.nodupKeys (fun _ _ => rfl) hloop
    rw [total_empty, Nat.zero_add] at hle
    exact Nat.le_trans hle (sum_shares_le hbalanced _ target)
  · intro id slot hstart hend hissued
    apply lookup_run_applyPool _ hloop
    intro hmem
    -- a pool is a member of the committee of the epoch
    have hmember : t.isCommitteeMember p slot id = some true := by
      unfold isCommitteeMember
      rw [epochFromSlot_of_mem hstart hend, hcommittee, Option.map_some,
        hseats id ((mem_keys_iff accounts.accountPools id).mp hmem)]
    exact htracked.epochPerformanceFactor_eq_zero hstart hend hmember hissued

/-- Two slots in an epoch, two validation blocks in a slot, a target reward of 1000. -/
def smallParams : Params where
  timeProvider := ⟨0, 2, Nat.two_pos⟩
  slotsPerEpochExponent := 1
  epochDurationSlots_eq := rfl
  slotDurationSeconds := 10
  slotStartTime slot := 10000000000 * slot
  maxCommittableAge := 4
  minCommittableAge := 2
  validationBlocksPerSlot _ := 2
  profitMarginExponent _ := 8
  poolCoefficientExponent _ := 11
  retentionPeriod _ := 10
  targetReward _ := some 1000
  decayManaByEpochs mana _ _ := some mana

/-- A committee of two. -/
def twoMembers : SeatedAccounts Nat where
  accounts := ⟨(AList.insert 1 ⟨60, 20, 1⟩ (AList.singleton 2 ⟨40, 10, 1⟩) : Map Nat Pool), 100, 30⟩
  seatsByAccount := AList.insert 1 0 (AList.singleton 2 1)
  reused := false

/-- The tracker at the start of epoch 1. -/
def epochOne : Tracker Nat Unit where
  rewards := empty
  poolStatsStore := empty
  committeeStore := empty.store 1 twoMembers
  committeeCandidates _ := ∅
  nextEpochCommitteeCandidates := ∅
  validatorPerformances _ := some ∅
  latestAppliedEpoch := 0

/-- A validation block in a subslot of slot 2 or 3. -/
def validationBlockAt (issuerID slot : Nat) (subslot : Int) : Block Nat Unit where
  slot := slot
  issuerID := issuerID
  issuingTime := 10000000000 * slot + 5000000000 * subslot
  validationBlock := some (1, ())
  isCandidacyAnnouncement := false

/-- Account 1 issues the two blocks that are allowed in both slots; account 2 issues a third
    block in slot 3. -/
def epochOneBlocks : List (Block Nat Unit) :=
  [validationBlockAt 1 2 0, validationBlockAt 1 2 1, validationBlockAt 2 2 0,
    validationBlockAt 1 3 0, validationBlockAt 1 3 1, validationBlockAt 2 3 0,
    validationBlockAt 2 3 1, validationBlockAt 2 3 1]

theorem emission_bounded_thirdBlock :
    ∃ t' t'' rewardsMap,
      Lib.run (trackValidationBlock smallParams) epochOne epochOneBlocks = some t' ∧
      t'.applyEpoch smallParams 1 twoMembers = some t'' ∧
      t''.rewards.load 1 = some rewardsMap ∧ (rewardsMap.lookup 1).isSome ∧
      total PoolRewards.poolRewards rewardsMap ≤ 1000 ∧ rewardsMap.lookup 2 = none := by
  obtain ⟨t', hrun, t'', happly, m, hload, hsome⟩ :
      ∃ t', Lib.run (trackValidationBlock smallParams) epochOne epochOneBlocks = some t' ∧
        ∃ t'', t'.applyEpoch smallParams 1 twoMembers = some t'' ∧
          ∃ m, t''.rewards.load 1 = some m ∧ (m.lookup 1).isSome := by
    decide +kernel
  have hfresh : Fresh smallParams epochOne 1 := ⟨fun _ _ _ => rfl, rfl⟩
  have hcommittee : epochOne.loadCommitteeForEpoch 1 = some twoMembers := rfl
  obtain ⟨m', hload', hbound, _, hnone⟩ :=
    emission_bounded (by decide) hfresh hcommittee hrun happly
  have hm : m = m' := Option.some.inj (hload.symm.trans hload')
  subst hm
  exact ⟨t', t'', m, hrun, happly, hload, hsome, hbound 1000 rfl,
    hnone 2 3 (by decide) (by decide) (by decide)⟩

end Tracker

end AxonCore.Performance

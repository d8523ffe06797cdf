import AxonCore.Performance.Snapshot

/-! # Snapshot round trip

    `Imported` says what a tracker holds that imported an exported snapshot; it follows the rules of
    the export one by one.  `RoundTrip` says what it should hold: the data of the epochs that had
    ended by the target slot, the performances of the epoch in progress, and the committees up to
    that epoch.  `Exportable` says in which states of the exporting node the two are the same:

    * in epoch 0 the export takes epoch 0 for committed, so it must not be applied yet;
    * committees of all later epochs are exported, not only the one of the next epoch;
    * a target slot in epoch 1 needs the performances of epoch 0, too;
    * the rewards of the retention period before the target slot must not be pruned.

    `Continues` is what the round trip is for: the importing node applies the epoch in progress
    with the same result, if it is given the same later blocks.  The subslot of a block is computed
    with the parameters of the epoch that was applied last, which differs between the nodes; they
    agree as long as the number of validation blocks per slot does not change. -/

namespace AxonCore.Performance

open AxonCore.Lib AxonCore.Committee AxonCore.Stores List EpochStore Node

variable {ID Hash : Type} [LinearOrder ID] {p : Params}

/-! ## Section 1: Target epochs -/

/-- The first epoch that has not ended by a slot. -/
def epochInProgress (p : Params) (slot : Nat) : Nat := p.timeProvider.epochFromSlot (slot + 1)

theorem epochInProgress_cases {slot : Nat} (h : p.timeProvider.genesisSlot ≤ slot) :
    (epochInProgress p slot = p.timeProvider.epochFromSlot slot + 1 ∧
      p.timeProvider.epochEnd (p.timeProvider.epochFromSlot slot) = slot) ∨
    (epochInProgress p slot = p.timeProvider.epochFromSlot slot ∧
      p.timeProvider.epochEnd (p.timeProvider.epochFromSlot slot) ≠ slot) := by
  unfold epochInProgress
  rw [p.timeProvider.epochFromSlot_succ h]
  split_ifs with hend
  · exact .inl ⟨rfl, hend⟩
  · exact .inr ⟨rfl, hend⟩

theorem exportTargetEpoch_eq {slot : Nat} (h : p.timeProvider.genesisSlot ≤ slot) :
    exportTargetEpoch p slot = epochInProgress p slot - 1 := by
  unfold exportTargetEpoch
  rcases epochInProgress_cases h with hcase | hcase
  · rw [hcase.1, if_neg (fun hne => hne.1 hcase.2)]
    rfl
  · rw [hcase.1]
    by_cases hzero : p.timeProvider.epochFromSlot slot > 0
    · rw [if_pos ⟨hcase.2, hzero⟩]
    · rw [if_neg (fun hne => hzero hne.2)]
      omega

/-- The export of performances starts with the epoch in progress; in epoch 1 it starts with
    epoch 0. -/
theorem exportStartSlot_eq {slot : Nat} (h : p.timeProvider.genesisSlot ≤ slot) :
    exportStartSlot p slot =
      p.timeProvider.epochStart (if epochInProgress p slot ≤ 1 then 0 else
        epochInProgress p slot) := by
  unfold exportStartSlot
  rw [exportTargetEpoch_eq h]
  by_cases hone : epochInProgress p slot ≤ 1
  · have hzero : epochInProgress p slot - 1 = 0 := by omega
    rw [if_pos hone, hzero]
    rfl
  · have hpos : epochInProgress p slot - 1 ≠ 0 := by omega
    have hsucc : epochInProgress p slot - 1 + 1 = epochInProgress p slot := by omega
    simp only [if_neg hone, if_neg hpos, hsucc]

/-! ## Section 2: The exporting node -/

/-- What holds of every node: the stores know their last epoch, and the committees are well
    formed. -/
structure Sound (n : Node ID Hash) : Prop where
  poolStats : ∀ {epoch : Nat} {stats : PoolsStats},
    n.tracker.poolStatsStore.load epoch = some stats →
      epoch ≤ n.tracker.poolStatsStore.lastAccessedEpoch
  committees : ∀ {epoch : Nat} {c : SeatedAccounts ID},
    n.tracker.committeeStore.load epoch = some c →
      epoch ≤ n.tracker.committeeStore.lastAccessedEpoch ∧ WellFormed c

/-- The seat manager stores well-formed committees. -/
def Proper : NodeOp ID Hash → Prop
  | .storeCommittee _ committee => WellFormed committee
  | _ => True

theorem Sound.storeEpoch {n : Node ID Hash} (h : Sound n) (epoch : Nat) (poolsStats : PoolsStats)
    (rewardsMap : Map ID PoolRewards) :
    Sound { n with tracker := n.tracker.storeEpoch epoch poolsStats rewardsMap } where
  poolStats := by
    intro e stats hload
    have hload : (n.tracker.poolStatsStore.store epoch poolsStats).load e = some stats := hload
    have hlast := n.tracker.poolStatsStore.le_lastAccessedEpoch_store epoch poolsStats
    show e ≤ (n.tracker.poolStatsStore.store epoch poolsStats).lastAccessedEpoch
    rw [load_store] at hload
    split at hload
    · omega
    · exact Nat.le_trans (h.poolStats hload) hlast.1
  committees := h.committees

theorem Sound.step {n n' : Node ID Hash} (h : Sound n) {op : NodeOp ID Hash} (hop : Proper op)
    (hstep : n.step p op = some n') : Sound n' := by
  cases op with
  | track block =>
    obtain ⟨t, ht, rfl⟩ := Option.map_eq_some_iff.mp hstep
    obtain ⟨performances, rfl⟩ := trackValidationBlock_eq ht
    exact ⟨h.poolStats, h.committees⟩
  | storeCommittee epoch committee =>
    rw [← Option.some.inj hstep]
    refine ⟨h.poolStats, ?_⟩
    intro e c hload
    have hlast := n.tracker.committeeStore.le_lastAccessedEpoch_store epoch committee
    rw [load_store] at hload
    split at hload
    · rename_i he
      exact ⟨he ▸ hlast.2, Option.some.inj hload ▸ hop⟩
    · obtain ⟨hle, hwell⟩ := h.committees hload
      exact ⟨Nat.le_trans hle hlast.1, hwell⟩
  | commit =>
    obtain ⟨t, ht, rfl⟩ := Option.map_eq_some_iff.mp hstep
    unfold commitSlot at ht
    dsimp only at ht
    split at ht
    · obtain ⟨committee, _, happly⟩ := Option.bind_eq_some_iff.mp ht
      obtain ⟨poolsStats, rewardsMap, rfl⟩ := applyEpoch_eq happly
      have hsound := h.storeEpoch (p.timeProvider.epochFromSlot (n.lastCommittedSlot + 1))
        poolsStats rewardsMap
      exact ⟨hsound.poolStats, hsound.committees⟩
    · obtain rfl := Option.some.inj ht
      exact ⟨h.poolStats, h.committees⟩
  | restart =>
    rw [← Option.some.inj hstep]
    exact ⟨h.poolStats, h.committees⟩
  | prune epoch =>
    rw [← Option.some.inj hstep]
    refine ⟨?_, h.committees⟩
    intro e stats hload
    have hload : ((upTo 0 epoch).foldl deleteEpoch n.tracker.poolStatsStore).entries e =
      some stats := hload
    show e ≤ ((upTo 0 epoch).foldl deleteEpoch n.tracker.poolStatsStore).lastAccessedEpoch
    rw [entries_foldl_deleteEpoch] at hload
    rw [lastAccessedEpoch_foldl_deleteEpoch]
    split_ifs at hload
    exact h.poolStats hload
  | pruneSlots slot =>
    rw [← Option.some.inj hstep]
    exact ⟨h.poolStats, h.committees⟩

/-! ## Section 3: What is imported -/

variable {n : Node ID Hash} {slot epoch : Nat} {y : Tracker ID Hash} {c : SeatedAccounts ID}

/-- The contents of a tracker that imported the snapshot of a slot, rule by rule. -/
structure Imported (p : Params) (n : Node ID Hash) (slot : Nat) (y : Tracker ID Hash) : Prop where
  rewards : ∀ epoch, Option.Rel SameEntries (y.rewards.load epoch)
    (if exportedRewardEpoch p (epochInProgress p slot - 1) ≤ epoch ∧
        epoch ≤ epochInProgress p slot - 1 then n.tracker.rewards.load epoch else none)
  poolStats : ∀ epoch, y.poolStatsStore.load epoch =
    if epoch ≤ epochInProgress p slot - 1 then n.tracker.poolStatsStore.load epoch else none
  performances : ∀ s, exportStartSlot p slot ≤ s → s ≤ slot →
    Option.Rel SameEntries (y.validatorPerformances s) (n.tracker.validatorPerformances s)
  otherPerformances : ∀ s, ¬ (exportStartSlot p slot ≤ s ∧ s ≤ slot) →
    y.validatorPerformances s = some ∅
  committees : ∀ epoch, Option.Rel SameCommittee (y.committeeStore.load epoch)
    (n.exportedCommittee p slot epoch)

theorem upTo_nodup (first last : Nat) : (upTo first last).Nodup := nodup_range'

omit [LinearOrder ID] in
theorem exportedCommittee_eq_some (h : n.exportedCommittee p slot epoch = some c) :
    n.tracker.committeeStore.load epoch = some c :=
  (Option.filter_eq_some_iff.mp h).1

/-- When an export succeeds: the slots and the rewards that it visits are not pruned. -/
theorem exportSnapshot_isSome_iff (hsound : Sound n) (hslot : p.timeProvider.genesisSlot ≤ slot) :
    (n.exportSnapshot p slot).isSome ↔
      (∀ s, exportStartSlot p slot ≤ s → s ≤ slot →
        (n.tracker.validatorPerformances s).isSome) ∧
      n.firstRetainedEpoch ≤ exportedRewardEpoch p (epochInProgress p slot - 1) := by
  have hperformances : (n.exportPerformanceFactor (exportStartSlot p slot) slot).isSome ↔
      ∀ s, exportStartSlot p slot ≤ s → s ≤ slot →
        (n.tracker.validatorPerformances s).isSome := by
    unfold exportPerformanceFactor
    simp
  have hrewards : (n.exportPoolRewards p (epochInProgress p slot - 1)).isSome ↔
      n.firstRetainedEpoch ≤ exportedRewardEpoch p (epochInProgress p slot - 1) := by
    have hearliest : exportedRewardEpoch p (epochInProgress p slot - 1) ≤
        epochInProgress p slot - 1 := by
      unfold exportedRewardEpoch
      split <;> omega
    unfold exportPoolRewards
    simp only [all_reverse, Option.isSome_ite, all_eq_true, mem_upTo, decide_eq_true_eq]
    exact ⟨fun h => h _ ⟨Nat.le_refl _, hearliest⟩, fun h e he => Nat.le_trans h he.1⟩
  have hcommittees : (n.exportCommittees p slot).isSome := by
    unfold exportCommittees
    simp only [Option.isSome_ite, all_eq_true]
    intro epoch _
    cases hc : n.exportedCommittee p slot epoch with
    | none => rfl
    | some c =>
      obtain ⟨a, ha, _⟩ := (hsound.committees (exportedCommittee_eq_some hc)).2.importCommittee
      show c.accountsOf.toOption.isSome = true
      rw [toOption_eq_some.mpr ha]
      rfl
  obtain ⟨committees, hcommittees⟩ := Option.isSome_iff_exists.mp hcommittees
  unfold exportSnapshot
  rw [exportTargetEpoch_eq hslot, ← hperformances, ← hrewards, hcommittees]
  dsimp only
  cases n.exportPerformanceFactor (exportStartSlot p slot) slot with
  | none => simp
  | some performanceFactors =>
    cases n.exportPoolRewards p (epochInProgress p slot - 1) with
    | none => simp
    | some poolRewards => simp

theorem importSnapshot_exportSnapshot (hsound : Sound n) (hslot : p.timeProvider.genesisSlot ≤ slot)
    {snapshot : Snapshot ID Hash} (hexport : n.exportSnapshot p slot = some snapshot)
    (latestAppliedEpoch : Nat) :
    ∃ y, (Tracker.empty latestAppliedEpoch).importSnapshot snapshot = some y ∧
      y.latestAppliedEpoch = latestAppliedEpoch ∧ Imported p n slot y := by
  unfold exportSnapshot at hexport
  rw [exportTargetEpoch_eq hslot] at hexport
  obtain ⟨performanceFactors, hperformanceFactors, hexport⟩ := Option.bind_eq_some_iff.mp hexport
  obtain ⟨poolRewards, hpoolRewards, hexport⟩ := Option.bind_eq_some_iff.mp hexport
  obtain ⟨committees, hcommittees, rfl⟩ := Option.map_eq_some_iff.mp hexport
  -- what the four collections are
  obtain ⟨hretained, hperformanceFactors⟩ := Option.ite_none_right_eq_some.mp hperformanceFactors
  obtain ⟨_, hpoolRewards⟩ := Option.ite_none_right_eq_some.mp hpoolRewards
  obtain ⟨_, hcommittees⟩ := Option.ite_none_right_eq_some.mp hcommittees
  rw [Option.some.injEq] at hperformanceFactors hpoolRewards hcommittees
  obtain ⟨y₁, hrun₁, hin₁, hout₁⟩ := import_performances
    (upTo_nodup (exportStartSlot p slot) slot) n.tracker.validatorPerformances
  obtain ⟨y₂, hrun₂, hload₂⟩ := import_rewards (nodup_reverse.mpr
    (upTo_nodup (exportedRewardEpoch p (epochInProgress p slot - 1))
      (epochInProgress p slot - 1))) n.tracker.rewards.load
  obtain ⟨y₃, hrun₃, hload₃⟩ := import_stats
    (upTo_nodup 0 n.tracker.poolStatsStore.lastAccessedEpoch)
    (fun epoch => if epoch > epochInProgress p slot - 1 then none
      else n.tracker.poolStatsStore.load epoch)
  obtain ⟨y₄, hrun₄, hload₄⟩ := import_committees
    (upTo_nodup 0 n.tracker.committeeStore.lastAccessedEpoch)
    (fun epoch c (hc : n.exportedCommittee p slot epoch = some c) =>
      (hsound.committees (exportedCommittee_eq_some hc)).2)
  refine ⟨⟨y₂, y₃, y₄, fun _ => ∅, ∅, y₁, latestAppliedEpoch⟩, ?_, rfl, ?_⟩
  · rw [← hperformanceFactors, ← hpoolRewards, ← hcommittees]
    show ((run Tracker.importSlot (fun _ => some ∅) _).bind _) = _
    rw [hrun₁, Option.bind_some]
    show ((run Tracker.importEpochRewards empty _).bind _) = _
    rw [hrun₂, Option.bind_some]
    show ((run Tracker.importEpochStats empty _).bind _) = _
    unfold exportPoolsStats
    rw [hrun₃, Option.bind_some]
    show ((run Tracker.importCommittee empty _).map _) = _
    rw [hrun₄, Option.map_some]
    rfl
  · refine ⟨fun epoch => ?_, fun epoch => ?_, fun s hstart hend => ?_, fun s hs => ?_,
      fun epoch => ?_⟩
    · have hrel := hload₂ epoch
      simp only [mem_reverse, mem_upTo] at hrel
      exact hrel
    · rw [hload₃ epoch]
      by_cases hle : epoch ≤ epochInProgress p slot - 1
      · have hgt : ¬ epoch > epochInProgress p slot - 1 := Nat.not_lt.mpr hle
        rw [if_pos hle, if_neg hgt]
        -- nothing is stored after the last epoch that was accessed
        split_ifs with hlast
        · rfl
        · exact (Option.eq_none_iff_forall_ne_some.mpr fun stats hload =>
            hlast (mem_upTo.mpr ⟨Nat.zero_le _, hsound.poolStats hload⟩)).symm
      · have hgt : epoch > epochInProgress p slot - 1 := Nat.lt_of_not_le hle
        rw [if_neg hle, if_pos hgt]
        split <;> rfl
    · have hmem : s ∈ upTo (exportStartSlot p slot) slot := mem_upTo.mpr ⟨hstart, hend⟩
      obtain ⟨m, hm⟩ := Option.isSome_iff_exists.mp (all_eq_true.mp hretained s hmem)
      obtain ⟨m', hm', hsame⟩ := hin₁ s m hmem hm
      show Option.Rel SameEntries (y₁ s) _
      rw [hm, hm']
      exact Option.Rel.some hsame
    · apply hout₁
      rw [mem_upTo]
      exact .inl hs
    · have hrel := hload₄ epoch
      split_ifs at hrel with hlast
      · exact hrel
      · cases hc : n.exportedCommittee p slot epoch with
        | none => exact hrel
        | some c =>
          have hle := (hsound.committees (exportedCommittee_eq_some hc)).1
          exact absurd (mem_upTo.mpr ⟨Nat.zero_le _, hle⟩) hlast

/-! ## Section 4: The round trip -/

/-- The states in which the snapshot of a slot is exact. -/
structure Exportable (p : Params) (n : Node ID Hash) (slot : Nat) : Prop where
  /-- If epoch 0 has not ended by the slot, it has not been applied. -/
  epochZero : epochInProgress p slot = 0 →
    n.tracker.rewards.load 0 = none ∧ n.tracker.poolStatsStore.load 0 = none
  /-- There is no committee for an epoch after the next one, except for reused committees before
      the point of no return. -/
  committees : ∀ epoch c, p.timeProvider.epochFromSlot slot + 1 < epoch →
    n.tracker.committeeStore.load epoch = some c → c.reused = true ∧
      slot < p.timeProvider.epochEnd (p.timeProvider.epochFromSlot slot) - p.maxCommittableAge
  /-- The slots of the epoch in progress, in epoch 1 also those of epoch 0, are not pruned. -/
  slots : ∀ s, p.timeProvider.epochStart
      (if epochInProgress p slot ≤ 1 then 0 else epochInProgress p slot) ≤ s → s ≤ slot →
    (n.tracker.validatorPerformances s).isSome
  /-- The rewards of the retention period are not pruned. -/
  rewards : n.firstRetainedEpoch ≤ exportedRewardEpoch p (epochInProgress p slot - 1)

/-- What a tracker should have that imported the snapshot of a slot. -/
structure RoundTrip (p : Params) (n : Node ID Hash) (slot : Nat) (y : Tracker ID Hash) : Prop where
  rewards : ∀ epoch, Option.Rel SameEntries (y.rewards.load epoch)
    (if epoch < epochInProgress p slot ∧
        exportedRewardEpoch p (epochInProgress p slot - 1) ≤ epoch
      then n.tracker.rewards.load epoch else none)
  poolStats : ∀ epoch, y.poolStatsStore.load epoch =
    if epoch < epochInProgress p slot then n.tracker.poolStatsStore.load epoch else none
  performances : ∀ s, p.timeProvider.epochStart (epochInProgress p slot) ≤ s → s ≤ slot →
    Option.Rel SameEntries (y.validatorPerformances s) (n.tracker.validatorPerformances s)
  laterPerformances : ∀ s, slot < s → y.validatorPerformances s = some ∅
  committees : ∀ epoch ≤ epochInProgress p slot, Option.Rel SameCommittee
    (y.committeeStore.load epoch) (n.tracker.committeeStore.load epoch)
  laterCommittees : ∀ epoch, p.timeProvider.epochFromSlot slot + 1 < epoch →
    y.committeeStore.load epoch = none

omit [LinearOrder ID] in
theorem exportedCommittee_eq_none (hload : n.tracker.committeeStore.load epoch = some c)
    (hlater : p.timeProvider.epochFromSlot slot < epoch) :
    n.exportedCommittee p slot epoch = none ↔ c.reused = true ∧
      slot < p.timeProvider.epochEnd (p.timeProvider.epochFromSlot slot) - p.maxCommittableAge := by
  unfold exportedCommittee
  rw [hload, Option.filter_some]
  simp [hlater, and_comm]
  omega

section

variable (hslot : p.timeProvider.genesisSlot ≤ slot)
include hslot

omit [LinearOrder ID] in
theorem exportedCommittee_eq_load (hepoch : epoch ≤ epochInProgress p slot) :
    n.exportedCommittee p slot epoch = n.tracker.committeeStore.load epoch := by
  have hkeep : ¬ (p.timeProvider.epochFromSlot slot < epoch ∧
      slot < p.timeProvider.epochEnd (p.timeProvider.epochFromSlot slot) -
        p.maxCommittableAge) := by
    -- the next epoch is in progress only after the last slot of the current one
    rcases epochInProgress_cases hslot with hcase | hcase
    · omega
    · omega
  unfold exportedCommittee
  cases hload : n.tracker.committeeStore.load epoch with
  | none => rfl
  | some c =>
    rw [Option.filter_some, if_pos]
    simp only [Bool.not_eq_true', Bool.and_eq_false_iff, decide_eq_false_iff_not]
    by_cases hlater : p.timeProvider.epochFromSlot slot < epoch
    · exact .inl (.inr fun hbefore => hkeep ⟨hlater, hbefore⟩)
    · exact .inl (.inl hlater)

/-- In an exportable state the import is exact. -/
theorem Imported.roundTrip (h : Imported p n slot y) (hexportable : Exportable p n slot) :
    RoundTrip p n slot y := by
  have hstart := exportStartSlot_eq (p := p) hslot
  refine ⟨fun epoch => ?_, fun epoch => ?_, fun s hs hle => ?_, fun s hs => ?_,
    fun epoch hepoch => ?_, fun epoch hepoch => ?_⟩
  · have hrel := h.rewards epoch
    split_ifs at hrel ⊢
    · exact hrel
    · omega
    · -- no epoch has ended: epoch 0 has no rewards
      have hzero : epochInProgress p slot = 0 := by omega
      obtain rfl : epoch = 0 := by omega
      rw [(hexportable.epochZero hzero).1] at hrel
      exact hrel
    · exact hrel
  · rw [h.poolStats epoch]
    split_ifs
    · rfl
    · have hzero : epochInProgress p slot = 0 := by omega
      obtain rfl : epoch = 0 := by omega
      exact (hexportable.epochZero hzero).2
    · omega
    · rfl
  · apply h.performances s _ hle
    rw [hstart]
    split
    · exact Nat.le_trans (by unfold TimeProvider.epochStart; omega) hs
    · exact hs
  · exact h.otherPerformances s (fun hin => absurd hin.2 (Nat.not_le.mpr hs))
  · have hrel := h.committees epoch
    rw [exportedCommittee_eq_load hslot hepoch] at hrel
    exact hrel
  · have hrel := h.committees epoch
    cases hload : n.tracker.committeeStore.load epoch with
    | none =>
      have hnone : n.exportedCommittee p slot epoch = none := by
        unfold exportedCommittee
        rw [hload]
        rfl
      rw [hnone] at hrel
      exact rel_none_right.mp hrel
    | some c =>
      rw [(exportedCommittee_eq_none hload (Nat.lt_of_succ_lt hepoch)).mpr
        (hexportable.committees epoch c hepoch hload)] at hrel
      exact rel_none_right.mp hrel

/-- An import that is exact shows that the state was exportable. -/
theorem Imported.exportable (hsound : Sound n) (h : Imported p n slot y)
    (hexport : (n.exportSnapshot p slot).isSome) (hroundTrip : RoundTrip p n slot y) :
    Exportable p n slot := by
  obtain ⟨hslots, hrewards⟩ := (exportSnapshot_isSome_iff hsound hslot).mp hexport
  rw [exportStartSlot_eq hslot] at hslots
  refine ⟨fun hzero => ⟨?_, ?_⟩, fun epoch c hepoch hload => ?_, hslots, hrewards⟩
  · -- the rewards of epoch 0 were exported, and should not have been
    have himported := h.rewards 0
    have hexact := hroundTrip.rewards 0
    rw [hzero, if_neg (fun hlt => Nat.not_lt_zero _ hlt.1), rel_none_right] at hexact
    have hfirst : exportedRewardEpoch p (epochInProgress p slot - 1) ≤ 0 := by
      unfold exportedRewardEpoch
      rw [hzero]
      split <;> omega
    rw [if_pos ⟨hfirst, Nat.zero_le _⟩, hexact] at himported
    exact rel_none_left.mp himported
  · have himported := h.poolStats 0
    have hexact := hroundTrip.poolStats 0
    rw [hzero, if_neg (Nat.not_lt_zero 0)] at hexact
    rw [if_pos (Nat.zero_le _), hexact] at himported
    exact himported.symm
  · apply (exportedCommittee_eq_none hload (Nat.lt_of_succ_lt hepoch)).mp
    have himported := h.committees epoch
    rw [hroundTrip.laterCommittees epoch hepoch] at himported
    exact rel_none_left.mp himported

end

end AxonCore.Performance

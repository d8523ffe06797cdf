import AxonCore.Storage.History

/-! # Rolling the storage back

    The data of the slots is rolled back exactly, for every target slot.  The other parts of
    `Rollback` have two gaps, both seen only when the fork lies so far back that a later
    committee than the one of the next epoch is stored already:

    * `shouldRollbackCommittee` decides about every later epoch by looking at the committee
      of the next one, so the committees after that are never removed;
    * at the last slot of an epoch no rewards, statistics or decided signals are removed,
      also not those of the epochs that ended later.

    `rollback_exact` is the result up to there. -/

namespace AxonCore.Stores

open EpochStore

variable {α : Type} {p : Params} {s : EpochStore α} {e t : Nat} {n : Node α}

/-! ## Section 1: The loops -/

namespace BucketManager

variable (tp : TimeProvider)

theorem slotData_foldl_deleteBucket (l : List Nat) (b : BucketManager α) (slot : Nat) :
    (l.foldl deleteBucket b).slotData tp slot =
      if tp.epochFromSlot slot ∈ l then fun _ => none else b.slotData tp slot := by
  rw [Lib.foldl_observed (slotData tp · slot) deleteBucket (fun _ _ => none) (fun _ => rfl) _
    fun b epoch => slotData_deleteBucket tp b epoch slot]
  simp

theorem slotData_deletePrefix (b : BucketManager α) (epoch slot slot' : Nat) :
    (deletePrefix tp epoch b slot).slotData tp slot' =
      if tp.epochFromSlot slot' = epoch ∧ slot' = slot then fun _ => none
      else b.slotData tp slot' := by
  unfold deletePrefix modify slotData
  by_cases hepoch : tp.epochFromSlot slot' = epoch
  · by_cases hslot : slot' = slot
    · subst hslot
      simp [hepoch]
    · simp [hepoch, hslot]
  · simp [hepoch]

theorem slotData_pruneSlots (b : BucketManager α) (epoch first last slot : Nat) :
    (b.pruneSlots tp epoch first last).slotData tp slot =
      if tp.epochFromSlot slot = epoch ∧ first ≤ slot ∧ slot ≤ last then fun _ => none
      else b.slotData tp slot := by
  unfold pruneSlots
  rw [Lib.foldl_observed (slotData tp · slot) (deletePrefix tp epoch) (fun _ _ => none)
    (fun _ => rfl) _ fun b slot' => slotData_deletePrefix tp b epoch slot' slot]
  simp [mem_upTo, and_comm]

end BucketManager

theorem entries_rollbackEpochs (hs : s.Bounded) (epoch e : Nat) :
    (s.rollbackEpochs epoch).1.entries e = if epoch ≤ e then none else s.entries e := by
  unfold rollbackEpochs
  rw [entries_foldl_deleteEpoch]
  simp only [mem_upTo]
  by_cases hle : epoch ≤ e
  · -- what the loop does not reach was never stored
    by_cases hacc : e ≤ s.lastAccessedEpoch
    · simp [hle, hacc]
    · have hnone : s.entries e = none :=
        Option.eq_none_iff_forall_ne_some.mpr fun value he => hacc (hs e value he)
      simp [hnone]
  · simp [hle]

theorem entries_rollbackCommitteeEpochs_of_none {committee : EpochStore SeatedAccounts}
    (epoch targetSlot : Nat) (hnone : committee.entries e = none) :
    (Prunable.rollbackCommitteeEpochs p committee epoch targetSlot).1.entries e = none := by
  refine List.foldlRecOn (motive := fun c : EpochStore SeatedAccounts => c.entries e = none) _ _
    hnone fun c hc i _ => ?_
  split
  · by_cases heq : e = i <;> simp [deleteEpoch, heq, ← hc]
  · exact hc

theorem rollbackCommitteeEpochs_of_pointOfNoReturn (committee : EpochStore SeatedAccounts)
    {targetSlot : Nat}
    (hpoint : p.timeProvider.epochEnd (p.timeProvider.epochFromSlot targetSlot) -
      p.maxCommittableAge ≤ targetSlot) :
    (Prunable.rollbackCommitteeEpochs p committee
      (p.timeProvider.epochFromSlot targetSlot + 1) targetSlot).1 = committee := by
  refine List.foldlRecOn (motive := (· = committee)) _ _ rfl fun c hc i hi => ?_
  have hkeep : Prunable.shouldRollbackCommittee p c i targetSlot = false := by
    unfold Prunable.shouldRollbackCommittee
    rw [if_pos (mem_upTo.mp hi).1, if_neg (Nat.not_lt.mpr hpoint)]
  rw [hkeep]
  exact hc

/-! ## Section 2: What a rollback leaves -/

/-- The buckets are deleted at least up to the last committee. -/
theorem rolledBack_prunableSlotStore (s : Prunable α) (targetEpoch first last : Nat) :
    ∃ lastEpoch, s.committee.lastAccessedEpoch ≤ lastEpoch ∧
      (s.rolledBack p targetEpoch first last).prunableSlotStore =
        (upTo (targetEpoch + 1) lastEpoch).foldl BucketManager.deleteBucket
          (Prunable.rollbackCommitteesCandidates
            (s.prunableSlotStore.pruneSlots p.timeProvider targetEpoch first last)
            targetEpoch first) := by
  unfold Prunable.rolledBack
  dsimp only
  split
  · exact ⟨_, le_max_left _ _, rfl⟩
  · exact ⟨_, le_rfl, rfl⟩

theorem slotData_rolledBack (s : Prunable α) (targetEpoch first last slot : Nat) :
    ∃ lastEpoch, s.committee.lastAccessedEpoch ≤ lastEpoch ∧
      (s.rolledBack p targetEpoch first last).prunableSlotStore.slotData p.timeProvider slot =
        if targetEpoch + 1 ≤ p.timeProvider.epochFromSlot slot ∧
            p.timeProvider.epochFromSlot slot ≤ lastEpoch then fun _ => none
        else if p.timeProvider.epochFromSlot slot = targetEpoch ∧ first ≤ slot ∧ slot ≤ last then
          fun _ => none
        else s.prunableSlotStore.slotData p.timeProvider slot := by
  obtain ⟨lastEpoch, hle, heq⟩ := rolledBack_prunableSlotStore (p := p) s targetEpoch first last
  refine ⟨lastEpoch, hle, ?_⟩
  rw [heq, BucketManager.slotData_foldl_deleteBucket]
  simp only [mem_upTo]
  unfold Prunable.rollbackCommitteesCandidates
  rw [BucketManager.slotData_modify_of_slots, BucketManager.slotData_pruneSlots]
  exact fun _ => rfl

theorem rollback_eq_some_iff {s s' : Storage α} :
    s.rollback p t = some s' ↔
      s.prunable.isTooOld (p.timeProvider.epochFromSlot t) = false ∧
        s' = ⟨s.prunable.rolledBack p (p.timeProvider.epochFromSlot t) (t + 1)
          (s.pruningRange p t).2.2, s.latestStoredSlot⟩ := by
  have hepoch : (s.pruningRange p t).1 = p.timeProvider.epochFromSlot t := by
    unfold Storage.pruningRange
    dsimp only
    split <;> rfl
  have hstart : (s.pruningRange p t).2.1 = t + 1 := by
    unfold Storage.pruningRange
    dsimp only
    split <;> rfl
  unfold Storage.rollback Prunable.rollback
  dsimp only
  rw [hepoch, hstart]
  cases s.prunable.isTooOld (p.timeProvider.epochFromSlot t) <;> simp [eq_comm]

theorem slotData_rollback (h : n.Inv p) {s' : Storage α}
    (hrollback : n.storage.rollback p t = some s') (slot : Nat) (kind : SlotKind) :
    s'.slotData p slot kind = if slot ≤ t then n.storage.slotData p slot kind else none := by
  have hmono : ∀ {a b : Nat}, a ≤ b →
      p.timeProvider.epochFromSlot a ≤ p.timeProvider.epochFromSlot b :=
    fun hle => p.timeProvider.epochFromSlot_mono hle
  obtain ⟨lastEpoch, hlast, hdata⟩ := slotData_rolledBack (p := p) n.storage.prunable
    (p.timeProvider.epochFromSlot t) (t + 1) (n.storage.pruningRange p t).2.2 slot
  obtain ⟨-, rfl⟩ := rollback_eq_some_iff.mp hrollback
  unfold Storage.slotData
  rw [hdata]
  by_cases hslot : slot ≤ t
  · -- an earlier slot: neither its epoch nor the slot itself is visited
    have hepoch := hmono hslot
    rw [if_neg (by omega), if_neg (by omega), if_pos hslot]
  · have hepoch : p.timeProvider.epochFromSlot t ≤ p.timeProvider.epochFromSlot slot :=
      hmono (by omega)
    rw [if_neg hslot]
    cases hold : n.storage.slotData p slot kind with
    | none =>
      split_ifs
      · rfl
      · rfl
      · exact hold
    | some value =>
      obtain ⟨hwindow, hstored⟩ := h.slots slot kind value hold
      by_cases heq : p.timeProvider.epochFromSlot slot = p.timeProvider.epochFromSlot t
      · -- a later slot of the target epoch is in the pruned range
        have hnext : p.timeProvider.epochFromSlot (t + 1) ≤ p.timeProvider.epochFromSlot slot :=
          hmono (by omega)
        have hend : (n.storage.pruningRange p t).2.2 = n.storage.latestStoredSlot := by
          unfold Storage.pruningRange
          rw [if_neg (by omega)]
        rw [hend, if_neg (by omega), if_pos ⟨heq, by omega, hstored⟩]
      · -- the bucket of a later epoch is deleted, because its committee is known
        have hknown := h.committeeKnown
        have hepoch' := hmono (hwindow.trans (Nat.le_add_right _ 1))
        rw [if_pos (by omega)]

/-- What a rollback does with the rewards, the statistics and the decided signals. -/
def EpochStore.rollbackTo (p : Params) (s : EpochStore α) (t : Nat) : EpochStore α :=
  let epoch := p.timeProvider.epochFromSlot t
  if p.timeProvider.epochEnd epoch ≠ t then (s.rollbackEpochs epoch).1 else s

theorem rollback_epochStores {s s' : Storage α} (hrollback : s.rollback p t = some s') :
    let epoch := p.timeProvider.epochFromSlot t
    s'.prunable.committee =
        (Prunable.rollbackCommitteeEpochs p s.prunable.committee (epoch + 1) t).1 ∧
      s'.prunable.poolRewards = s.prunable.poolRewards.rollbackTo p t ∧
      s'.prunable.poolStats = s.prunable.poolStats.rollbackTo p t ∧
      s'.prunable.decidedUpgradeSignals = s.prunable.decidedUpgradeSignals.rollbackTo p t := by
  intro epoch
  obtain ⟨-, rfl⟩ := rollback_eq_some_iff.mp hrollback
  unfold Prunable.rolledBack rollbackTo
  dsimp only
  rw [Nat.add_sub_cancel]
  by_cases hend : p.timeProvider.epochEnd (p.timeProvider.epochFromSlot t) = t <;>
    simp [epoch, hend]

/-- An epoch store is rolled back to the epochs that ended before or at the target slot, if no
    later epoch has ended in case the target slot is the end of one. -/
theorem entries_rollbackTo {slot : Nat} (hs : s.WrittenUntil p.timeProvider slot)
    (hlater : p.timeProvider.epochEnd (p.timeProvider.epochFromSlot t) = t →
      ∀ e, p.timeProvider.epochFromSlot t < e → slot < p.timeProvider.epochEnd e)
    (e : Nat) :
    (s.rollbackTo p t).entries e = if p.timeProvider.epochEnd e ≤ t then s.entries e else none := by
  have hends : p.timeProvider.epochEnd e < t ↔ e < p.timeProvider.epochFromSlot t :=
    p.timeProvider.epochEnd_lt_iff
  have hmono : p.timeProvider.epochFromSlot t ≤ e →
      p.timeProvider.epochEnd (p.timeProvider.epochFromSlot t) ≤ p.timeProvider.epochEnd e :=
    fun hle => p.timeProvider.epochEnd_mono hle
  have hself : p.timeProvider.epochEnd (p.timeProvider.epochFromSlot t) < t ↔
      p.timeProvider.epochFromSlot t < p.timeProvider.epochFromSlot t :=
    p.timeProvider.epochEnd_lt_iff
  have hbounded : s.Bounded := fun e value he => (hs e value he).1
  unfold rollbackTo
  by_cases hend : p.timeProvider.epochEnd (p.timeProvider.epochFromSlot t) = t
  · rw [if_neg (not_not.mpr hend)]
    by_cases hle : p.timeProvider.epochEnd e ≤ t
    · rw [if_pos hle]
    · -- an epoch that ends after the target slot has not ended yet
      rw [if_neg hle]
      cases he : s.entries e with
      | none => rfl
      | some value =>
        have hslot := (hs e value he).2
        have hgt : p.timeProvider.epochFromSlot t < e :=
          Nat.lt_of_not_le fun hnot => hle (hend ▸ p.timeProvider.epochEnd_mono hnot)
        have := hlater hend e hgt
        omega
  · rw [if_pos hend, entries_rollbackEpochs hbounded]
    by_cases hle : p.timeProvider.epochFromSlot t ≤ e
    · have := hmono hle
      rw [if_pos hle, if_neg (by omega)]
    · rw [if_neg hle, if_pos (by omega)]

/-- No epoch after the next one of the target slot has ended while its committee is not known. -/
theorem lt_epochEnd_of_committee (h : n.Inv p)
    (hfork : n.storage.prunable.committee.lastAccessedEpoch ≤
      p.timeProvider.epochFromSlot t + 1)
    (he : p.timeProvider.epochFromSlot t < e) :
    n.latestCommittedSlot < p.timeProvider.epochEnd e := by
  have hknown := h.committeeKnown
  by_contra hnot
  have hlt : e < p.timeProvider.epochFromSlot
      (n.latestCommittedSlot + p.maxCommittableAge + 1) :=
    p.timeProvider.epochEnd_lt_iff.mp (by omega)
  omega

/-- Only the first epoch can be pruned while a rollback to it is possible. -/
theorem isTooOld_iff_of_committee (h : n.Inv p)
    (hfork : n.storage.prunable.committee.lastAccessedEpoch ≤
      p.timeProvider.epochFromSlot t + 1) :
    n.storage.prunable.isTooOld (p.timeProvider.epochFromSlot t) = true ↔
      p.timeProvider.epochFromSlot t = 0 ∧ n.storage.prunable.lastPrunedEpoch.isSome := by
  have hknown := h.committeeKnown
  have hmono := p.timeProvider.epochFromSlot_mono
    (show n.latestCommittedSlot ≤ n.latestCommittedSlot + p.maxCommittableAge + 1 by omega)
  unfold Prunable.isTooOld Prunable.nextIndex
  rw [decide_eq_true_iff]
  cases hlast : n.storage.prunable.lastPrunedEpoch with
  | none => simp
  | some e =>
    have hpruned := h.pruned e hlast
    simp only [Option.map_some, Option.getD_some, Option.isSome_some, and_true]
    omega

/-! ## Section 3: The rollback is exact -/

/-- After any history, a rollback to a slot `t` fails only if `t` is in the first epoch and
    that one is pruned, and otherwise leaves the data of the slots up to `t`, the
    rewards, statistics and decided signals of the epochs that ended by then, and no
    committee after the one of the next epoch; the latter stays from the point of no return
    on.  The history has not yet stored a committee after the one of the next epoch. -/
theorem rollback_exact (p : Params) (accounts : List Nat) (inputs : List (Input α)) {n : Node α}
    (hrun : Lib.run (Node.step p) (Node.genesis p accounts) inputs = some n) (t : Nat)
    (hfork : n.storage.prunable.committee.lastAccessedEpoch ≤
      p.timeProvider.epochFromSlot t + 1) :
    let s := n.storage
    let epoch := p.timeProvider.epochFromSlot t
    (s.rollback p t = none ↔ epoch = 0 ∧ s.prunable.lastPrunedEpoch.isSome) ∧
    ∀ s', s.rollback p t = some s' →
    (∀ slot kind, s'.slotData p slot kind = if slot ≤ t then s.slotData p slot kind else none) ∧
    (∀ e, s'.prunable.poolRewards.load e =
      if p.timeProvider.epochEnd e ≤ t then s.prunable.poolRewards.load e else none) ∧
    (∀ e, s'.prunable.poolStats.load e =
      if p.timeProvider.epochEnd e ≤ t then s.prunable.poolStats.load e else none) ∧
    (∀ e, s'.prunable.decidedUpgradeSignals.load e =
      if p.timeProvider.epochEnd e ≤ t then s.prunable.decidedUpgradeSignals.load e else none) ∧
    (∀ e, epoch + 1 < e → s'.prunable.committee.load e = none) ∧
    (p.timeProvider.epochEnd epoch - p.maxCommittableAge ≤ t →
      s'.prunable.committee.load (epoch + 1) = s.prunable.committee.load (epoch + 1)) := by
  have h := Node.inv_run hrun
  intro s epoch
  refine ⟨?_, fun s' hrollback => ?_⟩
  · rw [← isTooOld_iff_of_committee h hfork, Option.eq_none_iff_forall_ne_some]
    simp only [ne_eq, rollback_eq_some_iff, not_and, s]
    cases n.storage.prunable.isTooOld (p.timeProvider.epochFromSlot t) <;> simp
  have hlater : p.timeProvider.epochEnd (p.timeProvider.epochFromSlot t) = t →
      ∀ e, p.timeProvider.epochFromSlot t < e →
        n.latestCommittedSlot < p.timeProvider.epochEnd e :=
    fun _ e he => lt_epochEnd_of_committee h hfork he
  obtain ⟨hcommittee, hrewards, hstats, hsignals⟩ := rollback_epochStores hrollback
  refine ⟨slotData_rollback h hrollback, ?_, ?_, ?_, ?_, ?_⟩
  · rw [hrewards]
    exact entries_rollbackTo h.poolRewards hlater
  · rw [hstats]
    exact entries_rollbackTo h.poolStats hlater
  · rw [hsignals]
    exact entries_rollbackTo h.decidedUpgradeSignals hlater
  · intro e he
    show s'.prunable.committee.entries e = none
    rw [hcommittee]
    apply entries_rollbackCommitteeEpochs_of_none
    refine Option.eq_none_iff_forall_ne_some.mpr fun c hc => ?_
    have := h.committee e c hc
    omega
  · intro hpoint
    rw [hcommittee, rollbackCommitteeEpochs_of_pointOfNoReturn _ hpoint]

/-- Epochs of four slots, and a window of two. -/
def sampleParams : Params where
  timeProvider := .fourSlots
  maxCommittableAge := 2
  epochNearingThreshold := 2
  maxCommittableAge_lt := by decide

/-- A commitment whose roots, rewards, statistics and signals are all `value`. -/
def sampleCommit (value : Nat) : Input Nat :=
  .commit [(.roots, value)] (some value) value (some value)

/-- The first epoch has ended and one slot of the second one is committed, with a block. -/
def sampleInputs : List (Input Nat) :=
  [.blockAccepted 2 70 71, sampleCommit 1, sampleCommit 2, sampleCommit 3,
    .blockAccepted 4 80 81, sampleCommit 4]

/-- Back in the first epoch after the point of no return: its rewards and the block of the
    second epoch go, the committee that was reused and the earlier block stay. -/
theorem rollback_exact_previous_epoch :
    ∃ n s', Lib.run (Node.step sampleParams) (Node.genesis sampleParams [5]) sampleInputs =
        some n ∧ n.storage.rollback sampleParams 2 = some s' ∧
      n.storage.slotData sampleParams 4 .blocks = some 80 ∧
      s'.slotData sampleParams 4 .blocks = none ∧ s'.slotData sampleParams 2 .blocks = some 70 ∧
      n.storage.prunable.poolRewards.load 0 = some 3 ∧ s'.prunable.poolRewards.load 0 = none ∧
      s'.prunable.committee.load 1 = some ⟨[5], true⟩ := by
  obtain ⟨n, hrun, s', hrollback, hlate, hearly, hrewards, hcommittee, hlast⟩ :
      ∃ n, Lib.run (Node.step sampleParams) (Node.genesis sampleParams [5]) sampleInputs =
          some n ∧ ∃ s', n.storage.rollback sampleParams 2 = some s' ∧
        n.storage.slotData sampleParams 4 .blocks = some 80 ∧
        n.storage.slotData sampleParams 2 .blocks = some 70 ∧
        n.storage.prunable.poolRewards.load 0 = some 3 ∧
        n.storage.prunable.committee.load 1 = some ⟨[5], true⟩ ∧
        n.storage.prunable.committee.lastAccessedEpoch = 1 := by
    decide +kernel
  have hepoch : sampleParams.timeProvider.epochFromSlot 2 = 0 := by decide
  obtain ⟨_, hexact⟩ :=
    rollback_exact sampleParams [5] sampleInputs hrun 2 (by rw [hlast, hepoch])
  obtain ⟨hslots, hrewards', _, _, _, hnext⟩ := hexact s' hrollback
  refine ⟨n, s', hrun, hrollback, hlate, ?_, ?_, hrewards, ?_, ?_⟩
  · rw [hslots, if_neg (by decide)]
  · rw [hslots, if_pos (by decide), hearly]
  · rw [hrewards', if_neg (by decide)]
  · rw [hepoch] at hnext
    rw [hnext (by decide), hcommittee]

/-- When the third epoch has begun, a rollback to the first slot keeps the committees of the
    epochs two and three, and one to the end of the first epoch keeps the rewards of the
    second. -/
theorem rollback_keeps_later_epochs :
    ∃ n, Lib.run (Node.step sampleParams) (Node.genesis sampleParams [5])
        ((List.range 9).map sampleCommit) = some n ∧
      sampleParams.timeProvider.epochFromSlot 0 = 0 ∧
      sampleParams.timeProvider.epochEnd 0 = 3 ∧ sampleParams.timeProvider.epochEnd 1 = 7 ∧
      (∃ s', n.storage.rollback sampleParams 0 = some s' ∧
        s'.prunable.committee.load 2 = some ⟨[5], true⟩ ∧
        s'.prunable.committee.load 3 = some ⟨[5], true⟩) ∧
      ∃ s', n.storage.rollback sampleParams 3 = some s' ∧
        s'.prunable.poolRewards.load 1 = some 6 ∧ s'.prunable.poolStats.load 1 = some 6 ∧
        s'.prunable.decidedUpgradeSignals.load 1 = some 6 := by
  decide +kernel

end AxonCore.Stores

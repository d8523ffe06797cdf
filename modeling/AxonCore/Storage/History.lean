import AxonCore.Lib.Keyed
import AxonCore.Storage.Model

/-! # What the storage holds after any history

    The data of a slot is within the committable window and not above the latest stored
    slot.  The epoch stores hold ended epochs only, and no epoch above the last accessed
    one.  The committee of the next epoch is stored before the first block of that epoch
    can be. -/

namespace AxonCore.Stores

open Option

variable {α : Type} {epoch : Nat} {kind : SlotKind}

/-! ## Section 1: Writes and deletions, one at a time -/

namespace EpochStore

@[simp] theorem entries_store (s : EpochStore α) (epoch e : Nat) (value : α) :
    (s.store epoch value).entries e = if e = epoch then some value else s.entries e := by
  simp [store, Function.update_apply]

theorem le_lastAccessedEpoch_store (s : EpochStore α) (epoch : Nat) (value : α) :
    s.lastAccessedEpoch ≤ (s.store epoch value).lastAccessedEpoch ∧
      epoch ≤ (s.store epoch value).lastAccessedEpoch := by
  unfold store
  dsimp only
  split <;> omega

@[simp] theorem lastAccessedEpoch_foldl_deleteEpoch (l : List Nat) (s : EpochStore α) :
    (l.foldl deleteEpoch s).lastAccessedEpoch = s.lastAccessedEpoch := by
  exact List.foldlRecOn (motive := fun t : EpochStore α => t.lastAccessedEpoch = _) _ _ rfl
    fun _ h _ _ => h

theorem entries_foldl_deleteEpoch (l : List Nat) (s : EpochStore α) (e : Nat) :
    (l.foldl deleteEpoch s).entries e = if e ∈ l then none else s.entries e := by
  rw [Lib.foldl_observed (entries · e) deleteEpoch (fun _ => none) (fun _ => rfl) (e = ·)
    fun s i => Function.update_apply s.entries i none e]
  simp

@[simp] theorem lastAccessedEpoch_prune (s : EpochStore α) (epoch delay : Nat) :
    (s.prune epoch delay).lastAccessedEpoch = s.lastAccessedEpoch := by
  unfold prune
  split
  · rfl
  · exact lastAccessedEpoch_foldl_deleteEpoch _ s

theorem entries_of_prune {s : EpochStore α} {delay e : Nat} {value : α}
    (h : (s.prune epoch delay).entries e = some value) : s.entries e = some value := by
  unfold prune at h
  split at h
  · exact h
  · rw [entries_foldl_deleteEpoch] at h
    split_ifs at h
    exact h

end EpochStore

namespace Storage

variable (p : Params)

theorem slotData_storeSlot (s : Storage α) (kind kind' : SlotKind) (slot slot' : Nat) (value : α) :
    (s.storeSlot p kind slot value).slotData p slot' kind' =
      if slot' = slot ∧ kind' = kind then some value else s.slotData p slot' kind' := by
  unfold storeSlot slotData BucketManager.slotData BucketManager.storeSlot BucketManager.modify
  by_cases hslot : slot' = slot
  · subst hslot
    by_cases hkind : kind' = kind <;> simp [hkind]
  · -- another slot, of the same epoch or of another one
    by_cases hepoch : p.timeProvider.epochFromSlot slot' = p.timeProvider.epochFromSlot slot <;>
      simp [hslot, hepoch]

theorem le_latestStoredSlot_storeSlot (s : Storage α) (kind : SlotKind) (slot : Nat) (value : α) :
    s.latestStoredSlot ≤ (s.storeSlot p kind slot value).latestStoredSlot := by
  unfold storeSlot
  dsimp only
  split
  · exact le_rfl
  · split <;> omega

theorem slot_le_latestStoredSlot_storeSlot (s : Storage α) (hkind : kind ≠ .blocks) (slot : Nat)
    (value : α) : slot ≤ (s.storeSlot p kind slot value).latestStoredSlot := by
  unfold storeSlot
  dsimp only
  rw [if_neg hkind]
  split <;> omega

end Storage

namespace BucketManager

variable (tp : TimeProvider)

theorem slotData_deleteBucket (b : BucketManager α) (epoch slot : Nat) :
    (b.deleteBucket epoch).slotData tp slot =
      if tp.epochFromSlot slot = epoch then fun _ => none else b.slotData tp slot := by
  unfold deleteBucket modify slotData
  by_cases h : tp.epochFromSlot slot = epoch <;> simp [h, Bucket.empty, Function.update_apply]

theorem slotData_modify_of_slots (b : BucketManager α) (epoch slot : Nat)
    {f : Bucket α → Bucket α} (hf : ∀ bucket, (f bucket).slots = bucket.slots) :
    (b.modify epoch f).slotData tp slot = b.slotData tp slot := by
  unfold modify slotData
  by_cases h : tp.epochFromSlot slot = epoch <;> simp [h, hf]

end BucketManager

/-! ## Section 2: The invariant of a node -/

/-- What an epoch store holds when the slots up to `slot` are committed. -/
def EpochStore.WrittenUntil (tp : TimeProvider) (s : EpochStore α) (slot : Nat) : Prop :=
  ∀ e value, s.entries e = some value → e ≤ s.lastAccessedEpoch ∧ tp.epochEnd e ≤ slot

/-- Slot data is not above `slot`, nor above the latest stored slot. -/
def Storage.SlotsUntil (p : Params) (s : Storage α) (slot : Nat) : Prop :=
  ∀ slot' kind value, s.slotData p slot' kind = some value →
    slot' ≤ slot ∧ slot' ≤ s.latestStoredSlot

/-- The last accessed epoch is not below a stored one. -/
def EpochStore.Bounded (s : EpochStore α) : Prop :=
  ∀ e value, s.entries e = some value → e ≤ s.lastAccessedEpoch

structure Node.Inv (p : Params) (n : Node α) : Prop where
  genesis : p.timeProvider.genesisSlot ≤ n.latestCommittedSlot
  finalized : n.latestFinalizedSlot ≤ n.latestCommittedSlot
  /-- The first epoch can be pruned at any time, another one two epochs later. -/
  pruned : ∀ e, n.storage.prunable.lastPrunedEpoch = some e →
    e = 0 ∨ e + 2 ≤ p.timeProvider.epochFromSlot n.latestCommittedSlot
  slots : n.storage.SlotsUntil p (n.latestCommittedSlot + p.maxCommittableAge)
  poolStats : n.storage.prunable.poolStats.WrittenUntil p.timeProvider n.latestCommittedSlot
  poolRewards : n.storage.prunable.poolRewards.WrittenUntil p.timeProvider n.latestCommittedSlot
  decidedUpgradeSignals :
    n.storage.prunable.decidedUpgradeSignals.WrittenUntil p.timeProvider n.latestCommittedSlot
  committee : n.storage.prunable.committee.Bounded
  /-- The epoch of every slot that may get data has its committee. -/
  committeeKnown :
    p.timeProvider.epochFromSlot (n.latestCommittedSlot + p.maxCommittableAge + 1) ≤
      n.storage.prunable.committee.lastAccessedEpoch

namespace EpochStore.Bounded

variable {s : EpochStore α}

theorem store (h : s.Bounded) (epoch : Nat) (value : α) : (s.store epoch value).Bounded := by
  intro e value' he
  have hle := s.le_lastAccessedEpoch_store epoch value
  rw [entries_store] at he
  split at he
  · omega
  · exact (h e value' he).trans hle.1

theorem prune (h : s.Bounded) (epoch delay : Nat) : (s.prune epoch delay).Bounded := by
  intro e value he
  rw [lastAccessedEpoch_prune]
  exact h e value (entries_of_prune he)

end EpochStore.Bounded

namespace EpochStore.WrittenUntil

variable {tp : TimeProvider} {s : EpochStore α} {slot slot' : Nat} (h : s.WrittenUntil tp slot)
include h

theorem mono (hle : slot ≤ slot') : s.WrittenUntil tp slot' := by
  intro e value he
  obtain ⟨hacc, hend⟩ := h e value he
  exact ⟨hacc, hend.trans hle⟩

theorem store (value : α) (hend : tp.epochEnd epoch ≤ slot) :
    (s.store epoch value).WrittenUntil tp slot := by
  intro e value' he
  have hle := s.le_lastAccessedEpoch_store epoch value
  rw [entries_store] at he
  split at he
  · rename_i heq
    subst heq
    exact ⟨hle.2, hend⟩
  · obtain ⟨hacc, hend'⟩ := h e value' he
    exact ⟨hacc.trans hle.1, hend'⟩

theorem prune (epoch delay : Nat) : (s.prune epoch delay).WrittenUntil tp slot := by
  intro e value he
  rw [lastAccessedEpoch_prune]
  exact h e value (entries_of_prune he)

end EpochStore.WrittenUntil

namespace Storage.SlotsUntil

variable {p : Params} {s : Storage α} {slot slot' : Nat} (h : s.SlotsUntil p slot)
include h

theorem mono (hle : slot ≤ slot') : s.SlotsUntil p slot' := by
  intro slot'' kind value hdata
  obtain ⟨hslot, hstored⟩ := h slot'' kind value hdata
  exact ⟨hslot.trans hle, hstored⟩

theorem storeSlot (hkind : kind ≠ .blocks) (hle : slot' ≤ slot)
    (value : α) : (s.storeSlot p kind slot' value).SlotsUntil p slot := by
  intro slot'' kind' value' hdata
  rw [slotData_storeSlot] at hdata
  split at hdata
  · rename_i heq
    rw [heq.1]
    exact ⟨hle, slot_le_latestStoredSlot_storeSlot p s hkind slot' value⟩
  · obtain ⟨hslot, hstored⟩ := h slot'' kind' value' hdata
    exact ⟨hslot, hstored.trans (le_latestStoredSlot_storeSlot p s kind slot' value)⟩

theorem storeBlock (hle : slot' ≤ slot) (block rootBlock : α) :
    ((s.storeSlot p .blocks slot' block).storeSlot p .rootBlocks slot' rootBlock).SlotsUntil
      p slot := by
  intro slot'' kind value hdata
  have hkind : SlotKind.rootBlocks ≠ .blocks := by decide
  have hstored := slot_le_latestStoredSlot_storeSlot p (s.storeSlot p .blocks slot' block) hkind
    slot' rootBlock
  have hblocks := le_latestStoredSlot_storeSlot p s .blocks slot' block
  have hroot := le_latestStoredSlot_storeSlot p (s.storeSlot p .blocks slot' block) .rootBlocks
    slot' rootBlock
  rw [slotData_storeSlot, slotData_storeSlot] at hdata
  split at hdata
  · rename_i heq
    rw [heq.1]
    exact ⟨hle, hstored⟩
  · split at hdata
    · rename_i heq
      rw [heq.1]
      exact ⟨hle, hstored⟩
    · obtain ⟨hslot, hle'⟩ := h slot'' kind value hdata
      omega

theorem storeCommitted (hle : slot' ≤ slot) (slotData : List (SlotKind × α)) :
    (Node.storeCommitted p s slot' slotData).SlotsUntil p slot := by
  unfold Node.storeCommitted
  refine List.foldlRecOn (motive := (SlotsUntil p · slot)) _ _ h fun s hs d hd =>
    hs.storeSlot ?_ hle d.2
  simpa using (List.mem_filter.mp hd).2

end Storage.SlotsUntil

theorem storeCommitted_prunable (p : Params) (s : Storage α) (slot : Nat)
    (slotData : List (SlotKind × α)) :
    (Node.storeCommitted p s slot slotData).prunable =
      { s.prunable with
        prunableSlotStore :=
          (Node.storeCommitted p s slot slotData).prunable.prunableSlotStore } := by
  refine List.foldlRecOn (motive := fun t : Storage α => t.prunable =
    { s.prunable with prunableSlotStore := t.prunable.prunableSlotStore }) _ _ rfl
    fun t ht d _ => ?_
  unfold Storage.storeSlot
  rw [ht]

/-! ## Section 3: Every input keeps the invariant -/

namespace Node

variable {p : Params} {n n' : Node α} {committee committee' : EpochStore SeatedAccounts}

theorem reuseCommittee_spec {currentEpoch targetEpoch : Nat} (h : committee.Bounded)
    (hreuse : reuseCommittee committee currentEpoch targetEpoch = some committee') :
    committee'.Bounded ∧ committee.lastAccessedEpoch ≤ committee'.lastAccessedEpoch ∧
      targetEpoch ≤ committee'.lastAccessedEpoch := by
  obtain ⟨c, _, rfl⟩ := map_eq_some_iff.mp hreuse
  exact ⟨h.store _ _, committee.le_lastAccessedEpoch_store _ _⟩

/-- The slot `MaxCommittableAge` before the end of an epoch is in that epoch. -/
theorem epochFromSlot_of_add_eq_epochEnd {slot : Nat} (hgenesis : p.timeProvider.genesisSlot ≤ slot)
    (h : p.timeProvider.epochEnd (p.timeProvider.epochFromSlot (slot + p.maxCommittableAge)) =
      slot + p.maxCommittableAge) :
    p.timeProvider.epochFromSlot (slot + p.maxCommittableAge) =
      p.timeProvider.epochFromSlot slot := by
  have hlt := p.maxCommittableAge_lt
  have hpos := p.timeProvider.epochDurationSlots_pos
  symm
  rw [p.timeProvider.epochFromSlot_eq_iff hgenesis]
  generalize p.timeProvider.epochFromSlot (slot + p.maxCommittableAge) = epoch at h ⊢
  have hend := p.timeProvider.epochEnd_add_one epoch
  -- an epoch is longer than the age
  unfold TimeProvider.epochStart at hend ⊢
  rw [Nat.add_mul] at hend
  omega

/-- After the commitment of a slot the committee is known for one slot more. -/
theorem commitCommittee_spec {slot : Nat} (hgenesis : p.timeProvider.genesisSlot ≤ slot)
    (hbounded : committee.Bounded)
    (hknown : p.timeProvider.epochFromSlot (slot + p.maxCommittableAge) ≤
      committee.lastAccessedEpoch)
    (hcommit : commitCommittee p committee slot = some committee') :
    committee'.Bounded ∧ p.timeProvider.epochFromSlot (slot + p.maxCommittableAge + 1) ≤
      committee'.lastAccessedEpoch := by
  have hsucc := p.timeProvider.epochFromSlot_succ
    (hgenesis.trans (Nat.le_add_right slot p.maxCommittableAge))
  have hsame := epochFromSlot_of_add_eq_epochEnd (p := p) hgenesis
  unfold commitCommittee at hcommit
  dsimp only at hcommit
  split at hcommit
  · -- the committee of the next epoch is there, or the current one is reused
    have hnext : p.timeProvider.epochFromSlot (slot + p.maxCommittableAge + 1) ≤
        p.timeProvider.epochFromSlot slot + 1 := by
      rw [hsucc]
      split
      · rename_i hend
        rw [hsame hend]
      · rename_i hpoint _
        have hle : p.timeProvider.epochEnd (p.timeProvider.epochFromSlot slot) <
            slot + p.maxCommittableAge ↔ p.timeProvider.epochFromSlot slot <
              p.timeProvider.epochFromSlot (slot + p.maxCommittableAge) :=
          p.timeProvider.epochEnd_lt_iff
        omega
    split at hcommit
    · rename_i c hload
      obtain rfl := some.inj hcommit
      exact ⟨hbounded, hnext.trans (hbounded _ c hload)⟩
    · obtain ⟨hbounded', _, htarget⟩ := reuseCommittee_spec hbounded hcommit
      exact ⟨hbounded', hnext.trans htarget⟩
  · rename_i hpoint
    obtain rfl := some.inj hcommit
    refine ⟨hbounded, ?_⟩
    rw [hsucc, if_neg]
    · exact hknown
    · intro hend
      rw [hsame hend] at hend
      exact hpoint hend.symm

theorem Inv.storeSlots (h : n.Inv p) {s : Storage α}
    (hslots : s.SlotsUntil p (n.latestCommittedSlot + p.maxCommittableAge))
    (hprunable : s.prunable =
      { n.storage.prunable with prunableSlotStore := s.prunable.prunableSlotStore }) :
    Inv p { n with storage := s } where
  genesis := h.genesis
  finalized := h.finalized
  pruned := by rw [hprunable]; exact h.pruned
  slots := hslots
  poolStats := by rw [hprunable]; exact h.poolStats
  poolRewards := by rw [hprunable]; exact h.poolRewards
  decidedUpgradeSignals := by rw [hprunable]; exact h.decidedUpgradeSignals
  committee := by rw [hprunable]; exact h.committee
  committeeKnown := by rw [hprunable]; exact h.committeeKnown

theorem Inv.commit (h : n.Inv p) {slotData : List (SlotKind × α)} {rewards decided : Option α}
    {stats : α} (hcommit : n.commit p slotData rewards stats decided = some n') : n'.Inv p := by
  obtain ⟨-, hcommit⟩ := ite_none_left_eq_some.mp hcommit
  obtain ⟨committee, hcommittee, rfl⟩ := map_eq_some_iff.mp hcommit
  have hknown := h.committeeKnown
  rw [Nat.add_right_comm] at hknown
  obtain ⟨hbounded, hknown'⟩ := commitCommittee_spec (h.genesis.trans (Nat.le_succ _))
    h.committee hknown hcommittee
  have hslots : (storeCommitted p n.storage (n.latestCommittedSlot + 1) slotData).SlotsUntil p
      (n.latestCommittedSlot + 1 + p.maxCommittableAge) :=
    (h.slots.mono (by omega)).storeCommitted (Nat.le_add_right _ _) slotData
  have hprunable := storeCommitted_prunable p n.storage (n.latestCommittedSlot + 1) slotData
  generalize storeCommitted p n.storage (n.latestCommittedSlot + 1) slotData = s at hslots hprunable
  have hstats := h.poolStats.mono (Nat.le_succ _)
  have hrewards := h.poolRewards.mono (Nat.le_succ _)
  have hsignals := h.decidedUpgradeSignals.mono (Nat.le_succ _)
  have hgenesis := h.genesis.trans (Nat.le_succ _)
  have hfinalized := h.finalized.trans (Nat.le_succ _)
  have hpruned := fun e he => (h.pruned e he).imp_right fun hle =>
    hle.trans (p.timeProvider.epochFromSlot_mono (Nat.le_succ n.latestCommittedSlot))
  dsimp only
  rw [hprunable]
  split
  · rename_i hend
    exact
      { genesis := hgenesis
        finalized := hfinalized
        pruned := hpruned
        slots := hslots
        poolStats := hstats.store stats hend.ge
        poolRewards := by
          cases rewards with
          | none => exact hrewards
          | some r => exact hrewards.store r hend.ge
        decidedUpgradeSignals := by
          cases decided with
          | none => exact hsignals
          | some d => exact hsignals.store d hend.ge
        committee := hbounded
        committeeKnown := hknown' }
  · exact ⟨hgenesis, hfinalized, hpruned, hslots, hstats, hrewards, hsignals, hbounded, hknown'⟩

theorem Inv.withCommittee (h : n.Inv p) (hbounded : committee.Bounded)
    (hle : n.storage.prunable.committee.lastAccessedEpoch ≤ committee.lastAccessedEpoch) :
    Inv p { n with storage := { n.storage with
      prunable := { n.storage.prunable with committee } } } :=
  ⟨h.genesis, h.finalized, h.pruned, h.slots, h.poolStats, h.poolRewards,
    h.decidedUpgradeSignals, hbounded, h.committeeKnown.trans hle⟩

theorem Inv.finalize (h : n.Inv p) {slot : Nat} (hslot : slot ≤ n.latestCommittedSlot)
    {newCommittee : Option (List Nat)}
    (hfinalize : n.finalize p slot newCommittee = some n') : n'.Inv p := by
  replace h : Inv p { n with latestFinalizedSlot := slot } :=
    ⟨h.genesis, hslot, h.pruned, h.slots, h.poolStats, h.poolRewards, h.decidedUpgradeSignals,
      h.committee, h.committeeKnown⟩
  unfold Node.finalize at hfinalize
  dsimp only at hfinalize
  split at hfinalize
  · obtain ⟨committee, hselected, rfl⟩ := map_eq_some_iff.mp hfinalize
    cases newCommittee with
    | some accounts =>
      obtain rfl := some.inj hselected
      exact h.withCommittee (h.committee.store _ _)
        (n.storage.prunable.committee.le_lastAccessedEpoch_store _ _).1
    | none =>
      obtain ⟨hbounded, hle, _⟩ := reuseCommittee_spec h.committee hselected
      exact h.withCommittee hbounded hle
  · obtain rfl := some.inj hfinalize
    exact h

theorem Inv.prune (h : n.Inv p) (hepoch : epoch ≤ n.latestPrunableEpoch p)
    (delays : Prunable.Delays) :
    Inv p { n with storage := { n.storage with
      prunable := n.storage.prunable.prune epoch delays } } where
  genesis := h.genesis
  finalized := h.finalized
  pruned := by
    intro e he
    obtain rfl := some.inj he
    have hmono := p.timeProvider.epochFromSlot_mono h.finalized
    unfold latestPrunableEpoch at hepoch
    dsimp only
    omega
  slots := by
    intro slot kind value hdata
    apply h.slots slot kind value
    change (n.storage.prunable.prunableSlotStore.deleteBucket epoch).slotData p.timeProvider slot
      kind = some value at hdata
    rw [BucketManager.slotData_deleteBucket] at hdata
    split_ifs at hdata
    exact hdata
  poolStats := h.poolStats.prune epoch _
  poolRewards := h.poolRewards.prune epoch _
  decidedUpgradeSignals := h.decidedUpgradeSignals.prune epoch _
  committee := h.committee.prune epoch _
  committeeKnown := by
    change _ ≤ (n.storage.prunable.committee.prune epoch delays.committee).lastAccessedEpoch
    rw [EpochStore.lastAccessedEpoch_prune]
    exact h.committeeKnown

theorem inv_step {input : Input α} (h : n.Inv p) (hstep : n.step p input = some n') : n'.Inv p := by
  unfold step at hstep
  cases input with
  | blockAccepted slot block rootBlock =>
    dsimp only at hstep
    split_ifs at hstep with hwindow
    obtain rfl := some.inj hstep
    exact h.storeSlots (h.slots.storeBlock hwindow.1 block rootBlock) rfl
  | track kind slot value =>
    dsimp only at hstep
    split_ifs at hstep with hguard
    obtain rfl := some.inj hstep
    exact h.storeSlots (h.slots.storeSlot hguard.2 hguard.1.1 value) rfl
  | candidate account slot =>
    dsimp only at hstep
    split_ifs at hstep
    obtain rfl := some.inj hstep
    apply h.storeSlots
    · intro slot' kind value hdata
      apply h.slots slot' kind value
      unfold Storage.slotData at hdata ⊢
      rw [BucketManager.slotData_modify_of_slots] at hdata
      · exact hdata
      · exact fun _ => rfl
    · rfl
  | commit slotData rewards stats decided => exact h.commit hstep
  | finalize slot newCommittee =>
    dsimp only at hstep
    split_ifs at hstep with hslot
    exact h.finalize hslot hstep
  | prune epoch delays =>
    dsimp only at hstep
    split_ifs at hstep with hepoch
    obtain rfl := some.inj hstep
    exact h.prune hepoch.2 delays

theorem inv_genesis (p : Params) (accounts : List Nat) : (genesis (α := α) p accounts).Inv p where
  genesis := le_rfl
  finalized := le_rfl
  pruned _ he := nomatch he
  slots _ _ _ hdata := nomatch hdata
  poolStats _ _ he := nomatch he
  poolRewards _ _ he := nomatch he
  decidedUpgradeSignals _ _ he := nomatch he
  committee := EpochStore.Bounded.store (s := .empty) (fun _ _ he => nomatch he) _ _
  committeeKnown := by
    -- the window of the genesis slot ends before the first epoch does
    have hlt := p.maxCommittableAge_lt
    have hepoch : p.timeProvider.epochFromSlot
        (p.timeProvider.genesisSlot + p.maxCommittableAge + 1) = 0 := by
      rw [TimeProvider.epochFromSlot_eq]
      apply Nat.div_eq_of_lt
      omega
    exact hepoch ▸ Nat.zero_le _

theorem inv_run {accounts : List Nat} {inputs : List (Input α)}
    (hrun : Lib.run (step p) (genesis p accounts) inputs = some n) : n.Inv p :=
  Lib.run_invariant (fun _ _ _ h hstep => inv_step h hstep) (inv_genesis p accounts) hrun

end Node

end AxonCore.Stores

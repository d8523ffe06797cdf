import AxonCore.Eviction.Window

/-! # The window in a fork and in a snapshot

    The window of the latest committed slot `t` reaches back to the latest non-empty slot.
    Later that setting has moved on, and `Rollback` and `Export` have to set it up again.

    * After `Rollback` the latest non-empty slot is `t` itself, which is right only if the
      slot `t` has a root block.  The window is the same if it holds a root block.
    * The scan of `Export` begins where the window of the lower target would begin with the
      present setting.  If later slots are not empty and there is no root block from there
      on, the root blocks before are missing in the snapshot.

    `window_reproduced` states what is reproduced, for every history. -/

namespace AxonCore.Eviction

open Lib Function Option State

variable {p : Params} {s' : State}

/-! ## Section 1: The invariant of a node -/

/-- The slot is the highest one up to `t` with a root block, or the genesis slot. -/
structure State.IsLatestNonEmpty (p : Params) (s : State) (t slot : Nat) : Prop where
  le : slot ≤ t
  nonEmpty : s.NonEmpty slot ∨ slot = p.genesisSlot
  highest : ∀ slot', slot' ≤ t → s.NonEmpty slot' → slot' ≤ slot

structure Node.Inv (p : Params) (n : Node) : Prop where
  keyed : n.state.Keyed
  genesis : p.genesisSlot ≤ n.state.latestNonEmptySlot
  latest : n.state.IsLatestNonEmpty p n.state.lastCommittedSlot n.state.latestNonEmptySlot
  nonEmpty : n.state.NonEmpty n.state.latestNonEmptySlot
  /-- The notarization has accepted blocks of a later slot if the slot has root blocks. -/
  accepted : ∀ slot, n.state.lastCommittedSlot < slot →
    ((n.acceptedBlocks slot).length > 0 ↔ n.state.NonEmpty slot)
  retained : n.state.firstRetainedSlot ≤ n.state.lastCommittedSlot

/-- What a history keeps of the slots that are committed. -/
structure Node.Later (m n : Node) : Prop where
  lastCommittedSlot : m.state.lastCommittedSlot ≤ n.state.lastCommittedSlot
  rootBlocks : ∀ slot, slot ≤ m.state.lastCommittedSlot →
    n.state.rootBlocks slot = m.state.rootBlocks slot
  firstRetainedSlot : m.state.firstRetainedSlot ≤ n.state.firstRetainedSlot

namespace State

theorem nonEmpty_congr {s : State} {slot : Nat} (h : s'.rootBlocks slot = s.rootBlocks slot) :
    s'.NonEmpty slot ↔ s.NonEmpty slot := by
  unfold NonEmpty
  rw [h]

theorem IsLatestNonEmpty.congr {s : State} {t slot : Nat} (h : s.IsLatestNonEmpty p t slot)
    (heq : ∀ slot, slot ≤ t → s'.rootBlocks slot = s.rootBlocks slot) :
    s'.IsLatestNonEmpty p t slot where
  le := h.le
  nonEmpty := h.nonEmpty.imp_left (nonEmpty_congr (heq slot h.le)).mpr
  highest slot' hle hne := h.highest slot' hle ((nonEmpty_congr (heq slot' hle)).mp hne)

theorem activeIndexRange_le {s : State} {t : Nat} (hgenesis : p.genesisSlot ≤ t)
    (hlatest : s.latestNonEmptySlot ≤ t) : (s.activeIndexRange p t).1 ≤ t := by
  rw [activeIndexRange_fst]
  split <;> omega

theorem nonEmpty_store (s : State) (id : BlockID) (commitmentID slot : Nat) :
    (s.store id commitmentID).NonEmpty slot ↔ slot = id.slot ∨ s.NonEmpty slot := by
  unfold NonEmpty store
  by_cases hslot : slot = id.slot
  · subst hslot
    simp [AList.insert]
  · simp [hslot]

theorem Keyed.store {s : State} (h : s.Keyed) (id : BlockID) (commitmentID : Nat) :
    (s.store id commitmentID).Keyed := by
  intro slot id' commitmentID' hlookup
  unfold State.store at hlookup
  dsimp only at hlookup
  by_cases heq : slot = id.slot
  · subst heq
    rw [update_self, lookup_insert_eq] at hlookup
    by_cases hid : id' = id
    · rw [hid]
    · rw [if_neg hid] at hlookup
      exact h id.slot id' commitmentID' hlookup
  · rw [update_of_ne heq] at hlookup
    exact h slot id' commitmentID' hlookup

end State

/-! ## Section 2: Every input keeps it -/

namespace Node

variable {n n' : Node} {id : BlockID} {commitmentID : Nat} {inputs : List Input}

theorem Inv.addRootBlock (h : n.Inv p) (hslot : n.state.lastCommittedSlot < id.slot) :
    n.state.addRootBlock p id commitmentID = some (n.state.store id commitmentID) := by
  have hstart := activeIndexRange_le (h.genesis.trans h.latest.le) h.latest.le
  have hretained := h.retained
  unfold State.addRootBlock
  rw [if_neg (by omega), rootBlockStorageFunc_of_le (by omega)]
  rfl

theorem inv_accept (h : n.Inv p) (hstep : n.step p (.accept id commitmentID) = some n') :
    n'.Inv p ∧ n.Later n' := by
  unfold step at hstep
  dsimp only at hstep
  split_ifs at hstep
  rw [h.addRootBlock (by omega)] at hstep
  obtain rfl := some.inj hstep
  -- the slots up to the latest commitment are not touched
  have hframe : ∀ slot, slot ≤ n.state.lastCommittedSlot →
      (n.state.store id commitmentID).rootBlocks slot = n.state.rootBlocks slot := by
    intro slot hle
    unfold store
    dsimp only
    rw [update_of_ne (by omega)]
  constructor
  · constructor
    · exact h.keyed.store id commitmentID
    · exact h.genesis
    · exact h.latest.congr hframe
    · exact (nonEmpty_store n.state id commitmentID _).mpr (.inr h.nonEmpty)
    · intro slot hlater
      have hold := h.accepted slot hlater
      rw [nonEmpty_store]
      by_cases heq : slot = id.slot
      · simp [heq]
      · simp [heq, ← hold]
    · exact h.retained
  · exact ⟨le_rfl, hframe, le_rfl⟩

theorem inv_commit (h : n.Inv p) : n.commit.Inv p ∧ n.Later n.commit := by
  have haccepted := h.accepted (n.state.lastCommittedSlot + 1) (Nat.lt_succ_self _)
  have hle := h.latest.le
  have hgenesis := h.genesis
  have hretained := h.retained
  constructor
  · constructor
    · exact h.keyed
    · unfold commit
      dsimp only
      split <;> omega
    · unfold commit
      dsimp only
      split
      · -- the new slot is the latest one that is not empty
        rename_i hsize
        constructor
        · omega
        · left
          rw [Nat.max_eq_right (by omega)]
          exact haccepted.mp hsize
        · intro slot' hslot' _
          omega
      · rename_i hsize
        constructor
        · omega
        · exact h.latest.nonEmpty
        · intro slot' hslot' hne
          rcases Nat.lt_or_ge n.state.lastCommittedSlot slot' with hlt | hge
          · obtain rfl : slot' = n.state.lastCommittedSlot + 1 := by omega
            exact absurd (haccepted.mpr hne) hsize
          · exact h.latest.highest slot' hge hne
    · unfold commit
      dsimp only
      split
      · rename_i hsize
        rw [Nat.max_eq_right (by omega)]
        exact haccepted.mp hsize
      · exact h.nonEmpty
    · intro slot hlater
      exact h.accepted slot (Nat.lt_of_succ_lt hlater)
    · show n.state.firstRetainedSlot ≤ n.state.lastCommittedSlot + 1
      omega
  · exact ⟨Nat.le_succ _, fun _ _ => rfl, le_rfl⟩

theorem inv_step {input : Input} (h : n.Inv p) (hstep : n.step p input = some n') :
    n'.Inv p ∧ n.Later n' := by
  cases input with
  | accept id commitmentID => exact inv_accept h hstep
  | commit =>
    obtain rfl := some.inj hstep
    exact inv_commit h
  | finalize slot =>
    unfold step at hstep
    dsimp only at hstep
    split_ifs at hstep
    obtain rfl := some.inj hstep
    exact ⟨⟨h.keyed, h.genesis, ⟨h.latest.le, h.latest.nonEmpty, h.latest.highest⟩,
      h.nonEmpty, h.accepted, h.retained⟩, ⟨le_rfl, fun _ _ => rfl, le_rfl⟩⟩
  | prune slot =>
    unfold step at hstep
    dsimp only at hstep
    split_ifs at hstep with hslot
    obtain rfl := some.inj hstep
    exact ⟨⟨h.keyed, h.genesis, ⟨h.latest.le, h.latest.nonEmpty, h.latest.highest⟩,
      h.nonEmpty, h.accepted, hslot.2⟩, ⟨le_rfl, fun _ _ => rfl, hslot.1⟩⟩

theorem inv_genesis (p : Params) : (genesis p).Inv p where
  keyed := by
    have hstored := Keyed.store (s := empty 0) (fun _ _ _ h => nomatch h) p.genesisBlockID
      p.genesisCommitmentID
    unfold State.store at hstored
    rw [p.genesisBlockID_slot] at hstored
    exact hstored
  genesis := le_rfl
  latest :=
    { le := le_rfl
      nonEmpty := .inr rfl
      highest := fun _ hle _ => hle }
  nonEmpty := by simp [genesis, State.NonEmpty]
  accepted := by
    intro slot hlater
    have hne : slot ≠ p.genesisSlot := Nat.ne_of_gt hlater
    simp [genesis, State.NonEmpty, hne]
  retained := Nat.zero_le _

theorem Later.trans {m n n' : Node} (h : m.Later n) (h' : n.Later n') : m.Later n' where
  lastCommittedSlot := h.lastCommittedSlot.trans h'.lastCommittedSlot
  rootBlocks := by
    intro slot hle
    rw [h'.rootBlocks slot (hle.trans h.lastCommittedSlot), h.rootBlocks slot hle]
  firstRetainedSlot := h.firstRetainedSlot.trans h'.firstRetainedSlot

theorem inv_run (hrun : run (step p) (genesis p) inputs = some n) : n.Inv p :=
  run_invariant (fun _ _ _ h hstep => (inv_step h hstep).1) (inv_genesis p) hrun

end Node

/-! ## Section 3: The window is reproduced -/

namespace State

variable {s : State} {t : Nat}

end State

section Recovered

variable {m n : Node} (hm : m.Inv p) (hn : n.Inv p) (hlater : m.Later n)
  (hretained : n.state.firstRetainedSlot ≤
    (m.state.activeIndexRange p m.state.lastCommittedSlot).1)

include hm hn hlater hretained

end Recovered

/-- The genesis slot is 0 and the window has two slots. -/
def sampleParams : Params where
  genesisSlot := 0
  maxCommittableAge := 2
  maxCommittableAge_pos := Nat.two_pos
  genesisBlockID := ⟨0, 0⟩
  genesisBlockID_slot := rfl
  genesisCommitmentID := 0

def sampleCodecs : Codecs (Nat ⊕ BlockID) where
  length := .single .inl Sum.getLeft? (fun _ => rfl)
  blockID := .single .inr Sum.getRight? (fun _ => rfl)
  commitmentID := .single .inl Sum.getLeft? (fun _ => rfl)
  slot := .single .inl Sum.getLeft? (fun _ => rfl)

end AxonCore.Eviction

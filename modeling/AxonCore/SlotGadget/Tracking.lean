import AxonCore.SlotGadget.Model

/-! # What a vote does

    One specification for each function of the slot gadget; the results about
    runs are derived from `trackVotes_cases`. -/

namespace AxonCore.SlotGadget

open AxonCore.Lib List Option

variable {AccountID : Type} [DecidableEq AccountID] {g : Gadget AccountID}
  {s s' : State AccountID} {voterID a : AccountID} {i : Nat}

/-! ## Section 1: The slot tracker -/

theorem mem_addVoterUpTo {voters : Nat → Finset AccountID} {fromSlot toSlot : Nat} :
    a ∈ addVoterUpTo voters voterID fromSlot toSlot i ↔
      a ∈ voters i ∨ (a = voterID ∧ fromSlot < i ∧ i ≤ toSlot) := by
  have hloop : ∀ (slots : List Nat) (v : Nat → Finset AccountID),
      a ∈ slots.foldl (fun v i => addVoter v voterID i) v i ↔
        a ∈ v i ∨ (a = voterID ∧ i ∈ slots) := by
    intro slots
    induction slots with
    | nil => simp
    | cons slot slots ih =>
      intro v
      rw [foldl_cons, ih]
      by_cases hi : i = slot
      · simp only [addVoter, hi, if_true, Finset.mem_insert, mem_cons, true_or, and_true]
        tauto
      · simp [addVoter, hi]
  unfold addVoterUpTo
  rw [hloop, mem_range'_1]
  exact or_congr_right (and_congr_right fun _ => by omega)

/-- The tracker after a vote that counts. -/
def voted (t : SlotTracker AccountID) (slot : Nat) (voterID : AccountID)
    (cutoffIndex : Nat) : SlotTracker AccountID where
  votesPerIdentity := fun a => if a = voterID then slot else t.votesPerIdentity a
  votersPerSlot :=
    addVoterUpTo t.votersPerSlot voterID (max cutoffIndex (t.votesPerIdentity voterID)) slot

theorem mem_voted {t : SlotTracker AccountID} {slot cutoffIndex : Nat} :
    a ∈ (voted t slot voterID cutoffIndex).voters i ↔
      a ∈ t.voters i ∨
        (a = voterID ∧ max cutoffIndex (t.votesPerIdentity voterID) < i ∧ i ≤ slot) :=
  mem_addVoterUpTo

/-! ## Section 2: Finalization -/

omit [DecidableEq AccountID] in
theorem finalizeFrom_spec (g : Gadget AccountID) (t : SlotTracker AccountID) :
    ∀ (n : Nat) (i last : Nat), ∃ k ≤ n,
      finalizeFrom g t n (i + 1) last = (if k = 0 then last else i + k, range' (i + 1) k) ∧
      (∀ j, i < j → j ≤ i + k → isFinalizable g (t.voters j) j = true) ∧
      (k < n → isFinalizable g (t.voters (i + k + 1)) (i + k + 1) = false) := by
  intro n
  induction n with
  | zero =>
    intro i last
    exact ⟨0, Nat.le_refl 0, rfl, by omega, by omega⟩
  | succ n ih =>
    intro i last
    cases hfin : isFinalizable g (t.voters (i + 1)) (i + 1) with
    | false =>
      refine ⟨0, by omega, ?_, by omega, fun _ => hfin⟩
      simp [finalizeFrom, hfin]
    | true =>
      obtain ⟨k, hk, heq, hall, hstop⟩ := ih (i + 1) (i + 1)
      have harith : i + 1 + k = i + (k + 1) := by omega
      rw [harith] at heq hall hstop
      refine ⟨k + 1, by omega, ?_, ?_, fun hlt => hstop (by omega)⟩
      · rw [finalizeFrom, if_pos hfin, heq, range'_succ]
        simp
      · intro j hj hle
        by_cases hji : j = i + 1
        · subst hji; exact hfin
        · exact hall j (by omega) hle

/-- The slot that a vote of the block is counted from. -/
def countedFrom (s : State AccountID) (block : Block AccountID) : Nat :=
  max s.lastFinalizedSlot ((s.slotTrackers block.slot).votesPerIdentity block.issuerID)

/-- The tracker of the block's slot once the vote of the block is counted. -/
def votedTracker (s : State AccountID) (block : Block AccountID) : SlotTracker AccountID :=
  voted (s.slotTrackers block.slot) block.slotCommitment block.issuerID s.lastFinalizedSlot

/-- Whether the vote of the block is counted. -/
def Counts (s : State AccountID) (block : Block AccountID) : Prop :=
  block.issuerID ∉ (s.slotTrackers block.slot).voters block.slotCommitment ∧
    (s.slotTrackers block.slot).votesPerIdentity block.issuerID < block.slotCommitment

theorem trackVotes_cases (g : Gadget AccountID) (s : State AccountID) (block : Block AccountID) :
    (¬ Counts s block ∧ trackVotes g s block = s) ∨
    (Counts s block ∧ ∃ k, k ≤ block.slotCommitment - countedFrom s block ∧
      (∀ j, countedFrom s block < j → j ≤ countedFrom s block + k →
        isFinalizable g ((votedTracker s block).voters j) j = true) ∧
      (k < block.slotCommitment - countedFrom s block →
        isFinalizable g ((votedTracker s block).voters (countedFrom s block + k + 1))
          (countedFrom s block + k + 1) = false) ∧
      trackVotes g s block =
        { slotTrackers := deleteTrackers
            (fun b => if b = block.slot then votedTracker s block else s.slotTrackers b)
            (range' (countedFrom s block + 1) k)
          lastFinalizedSlot := if k = 0 then s.lastFinalizedSlot else countedFrom s block + k
          slotFinalized := s.slotFinalized ++ range' (countedFrom s block + 1) k }) := by
  have hsame : (fun b => if b = block.slot then s.slotTrackers block.slot else s.slotTrackers b) =
      s.slotTrackers := by
    funext b
    split
    · next hb => rw [hb]
    · rfl
  by_cases hcounts : Counts s block
  · right
    refine ⟨hcounts, ?_⟩
    obtain ⟨hnew, hlater⟩ := hcounts
    obtain ⟨k, hk, heq, hall, hstop⟩ := finalizeFrom_spec g (votedTracker s block)
      (block.slotCommitment - countedFrom s block) (countedFrom s block) s.lastFinalizedSlot
    refine ⟨k, hk, hall, hstop, ?_⟩
    have htrack : (s.slotTrackers block.slot).trackVotes block.slotCommitment block.issuerID
        s.lastFinalizedSlot = (votedTracker s block,
          (s.slotTrackers block.slot).votesPerIdentity block.issuerID, block.slotCommitment,
          true) := by
      unfold SlotTracker.trackVotes
      have hnew' : block.issuerID ∉
        (s.slotTrackers block.slot).votersPerSlot block.slotCommitment := hnew
      rw [if_neg hnew']
      simp only [hlater, if_true]
      rfl
    have hrefresh : refreshSlotFinalization g (votedTracker s block) s.lastFinalizedSlot
        ((s.slotTrackers block.slot).votesPerIdentity block.issuerID) block.slotCommitment =
        (if k = 0 then s.lastFinalizedSlot else countedFrom s block + k,
          range' (countedFrom s block + 1) k) := heq
    unfold trackVotes
    rw [htrack]
    simp only [if_true]
    rw [hrefresh]
  · left
    refine ⟨hcounts, ?_⟩
    unfold trackVotes SlotTracker.trackVotes
    by_cases hold : block.issuerID ∈ (s.slotTrackers block.slot).votersPerSlot block.slotCommitment
    · simp [hold, hsame]
    · have hnot : ¬ (s.slotTrackers block.slot).votesPerIdentity block.issuerID <
          block.slotCommitment := fun hlt => hcounts ⟨hold, hlt⟩
      simp [hold, hnot, hsame]

theorem step_cases {i : Input AccountID} (h : step g s i = some s') :
    (∃ block, i = .blockConfirmed block ∧ s' = trackVotes g s block) ∨
    (∃ targetSlot, i = .reset targetSlot ∧ s' = reset s targetSlot) := by
  cases i with
  | blockConfirmed block => exact .inl ⟨block, rfl, (some.inj h).symm⟩
  | reset targetSlot => exact .inr ⟨targetSlot, rfl, (some.inj h).symm⟩

end AxonCore.SlotGadget

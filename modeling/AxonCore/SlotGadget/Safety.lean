import AxonCore.SlotGadget.Tracking

/-! # Is a finalized slot backed by the committee?

    A slot should be finalized only by accounts that hold a seat.  `trackVotes`
    counts the issuer of every confirmed block, whether it holds a seat or not.

    * `finalized_slot_not_backed`: three accounts without a seat finalize a slot.
    * `finalized_slots_backed`: in every run where only accounts with a seat cast
      votes that are counted, every finalized slot is backed by the committee. -/

namespace AxonCore.SlotGadget

open AxonCore.Lib List

variable {AccountID : Type} [DecidableEq AccountID] {g : Gadget AccountID}
  {s s' : State AccountID}

/-! ## Section 1: The property and the condition -/

section

variable (g : Gadget AccountID)

/-- Within one block slot, more than the threshold of distinct accounts with a
    seat in that slot's committee issued a confirmed block that commits to slot
    `i` or a later one. -/
def Backed (is : List (Input AccountID)) (i : Nat) : Prop :=
  ∃ b, ∃ voters : Finset AccountID, isFinalizable g voters i = true ∧
    ∀ a ∈ voters, g.hasSeat b a = true ∧
      ∃ block, .blockConfirmed block ∈ is ∧ block.slot = b ∧ block.issuerID = a ∧
        i ≤ block.slotCommitment

/-- Every finalized slot is backed, and no account without a seat is counted. -/
def FinalizationSafe (is : List (Input AccountID)) (s : State AccountID) : Prop :=
  (∀ i ∈ s.slotFinalized, Backed g is i) ∧
    ∀ b i, ∀ a ∈ (s.slotTrackers b).voters i, g.hasSeat b a = true

/-- The issuer holds a seat in the committee of the block's slot, or the block
    commits to no slot after the last finalized one and the issuer's last vote in
    that block slot. -/
def SeatedStep (s : State AccountID) : Input AccountID → Prop
  | .blockConfirmed block =>
    g.hasSeat block.slot block.issuerID = true ∨ block.slotCommitment ≤ countedFrom s block
  | .reset _ => True

/-! ## Section 2: Votes without a seat -/

/-- Accounts `0`, `1` and `2` form the committee of every slot. -/
def threeSeats : Gadget Nat where
  seatCountInSlot := fun _ => 3
  hasSeat := fun _ a => decide (a < 3)
  optsSlotFinalizationThreshold := superMajority

/-- Blocks of slot `12` that commit to slot `10`, by accounts without a seat. -/
def seatlessVotes : List (Input Nat) :=
  [.blockConfirmed { slot := 12, slotCommitment := 10, issuerID := 3 },
    .blockConfirmed { slot := 12, slotCommitment := 10, issuerID := 4 },
    .blockConfirmed { slot := 12, slotCommitment := 10, issuerID := 5 }]

theorem finalized_slot_not_backed :
    ∃ s, run (step threeSeats) (initialState 9) seatlessVotes = some s ∧
      s.slotFinalized = [10] ∧ ¬ Backed threeSeats seatlessVotes 10 ∧
      ¬ FinalizationSafe threeSeats seatlessVotes s := by
  refine exists_result (by decide) fun s _ hfinal => ?_
  have hnot : ¬ Backed threeSeats seatlessVotes 10 := by
    intro hbacked
    obtain ⟨b, voters, hreached, hvoters⟩ := hbacked
    -- no issuer of one of the blocks holds a seat, so there are no voters
    have hempty : voters = ∅ := by
      apply Finset.eq_empty_of_forall_notMem
      intro a ha
      obtain ⟨hseat, block, hblock, -, rfl, -⟩ := hvoters a ha
      have hissuer : ∀ block, Input.blockConfirmed block ∈ seatlessVotes →
          ¬ block.issuerID < 3 := by
        intro block hblock
        simp only [seatlessVotes, mem_cons, Input.blockConfirmed.injEq, not_mem_nil,
          or_false] at hblock
        rcases hblock with rfl | rfl | rfl <;> decide
      exact hissuer block hblock (of_decide_eq_true hseat)
    rw [hempty] at hreached
    exact absurd (isThresholdReached_pos hreached) (by simp)
  refine ⟨hnot, ?_⟩
  intro hsafe
  exact hnot (hsafe.1 10 (by simp [hfinal]))

/-! ## Section 3: Every voter cast a vote -/

/-- Each counted account holds a seat and issued a block that commits to the slot. -/
structure VoterInv (hist : List (Input AccountID)) (s : State AccountID) :
    Prop where
  voter : ∀ b i, ∀ a ∈ (s.slotTrackers b).voters i, g.hasSeat b a = true ∧
    ∃ block, .blockConfirmed block ∈ hist ∧ block.slot = b ∧ block.issuerID = a ∧
      i ≤ block.slotCommitment
  backed : ∀ i ∈ s.slotFinalized, Backed g hist i

end

variable {hist : List (Input AccountID)}

omit [DecidableEq AccountID] in
theorem Backed.append {i : Nat} (h : Backed g hist i) (x : Input AccountID) :
    Backed g (hist ++ [x]) i := by
  obtain ⟨b, voters, hreached, hvoters⟩ := h
  refine ⟨b, voters, hreached, ?_⟩
  intro a ha
  obtain ⟨hseat, block, hmem, hblock⟩ := hvoters a ha
  exact ⟨hseat, block, mem_append_left _ hmem, hblock⟩

theorem VoterInv.trackVotes (h : VoterInv g hist s) {block : Block AccountID}
    (hcond : SeatedStep g s (.blockConfirmed block)) :
    VoterInv g (hist ++ [.blockConfirmed block]) (trackVotes g s block) := by
  have hold : ∀ b i, ∀ a ∈ (s.slotTrackers b).voters i, g.hasSeat b a = true ∧
      ∃ block', .blockConfirmed block' ∈ hist ++ [.blockConfirmed block] ∧ block'.slot = b ∧
        block'.issuerID = a ∧ i ≤ block'.slotCommitment := by
    intro b i a ha
    obtain ⟨hseat, block', hmem, hblock'⟩ := h.voter b i a ha
    exact ⟨hseat, block', mem_append_left _ hmem, hblock'⟩
  have hbacked : ∀ i ∈ s.slotFinalized, Backed g (hist ++ [.blockConfirmed block]) i :=
    fun i hi => (h.backed i hi).append _
  rcases trackVotes_cases g s block with ⟨-, heq⟩ | ⟨-, k, hk, hall, -, heq⟩
  · rw [heq]
    exact ⟨hold, hbacked⟩
  · -- the voters of the tracker that got the vote
    have hvoted : ∀ i, ∀ a ∈ (votedTracker s block).voters i, g.hasSeat block.slot a = true ∧
        ∃ block', .blockConfirmed block' ∈ hist ++ [.blockConfirmed block] ∧
          block'.slot = block.slot ∧ block'.issuerID = a ∧ i ≤ block'.slotCommitment := by
      intro i a ha
      rcases mem_voted.mp ha with ha | ⟨rfl, hlt, hle⟩
      · exact hold block.slot i a ha
      · have hcounted : countedFrom s block < i := hlt
        rcases hcond with hseat | hcond
        · exact ⟨hseat, block, by simp, rfl, rfl, hle⟩
        · omega
    rw [heq]
    refine ⟨?_, ?_⟩
    · intro b i a ha
      simp only [deleteTrackers] at ha
      split at ha
      · simp [newSlotTracker, SlotTracker.voters] at ha
      · split at ha
        · next hb => rw [hb]; exact hvoted i a ha
        · exact hold b i a ha
    · intro i hi
      rcases mem_append.mp hi with hi | hi
      · exact hbacked i hi
      · obtain ⟨hlow, hhigh⟩ := mem_range'_1.mp hi
        exact ⟨block.slot, (votedTracker s block).voters i, hall i (by omega) (by omega), hvoted i⟩

omit [DecidableEq AccountID] in
theorem VoterInv.reset (h : VoterInv g hist s) (targetSlot : Nat) :
    VoterInv g (hist ++ [.reset targetSlot]) (reset s targetSlot) := by
  refine ⟨?_, fun i hi => (h.backed i hi).append _⟩
  intro b i a ha
  simp only [SlotGadget.reset] at ha
  split at ha
  · simp [newSlotTracker, SlotTracker.voters] at ha
  · obtain ⟨hseat, block, hmem, hblock⟩ := h.voter b i a ha
    exact ⟨hseat, block, mem_append_left _ hmem, hblock⟩

/-- In every run whose steps all meet the condition, every finalized slot is
    backed and no account without a seat is counted. -/
theorem finalized_slots_backed (g : Gadget AccountID) (latestFinalizedSlot : Nat)
    (is : List (Input AccountID)) (s : State AccountID)
    (hcond : AllSteps (step g) (SeatedStep g) (initialState latestFinalizedSlot) is)
    (hrun : run (step g) (initialState latestFinalizedSlot) is = some s) :
    FinalizationSafe g is s := by
  have hinit : VoterInv g [] (initialState latestFinalizedSlot : State AccountID) := by
    refine ⟨?_, ?_⟩ <;> simp [initialState, newSlotTracker, SlotTracker.voters]
  have h : VoterInv g ([] ++ is) s := by
    refine run_history_invariant_of ?_ hinit hcond hrun
    intro hist s i s' hs hi hstep
    obtain ⟨block, rfl, rfl⟩ | ⟨targetSlot, rfl, rfl⟩ := step_cases hstep
    · exact hs.trackVotes hi
    · exact hs.reset targetSlot
  exact ⟨h.backed, fun b i a ha => (h.voter b i a ha).1⟩

/-- The votes of the three committee members finalize slot `10`. -/
theorem finalized_slots_backed_committee : ∃ s, run (step threeSeats) (initialState 9)
        [.blockConfirmed { slot := 12, slotCommitment := 10, issuerID := 0 },
          .blockConfirmed { slot := 12, slotCommitment := 10, issuerID := 1 },
          .blockConfirmed { slot := 12, slotCommitment := 10, issuerID := 2 }] = some s ∧
      s.slotFinalized = [10] ∧
      FinalizationSafe threeSeats
        [.blockConfirmed { slot := 12, slotCommitment := 10, issuerID := 0 },
          .blockConfirmed { slot := 12, slotCommitment := 10, issuerID := 1 },
          .blockConfirmed { slot := 12, slotCommitment := 10, issuerID := 2 }] s := by
  refine exists_result (by decide) fun s hs _ => ?_
  refine finalized_slots_backed threeSeats 9 _ s ?_ hs
  apply allSteps_of_forall
  intro i hi s
  simp only [mem_cons, not_mem_nil, or_false] at hi
  rcases hi with rfl | rfl | rfl <;> exact .inl (by decide)

end AxonCore.SlotGadget

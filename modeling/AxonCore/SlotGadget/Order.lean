import AxonCore.SlotGadget.Tracking

/-! # Are slots finalized one after the other?

    The loop that finalizes slots starts after the last finalized slot or after
    the voter's previous vote, whichever is later.  In the second case it skips
    the slots in between, and if the next one reaches its threshold they are
    never finalized.

    * `finalization_skips_slot`: a smaller committee in the later slot is enough.
    * `finalization_consecutive_iff`: the finalized slots of a run are consecutive
      exactly if no step starts behind an unfinalized slot and reaches the
      threshold there.
    * `finalization_complete`: no step does so if later slots never need fewer
      votes, and then no slot with enough votes is left out. -/

namespace AxonCore.SlotGadget

open AxonCore.Lib List Option

variable {AccountID : Type} [DecidableEq AccountID] {g : Gadget AccountID}
  {s s' : State AccountID}

/-! ## Section 1: The property and the condition -/

/-- The finalized slots follow the initial one without gaps or repetitions. -/
def Consecutive (latestFinalizedSlot : Nat) (slotFinalized : List Nat) : Prop :=
  slotFinalized = range' (latestFinalizedSlot + 1) slotFinalized.length

/-- The vote is not counted, or the issuer's previous vote in the block's slot is
    not after the last finalized slot, or the slot after that vote does not reach
    its threshold with the new vote. -/
def ConsecutiveStep (g : Gadget AccountID) (s : State AccountID) : Input AccountID → Prop
  | .blockConfirmed block =>
    let tracker := s.slotTrackers block.slot
    let previousSlot := tracker.votesPerIdentity block.issuerID
    ¬ Counts s block ∨ previousSlot ≤ s.lastFinalizedSlot ∨
      isFinalizable g (insert block.issuerID (tracker.voters (previousSlot + 1)))
        (previousSlot + 1) = false
  | .reset _ => True

/-! ## Section 2: A skipped slot -/

/-- The committee of slot `10` has four seats, that of slot `11` has one. -/
def shrinkingCommittee : Gadget Nat where
  seatCountInSlot := fun slot => if slot ≤ 10 then 4 else 1
  hasSeat := fun _ a => decide (a = 0)
  optsSlotFinalizationThreshold := superMajority

/-- Two blocks of slot `13` by the same account. -/
def twoVotes : List (Input Nat) :=
  [.blockConfirmed { slot := 13, slotCommitment := 10, issuerID := 0 },
    .blockConfirmed { slot := 13, slotCommitment := 11, issuerID := 0 }]

theorem finalization_skips_slot :
    ∃ s, run (step shrinkingCommittee) (initialState 9) twoVotes = some s ∧
      s.slotFinalized = [11] ∧ ¬ Consecutive 9 s.slotFinalized := by
  refine exists_result (by decide) fun s _ hfinal hconsecutive => ?_
  rw [hfinal] at hconsecutive
  exact absurd hconsecutive (by unfold Consecutive; decide)

/-! ## Section 3: One step -/

/-- The finalized slots so far end with the last finalized slot. -/
structure ConsecutiveInv (latestFinalizedSlot : Nat) (s : State AccountID) : Prop where
  consecutive : Consecutive latestFinalizedSlot s.slotFinalized
  last : s.lastFinalizedSlot = latestFinalizedSlot + s.slotFinalized.length

variable {block : Block AccountID}

theorem voters_votedTracker_first (hlt : countedFrom s block < block.slotCommitment) :
    (votedTracker s block).voters (countedFrom s block + 1) =
      insert block.issuerID ((s.slotTrackers block.slot).voters (countedFrom s block + 1)) := by
  ext a
  rw [Finset.mem_insert, or_comm]
  refine mem_voted.trans (or_congr_right ?_)
  constructor
  · exact fun ha => ha.1
  · exact fun ha => ⟨ha, Nat.lt_succ_self _, hlt⟩

variable {latestFinalizedSlot : Nat}

theorem ConsecutiveInv.trackVotes (h : ConsecutiveInv latestFinalizedSlot s)
    (hcond : ConsecutiveStep g s (.blockConfirmed block)) :
    ConsecutiveInv latestFinalizedSlot (trackVotes g s block) := by
  rcases trackVotes_cases g s block with ⟨-, heq⟩ | ⟨hcounts, k, hk, hall, -, heq⟩
  · rw [heq]
    exact h
  · rw [heq]
    by_cases hk0 : k = 0
    · -- nothing is finalized
      subst hk0
      exact ⟨by simpa using h.consecutive, by simpa using h.last⟩
    · -- the loop started at the slot after the last finalized one
      have hstart : countedFrom s block = s.lastFinalizedSlot := by
        rcases hcond with hnot | hle | hnot
        · exact absurd hcounts hnot
        · exact Nat.max_eq_left hle
        · refine Nat.max_eq_left (Nat.le_of_not_lt fun hlt => ?_)
          have hprev : countedFrom s block =
              (s.slotTrackers block.slot).votesPerIdentity block.issuerID :=
            Nat.max_eq_right (by omega)
          have hfirst := hall (countedFrom s block + 1) (by omega) (by omega)
          rw [voters_votedTracker_first (by omega), hprev, hnot] at hfirst
          cases hfirst
      refine ⟨?_, ?_⟩
      · show s.slotFinalized ++ range' (countedFrom s block + 1) k =
          range' (latestFinalizedSlot + 1)
            (s.slotFinalized ++ range' (countedFrom s block + 1) k).length
        rw [length_append, length_range', ← range'_append_1, ← h.consecutive, hstart, h.last,
          Nat.add_right_comm]
      · have hlast := h.last
        simp only [hk0, if_false, length_append, length_range']
        omega

theorem exists_gap (hcond : ¬ ConsecutiveStep g s (.blockConfirmed block)) :
    ∃ slot rest, s.lastFinalizedSlot + 1 < slot ∧
      (trackVotes g s block).slotFinalized = s.slotFinalized ++ slot :: rest := by
  simp only [ConsecutiveStep, not_or, not_not, not_le, Bool.not_eq_false] at hcond
  obtain ⟨hcounts, hlt, hfin⟩ := hcond
  have hprev : countedFrom s block =
      (s.slotTrackers block.slot).votesPerIdentity block.issuerID :=
    Nat.max_eq_right (by omega)
  rcases trackVotes_cases g s block with ⟨hnot, -⟩ | ⟨-, k, hk, -, hstop, heq⟩
  · exact absurd hcounts hnot
  · have hcommit : countedFrom s block < block.slotCommitment := by
      rw [hprev]
      exact hcounts.2
    cases k with
    | zero =>
      -- the loop did not stop at its first slot
      have hfirst := hstop (by omega)
      rw [Nat.add_zero, voters_votedTracker_first hcommit, hprev, hfin] at hfirst
      cases hfirst
    | succ k =>
      refine ⟨countedFrom s block + 1, range' (countedFrom s block + 2) k, by omega, ?_⟩
      rw [heq]
      rw [range'_succ]

/-! ## Section 4: Runs -/

theorem consecutiveInv_step {i : Input AccountID} (h : ConsecutiveInv latestFinalizedSlot s)
    (hcond : ConsecutiveStep g s i) (hstep : step g s i = some s') :
    ConsecutiveInv latestFinalizedSlot s' := by
  obtain ⟨block, rfl, rfl⟩ | ⟨targetSlot, rfl, rfl⟩ := step_cases hstep
  · exact h.trackVotes hcond
  · exact ⟨h.consecutive, h.last⟩

theorem slotFinalized_append {is : List (Input AccountID)} (hrun : run (step g) s is = some s') :
    ∃ more, s'.slotFinalized = s.slotFinalized ++ more := by
  refine run_invariant (I := fun t => ∃ more, t.slotFinalized = s.slotFinalized ++ more) ?_
    ⟨[], by simp⟩ hrun
  intro t i t' ht hstep
  obtain ⟨more, hmore⟩ := ht
  obtain ⟨block, rfl, rfl⟩ | ⟨targetSlot, rfl, rfl⟩ := step_cases hstep
  · rcases trackVotes_cases g t block with ⟨-, heq⟩ | ⟨-, k, -, -, -, heq⟩
    · exact ⟨more, by rw [heq, hmore]⟩
    · refine ⟨more ++ range' (countedFrom t block + 1) k, ?_⟩
      rw [heq, ← append_assoc, ← hmore]
  · exact ⟨more, hmore⟩

theorem not_consecutive_of_gap {slot : Nat} {before rest : List Nat}
    (hgap : latestFinalizedSlot + before.length + 1 < slot) :
    ¬ Consecutive latestFinalizedSlot (before ++ slot :: rest) := by
  intro h
  have hget := congrArg (fun l => l[before.length]?) h
  simp only [getElem?_append_right (Nat.le_refl _), Nat.sub_self,
    getElem?_cons_zero] at hget
  rw [getElem?_range' (by simp)] at hget
  have := some.inj hget
  omega

theorem allSteps_of_consecutive :
    ∀ {is : List (Input AccountID)} {s s' : State AccountID},
      ConsecutiveInv latestFinalizedSlot s → run (step g) s is = some s' →
      Consecutive latestFinalizedSlot s'.slotFinalized →
      AllSteps (step g) (ConsecutiveStep g) s is := by
  intro is
  induction is with
  | nil => exact fun _ _ _ => trivial
  | cons i is ih =>
    intro s s' h hrun hconsecutive
    obtain ⟨t, ht, hrest⟩ := run_cons.mp hrun
    by_cases hcond : ConsecutiveStep g s i
    · refine ⟨hcond, ?_⟩
      intro u hu
      rw [ht, some.injEq] at hu
      subst hu
      exact ih (consecutiveInv_step h hcond ht) hrest hconsecutive
    · exfalso
      obtain ⟨block, rfl, rfl⟩ | ⟨targetSlot, rfl, rfl⟩ := step_cases ht
      · obtain ⟨slot, rest, hlt, hevents⟩ := exists_gap hcond
        obtain ⟨more, hmore⟩ := slotFinalized_append hrest
        rw [hmore, hevents, append_assoc, cons_append] at hconsecutive
        rw [h.last] at hlt
        exact not_consecutive_of_gap hlt hconsecutive
      · exact hcond trivial

/-- The finalized slots of a run are consecutive, starting after the initial
    one, exactly if all its steps meet the condition. -/
theorem finalization_consecutive_iff (g : Gadget AccountID) (latestFinalizedSlot : Nat)
    (is : List (Input AccountID)) (s : State AccountID)
    (hrun : run (step g) (initialState latestFinalizedSlot) is = some s) :
    Consecutive latestFinalizedSlot s.slotFinalized ↔
      AllSteps (step g) (ConsecutiveStep g) (initialState latestFinalizedSlot) is := by
  have hinit : ConsecutiveInv latestFinalizedSlot
      (initialState latestFinalizedSlot : State AccountID) := ⟨rfl, rfl⟩
  constructor
  · exact allSteps_of_consecutive hinit hrun
  · intro hcond
    have h : ConsecutiveInv latestFinalizedSlot s :=
      run_invariant_of (fun _ _ _ hs hi hstep => consecutiveInv_step hs hi hstep) hinit hcond hrun
    exact h.consecutive

/-- Blocks that commit to one slot after the other. -/
theorem finalization_consecutive_iff_votes : ∃ s, run (step shrinkingCommittee) (initialState 10)
        [.blockConfirmed { slot := 13, slotCommitment := 11, issuerID := 0 },
          .blockConfirmed { slot := 14, slotCommitment := 12, issuerID := 0 }] = some s ∧
      s.slotFinalized = [11, 12] ∧
      AllSteps (step shrinkingCommittee) (ConsecutiveStep shrinkingCommittee) (initialState 10)
        [.blockConfirmed { slot := 13, slotCommitment := 11, issuerID := 0 },
          .blockConfirmed { slot := 14, slotCommitment := 12, issuerID := 0 }] := by
  refine exists_result (by decide) fun s hs hfinal => ?_
  refine (finalization_consecutive_iff shrinkingCommittee 10 _ s hs).mp ?_
  rw [hfinal]
  rfl

/-! ## Section 5: Committees that do not shrink -/

/-- The voters of the slots after the last finalized one are those that voted for them or for
    later ones, and the next slot is still to be finalized. -/
structure Nested (g : Gadget AccountID) (last : Nat) (t : SlotTracker AccountID) : Prop where
  voters : ∀ a i, last < i → (a ∈ t.voters i ↔ i ≤ t.votesPerIdentity a)
  unfinalized : isFinalizable g (t.voters (last + 1)) (last + 1) = false

abbrev NestedInv (g : Gadget AccountID) (s : State AccountID) : Prop :=
  ∀ b, Nested g s.lastFinalizedSlot (s.slotTrackers b)

section seatCount

omit [DecidableEq AccountID]

variable {last i : Nat} {t : SlotTracker AccountID}

theorem nested_newSlotTracker (g : Gadget AccountID) (last : Nat) :
    Nested g last newSlotTracker where
  voters := fun _ _ hlt =>
    iff_of_false (Finset.notMem_empty _) (Nat.not_le.mpr (Nat.zero_lt_of_lt hlt))
  unfinalized := Bool.eq_false_iff.mpr fun hfin =>
    absurd (isThresholdReached_pos hfin) (Nat.lt_irrefl 0)

theorem Nested.subset (h : Nested g last t) (hi : last < i) : t.voters (i + 1) ⊆ t.voters i :=
  fun a ha => (h.voters a i hi).mpr (Nat.le_of_succ_le ((h.voters a _ (by omega)).mp ha))

variable (hcount : ∀ i n,
  isThresholdReached n (g.seatCountInSlot (i + 1)) g.optsSlotFinalizationThreshold = true →
  isThresholdReached n (g.seatCountInSlot i) g.optsSlotFinalizationThreshold = true)
include hcount

theorem not_finalizable_succ {voters voters' : Finset AccountID}
    (hsub : voters' ⊆ voters) (hnot : isFinalizable g voters i = false) :
    isFinalizable g voters' (i + 1) = false := by
  rw [← Bool.not_eq_true] at hnot ⊢
  exact fun hfin => hnot (hcount _ _ (isThresholdReached_mono (Finset.card_le_card hsub) hfin))

theorem Nested.not_finalizable (h : Nested g last t) (hi : last < i) :
    isFinalizable g (t.voters i) i = false := by
  induction i, hi using Nat.le_induction with
  | base => exact h.unfinalized
  | succ i hi ih => exact not_finalizable_succ hcount (h.subset hi) ih

variable [DecidableEq AccountID]

theorem NestedInv.consecutiveStep (h : NestedInv g s) (i : Input AccountID) :
    ConsecutiveStep g s i := by
  cases i with
  | reset targetSlot => trivial
  | blockConfirmed block =>
    have ht := h block.slot
    by_cases hle : (s.slotTrackers block.slot).votesPerIdentity block.issuerID ≤ s.lastFinalizedSlot
    · exact .inr (.inl hle)
    · right; right
      -- the voters of the next slot voted for the previous one, and so did the issuer
      have hlt := Nat.lt_of_not_le hle
      apply not_finalizable_succ hcount _ (ht.not_finalizable hcount hlt)
      exact Finset.insert_subset ((ht.voters _ _ hlt).mpr (Nat.le_refl _)) (ht.subset hlt)

/-- A tracker gets a vote.  If the vote is counted for the next slot, this slot must not reach its
    threshold. -/
theorem Nested.voted {a : AccountID} {slot last' : Nat} (h : Nested g last t)
    (hlater : t.votesPerIdentity a < slot) (hle : last ≤ last')
    (hnext : max last (t.votesPerIdentity a) ≤ last' → last' < slot →
      isFinalizable g ((voted t slot a last).voters (last' + 1)) (last' + 1) = false) :
    Nested g last' (voted t slot a last) := by
  constructor
  · intro b i hi
    refine mem_voted.trans ?_
    rw [h.voters b i (by omega)]
    by_cases hb : b = a
    · simp only [SlotGadget.voted, hb, true_and, if_true]
      omega
    · simp [SlotGadget.voted, hb]
  · by_cases hcounted : max last (t.votesPerIdentity a) ≤ last' ∧ last' < slot
    · exact hnext hcounted.1 hcounted.2
    · have hsame : (SlotGadget.voted t slot a last).voters (last' + 1) = t.voters (last' + 1) := by
        ext b
        refine mem_voted.trans (or_iff_left ?_)
        rintro ⟨-, hlt, hslot⟩
        exact hcounted ⟨Nat.le_of_lt_succ hlt, hslot⟩
      rw [hsame]
      exact h.not_finalizable hcount (by omega)

theorem NestedInv.step {i : Input AccountID} (h : NestedInv g s) (hstep : step g s i = some s') :
    NestedInv g s' := by
  intro b
  obtain ⟨block, rfl, rfl⟩ | ⟨targetSlot, rfl, rfl⟩ := step_cases hstep
  · rcases trackVotes_cases g s block with ⟨-, heq⟩ | ⟨hcounts, k, -, -, hstop, heq⟩
    · rw [heq]
      exact h b
    · rw [heq]
      simp only [deleteTrackers]
      generalize hlast : (if k = 0 then s.lastFinalizedSlot else countedFrom s block + k) = last
      have hfrom : s.lastFinalizedSlot ≤ countedFrom s block := Nat.le_max_left _ _
      have hle : s.lastFinalizedSlot ≤ last := by
        split at hlast <;> omega
      split_ifs
      · exact nested_newSlotTracker g last
      · apply (h block.slot).voted hcount hcounts.2 hle
        intro hcounted hcommit
        -- the loop stopped at the next slot
        change countedFrom s block ≤ last at hcounted
        have hnext : last = countedFrom s block + k := by
          split at hlast <;> omega
        rw [hnext]
        exact hstop (by omega)
      · exact ⟨fun a i hi => (h b).voters a i (by omega), (h b).not_finalizable hcount (by omega)⟩
  · simp only [SlotGadget.reset]
    split
    · exact nested_newSlotTracker g _
    · exact h b

/-- If no slot needs fewer votes than the one before it, every step of every run
    meets the condition. -/
theorem allSteps_consecutiveStep_of_seatCount (h : NestedInv g s) (is : List (Input AccountID)) :
    AllSteps (step g) (ConsecutiveStep g) s is := by
  induction is generalizing s with
  | nil => trivial
  | cons i is ih => exact ⟨h.consecutiveStep hcount i, fun s' hstep => ih (h.step hcount hstep)⟩

/-- Then the slots are finalized one after the other, and every slot is finalized for which
    enough accounts voted in blocks of one slot. -/
theorem finalization_complete {latestFinalizedSlot : Nat} {is : List (Input AccountID)}
    (hrun : run (step g) (initialState latestFinalizedSlot) is = some s) :
    Consecutive latestFinalizedSlot s.slotFinalized ∧
      ∀ b i, isFinalizable g ((s.slotTrackers b).voters i) i = true → i ≤ s.lastFinalizedSlot := by
  have hinit : NestedInv g (initialState latestFinalizedSlot) := fun _ => nested_newSlotTracker g _
  constructor
  · have hstart : ConsecutiveInv latestFinalizedSlot
        (initialState latestFinalizedSlot : State AccountID) := ⟨rfl, rfl⟩
    exact (run_invariant_of (fun _ _ _ hs hi => consecutiveInv_step hs hi) hstart
      (allSteps_consecutiveStep_of_seatCount hcount hinit is) hrun).consecutive
  · have h : NestedInv g s := run_invariant (fun _ _ _ hs => hs.step hcount) hinit hrun
    intro b i hfin
    by_contra hlt
    rw [(h b).not_finalizable hcount (Nat.lt_of_not_le hlt)] at hfin
    cases hfin

end seatCount

/-- The votes of `twoVotes`, with one seat in every committee. -/
theorem finalization_complete_twoVotes :
    ∃ s, run (step { shrinkingCommittee with seatCountInSlot := fun _ => 1 }) (initialState 9)
        twoVotes = some s ∧
      s.slotFinalized = [10, 11] ∧ Consecutive 9 s.slotFinalized :=
  exists_result (by decide) fun _ hs _ =>
    (finalization_complete (fun _ _ h => h) hs).1

end AxonCore.SlotGadget

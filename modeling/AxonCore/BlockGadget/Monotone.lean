import AxonCore.BlockGadget.Invariants

/-! # Is block acceptance monotone?

    The past cone of a (pre-)accepted block should be (pre-)accepted.  For
    acceptance this follows from the invariants alone, since all blocks are
    measured against the online committee.  Pre-acceptance is measured against
    the committee of the block's own slot as well, so a block can reach its
    threshold where its parent does not.  The walk then relies on the parent
    being visited after its child, and a breadth-first walk that never comes
    back visits a parent first if the voting block also refers to it directly.

    * `acceptance_not_monotone`: a block DAG where this happens.
    * `acceptance_monotone`: in every run whose calls either find every parent
      of a block above its threshold above the threshold, too, or meet the
      blocks that are not pre-accepted at a single depth, acceptance is monotone.
    * `monotoneStep_of_seatCount`: every step is of this kind if no block needs
      more votes than its children do. -/

namespace AxonCore.BlockGadget

open AxonCore.Lib

variable {BlockID AccountID : Type} [DecidableEq BlockID] {g : Gadget BlockID AccountID}
  {online : Nat} {s s' : State BlockID} {votingBlock : BlockID} {seat : SeatIndex}
  {order : List BlockID}

/-! ## Section 1: The property and the condition -/

section

variable (g : Gadget BlockID AccountID) (s : State BlockID)

/-- The parents in the cache of pre-accepted blocks are pre-accepted, those of
    accepted blocks are accepted, and nothing is accepted or pre-confirmed
    without being pre-accepted. -/
structure AcceptanceMonotone : Prop where
  preAccepted_parent : ∀ c, ∀ p ∈ g.parents c, p ∈ s.stored → (s.block c).preAccepted = true →
    (s.block p).preAccepted = true
  accepted_parent : ∀ c, ∀ p ∈ g.parents c, p ∈ s.stored → (s.block c).accepted = true →
    (s.block p).accepted = true
  preAccepted_of_accepted : ∀ b, (s.block b).accepted = true → (s.block b).preAccepted = true
  preAccepted_of_preConfirmed : ∀ b, (s.block b).preConfirmed = true →
    (s.block b).preAccepted = true

/-- A path of `n` steps through the cache leads from a parent of the voting
    block to `b`. -/
def AtDepth (votingBlock : BlockID) (n : Nat) (b : BlockID) : Prop :=
  Depth g.parents (· ∈ s.stored) (g.parents votingBlock) n b

/-- With the vote of `seat` counted, the block reaches a threshold for
    pre-acceptance. -/
def reachesThreshold (online : Nat) (s : State BlockID) (seat : SeatIndex) (b : BlockID) : Bool :=
  (shouldPreAcceptAndPreConfirm g online b
    { s.block b with witnesses := insert seat (s.block b).witnesses }).1

/-- Whenever the voting block or a block in its past cone reaches its threshold,
    its parents do (blocks that are pre-accepted already do not matter). -/
def ParentsReachThreshold (online : Nat) (s : State BlockID) (votingBlock : BlockID) : Prop :=
  ∀ seat, isCommitteeValidationBlock g votingBlock = some seat →
    ∀ c ∈ s.stored, (c = votingBlock ∨ ∃ n, AtDepth g s votingBlock n c) →
      (s.block c).preAccepted = false → reachesThreshold g online s seat c = true →
      ∀ p ∈ g.parents c, p ∈ s.stored → (s.block p).preAccepted = false →
        reachesThreshold g online s seat p = true

/-- No block that is not pre-accepted is met at two depths. -/
def SingleDepth (votingBlock : BlockID) : Prop :=
  ∀ p ∈ s.stored, (s.block p).preAccepted = false →
    ∀ n m, AtDepth g s votingBlock n p → AtDepth g s votingBlock m p → n = m

/-- The condition on a step. -/
def MonotoneStep : Input BlockID → Prop
  | .track b online => ParentsReachThreshold g online s b ∨ SingleDepth g s b
  | _ => True

end

/-! ## Section 2: A parent that is visited too early -/

/-- Block `2` is in a slot with a committee of one seat, the other blocks are in
    slots with three seats.  The vote of block `3` pre-accepts block `2`; block `1`
    was visited before and is not visited again. -/
theorem acceptance_not_monotone :
    ∃ s, run (step (triangleGadget (fun slot => if slot = 2 then 1 else 3))) initialState
        (triangleInputs 3) = some s ∧
      (1 ∈ (triangleGadget (fun slot => if slot = 2 then 1 else 3)).parents 2 ∧ 1 ∈ s.stored) ∧
      (s.block 2).preAccepted = true ∧ (s.block 1).preAccepted = false ∧
      ¬ AcceptanceMonotone (triangleGadget (fun slot => if slot = 2 then 1 else 3)) s := by
  refine exists_of_result (P := fun s : State Nat => 1 ∈ s.stored ∧ (s.block 2).preAccepted = true ∧
    (s.block 1).preAccepted = false) (by decide) fun s _ hP => ?_
  obtain ⟨hs, hpre, hnot⟩ := hP
  refine ⟨⟨by decide, hs⟩, hpre, hnot, fun hmono => ?_⟩
  have := hmono.preAccepted_parent 2 1 (by decide) hs hpre
  rw [hnot] at this
  cases this

/-! ## Section 3: The witness walk -/

variable {b v : BlockID}

omit [DecidableEq BlockID] in
theorem preAccept_of_preConfirm {m : Block}
    (h : (shouldPreAcceptAndPreConfirm g online b m).2 = true) :
    (shouldPreAcceptAndPreConfirm g online b m).1 = true := by
  unfold shouldPreAcceptAndPreConfirm at h ⊢
  dsimp only at h ⊢
  split at h
  · next hr => rw [if_pos hr]
  · split at h <;> cases h

section walk

variable (hspec : WitnessSpec g online s votingBlock seat order)
include hspec

theorem WitnessSpec.preAcceptedBy_of_reachesThreshold (ho : b ∈ order) (hs : b ∈ s.stored)
    (hpre : (s.block b).preAccepted = false) (hr : reachesThreshold g online s seat b = true) :
    b ∈ preAcceptedBy g online s votingBlock seat order := by
  apply Cascade.mem_collected_of_reached hspec.preAcceptance.nodup ho
  · dsimp only
    rw [hspec.selfWitnessed_eq ho]
    simp [preAcceptanceCascade, hs, hpre]
  · dsimp only
    rw [hspec.selfWitnessed_eq ho]
    exact hr

theorem WitnessSpec.reachesThreshold_of_preAcceptedBy
    (hseat : isCommitteeValidationBlock g votingBlock = some seat)
    (hreach : ParentsReachThreshold g online s votingBlock) :
    ∀ b ∈ preAcceptedBy g online s votingBlock seat order,
      reachesThreshold g online s seat b = true := by
  refine Cascade.collected_induction hspec.preAcceptance.nodup ?_ ?_ ?_
  · intro b hb
    obtain ⟨rfl, -, -, hr⟩ := mem_selfCollected hb
    exact hr
  · intro b ho _ hr
    dsimp only at hr
    rw [hspec.selfWitnessed_eq ho] at hr
    exact hr
  · intro x ho hel y hy hycol hyreach
    -- the child was collected, so it is in the cache and not pre-accepted
    obtain ⟨hmet, hys, hypre⟩ := hspec.preAcceptedBy_eligible hycol
    have hdepth : y = votingBlock ∨ ∃ n, AtDepth g s votingBlock n y :=
      hmet.imp_right hspec.preAcceptance.exists_depth
    dsimp only at hel
    rw [hspec.selfWitnessed_eq ho] at hel
    have hx : x ∈ s.stored ∧ (s.block x).preAccepted = false := by
      simpa [preAcceptanceCascade] using hel
    exact hreach seat hseat y hys hdepth hypre hyreach x (mem_children.mp hy).2 hx.1 hx.2

theorem WitnessSpec.preAcceptedBy_parent (hcache : CacheInv g s) (hstored : votingBlock ∈ s.stored)
    (hseat : isCommitteeValidationBlock g votingBlock = some seat)
    (hcond : ParentsReachThreshold g online s votingBlock ∨ SingleDepth g s votingBlock)
    {c p : BlockID} (hc : c ∈ preAcceptedBy g online s votingBlock seat order)
    (hp : p ∈ g.parents c) (hs : p ∈ s.stored) (hpre : (s.block p).preAccepted = false) :
    p ∈ preAcceptedBy g online s votingBlock seat order := by
  obtain ⟨hmet, hcs, hcpre⟩ := hspec.preAcceptedBy_eligible hc
  have hchild : c ∈ children g s.appended p :=
    mem_children.mpr ⟨hcache.stored_appended c hcs, hp⟩
  have helig : ∀ b ∈ order, b ∈ s.stored → (s.block b).preAccepted = false →
      (preAcceptanceCascade g online s seat).eligible b
        (selfWitnessed s votingBlock seat b) = true := by
    intro b hb hbs hbpre
    rw [hspec.selfWitnessed_eq hb]
    simp [preAcceptanceCascade, hbs, hbpre]
  by_cases hself : c ∈ selfPreAccepted g online s votingBlock seat
  · -- the voting block was collected before the walk started at its parents
    obtain ⟨rfl, -⟩ := mem_selfCollected hself
    have hpo : p ∈ order := hspec.preAcceptance.start_mem p hp
    have hnodup : ([] ++ order).Nodup := hspec.preAcceptance.nodup
    exact Cascade.mem_collected_of_child hnodup hself hchild hpo (helig p hpo hs hpre)
  · have hpo : p ∈ order := hspec.preAcceptance.closed_collected c hc hself p hp
    rcases hcond with hreach | hdepth
    · have hcreach := hspec.reachesThreshold_of_preAcceptedBy hseat hreach c hc
      have hdepth : c = votingBlock ∨ ∃ n, AtDepth g s votingBlock n c :=
        hmet.imp_right hspec.preAcceptance.exists_depth
      exact hspec.preAcceptedBy_of_reachesThreshold hpo hs hpre
        (hreach seat hseat c hcs hdepth hcpre hcreach p hp hs hpre)
    · exact hspec.preAcceptance.mem_collected_of_unique_depth hc hself hcs hp hchild
        (helig p hpo hs hpre) (hdepth p hs hpre)

end walk

/-! ## Section 4: Acceptance is monotone along a run -/

/-- The part of `AcceptanceMonotone` that needs the condition. -/
structure PreAcceptanceInv (g : Gadget BlockID AccountID) (s : State BlockID) : Prop where
  preAccepted_parent : ∀ c, ∀ p ∈ g.parents c, p ∈ s.stored → (s.block c).preAccepted = true →
    (s.block p).preAccepted = true
  preAccepted_of_accepted : ∀ b, (s.block b).accepted = true → (s.block b).preAccepted = true
  preAccepted_of_preConfirmed : ∀ b, (s.block b).preConfirmed = true →
    (s.block b).preAccepted = true

omit [DecidableEq BlockID] in
theorem PreAcceptanceInv.congr (h : PreAcceptanceInv g s) (hstored : ∀ b ∈ s'.stored, b ∈ s.stored)
    (hm : SameAcceptance s.block s'.block) : PreAcceptanceInv g s' := by
  refine ⟨?_, ?_, ?_⟩
  · intro c p hp hs
    rw [hm c, hm p]
    exact h.preAccepted_parent c p hp (hstored p hs)
  · intro b
    rw [hm b]
    exact h.preAccepted_of_accepted b
  · intro b
    rw [hm b]
    exact h.preAccepted_of_preConfirmed b

theorem witnessed_preAccepted :
    (witnessed g online s votingBlock seat order b).preAccepted = true ↔
      (s.block b).preAccepted = true ∨ b ∈ preAcceptedBy g online s votingBlock seat order := by
  simp [witnessed]

theorem witnessed_preConfirmed :
    (witnessed g online s votingBlock seat order b).preConfirmed = true ↔
      (s.block b).preConfirmed = true ∨ b ∈ preConfirmedBy g online s votingBlock seat order := by
  simp [witnessed]

/-- What is collected for pre-confirmation is pre-accepted or collected for
    pre-acceptance, if pre-acceptance reaches the parents. -/
theorem WitnessSpec.preAccepted_of_preConfirmedBy
    (hspec : WitnessSpec g online s votingBlock seat order)
    (hparent : ∀ c, ∀ p ∈ g.parents c, p ∈ s.stored →
      (witnessed g online s votingBlock seat order c).preAccepted = true →
      (witnessed g online s votingBlock seat order p).preAccepted = true) :
    ∀ b ∈ preConfirmedBy g online s votingBlock seat order,
      (witnessed g online s votingBlock seat order b).preAccepted = true := by
  refine Cascade.collected_induction hspec.preConfirmation.nodup ?_ ?_ ?_
  · intro b hb
    obtain ⟨rfl, hadd, hel, hr⟩ := mem_selfCollected hb
    apply witnessed_preAccepted.mpr
    cases hpre : (s.block b).preAccepted with
    | true => exact .inl rfl
    | false =>
      have hs : b ∈ s.stored := stored_of_preConfirmationCascade_eligible hel
      have hcol : (preAcceptanceCascade g online s seat).collects [] b (s.block b) = true := by
        apply Cascade.collects_eq_true.mpr
        exact ⟨by simp [preAcceptanceCascade, hs, hpre], .inl (preAccept_of_preConfirm hr)⟩
      right
      apply Cascade.mem_collected_of_mem
      simp [selfPreAccepted, hadd, hcol]
  · intro b ho hel hr
    dsimp only at hr
    rw [hspec.selfWitnessed_eq ho] at hr
    have hs : b ∈ s.stored := stored_of_preConfirmationCascade_eligible hel
    apply witnessed_preAccepted.mpr
    cases hpre : (s.block b).preAccepted with
    | true => exact .inl rfl
    | false =>
      exact .inr (hspec.preAcceptedBy_of_reachesThreshold ho hs hpre (preAccept_of_preConfirm hr))
  · intro x ho hel y hy _ hpre
    exact hparent y x (mem_children.mp hy).2 (stored_of_preConfirmationCascade_eligible hel) hpre

section

variable (h : PreAcceptanceInv g s)
include h

theorem PreAcceptanceInv.witnessedState (hcache : CacheInv g s) (hstored : votingBlock ∈ s.stored)
    (hseat : isCommitteeValidationBlock g votingBlock = some seat)
    (hcond : ParentsReachThreshold g online s votingBlock ∨ SingleDepth g s votingBlock)
    (hspec : WitnessSpec g online s votingBlock seat order) :
    PreAcceptanceInv g (witnessedState g online s votingBlock seat order) := by
  have hparent : ∀ c, ∀ p ∈ g.parents c, p ∈ s.stored →
      (witnessed g online s votingBlock seat order c).preAccepted = true →
      (witnessed g online s votingBlock seat order p).preAccepted = true := by
    intro c p hp hs hc
    apply witnessed_preAccepted.mpr
    rcases witnessed_preAccepted.mp hc with hc | hc
    · exact .inl (h.preAccepted_parent c p hp hs hc)
    · cases hpre : (s.block p).preAccepted with
      | true => exact .inl rfl
      | false => exact .inr (hspec.preAcceptedBy_parent hcache hstored hseat hcond hc hp hs hpre)
  refine ⟨hparent, ?_, ?_⟩
  · intro b hb
    exact witnessed_preAccepted.mpr (.inl (h.preAccepted_of_accepted b hb))
  · intro b hb
    rcases witnessed_preConfirmed.mp hb with hb | hb
    · exact witnessed_preAccepted.mpr (.inl (h.preAccepted_of_preConfirmed b hb))
    · exact hspec.preAccepted_of_preConfirmedBy hparent b hb

omit [DecidableEq BlockID] in
theorem PreAcceptanceInv.of_depth {n : Nat} (hv : (s.block v).preAccepted = true)
    (hn : AtDepth g s v n b) (hb : b ∈ s.stored) : (s.block b).preAccepted = true := by
  induction hn with
  | start hmem => exact h.preAccepted_parent v _ hmem hb hv
  | next _ hexp hmem ih => exact h.preAccepted_parent _ _ hmem hb (ih hexp)

theorem PreAcceptanceInv.trackAcceptanceRatifierWeight (hv : (s.block v).preAccepted = true) :
    PreAcceptanceInv g (trackAcceptanceRatifierWeight g online s v) := by
  apply trackAcceptanceRatifierWeight_rule h
  intro seat order _ hspec
  refine ⟨h.preAccepted_parent, ?_, h.preAccepted_of_preConfirmed⟩
  intro b hb
  rcases ratified_accepted.mp hb with hb | hb
  · exact h.preAccepted_of_accepted b hb
  · -- the walk started at a pre-accepted block and went through the cache
    have ho : b ∈ order := (Cascade.mem_order_of_collected hb).resolve_left (by simp)
    obtain ⟨n, hn⟩ := hspec.exists_depth ho
    exact h.of_depth hv hn (acceptedBy_eligible hspec.nodup hb).1

theorem PreAcceptanceInv.trackWitnessWeight (hcache : CacheInv g s)
    (hstored : votingBlock ∈ s.stored)
    (hcond : ParentsReachThreshold g online s votingBlock ∨ SingleDepth g s votingBlock) :
    PreAcceptanceInv g (trackWitnessWeight g online s votingBlock) := by
  refine trackWitnessWeight_rule (I := fun _ t => PreAcceptanceInv g t) hstored (fun _ => h)
    ?_ ?_ ?_ ?_
  · intro seat order hseat hspec
    exact h.witnessedState hcache hstored hseat hcond hspec
  · intro seat order t v pending _ _ hf hv ht
    apply ht.trackAcceptanceRatifierWeight
    rw [hf.block v]
    exact witnessed_preAccepted.mpr (.inr hv)
  · exact fun t t' hf ht => ht.congr (fun b hb => hf.stored ▸ hb) hf.sameAcceptance
  · exact fun t ht => ht.congr (fun b hb => hb) (sameAcceptance_setWeightPropagated t votingBlock)

omit [DecidableEq BlockID] in
theorem PreAcceptanceInv.append (hcache : CacheInv g s) (hb : b ∉ s.appended)
    (hroot : g.isRootBlock b = false) :
    PreAcceptanceInv g { s with stored := b :: s.stored, appended := b :: s.appended } := by
  refine ⟨?_, h.preAccepted_of_accepted, h.preAccepted_of_preConfirmed⟩
  intro c p hp hs hc
  rcases List.mem_cons.mp hs with rfl | hs
  · have hc' : (s.block c).preAccepted = true := hc
    rw [hcache.untouched_of_new_parent hb hroot hp] at hc'
    cases hc'
  · exact h.preAccepted_parent c p hp hs hc

end

theorem preAcceptanceInv_step {i : Input BlockID} (hcache : CacheInv g s) (h : PreAcceptanceInv g s)
    (hcond : MonotoneStep g s i) (hstep : step g s i = some s') : PreAcceptanceInv g s' := by
  obtain ⟨b, -, hb, hroot, rfl⟩ | ⟨b, online, rfl, hs, -, rfl⟩ | ⟨bs, -, rfl⟩ := step_cases hstep
  · exact h.append hcache hb hroot
  · exact h.trackWitnessWeight hcache hs hcond
  · exact h.congr (fun b hb => List.mem_of_mem_filter hb) (.refl _)

omit [DecidableEq BlockID] in
theorem preAcceptanceInv_initialState : PreAcceptanceInv g (initialState : State BlockID) := by
  refine ⟨?_, ?_, ?_⟩ <;> simp [initialState]

/-! ## Section 5: Committees of equal size -/

omit [DecidableEq BlockID] in
theorem reachesThreshold_iff :
    reachesThreshold g online s seat b = true ↔
      isThresholdReached (insert seat (s.block b).witnesses).card (g.seatCountInSlot (g.slot b))
        g.optsConfirmationThreshold = true ∨
      isThresholdReached (insert seat (s.block b).witnesses).card online
        g.optsAcceptanceThreshold = true := by
  unfold reachesThreshold shouldPreAcceptAndPreConfirm
  dsimp only
  split_ifs <;> simp_all

section seatCount

variable (hcount : ∀ c, ∀ p ∈ g.parents c, ∀ n,
  isThresholdReached n (g.seatCountInSlot (g.slot c)) g.optsConfirmationThreshold = true →
  isThresholdReached n (g.seatCountInSlot (g.slot p)) g.optsConfirmationThreshold = true)
include hcount

omit [DecidableEq BlockID] in
/-- If no block needs more votes than its children do, every step meets the
    condition: the witnesses of a block are witnesses of its parents. -/
theorem monotoneStep_of_seatCount (h : GadgetInv g s) (i : Input BlockID) : MonotoneStep g s i := by
  cases i with
  | append b => trivial
  | evict bs => trivial
  | track b online =>
    left
    intro seat _ c _ _ _ hc p hp hs _
    have hcard : (insert seat (s.block c).witnesses).card ≤
        (insert seat (s.block p).witnesses).card :=
      Finset.card_le_card (Finset.insert_subset_insert seat (h.weight.witnesses_subset c p hp hs))
    apply reachesThreshold_iff.mpr
    rcases reachesThreshold_iff.mp hc with hc | hc
    · exact .inl (isThresholdReached_mono hcard (hcount c p hp _ hc))
    · exact .inr (isThresholdReached_mono hcard hc)

theorem allSteps_monotoneStep_of_seatCount (h : GadgetInv g s) (is : List (Input BlockID)) :
    AllSteps (step g) (MonotoneStep g) s is := by
  induction is generalizing s with
  | nil => trivial
  | cons i is ih =>
    exact ⟨monotoneStep_of_seatCount hcount h i, fun s' hstep => ih (gadgetInv_step h hstep)⟩

end seatCount

/-! ## Section 6: Runs that meet the condition -/

/-- In every run whose steps all meet the condition, acceptance is monotone in
    the state reached. -/
theorem acceptance_monotone (g : Gadget BlockID AccountID) (is : List (Input BlockID))
    (s : State BlockID) (hcond : AllSteps (step g) (MonotoneStep g) initialState is)
    (hrun : run (step g) initialState is = some s) : AcceptanceMonotone g s := by
  have hinv : GadgetInv g s ∧ PreAcceptanceInv g s := by
    refine run_invariant_of (I := fun s => GadgetInv g s ∧ PreAcceptanceInv g s) ?_
      ⟨gadgetInv_initialState, preAcceptanceInv_initialState⟩ hcond hrun
    intro s i s' h hi hstep
    obtain ⟨hgadget, hpre⟩ := h
    exact ⟨gadgetInv_step hgadget hstep, preAcceptanceInv_step hgadget.cache hpre hi hstep⟩
  obtain ⟨hgadget, hpre⟩ := hinv
  exact ⟨hpre.preAccepted_parent, hgadget.weight.accepted_parent, hpre.preAccepted_of_accepted,
    hpre.preAccepted_of_preConfirmed⟩

theorem acceptance_monotone_triangle :
    ∃ s, run (step (triangleGadget (fun _ => 1))) initialState (triangleInputs 1) = some s ∧
      ((s.block 3).preAccepted = true ∧ (s.block 2).accepted = true) ∧
      AcceptanceMonotone (triangleGadget (fun _ => 1)) s := by
  refine exists_result (by decide) fun s hs _ => ?_
  exact acceptance_monotone (triangleGadget (fun _ => 1)) (triangleInputs 1) s
    (allSteps_monotoneStep_of_seatCount (fun _ _ _ _ hn => hn) gadgetInv_initialState _) hs

end AxonCore.BlockGadget

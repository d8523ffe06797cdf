import AxonCore.BlockGadget.Walks

/-! # Invariants of the block gadget

    A walk stops at a block that already has the seat, or that is already
    accepted.  That loses nothing because of what every call leaves behind:

    * `Closed`: only tracked blocks have metadata, and the parents of a tracked
      block are tracked.
    * `WeightInv`: the witnesses of a block are witnesses of its parents, and the
      same holds for the ratifiers of a block and its parents that are not
      accepted; the parents of an accepted block are accepted.

    Inside a call, the blocks whose ratifier weight is still to be tracked are
    listed as `pending`. -/

namespace AxonCore.BlockGadget

open AxonCore.Lib List Option

variable {BlockID AccountID : Type} [DecidableEq BlockID] {g : Gadget BlockID AccountID}
  {online : Nat} {s s' : State BlockID} {votingBlock : BlockID} {seat : SeatIndex}
  {order : List BlockID} {i : Input BlockID}

/-! ## Section 1: Steps -/

theorem step_cases (h : step g s i = some s') :
    (∃ b, i = .append b ∧ b ∉ s.appended ∧ g.isRootBlock b = false ∧
      s' = { s with stored := b :: s.stored, appended := b :: s.appended }) ∨
    (∃ b online, i = .track b online ∧ b ∈ s.stored ∧ parentsTracked g s b = true ∧
      s' = trackWitnessWeight g online s b) ∨
    (∃ bs, i = .evict bs ∧
      s' = { s with stored := s.stored.filter (fun b => decide (b ∉ bs)) }) := by
  cases i with
  | append b =>
    simp only [step] at h
    split_ifs at h with hb
    rw [not_or, Bool.not_eq_true] at hb
    exact .inl ⟨b, rfl, hb.1, hb.2, (some.inj h).symm⟩
  | track b online =>
    simp only [step] at h
    split_ifs at h with hb
    exact .inr (.inl ⟨b, online, rfl, hb.1, hb.2, (some.inj h).symm⟩)
  | evict bs => exact .inr (.inr ⟨bs, rfl, (some.inj h).symm⟩)

/-! ## Section 2: What the acceptance walk leaves alone -/

/-- The state differs in nothing but what acceptance writes. -/
structure AcceptanceFrame (s s' : State BlockID) : Prop where
  stored : s'.stored = s.stored
  appended : s'.appended = s.appended
  block : ∀ b, s'.block b =
    { s.block b with
      acceptanceRatifiers := (s'.block b).acceptanceRatifiers
      accepted := (s'.block b).accepted }

omit [DecidableEq BlockID] in
theorem AcceptanceFrame.refl (s : State BlockID) : AcceptanceFrame s s := ⟨rfl, rfl, fun _ => rfl⟩

omit [DecidableEq BlockID] in
theorem AcceptanceFrame.trans {s₁ s₂ s₃ : State BlockID} (h₁ : AcceptanceFrame s₁ s₂)
    (h₂ : AcceptanceFrame s₂ s₃) : AcceptanceFrame s₁ s₃ := by
  refine ⟨h₂.stored.trans h₁.stored, h₂.appended.trans h₁.appended, ?_⟩
  intro b
  rw [h₂.block b, h₁.block b]

theorem trackAcceptanceRatifierWeight_frame (g : Gadget BlockID AccountID) (online : Nat)
    (s : State BlockID) (v : BlockID) :
    AcceptanceFrame s (trackAcceptanceRatifierWeight g online s v) := by
  apply trackAcceptanceRatifierWeight_rule (.refl s)
  intro seat order _ _
  exact ⟨rfl, rfl, fun _ => rfl⟩

/-! ## Section 3: Only tracked blocks have metadata -/

/-- Neither witnessed nor ratified, and no flag about acceptance is set. -/
def Block.Untouched (b : Block) : Prop :=
  b = { confirmationRatifiers := b.confirmationRatifiers, confirmed := b.confirmed }

/-- `T` holds for every block with metadata, and is closed under parents in the
    cache. -/
structure Closed (g : Gadget BlockID AccountID) (T : BlockID → Prop)
    (s : State BlockID) : Prop where
  untouched : ∀ b, ¬ T b → (s.block b).Untouched
  parents : ∀ c, T c → ∀ p ∈ g.parents c, p ∈ s.stored → T p

variable {b p c : BlockID} {x : SeatIndex}

section closed

variable {T : BlockID → Prop}

omit [DecidableEq BlockID] in
/-- The part of the past cone of a tracked block that a walk meets is tracked. -/
theorem Closed.of_depth (h : Closed g T s) {v : BlockID} (hv : T v) {n : Nat}
    (hn : Depth g.parents (· ∈ s.stored) (g.parents v) n b) (hb : b ∈ s.stored) : T b := by
  induction hn with
  | start hmem => exact h.parents v hv _ hmem hb
  | next _ hexp hmem ih => exact h.parents _ (ih hexp) _ hmem hb

theorem ratified_of_not_met (hnodup : order.Nodup) (hb : ¬ (b ∈ order ∧ b ∈ s.stored)) :
    ratified g online s seat order b = s.block b := by
  have hacc : b ∉ acceptedBy g online s seat order := by
    intro hacc
    have ho : b ∈ order := (Cascade.mem_order_of_collected hacc).resolve_left (by simp)
    exact hb ⟨ho, (acceptedBy_eligible hnodup hacc).1⟩
  unfold ratified
  rw [if_neg (fun h => hb ⟨h.1, h.2.1⟩)]
  simp [hacc]

theorem WitnessSpec.witnessed_of_preAcceptedBy (h : WitnessSpec g online s votingBlock seat order)
    (hb : b ∈ preAcceptedBy g online s votingBlock seat order) :
    Witnessed s votingBlock order b := by
  obtain ⟨hmet, hs, -⟩ := h.preAcceptedBy_eligible hb
  exact hmet.imp_right (fun ho => ⟨ho, hs⟩)

theorem WitnessSpec.witnessed_of_not_met (h : WitnessSpec g online s votingBlock seat order)
    (hb : ¬ Witnessed s votingBlock order b) :
    witnessed g online s votingBlock seat order b = s.block b := by
  have hacc : b ∉ preAcceptedBy g online s votingBlock seat order :=
    fun hacc => hb (h.witnessed_of_preAcceptedBy hacc)
  have hconf : b ∉ preConfirmedBy g online s votingBlock seat order := by
    intro hconf
    obtain ⟨hmet, hs, -⟩ := h.preConfirmedBy_eligible hconf
    exact hb (hmet.imp_right (fun ho => ⟨ho, hs⟩))
  simp [witnessed, hb, hacc, hconf]

theorem Closed.trackAcceptanceRatifierWeight (h : Closed g T s) {v : BlockID} (hv : T v) :
    Closed g T (trackAcceptanceRatifierWeight g online s v) := by
  apply trackAcceptanceRatifierWeight_rule h
  intro seat order _ hspec
  refine ⟨?_, h.parents⟩
  intro b hb
  have hmet : ¬ (b ∈ order ∧ b ∈ s.stored) := by
    rintro ⟨ho, hs⟩
    obtain ⟨n, hn⟩ := hspec.exists_depth ho
    exact hb (h.of_depth hv hn hs)
  change (ratified g online s seat order b).Untouched
  rw [ratified_of_not_met hspec.nodup hmet]
  exact h.untouched b hb

theorem WitnessSpec.of_witnessed (h : WitnessSpec g online s votingBlock seat order)
    (hclosed : Closed g T s) (hv : T votingBlock) (hb : Witnessed s votingBlock order b) : T b := by
  rcases hb with rfl | ⟨ho, hs⟩
  · exact hv
  · obtain ⟨n, hn⟩ := h.preAcceptance.exists_depth ho
    exact hclosed.of_depth hv hn hs

theorem Closed.witnessedState (h : Closed g T s) (hv : T votingBlock)
    (hspec : WitnessSpec g online s votingBlock seat order) :
    Closed g T (witnessedState g online s votingBlock seat order) := by
  refine ⟨?_, h.parents⟩
  intro b hb
  change (witnessed g online s votingBlock seat order b).Untouched
  rw [hspec.witnessed_of_not_met (fun hw => hb (hspec.of_witnessed h hv hw))]
  exact h.untouched b hb

omit [DecidableEq BlockID] in
theorem Closed.confirmation (h : Closed g T s) (hf : ConfirmationFrame s s') : Closed g T s' := by
  refine ⟨?_, ?_⟩
  · intro b hb
    have hun := h.untouched b hb
    unfold Block.Untouched at hun ⊢
    rw [hf.block b, hun]
  · rw [hf.stored]
    exact h.parents

end closed

/-- The blocks known to the gadget, and how far it got with them. -/
structure CacheInv (g : Gadget BlockID AccountID) (s : State BlockID) : Prop where
  stored_appended : ∀ b ∈ s.stored, b ∈ s.appended
  appended_not_root : ∀ b ∈ s.appended, g.isRootBlock b = false
  tracked_appended : ∀ b, (s.block b).weightPropagated = true → b ∈ s.appended
  tracked_parents_known : ∀ c, (s.block c).weightPropagated = true → ∀ p ∈ g.parents c,
    g.isRootBlock p = true ∨ p ∈ s.appended
  closed : Closed g (fun b => (s.block b).weightPropagated = true) s

/-- The blocks whose weight is tracked once the call for `votingBlock` is over. -/
def Tracked (s : State BlockID) (votingBlock : BlockID) (b : BlockID) : Prop :=
  b = votingBlock ∨ (s.block b).weightPropagated = true

theorem mem_of_parentsTracked (h : CacheInv g s) (hp : parentsTracked g s votingBlock = true)
    (hmem : p ∈ g.parents votingBlock) :
    (g.isRootBlock p = true ∨ p ∈ s.appended) ∧
      (p ∈ s.stored → (s.block p).weightPropagated = true) := by
  have hp' := all_eq_true.mp hp p hmem
  simp only [Bool.or_eq_true, Bool.and_eq_true, decide_eq_true_eq] at hp'
  rcases hp' with hroot | ⟨happ, hstored⟩
  · refine ⟨.inl hroot, fun hs => ?_⟩
    have := h.appended_not_root p (h.stored_appended p hs)
    rw [hroot] at this
    cases this
  · exact ⟨.inr happ, fun hs => hstored.resolve_left (fun hn => hn hs)⟩

theorem CacheInv.closed_tracked (h : CacheInv g s) (hp : parentsTracked g s votingBlock = true) :
    Closed g (Tracked s votingBlock) s := by
  refine ⟨fun b hb => h.closed.untouched b (fun hw => hb (.inr hw)), ?_⟩
  rintro c (rfl | hc) p hmem hstored
  · exact .inr ((mem_of_parentsTracked h hp hmem).2 hstored)
  · exact .inr (h.closed.parents c hc p hmem hstored)

/-! ## Section 4: The rule for a call -/

/-- What the parts of a call preserve, the call does.  The invariant may depend
    on the blocks whose ratifier weight is still to be tracked. -/
theorem trackWitnessWeight_rule {I : List BlockID → State BlockID → Prop}
    {J : State BlockID → Prop}
    (hstored : votingBlock ∈ s.stored)
    (hnone : isCommitteeValidationBlock g votingBlock = none → I [] s)
    (hwitness : ∀ seat order, isCommitteeValidationBlock g votingBlock = some seat →
      WitnessSpec g online s votingBlock seat order →
      I (preAcceptedBy g online s votingBlock seat order)
        (witnessedState g online s votingBlock seat order))
    (haccept : ∀ seat order t v pending, isCommitteeValidationBlock g votingBlock = some seat →
      WitnessSpec g online s votingBlock seat order →
      AcceptanceFrame (witnessedState g online s votingBlock seat order) t →
      v ∈ preAcceptedBy g online s votingBlock seat order → I (v :: pending) t →
      I pending (trackAcceptanceRatifierWeight g online t v))
    (hconfirm : ∀ t t', ConfirmationFrame t t' → I [] t → I [] t')
    (hpropagated : ∀ t, I [] t → J (setWeightPropagated t votingBlock)) :
    J (trackWitnessWeight g online s votingBlock) := by
  cases hseat : isCommitteeValidationBlock g votingBlock with
  | none =>
    simp only [trackWitnessWeight, hseat]
    exact hpropagated s (hnone hseat)
  | some seat =>
    obtain ⟨order, hspec, t, hframe, heq⟩ := trackWitnessWeight_eq online hseat hstored
    rw [heq]
    refine hpropagated t (hconfirm _ t hframe ?_)
    have hfold : ∀ (blocks : List BlockID) (u : State BlockID),
        (∀ v ∈ blocks, v ∈ preAcceptedBy g online s votingBlock seat order) →
        AcceptanceFrame (witnessedState g online s votingBlock seat order) u → I blocks u →
        I [] (blocks.foldl (trackAcceptanceRatifierWeight g online) u) := by
      intro blocks
      induction blocks with
      | nil => exact fun u _ _ hu => hu
      | cons v blocks ih =>
        intro u hmem hf hu
        have hv := hmem v mem_cons_self
        exact ih _ (fun w hw => hmem w (mem_cons_of_mem _ hw))
          (hf.trans (trackAcceptanceRatifierWeight_frame g online u v))
          (haccept seat order u v blocks hseat hspec hf hv hu)
    exact hfold _ _ (fun _ hv => hv) (.refl _) (hwitness seat order hseat hspec)

theorem trackWitnessWeight_cache (g : Gadget BlockID AccountID) (online : Nat)
    (hstored : votingBlock ∈ s.stored) :
    (trackWitnessWeight g online s votingBlock).stored = s.stored ∧
      (trackWitnessWeight g online s votingBlock).appended = s.appended := by
  refine trackWitnessWeight_rule (I := fun _ t => t.stored = s.stored ∧ t.appended = s.appended)
    (J := fun t => t.stored = s.stored ∧ t.appended = s.appended)
    hstored (fun _ => ⟨rfl, rfl⟩) (fun _ _ _ _ => ⟨rfl, rfl⟩) ?_ ?_ (fun _ h => h)
  · intro _ _ t v _ _ _ _ _ h
    have hf := trackAcceptanceRatifierWeight_frame g online t v
    exact ⟨hf.stored.trans h.1, hf.appended.trans h.2⟩
  · intro t t' hf h
    exact ⟨hf.stored.trans h.1, hf.appended.trans h.2⟩

/-! ## Section 5: Weights are inherited by the past cone -/

/-- The sets of a block are contained in those of its parents in the cache. -/
structure WeightInv (g : Gadget BlockID AccountID) (pending : List BlockID) (s : State BlockID) :
    Prop where
  witnesses_subset : ∀ c, ∀ p ∈ g.parents c, p ∈ s.stored →
    (s.block c).witnesses ⊆ (s.block p).witnesses
  ratifiers_subset : ∀ c, ∀ p ∈ g.parents c, p ∈ s.stored → (s.block p).accepted = false →
    (s.block c).acceptanceRatifiers ⊆ (s.block p).acceptanceRatifiers
  accepted_parent : ∀ c, ∀ p ∈ g.parents c, p ∈ s.stored → (s.block c).accepted = true →
    (s.block p).accepted = true
  ratifies_parent : ∀ v seat, v ∉ pending → (s.block v).preAccepted = true →
    isCommitteeValidationBlock g v = some seat → ∀ p ∈ g.parents v, p ∈ s.stored →
    (s.block p).accepted = false → seat ∈ (s.block p).acceptanceRatifiers

theorem mem_witnessed_witnesses :
    x ∈ (witnessed g online s votingBlock seat order b).witnesses ↔
      x ∈ (s.block b).witnesses ∨ (x = seat ∧ Witnessed s votingBlock order b) := by
  unfold witnessed
  split
  · next hw => simp [hw, or_comm]
  · next hw => simp [hw]

/-- The witness walk meets the parents of a block that has the seat, unless they
    have it already. -/
theorem WitnessSpec.parent_witnessed (hspec : WitnessSpec g online s votingBlock seat order)
    (hsub : ∀ c, ∀ p ∈ g.parents c, p ∈ s.stored → (s.block c).witnesses ⊆ (s.block p).witnesses)
    (hc : Witnessed s votingBlock order c) (hp : p ∈ g.parents c) (hstored : p ∈ s.stored) :
    seat ∈ (s.block p).witnesses ∨ Witnessed s votingBlock order p := by
  rcases hc with rfl | ⟨ho, hs⟩
  · exact .inr (.inr ⟨hspec.preAcceptance.start_mem p hp, hstored⟩)
  · by_cases hold : seat ∈ (s.block c).witnesses
    · exact .inl (hsub c p hp hstored hold)
    · refine .inr (.inr ⟨hspec.preAcceptance.closed_added c ho ?_ p hp, hstored⟩)
      dsimp only
      rw [hspec.selfWitnessed_eq ho]
      simp [preAcceptanceCascade, hs, hold]

theorem WeightInv.witnessedState (h : WeightInv g [] s)
    (hspec : WitnessSpec g online s votingBlock seat order) :
    WeightInv g (preAcceptedBy g online s votingBlock seat order)
      (witnessedState g online s votingBlock seat order) := by
  refine ⟨?_, h.ratifiers_subset, h.accepted_parent, ?_⟩
  · intro c p hp hstored x hx
    refine mem_witnessed_witnesses.mpr ?_
    rcases mem_witnessed_witnesses.mp hx with hx | ⟨rfl, hc⟩
    · exact .inl (h.witnesses_subset c p hp hstored hx)
    · exact (hspec.parent_witnessed h.witnesses_subset hc hp hstored).imp_right
        (fun hw => ⟨rfl, hw⟩)
  · intro v seat' hv hpre hseat' p hp hstored hacc
    refine h.ratifies_parent v seat' (by simp) ?_ hseat' p hp hstored hacc
    change ((s.block v).preAccepted || decide (v ∈ preAcceptedBy g online s votingBlock seat order))
      = true at hpre
    simpa [hv] using hpre

/-! ## Section 6: The acceptance walk keeps the weights -/

variable {pending : List BlockID}

section acceptance

variable {v : BlockID}

theorem mem_ratified_acceptanceRatifiers :
    x ∈ (ratified g online s seat order b).acceptanceRatifiers ↔
      x ∈ (s.block b).acceptanceRatifiers ∨
        (x = seat ∧ b ∈ order ∧ b ∈ s.stored ∧ (s.block b).accepted = false) := by
  unfold ratified
  split
  · next hr => simp [hr, or_comm]
  · next hr => simp [hr]

theorem ratified_accepted :
    (ratified g online s seat order b).accepted = true ↔
      (s.block b).accepted = true ∨ b ∈ acceptedBy g online s seat order := by
  simp [ratified]

/-- A collected block reaches the threshold itself: a collected child does, and
    its ratifiers are ratifiers of the block. -/
theorem WeightInv.reached_of_acceptedBy (h : WeightInv g pending s) (hnodup : order.Nodup) :
    ∀ b ∈ acceptedBy g online s seat order,
      (acceptanceCascade g online s seat).reached b (s.block b) = true := by
  refine Cascade.collected_induction hnodup (by simp) (fun _ _ _ hr => hr) ?_
  intro x _ hel y hy _ hr
  have hxy := (mem_children.mp hy).2
  have hx : x ∈ s.stored ∧ (s.block x).accepted = false := by
    simpa [acceptanceCascade] using hel
  have hsub := h.ratifiers_subset y x hxy hx.1 hx.2
  exact isThresholdReached_mono (Finset.card_le_card (Finset.insert_subset_insert seat hsub)) hr

theorem WeightInv.acceptedBy_parent (h : WeightInv g pending s)
    (hspec : (acceptanceCascade g online s seat).Spec g.parents (· ∈ s.stored) (g.parents v)
      (s.block, []) order)
    (hc : c ∈ acceptedBy g online s seat order) (hp : p ∈ g.parents c) (hstored : p ∈ s.stored)
    (hacc : (s.block p).accepted = false) : p ∈ acceptedBy g online s seat order := by
  have ho : p ∈ order := hspec.closed_collected c hc (by simp) p hp
  refine Cascade.mem_collected_of_reached hspec.nodup ho
    (by simp [acceptanceCascade, hstored, hacc]) ?_
  have hsub := h.ratifiers_subset c p hp hstored hacc
  exact isThresholdReached_mono (Finset.card_le_card (Finset.insert_subset_insert seat hsub))
    (h.reached_of_acceptedBy hspec.nodup c hc)

theorem WeightInv.trackAcceptanceRatifierWeight (h : WeightInv g (v :: pending) s) :
    WeightInv g pending (trackAcceptanceRatifierWeight g online s v) := by
  cases hseat : isCommitteeValidationBlock g v with
  | none =>
    rw [trackAcceptanceRatifierWeight_none online s hseat]
    refine ⟨h.witnesses_subset, h.ratifiers_subset, h.accepted_parent, ?_⟩
    intro w seat' hw hpre hseat'
    have hne : w ≠ v := by
      rintro rfl
      rw [hseat] at hseat'
      cases hseat'
    exact h.ratifies_parent w seat' (by simp [hne, hw]) hpre hseat'
  | some seat =>
    obtain ⟨order, hspec, heq⟩ := trackAcceptanceRatifierWeight_eq online s hseat
    rw [heq]
    have hunaccepted : ∀ b, (ratified g online s seat order b).accepted = false →
        (s.block b).accepted = false ∧ b ∉ acceptedBy g online s seat order := by
      intro b hb
      simpa [ratified] using hb
    refine ⟨h.witnesses_subset, ?_, ?_, ?_⟩
    · intro c p hp hstored hacc x hx
      obtain ⟨hpacc, -⟩ := hunaccepted p hacc
      refine mem_ratified_acceptanceRatifiers.mpr ?_
      rcases mem_ratified_acceptanceRatifiers.mp hx with hx | ⟨rfl, ho, hs, hcacc⟩
      · exact .inl (h.ratifiers_subset c p hp hstored hpacc hx)
      · by_cases hold : x ∈ (s.block c).acceptanceRatifiers
        · exact .inl (h.ratifiers_subset c p hp hstored hpacc hold)
        · have hadd : (acceptanceCascade g online s x).added c (s.block c) = true := by
            simp [acceptanceCascade, hs, hcacc, hold]
          exact .inr ⟨rfl, hspec.closed_added c ho hadd p hp, hstored, hpacc⟩
    · intro c p hp hstored hacc
      refine ratified_accepted.mpr ?_
      cases hpacc : (s.block p).accepted with
      | true => exact .inl rfl
      | false =>
        rcases ratified_accepted.mp hacc with hcacc | hc
        · rw [h.accepted_parent c p hp hstored hcacc] at hpacc
          cases hpacc
        · exact .inr (h.acceptedBy_parent hspec hc hp hstored hpacc)
    · intro w seat' hw hpre hseat' p hp hstored hacc
      obtain ⟨hacc, -⟩ := hunaccepted p hacc
      refine mem_ratified_acceptanceRatifiers.mpr ?_
      by_cases hne : w = v
      · subst hne
        rw [hseat, some.injEq] at hseat'
        exact .inr ⟨hseat'.symm, hspec.start_mem p hp, hstored, hacc⟩
      · exact .inl (h.ratifies_parent w seat' (by simp [hne, hw]) hpre hseat' p hp hstored hacc)

end acceptance

/-! ## Section 7: The invariants hold in every run -/

/-- The metadata differ in nothing but what confirmation and the end of a call write. -/
def SameAcceptance (m m' : Metadata BlockID) : Prop :=
  ∀ b, m' b =
    { m b with
      confirmationRatifiers := (m' b).confirmationRatifiers
      confirmed := (m' b).confirmed
      weightPropagated := (m' b).weightPropagated }

omit [DecidableEq BlockID] in
theorem SameAcceptance.refl (m : Metadata BlockID) : SameAcceptance m m := fun _ => rfl

omit [DecidableEq BlockID] in
theorem ConfirmationFrame.sameAcceptance (hf : ConfirmationFrame s s') :
    SameAcceptance s.block s'.block := by
  intro b
  rw [hf.block b]

theorem setWeightPropagated_block (s : State BlockID) (v b : BlockID) :
    (setWeightPropagated s v).block b =
      { s.block b with weightPropagated := (s.block b).weightPropagated || decide (b = v) } := by
  by_cases hb : b = v
  · subst hb; simp [setWeightPropagated]
  · simp [setWeightPropagated, hb]

theorem sameAcceptance_setWeightPropagated (s : State BlockID) (v : BlockID) :
    SameAcceptance s.block (setWeightPropagated s v).block := by
  intro b
  rw [setWeightPropagated_block]

section

omit [DecidableEq BlockID]

theorem WeightInv.congr (h : WeightInv g pending s) (hstored : ∀ b ∈ s'.stored, b ∈ s.stored)
    (hm : SameAcceptance s.block s'.block) : WeightInv g pending s' := by
  refine ⟨?_, ?_, ?_, ?_⟩
  · intro c p hp hs
    rw [hm c, hm p]
    exact h.witnesses_subset c p hp (hstored p hs)
  · intro c p hp hs
    rw [hm c, hm p]
    exact h.ratifiers_subset c p hp (hstored p hs)
  · intro c p hp hs
    rw [hm c, hm p]
    exact h.accepted_parent c p hp (hstored p hs)
  · intro v seat hv hvpre hseat p hp hs
    rw [hm v] at hvpre
    rw [hm p]
    exact h.ratifies_parent v seat hv hvpre hseat p hp (hstored p hs)

theorem CacheInv.untouched_of_new_parent (h : CacheInv g s) (hb : b ∉ s.appended)
    (hroot : g.isRootBlock b = false) (hc : b ∈ g.parents c) : (s.block c).Untouched := by
  apply h.closed.untouched c
  intro htracked
  rcases h.tracked_parents_known c htracked b hc with hr | ha
  · rw [hroot] at hr; cases hr
  · exact hb ha

theorem WeightInv.append (h : WeightInv g [] s) (hcache : CacheInv g s) (hb : b ∉ s.appended)
    (hroot : g.isRootBlock b = false) :
    WeightInv g [] { s with stored := b :: s.stored, appended := b :: s.appended } := by
  have hchild : ∀ c, b ∈ g.parents c → (s.block c).Untouched :=
    fun c hc => hcache.untouched_of_new_parent hb hroot hc
  refine ⟨?_, ?_, ?_, ?_⟩
  · intro c p hp hs
    rcases mem_cons.mp hs with rfl | hs
    · rw [hchild c hp]
      exact Finset.empty_subset _
    · exact h.witnesses_subset c p hp hs
  · intro c p hp hs
    rcases mem_cons.mp hs with rfl | hs
    · intro _
      rw [hchild c hp]
      exact Finset.empty_subset _
    · exact h.ratifiers_subset c p hp hs
  · intro c p hp hs
    rcases mem_cons.mp hs with rfl | hs
    · rw [hchild c hp]
      exact fun hf => by cases hf
    · exact h.accepted_parent c p hp hs
  · intro v seat hv hpre hseat p hp hs
    rcases mem_cons.mp hs with rfl | hs
    · rw [hchild v hp] at hpre
      cases hpre
    · exact h.ratifies_parent v seat hv hpre hseat p hp hs

end

/-- What holds inside a call of `TrackWitnessWeight` in the state `s`. -/
structure CallInv (g : Gadget BlockID AccountID) (s : State BlockID) (votingBlock : BlockID)
    (pending : List BlockID) (t : State BlockID) : Prop where
  stored : t.stored = s.stored
  appended : t.appended = s.appended
  weightPropagated : ∀ b, (t.block b).weightPropagated = (s.block b).weightPropagated
  closed : Closed g (Tracked s votingBlock) t
  weight : WeightInv g pending t

/-- The invariants of the gadget between two calls. -/
structure GadgetInv (g : Gadget BlockID AccountID) (s : State BlockID) : Prop where
  cache : CacheInv g s
  weight : WeightInv g [] s

section call

variable (h : GadgetInv g s) (hp : parentsTracked g s votingBlock = true)
include h hp

theorem GadgetInv.callInv : CallInv g s votingBlock [] s :=
  ⟨rfl, rfl, fun _ => rfl, h.cache.closed_tracked hp, h.weight⟩

theorem GadgetInv.callInv_witnessedState (hspec : WitnessSpec g online s votingBlock seat order) :
    CallInv g s votingBlock (preAcceptedBy g online s votingBlock seat order)
      (witnessedState g online s votingBlock seat order) :=
  ⟨rfl, rfl, fun _ => rfl, (h.cache.closed_tracked hp).witnessedState (.inl rfl) hspec,
    h.weight.witnessedState hspec⟩

theorem GadgetInv.tracked_of_preAcceptedBy
    (hspec : WitnessSpec g online s votingBlock seat order) {v : BlockID}
    (hv : v ∈ preAcceptedBy g online s votingBlock seat order) : Tracked s votingBlock v :=
  hspec.of_witnessed (h.cache.closed_tracked hp) (.inl rfl) (hspec.witnessed_of_preAcceptedBy hv)

omit h hp

omit [DecidableEq BlockID] in
theorem CacheInv.appended_of_tracked (h : CacheInv g s) (hstored : votingBlock ∈ s.stored)
    (hb : Tracked s votingBlock b) : b ∈ s.appended := by
  rcases hb with rfl | hb
  · exact h.stored_appended b hstored
  · exact h.tracked_appended b hb

variable {t : State BlockID}

theorem CallInv.trackAcceptanceRatifierWeight {v : BlockID}
    (hc : CallInv g s votingBlock (v :: pending) t) (hv : Tracked s votingBlock v) :
    CallInv g s votingBlock pending (trackAcceptanceRatifierWeight g online t v) := by
  have hf := trackAcceptanceRatifierWeight_frame g online t v
  refine ⟨hf.stored.trans hc.stored, hf.appended.trans hc.appended, ?_,
    hc.closed.trackAcceptanceRatifierWeight hv, hc.weight.trackAcceptanceRatifierWeight⟩
  intro b
  rw [hf.block b]
  exact hc.weightPropagated b

omit [DecidableEq BlockID] in
theorem CallInv.confirmation {t' : State BlockID} (hc : CallInv g s votingBlock [] t)
    (hf : ConfirmationFrame t t') : CallInv g s votingBlock [] t' := by
  refine ⟨hf.stored.trans hc.stored, hf.appended.trans hc.appended, ?_, hc.closed.confirmation hf,
    hc.weight.congr (fun b hb => hf.stored ▸ hb) hf.sameAcceptance⟩
  intro b
  rw [hf.block b]
  exact hc.weightPropagated b

theorem CallInv.tracked_iff (hc : CallInv g s votingBlock [] t) (b : BlockID) :
    ((BlockGadget.setWeightPropagated t votingBlock).block b).weightPropagated = true ↔
      Tracked s votingBlock b := by
  rw [setWeightPropagated_block]
  simp [Tracked, hc.weightPropagated, or_comm]

theorem CallInv.setWeightPropagated (h : GadgetInv g s) (hp : parentsTracked g s votingBlock = true)
    (hstored : votingBlock ∈ s.stored) (hc : CallInv g s votingBlock [] t) :
    GadgetInv g (setWeightPropagated t votingBlock) := by
  have hcache := h.cache
  refine ⟨⟨?_, ?_, ?_, ?_, ?_, ?_⟩,
    hc.weight.congr (fun _ hb => hb) (sameAcceptance_setWeightPropagated t votingBlock)⟩
  · intro b hb
    change b ∈ t.stored at hb
    change b ∈ t.appended
    rw [hc.stored] at hb
    rw [hc.appended]
    exact hcache.stored_appended b hb
  · change ∀ b ∈ t.appended, _
    rw [hc.appended]
    exact hcache.appended_not_root
  · intro b hb
    change b ∈ t.appended
    rw [hc.appended]
    exact hcache.appended_of_tracked hstored ((hc.tracked_iff b).mp hb)
  · intro c hcw p hmem
    change g.isRootBlock p = true ∨ p ∈ t.appended
    rw [hc.appended]
    rcases (hc.tracked_iff c).mp hcw with rfl | hcw
    · exact (mem_of_parentsTracked hcache hp hmem).1
    · exact hcache.tracked_parents_known c hcw p hmem
  · intro b hb
    have hnot : ¬ Tracked s votingBlock b := fun ht => hb ((hc.tracked_iff b).mpr ht)
    have hne : b ≠ votingBlock := fun he => hnot (.inl he)
    have hun := hc.closed.untouched b hnot
    rw [setWeightPropagated_block]
    unfold Block.Untouched at hun ⊢
    rw [hun]
    simp [hne]
  · intro c hcw p hmem hs
    exact (hc.tracked_iff p).mpr (hc.closed.parents c ((hc.tracked_iff c).mp hcw) p hmem hs)

theorem GadgetInv.trackWitnessWeight (h : GadgetInv g s)
    (hp : parentsTracked g s votingBlock = true) (hstored : votingBlock ∈ s.stored) :
    GadgetInv g (trackWitnessWeight g online s votingBlock) := by
  refine trackWitnessWeight_rule (I := CallInv g s votingBlock) hstored
    (fun _ => h.callInv hp) ?_ ?_ ?_ ?_
  · intro seat order _ hspec
    exact h.callInv_witnessedState hp hspec
  · intro seat order t v pending _ hspec _ hv hc
    exact hc.trackAcceptanceRatifierWeight (h.tracked_of_preAcceptedBy hp hspec hv)
  · intro t t' hf hc
    exact hc.confirmation hf
  · intro t hc
    exact hc.setWeightPropagated h hp hstored

end call

omit [DecidableEq BlockID] in
theorem gadgetInv_initialState : GadgetInv g (initialState : State BlockID) := by
  refine ⟨⟨?_, ?_, ?_, ?_, ?_, ?_⟩, ⟨?_, ?_, ?_, ?_⟩⟩ <;> simp [initialState, Block.Untouched]

omit [DecidableEq BlockID] in
theorem CacheInv.append (h : CacheInv g s) (hb : b ∉ s.appended) (hroot : g.isRootBlock b = false) :
    CacheInv g { s with stored := b :: s.stored, appended := b :: s.appended } := by
  refine ⟨?_, ?_, ?_, ?_, h.closed.untouched, ?_⟩
  · intro x hx
    rcases mem_cons.mp hx with rfl | hx
    · exact mem_cons_self
    · exact mem_cons_of_mem _ (h.stored_appended x hx)
  · intro x hx
    rcases mem_cons.mp hx with rfl | hx
    · exact hroot
    · exact h.appended_not_root x hx
  · exact fun x hx => mem_cons_of_mem _ (h.tracked_appended x hx)
  · exact fun c hc p hp => (h.tracked_parents_known c hc p hp).imp_right (mem_cons_of_mem _)
  · intro c hc p hp hs
    rcases mem_cons.mp hs with rfl | hs
    · rcases h.tracked_parents_known c hc p hp with hr | ha
      · rw [hroot] at hr; cases hr
      · exact absurd ha hb
    · exact h.closed.parents c hc p hp hs

theorem GadgetInv.evict (h : GadgetInv g s) (bs : List BlockID) :
    GadgetInv g { s with stored := s.stored.filter (fun b => decide (b ∉ bs)) } := by
  have hsub : ∀ b ∈ s.stored.filter (fun b => decide (b ∉ bs)), b ∈ s.stored :=
    fun b hb => mem_of_mem_filter hb
  refine ⟨⟨?_, h.cache.appended_not_root, h.cache.tracked_appended, h.cache.tracked_parents_known,
    h.cache.closed.untouched, ?_⟩, ?_⟩
  · exact fun b hb => h.cache.stored_appended b (hsub b hb)
  · exact fun c hc p hp hs => h.cache.closed.parents c hc p hp (hsub p hs)
  · exact h.weight.congr hsub (.refl _)

theorem gadgetInv_step (h : GadgetInv g s) (hstep : step g s i = some s') : GadgetInv g s' := by
  obtain ⟨b, -, hb, hroot, rfl⟩ | ⟨b, online, -, hs, hp, rfl⟩ | ⟨bs, -, rfl⟩ := step_cases hstep
  · exact ⟨h.cache.append hb hroot, h.weight.append h.cache hb hroot⟩
  · exact h.trackWitnessWeight hp hs
  · exact h.evict bs

end AxonCore.BlockGadget

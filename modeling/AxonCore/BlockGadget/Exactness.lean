import AxonCore.BlockGadget.Invariants

/-! # Witnesses and ratifiers are exact

    The walks stop early, at blocks that have the seat already or that are
    accepted already.  Still no seat is missed: without evictions the witnesses
    of a block are the seats of the tracked committee blocks that are the block
    itself or in its future cone, and the ratifiers of a block that is not
    accepted are the seats of the pre-accepted committee blocks in its future
    cone. -/

namespace AxonCore.BlockGadget

open AxonCore.Lib

variable {BlockID AccountID : Type} [DecidableEq BlockID] {g : Gadget BlockID AccountID}
  {online : Nat} {s s' : State BlockID} {votingBlock b v : BlockID} {seat : SeatIndex}
  {order appended : List BlockID} {T : BlockID → Prop} {t : State BlockID}

/-! ## Section 1: Future cones -/

/-- `v` is strictly in the future cone of `b`. -/
def InFutureCone (g : Gadget BlockID AccountID) (appended : List BlockID) (b v : BlockID) : Prop :=
  Relation.TransGen (fun x child => child ∈ children g appended x) b v

theorem InFutureCone.mono {appended' : List BlockID} (hsub : ∀ b ∈ appended, b ∈ appended')
    (h : InFutureCone g appended b v) : InFutureCone g appended' b v := by
  refine Relation.TransGen.mono ?_ b v h
  intro x child hchild
  obtain ⟨happ, hx⟩ := mem_children.mp hchild
  exact mem_children.mpr ⟨hsub child happ, hx⟩

theorem inFutureCone_of_depth {stored : List BlockID} (hsub : ∀ b ∈ stored, b ∈ appended)
    (hv : v ∈ appended) {n : Nat} (hn : Depth g.parents (· ∈ stored) (g.parents v) n b) :
    InFutureCone g appended b v := by
  induction hn with
  | start hmem => exact .single (mem_children.mpr ⟨hv, hmem⟩)
  | next _ hexp hmem ih => exact .head (mem_children.mpr ⟨hsub _ hexp, hmem⟩) ih

/-! ## Section 2: No seat without a block -/

/-- `T` stands for the blocks whose weight is tracked. -/
structure SeatInv (g : Gadget BlockID AccountID) (T : BlockID → Prop) (t : State BlockID) :
    Prop where
  witness_of_mem : ∀ b seat, seat ∈ (t.block b).witnesses → ∃ v, T v ∧
    isCommitteeValidationBlock g v = some seat ∧ (v = b ∨ InFutureCone g t.appended b v)
  ratifier_of_mem : ∀ b seat, seat ∈ (t.block b).acceptanceRatifiers → ∃ v,
    (t.block v).preAccepted = true ∧ isCommitteeValidationBlock g v = some seat ∧
      InFutureCone g t.appended b v
  self_witness : ∀ v seat, T v → isCommitteeValidationBlock g v = some seat →
    seat ∈ (t.block v).witnesses

theorem SeatInv.congr {t' : State BlockID} (h : SeatInv g T t)
    (happ : ∀ b ∈ t.appended, b ∈ t'.appended) (hm : SameAcceptance t.block t'.block) :
    SeatInv g T t' := by
  refine ⟨?_, ?_, ?_⟩
  · intro b seat hb
    rw [hm b] at hb
    obtain ⟨v, hv, hseat, hcone⟩ := h.witness_of_mem b seat hb
    exact ⟨v, hv, hseat, hcone.imp_right (InFutureCone.mono happ)⟩
  · intro b seat hb
    rw [hm b] at hb
    obtain ⟨v, hv, hseat, hcone⟩ := h.ratifier_of_mem b seat hb
    exact ⟨v, by rw [hm v]; exact hv, hseat, hcone.mono happ⟩
  · intro v seat hv hseat
    rw [hm v]
    exact h.self_witness v seat hv hseat

/-- The witness walk adds the seat of the voting block below the voting block. -/
theorem SeatInv.witnessedState (h : SeatInv g (fun b => (s.block b).weightPropagated = true) s)
    (hcache : CacheInv g s) (hstored : votingBlock ∈ s.stored)
    (hseat : isCommitteeValidationBlock g votingBlock = some seat)
    (hspec : WitnessSpec g online s votingBlock seat order) :
    SeatInv g (Tracked s votingBlock) (witnessedState g online s votingBlock seat order) := by
  refine ⟨?_, ?_, ?_⟩
  · intro b x hx
    rcases mem_witnessed_witnesses.mp hx with hx | ⟨rfl, hb⟩
    · obtain ⟨v, hv, hvseat, hcone⟩ := h.witness_of_mem b x hx
      exact ⟨v, .inr hv, hvseat, hcone⟩
    · refine ⟨votingBlock, .inl rfl, hseat, ?_⟩
      rcases hb with rfl | ⟨ho, -⟩
      · exact .inl rfl
      · obtain ⟨n, hn⟩ := hspec.preAcceptance.exists_depth ho
        exact .inr (inFutureCone_of_depth hcache.stored_appended
          (hcache.stored_appended _ hstored) hn)
  · intro b x hx
    obtain ⟨v, hv, hvseat, hcone⟩ := h.ratifier_of_mem b x hx
    refine ⟨v, ?_, hvseat, hcone⟩
    simp [BlockGadget.witnessedState, witnessed, hv]
  · rintro v x (rfl | hv) hvseat
    · rw [hseat, Option.some.injEq] at hvseat
      exact mem_witnessed_witnesses.mpr (.inr ⟨hvseat.symm, .inl rfl⟩)
    · exact mem_witnessed_witnesses.mpr (.inl (h.self_witness v x hv hvseat))

/-- The acceptance walk adds the seat of a pre-accepted block below that block. -/
theorem SeatInv.trackAcceptanceRatifierWeight (h : SeatInv g T t)
    (hsub : ∀ b ∈ t.stored, b ∈ t.appended) (hv : v ∈ t.appended)
    (hpre : (t.block v).preAccepted = true) :
    SeatInv g T (trackAcceptanceRatifierWeight g online t v) := by
  cases hseat : isCommitteeValidationBlock g v with
  | none =>
    rw [trackAcceptanceRatifierWeight_none online t hseat]
    exact h
  | some seat =>
    obtain ⟨order, hspec, heq⟩ := trackAcceptanceRatifierWeight_eq online t hseat
    rw [heq]
    refine ⟨h.witness_of_mem, ?_, h.self_witness⟩
    intro b x hx
    rcases mem_ratified_acceptanceRatifiers.mp hx with hx | ⟨rfl, ho, -⟩
    · exact h.ratifier_of_mem b x hx
    · obtain ⟨n, hn⟩ := hspec.exists_depth ho
      exact ⟨v, hpre, hseat, inFutureCone_of_depth hsub hv hn⟩

/-! ## Section 3: The seats over a run -/

/-- What holds between two calls. -/
structure ExactInv (g : Gadget BlockID AccountID) (s : State BlockID) : Prop where
  gadget : GadgetInv g s
  seats : SeatInv g (fun b => (s.block b).weightPropagated = true) s

theorem ExactInv.trackWitnessWeight (h : ExactInv g s)
    (hp : parentsTracked g s votingBlock = true) (hstored : votingBlock ∈ s.stored) :
    ExactInv g (trackWitnessWeight g online s votingBlock) ∧
      ∀ b, ((trackWitnessWeight g online s votingBlock).block b).weightPropagated = true ↔
        Tracked s votingBlock b := by
  have hgadget := h.gadget
  refine trackWitnessWeight_rule
    (J := fun t => ExactInv g t ∧
      ∀ b, (t.block b).weightPropagated = true ↔ Tracked s votingBlock b)
    (I := fun pending t => CallInv g s votingBlock pending t ∧ SeatInv g (Tracked s votingBlock) t)
    hstored ?_ ?_ ?_ ?_ ?_
  · -- a block without a seat is no witness
    intro hnone
    refine ⟨hgadget.callInv hp, ?_, h.seats.ratifier_of_mem, ?_⟩
    · intro b seat hb
      obtain ⟨v, hv, hseat, hcone⟩ := h.seats.witness_of_mem b seat hb
      exact ⟨v, .inr hv, hseat, hcone⟩
    · rintro v seat (rfl | hv) hseat
      · rw [hnone] at hseat
        cases hseat
      · exact h.seats.self_witness v seat hv hseat
  · intro seat order hseat hspec
    exact ⟨hgadget.callInv_witnessedState hp hspec,
      h.seats.witnessedState hgadget.cache hstored hseat hspec⟩
  · intro seat order t v pending _ hspec hf hv ht
    obtain ⟨hc, hseats⟩ := ht
    have htracked := hgadget.tracked_of_preAcceptedBy hp hspec hv
    refine ⟨hc.trackAcceptanceRatifierWeight htracked,
      hseats.trackAcceptanceRatifierWeight ?_ ?_ ?_⟩
    · rw [hc.stored, hc.appended]
      exact hgadget.cache.stored_appended
    · rw [hc.appended]
      exact hgadget.cache.appended_of_tracked hstored htracked
    · rw [hf.block v]
      simp [witnessedState, witnessed, hv]
  · intro t t' hf ht
    obtain ⟨hc, hseats⟩ := ht
    exact ⟨hc.confirmation hf, hseats.congr (fun b hb => hf.appended ▸ hb) hf.sameAcceptance⟩
  · intro t ht
    obtain ⟨hc, hseats⟩ := ht
    refine ⟨⟨hc.setWeightPropagated hgadget hp hstored, ?_⟩, hc.tracked_iff⟩
    have htracked :
        (fun b => ((setWeightPropagated t votingBlock).block b).weightPropagated = true) =
          Tracked s votingBlock :=
      funext (fun b => propext (hc.tracked_iff b))
    rw [htracked]
    exact hseats.congr (fun _ hb => hb) (sameAcceptance_setWeightPropagated t votingBlock)

theorem exactInv_step {i : Input BlockID} (h : ExactInv g s) (hstep : step g s i = some s') :
    ExactInv g s' ∧ ∀ b, (s'.block b).weightPropagated = true ↔
      (s.block b).weightPropagated = true ∨ ∃ online, i = .track b online := by
  have hgadget := gadgetInv_step h.gadget hstep
  obtain ⟨b, rfl, -, -, rfl⟩ | ⟨b, online, rfl, hs, hp, rfl⟩ | ⟨bs, rfl, rfl⟩ := step_cases hstep
  · refine ⟨⟨hgadget, h.seats.congr (fun _ hb => List.mem_cons_of_mem _ hb) (.refl _)⟩, ?_⟩
    simp
  · refine (h.trackWitnessWeight hp hs).imp_right fun htracked b' => ?_
    rw [htracked, Tracked, or_comm]
    simp [@eq_comm _ b]
  · refine ⟨⟨hgadget, h.seats.congr (fun _ hb => hb) (.refl _)⟩, ?_⟩
    simp

theorem exactInv_run {is : List (Input BlockID)} (h : ExactInv g s)
    (hrun : run (step g) s is = some s') :
    ExactInv g s' ∧ ∀ b, (s'.block b).weightPropagated = true ↔
      (s.block b).weightPropagated = true ∨ ∃ online, .track b online ∈ is := by
  induction is generalizing s with
  | nil =>
    cases hrun
    exact ⟨h, by simp⟩
  | cons i is ih =>
    obtain ⟨t, hstep, hrest⟩ := run_cons.mp hrun
    obtain ⟨hexact, htracked⟩ := exactInv_step h hstep
    obtain ⟨hexact', htracked'⟩ := ih hexact hrest
    refine ⟨hexact', fun b => ?_⟩
    rw [htracked', htracked]
    simp only [List.mem_cons, exists_or, or_assoc, @eq_comm _ i]

theorem exactInv_initialState : ExactInv g (initialState : State BlockID) := by
  refine ⟨gadgetInv_initialState, ?_, ?_, ?_⟩ <;> simp [initialState]

/-! ## Section 4: No seat is missing -/

/-- The input is not an eviction. -/
def Input.keepsBlocks : Input BlockID → Bool
  | .append _ | .track _ _ => true
  | .evict _ => false

theorem ExactInv.witnesses_of_inFutureCone (h : ExactInv g s)
    (hall : ∀ b ∈ s.appended, b ∈ s.stored) (hb : b ∈ s.stored)
    (hcone : InFutureCone g s.appended b v) : (s.block v).witnesses ⊆ (s.block b).witnesses := by
  induction hcone using Relation.TransGen.head_induction_on with
  | single hchild => exact h.gadget.weight.witnesses_subset _ _ (mem_children.mp hchild).2 hb
  | head hchild _ ih =>
    obtain ⟨happ, hmem⟩ := mem_children.mp hchild
    exact fun x hx => h.gadget.weight.witnesses_subset _ _ hmem hb (ih (hall _ happ) hx)

/-- The seat of a pre-accepted block travels down to the blocks that are not
    accepted. -/
theorem ExactInv.ratifiers_of_inFutureCone (h : ExactInv g s)
    (hall : ∀ b ∈ s.appended, b ∈ s.stored) (hb : b ∈ s.stored)
    (hacc : (s.block b).accepted = false) (hpre : (s.block v).preAccepted = true)
    (hseat : isCommitteeValidationBlock g v = some seat) (hcone : InFutureCone g s.appended b v) :
    seat ∈ (s.block b).acceptanceRatifiers := by
  induction hcone using Relation.TransGen.head_induction_on with
  | single hchild =>
    exact h.gadget.weight.ratifies_parent v seat (by simp) hpre hseat _ (mem_children.mp hchild).2
      hb hacc
  | @head x child hchild _ ih =>
    obtain ⟨happ, hmem⟩ := mem_children.mp hchild
    -- the child is not accepted either, since acceptance reaches the parents
    have hchildAcc : (s.block child).accepted = false := Bool.eq_false_iff.mpr fun hc => by
      rw [h.gadget.weight.accepted_parent child x hmem hb hc] at hacc
      cases hacc
    exact h.gadget.weight.ratifiers_subset child x hmem hb hacc (ih (hall child happ) hchildAcc)

theorem mem_stored_of_keepsBlocks {is : List (Input BlockID)}
    (hkeep : ∀ i ∈ is, i.keepsBlocks = true)
    (hrun : run (step g) initialState is = some s) : ∀ b ∈ s.appended, b ∈ s.stored := by
  refine run_invariant_of (G := fun _ i => i.keepsBlocks = true)
    (I := fun s => ∀ b ∈ s.appended, b ∈ s.stored) ?_ (by simp [initialState])
    (allSteps_of_forall (fun i hi _ => hkeep i hi) _) hrun
  intro s i s' h hi hstep
  obtain ⟨b, -, -, -, rfl⟩ | ⟨b, online, -, hs, -, rfl⟩ | ⟨bs, rfl, -⟩ := step_cases hstep
  · intro x hx
    rcases List.mem_cons.mp hx with rfl | hx
    · exact List.mem_cons_self
    · exact List.mem_cons_of_mem _ (h x hx)
  · obtain ⟨hstored, happended⟩ := trackWitnessWeight_cache g online hs
    rw [hstored, happended]
    exact h
  · cases hi

/-- After every run without evictions, the witnesses of a block are the seats of
    the tracked committee blocks that are the block or in its future cone, the
    ratifiers of a block that is not accepted are the seats of the pre-accepted
    committee blocks strictly in its future cone, and the tracked blocks are those
    that the run tracks. -/
theorem witnesses_and_ratifiers_exact (g : Gadget BlockID AccountID) (is : List (Input BlockID))
    (s : State BlockID) (hkeep : ∀ i ∈ is, i.keepsBlocks = true)
    (hrun : run (step g) initialState is = some s) :
    (∀ b ∈ s.stored, ∀ seat, seat ∈ (s.block b).witnesses ↔
      ∃ v, (s.block v).weightPropagated = true ∧ isCommitteeValidationBlock g v = some seat ∧
        (v = b ∨ InFutureCone g s.appended b v)) ∧
    (∀ b ∈ s.stored, (s.block b).accepted = false →
      ∀ seat, seat ∈ (s.block b).acceptanceRatifiers ↔
      ∃ v, (s.block v).preAccepted = true ∧ isCommitteeValidationBlock g v = some seat ∧
        InFutureCone g s.appended b v) ∧
    ∀ b, (s.block b).weightPropagated = true ↔ ∃ online, .track b online ∈ is := by
  obtain ⟨hinv, htracked⟩ := exactInv_run exactInv_initialState hrun
  have hall := mem_stored_of_keepsBlocks hkeep hrun
  refine ⟨?_, ?_, fun b => (htracked b).trans (by simp [initialState])⟩
  · intro b hb seat
    refine ⟨hinv.seats.witness_of_mem b seat, ?_⟩
    rintro ⟨v, hv, hseat, hcone⟩
    have hself := hinv.seats.self_witness v seat hv hseat
    rcases hcone with rfl | hcone
    · exact hself
    · exact hinv.witnesses_of_inFutureCone hall hb hcone hself
  · intro b hb hacc seat
    refine ⟨hinv.seats.ratifier_of_mem b seat, ?_⟩
    rintro ⟨v, hpre, hseat, hcone⟩
    exact hinv.ratifiers_of_inFutureCone hall hb hacc hpre hseat hcone

theorem witnesses_and_ratifiers_exact_triangle :
    ∃ s, run (step (triangleGadget (fun _ => 3))) initialState (triangleInputs 3) = some s ∧
      (1 ∈ s.stored ∧ (0 : SeatIndex) ∈ (s.block 1).witnesses) ∧
      (∃ v, (s.block v).weightPropagated = true ∧
        isCommitteeValidationBlock (triangleGadget (fun _ => 3)) v = some 0 ∧
        (v = 1 ∨ InFutureCone (triangleGadget (fun _ => 3)) s.appended 1 v)) := by
  refine exists_result (by decide) fun s hs hmem => ?_
  have hexact := witnesses_and_ratifiers_exact (triangleGadget (fun _ => 3)) (triangleInputs 3) s
    (by decide) hs
  exact (hexact.1 1 hmem.1 0).mp hmem.2

end AxonCore.BlockGadget

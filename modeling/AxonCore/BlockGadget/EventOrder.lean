import AxonCore.BlockGadget.Monotone

/-! # Are the acceptance events causally ordered?

    The walks prepend what they collect, so the events of one walk come in the
    reverse of the visiting order.  A breadth-first walk visits a block that it
    meets at two depths too early, and its event then follows that of a child.

    * `EventInv`: the events are triggered at most once per block, in every run.
    * `acceptance_events_not_ordered`: a block DAG whose events are out of order.
    * `acceptance_events_ordered`: in every run whose calls meet the blocks that
      are not accepted at a single depth, no event comes before those of the
      parents. -/

namespace AxonCore.BlockGadget

open AxonCore.Lib List

variable {BlockID AccountID : Type} [DecidableEq BlockID] {g : Gadget BlockID AccountID}
  {online : Nat} {s s' : State BlockID} {votingBlock v b : BlockID} {seat : SeatIndex}
  {order blocks stored pending : List BlockID} {i : Input BlockID}

/-! ## Section 1: The property and the condition -/

/-- The blocks of the `BlockPreAccepted` events. -/
def preAcceptedBlocks (events : List (Event BlockID)) : List BlockID :=
  events.filterMap (fun e => match e with | .blockPreAccepted b => some b | _ => none)

/-- The blocks of the `BlockAccepted` events. -/
def acceptedBlocks (events : List (Event BlockID)) : List BlockID :=
  events.filterMap (fun e => match e with | .blockAccepted b => some b | _ => none)

/-- No parent comes after a block, and the parents in the cache come before it. -/
def CausallyOrdered (g : Gadget BlockID AccountID) (stored blocks : List BlockID) : Prop :=
  ∀ before c after, blocks = before ++ c :: after →
    ∀ p ∈ g.parents c, p ∉ after ∧ (p ∈ stored → p ∈ before)

/-- No block that is not pre-accepted and accepted is met at two depths. -/
def SingleDepthStep (g : Gadget BlockID AccountID) (s : State BlockID) : Input BlockID → Prop
  | .track b _ => ∀ p ∈ s.stored, (s.block p).preAccepted = false ∨ (s.block p).accepted = false →
      ∀ n m, AtDepth g s b n p → AtDepth g s b m p → n = m
  | _ => True

/-! ## Section 2: A block met at two depths -/

/-- Block `3` refers to block `1` directly and through block `2`, and its vote is
    enough for all of them.  The events of block `1` come after those of its
    child. -/
theorem acceptance_events_not_ordered :
    ∃ s, run (step (triangleGadget (fun _ => 1))) initialState (triangleInputs 1) = some s ∧
      (1 ∈ (triangleGadget (fun _ => 1)).parents 2 ∧
        preAcceptedBlocks s.events = [2, 1, 3] ∧ acceptedBlocks s.events = [2, 1]) ∧
      ¬ CausallyOrdered (triangleGadget (fun _ => 1)) s.stored (preAcceptedBlocks s.events) ∧
      ¬ CausallyOrdered (triangleGadget (fun _ => 1)) s.stored (acceptedBlocks s.events) := by
  refine exists_result (by decide) ?_
  rintro s - ⟨hparent, hpre, hacc⟩
  constructor
  · intro hordered
    exact (hordered [] 2 [1, 3] hpre 1 hparent).1 (by simp)
  · intro hordered
    exact (hordered [] 2 [1] hacc 1 hparent).1 (by simp)

/-! ## Section 3: Events and flags -/

/-- A flag of the blocks and the blocks of its events. -/
structure FlagEvents (flag : BlockID → Bool) (blocks : List BlockID) : Prop where
  mem_iff : ∀ b, b ∈ blocks ↔ flag b = true
  nodup : blocks.Nodup

omit [DecidableEq BlockID] in
theorem FlagEvents.append {flag flag' : BlockID → Bool} {new : List BlockID}
    (h : FlagEvents flag blocks) (hnodup : new.Nodup) (hunset : ∀ b ∈ new, flag b = false)
    (hflag : ∀ b, flag' b = true ↔ flag b = true ∨ b ∈ new) : FlagEvents flag' (blocks ++ new) := by
  refine ⟨?_, ?_⟩
  · intro b
    rw [mem_append, h.mem_iff, hflag]
  · apply nodup_append.mpr
    refine ⟨h.nodup, hnodup, ?_⟩
    intro x hx y hy hxy
    subst hxy
    have := (h.mem_iff x).mp hx
    rw [hunset x hy] at this
    cases this

section events

omit [DecidableEq BlockID]

@[simp] theorem preAcceptedBlocks_append (l l' : List (Event BlockID)) :
    preAcceptedBlocks (l ++ l') = preAcceptedBlocks l ++ preAcceptedBlocks l' :=
  filterMap_append

@[simp] theorem acceptedBlocks_append (l l' : List (Event BlockID)) :
    acceptedBlocks (l ++ l') = acceptedBlocks l ++ acceptedBlocks l' :=
  filterMap_append

/-- Events of one kind. -/
@[simp] theorem preAcceptedBlocks_map (event : BlockID → Event BlockID) (l : List BlockID) :
    preAcceptedBlocks (l.map event) =
      l.filterMap (fun b => match event b with | .blockPreAccepted b => some b | _ => none) :=
  filterMap_map

@[simp] theorem acceptedBlocks_map (event : BlockID → Event BlockID) (l : List BlockID) :
    acceptedBlocks (l.map event) =
      l.filterMap (fun b => match event b with | .blockAccepted b => some b | _ => none) :=
  filterMap_map

end events

/-- There is one event for each block with the flag. -/
structure EventInv (s : State BlockID) : Prop where
  preAccepted : FlagEvents (fun b => (s.block b).preAccepted) (preAcceptedBlocks s.events)
  accepted : FlagEvents (fun b => (s.block b).accepted) (acceptedBlocks s.events)

section

omit [DecidableEq BlockID]

theorem EventInv.congr (h : EventInv s)
    (hm : SameAcceptance s.block s'.block)
    (hpreEvents : preAcceptedBlocks s'.events = preAcceptedBlocks s.events)
    (haccEvents : acceptedBlocks s'.events = acceptedBlocks s.events) : EventInv s' := by
  have hfun : s'.block = _ := funext hm
  refine ⟨?_, ?_⟩
  · rw [hpreEvents, hfun]
    exact h.preAccepted
  · rw [haccEvents, hfun]
    exact h.accepted

theorem ConfirmationFrame.events_eq (hf : ConfirmationFrame s s') :
    preAcceptedBlocks s'.events = preAcceptedBlocks s.events ∧
      acceptedBlocks s'.events = acceptedBlocks s.events := by
  obtain ⟨l, hl⟩ := hf.events
  simp [hl]

theorem EventInv.confirmation (h : EventInv s) (hf : ConfirmationFrame s s') : EventInv s' :=
  h.congr hf.sameAcceptance hf.events_eq.1 hf.events_eq.2

end

theorem EventInv.setWeightPropagated (h : EventInv s) (v : BlockID) :
    EventInv (setWeightPropagated s v) :=
  h.congr (sameAcceptance_setWeightPropagated s v) rfl rfl

theorem EventInv.witnessedState (h : EventInv s)
    (hspec : WitnessSpec g online s votingBlock seat order) :
    EventInv (witnessedState g online s votingBlock seat order) := by
  refine ⟨?_, ?_⟩
  · have hnew := h.preAccepted.append hspec.preAcceptedBy_nodup
      (fun b hb => (hspec.preAcceptedBy_eligible hb).2.2) (fun b => witnessed_preAccepted)
    simpa [BlockGadget.witnessedState] using hnew
  · simpa [BlockGadget.witnessedState, witnessed] using h.accepted

theorem EventInv.trackAcceptanceRatifierWeight (h : EventInv s) (v : BlockID) :
    EventInv (trackAcceptanceRatifierWeight g online s v) := by
  apply trackAcceptanceRatifierWeight_rule h
  intro seat order _ hspec
  refine ⟨?_, ?_⟩
  · simpa [ratified] using h.preAccepted
  · have hnew : FlagEvents (fun b => (ratified g online s seat order b).accepted)
        (acceptedBlocks s.events ++ acceptedBy g online s seat order) :=
      h.accepted.append (acceptedBy_nodup hspec.nodup)
        (fun b hb => (acceptedBy_eligible hspec.nodup hb).2) (fun b => ratified_accepted)
    simpa using hnew

theorem eventInv_step (h : EventInv s) (hstep : step g s i = some s') : EventInv s' := by
  obtain ⟨b, -, -, -, rfl⟩ | ⟨b, online, -, hs, -, rfl⟩ | ⟨bs, -, rfl⟩ := step_cases hstep
  · exact ⟨h.preAccepted, h.accepted⟩
  · refine trackWitnessWeight_rule (I := fun _ t => EventInv t) hs (fun _ => h) ?_ ?_ ?_ ?_
    · exact fun seat order _ hspec => h.witnessedState hspec
    · exact fun seat order t v pending _ _ _ _ ht => ht.trackAcceptanceRatifierWeight v
    · exact fun t t' hf ht => ht.confirmation hf
    · exact fun t ht => ht.setWeightPropagated b
  · exact ⟨h.preAccepted, h.accepted⟩

omit [DecidableEq BlockID] in
theorem eventInv_initialState : EventInv (initialState : State BlockID) := by
  refine ⟨⟨?_, ?_⟩, ⟨?_, ?_⟩⟩ <;> simp [initialState, preAcceptedBlocks, acceptedBlocks]

/-! ## Section 4: Extending an ordered list -/

omit [DecidableEq BlockID] in
theorem notMem_parents_self (g : Gadget BlockID AccountID) (b : BlockID) : b ∉ g.parents b :=
  fun hb => Nat.lt_irrefl _ (g.height_lt b b hb)

omit [DecidableEq BlockID] in
/-- Events are added for blocks of the cache, each after its parents. -/
theorem CausallyOrdered.append {new : List BlockID} (h : CausallyOrdered g stored blocks)
    (hstored : ∀ b ∈ new, b ∈ stored) (hdisjoint : ∀ b ∈ new, b ∉ blocks)
    (hpw : new.Pairwise (fun x y => y ∉ g.parents x))
    (hparent : ∀ c ∈ new, ∀ p ∈ g.parents c, p ∈ stored → p ∈ blocks ∨ p ∈ new) :
    CausallyOrdered g stored (blocks ++ new) := by
  intro before c after heq p hp
  have hnewBlock : ∀ mid, before = blocks ++ mid → new = mid ++ c :: after →
      p ∉ after ∧ (p ∈ stored → p ∈ before) := by
    intro mid hbefore hnew
    have hc : c ∈ new := by rw [hnew]; simp
    have hpafter : p ∉ after := by
      rw [hnew] at hpw
      intro hmem
      exact (pairwise_cons.mp (pairwise_append.mp hpw).2.1).1 p hmem hp
    refine ⟨hpafter, ?_⟩
    intro hs
    rw [hbefore]
    rcases hparent c hc p hp hs with hmem | hmem
    · exact mem_append_left _ hmem
    · rw [hnew] at hmem
      rcases mem_append.mp hmem with hmem | hmem
      · exact mem_append_right _ hmem
      · rcases mem_cons.mp hmem with rfl | hmem
        · exact absurd hp (notMem_parents_self g p)
        · exact absurd hmem hpafter
  rcases append_eq_append_iff.mp heq with ⟨mid, hbefore, hnew⟩ | ⟨mid, hblocks, hafter⟩
  · exact hnewBlock mid hbefore hnew
  · cases mid with
    | nil => exact hnewBlock [] (by rw [hblocks]; simp) (by simpa using hafter.symm)
    | cons x mid =>
      -- `c` is one of the old blocks: a parent among the new ones would have come first
      obtain ⟨rfl, rfl⟩ := List.cons.inj hafter
      obtain ⟨hpmid, hbefore⟩ := h before c mid hblocks p hp
      refine ⟨?_, hbefore⟩
      intro hmem
      rcases mem_append.mp hmem with hmem | hmem
      · exact hpmid hmem
      · have hold : p ∈ blocks := by
          rw [hblocks]
          exact mem_append_left _ (hbefore (hstored p hmem))
        exact hdisjoint p hmem hold

section flagged

variable {flag : BlockID → Bool} (h : CausallyOrdered g stored blocks)
  (hevents : FlagEvents flag blocks)
include h hevents

omit [DecidableEq BlockID] in
/-- The flag is set for blocks of the cache whose parents have it or get it. -/
theorem CausallyOrdered.append_flagged {new : List BlockID}
    (hnew : ∀ b ∈ new, b ∈ stored ∧ flag b = false)
    (hpw : new.Pairwise (fun x y => y ∉ g.parents x))
    (hparent : ∀ c ∈ new, ∀ p ∈ g.parents c, p ∈ stored → flag p = false → p ∈ new) :
    CausallyOrdered g stored (blocks ++ new) := by
  refine h.append (fun b hb => (hnew b hb).1) ?_ hpw ?_
  · intro b hb hmem
    have hset := (hevents.mem_iff b).mp hmem
    rw [(hnew b hb).2] at hset
    cases hset
  · intro c hc p hp hs
    cases hflag : flag p with
    | true => exact .inl ((hevents.mem_iff p).mpr hflag)
    | false => exact .inr (hparent c hc p hp hs hflag)

omit [DecidableEq BlockID] in
/-- Events of tracked blocks do not wait for a block that is not known yet. -/
theorem CausallyOrdered.append_stored (hchild : ∀ c, b ∈ g.parents c → flag c = false) :
    CausallyOrdered g (b :: stored) blocks := by
  intro before c after heq p hp
  obtain ⟨hafter, hbefore⟩ := h before c after heq p hp
  refine ⟨hafter, ?_⟩
  intro hs
  rcases mem_cons.mp hs with rfl | hs
  · have hc : c ∈ blocks := by rw [heq]; simp
    have hset := (hevents.mem_iff c).mp hc
    rw [hchild c hp] at hset
    cases hset
  · exact hbefore hs

end flagged

/-! ## Section 5: The order over a run -/

/-- The events of both kinds are ordered. -/
structure OrderInv (g : Gadget BlockID AccountID) (s : State BlockID) : Prop where
  preAccepted : CausallyOrdered g s.stored (preAcceptedBlocks s.events)
  accepted : CausallyOrdered g s.stored (acceptedBlocks s.events)

section call

variable (hsingle : ∀ p ∈ s.stored, (s.block p).preAccepted = false ∨ (s.block p).accepted = false →
  ∀ n m, AtDepth g s votingBlock n p → AtDepth g s votingBlock m p → n = m)
include hsingle

/-- The witness walk collects each block after its parents. -/
theorem WitnessSpec.preAcceptedBy_pairwise (hspec : WitnessSpec g online s votingBlock seat order) :
    (preAcceptedBy g online s votingBlock seat order).Pairwise (fun x y => y ∉ g.parents x) := by
  apply hspec.preAcceptance.collected_pairwise
  · intro x hx _
    exact (hspec.preAcceptedBy_eligible hx).2.1
  · intro y hy _
    obtain ⟨-, hs, hpre⟩ := hspec.preAcceptedBy_eligible hy
    exact hsingle y hs (.inl hpre)
  · -- the voting block is higher than everything the walk meets
    intro x hx y hy
    obtain ⟨rfl, -⟩ := mem_selfCollected hy
    obtain ⟨n, hn⟩ := hspec.preAcceptance.exists_depth hx
    have hlt := height_lt_of_depth g hn
    refine ⟨hspec.ne_votingBlock hx, ?_⟩
    intro hmem
    have := g.height_lt x y hmem
    omega
  · unfold selfPreAccepted
    split <;> simp

/-- A walk that starts at a collected block meets blocks that are not accepted at
    a single depth, too. -/
theorem WitnessSpec.singleDepth_of_preAcceptedBy
    (hspec : WitnessSpec g online s votingBlock seat order) {p : BlockID}
    (hv : v ∈ preAcceptedBy g online s votingBlock seat order) (hs : p ∈ s.stored)
    (hacc : (s.block p).accepted = false) (n m : Nat) (hn : AtDepth g s v n p)
    (hm : AtDepth g s v m p) : n = m := by
  obtain ⟨hmet, hvs, -⟩ := hspec.preAcceptedBy_eligible hv
  rcases hmet with rfl | ho
  · exact hsingle p hs (.inr hacc) n m hn hm
  · obtain ⟨d, hd⟩ := hspec.preAcceptance.exists_depth ho
    have := hsingle p hs (.inr hacc) _ _ (hd.trans hvs hn) (hd.trans hvs hm)
    omega

end call

theorem OrderInv.witnessedState (h : OrderInv g s) (hevents : EventInv s) (hcache : CacheInv g s)
    (hstored : votingBlock ∈ s.stored)
    (hseat : isCommitteeValidationBlock g votingBlock = some seat)
    (hsingle : SingleDepthStep g s (.track votingBlock online))
    (hspec : WitnessSpec g online s votingBlock seat order) :
    OrderInv g (witnessedState g online s votingBlock seat order) := by
  refine ⟨?_, ?_⟩
  · have hnew : CausallyOrdered g s.stored
        (preAcceptedBlocks s.events ++ preAcceptedBy g online s votingBlock seat order) := by
      apply h.preAccepted.append_flagged hevents.preAccepted
      · exact fun b hb => (hspec.preAcceptedBy_eligible hb).2
      · exact hspec.preAcceptedBy_pairwise hsingle
      · intro c hc p hp hs hpacc
        have hdepth : SingleDepth g s votingBlock := fun q hq hqpre => hsingle q hq (.inl hqpre)
        exact hspec.preAcceptedBy_parent hcache hstored hseat (.inr hdepth) hc hp hs hpacc
    simpa [BlockGadget.witnessedState] using hnew
  · simpa [BlockGadget.witnessedState] using h.accepted

theorem OrderInv.trackAcceptanceRatifierWeight (h : OrderInv g s) (hevents : EventInv s)
    (hweight : WeightInv g pending s)
    (hsingle : ∀ p ∈ s.stored, (s.block p).accepted = false →
      ∀ n m, AtDepth g s v n p → AtDepth g s v m p → n = m) :
    OrderInv g (trackAcceptanceRatifierWeight g online s v) := by
  apply trackAcceptanceRatifierWeight_rule h
  intro seat order hseat hspec
  refine ⟨by simpa using h.preAccepted, ?_⟩
  have hnew : CausallyOrdered g s.stored
      (acceptedBlocks s.events ++ acceptedBy g online s seat order) := by
    apply h.accepted.append_flagged hevents.accepted
    · exact fun b hb => acceptedBy_eligible hspec.nodup hb
    · apply hspec.collected_pairwise
      · exact fun x hx _ => (acceptedBy_eligible hspec.nodup hx).1
      · intro y hy _
        obtain ⟨hs, hacc⟩ := acceptedBy_eligible hspec.nodup hy
        exact hsingle y hs hacc
      · simp
      · exact List.Pairwise.nil
    · exact fun c hc p hp hs hpacc => hweight.acceptedBy_parent hspec hc hp hs hpacc
  simpa using hnew

/-- What holds between two calls. -/
structure OrderedInv (g : Gadget BlockID AccountID) (s : State BlockID) : Prop where
  gadget : GadgetInv g s
  events : EventInv s
  order : OrderInv g s

/-- What holds inside a call in the state `s`. -/
structure OrderedCallInv (g : Gadget BlockID AccountID) (s : State BlockID) (votingBlock : BlockID)
    (pending : List BlockID) (t : State BlockID) : Prop where
  call : CallInv g s votingBlock pending t
  events : EventInv t
  order : OrderInv g t
  accepted_of_accepted : ∀ b, (s.block b).accepted = true → (t.block b).accepted = true

theorem accepted_trackAcceptanceRatifierWeight (hb : (s.block b).accepted = true) :
    ((trackAcceptanceRatifierWeight g online s v).block b).accepted = true := by
  apply trackAcceptanceRatifierWeight_rule (I := fun t => (t.block b).accepted = true) hb
  intro seat order _ _
  exact ratified_accepted.mpr (.inl hb)

theorem OrderedCallInv.trackAcceptanceRatifierWeight {t : State BlockID} (h : OrderedInv g s)
    (hp : parentsTracked g s votingBlock = true)
    (hsingle : SingleDepthStep g s (.track votingBlock online))
    (hspec : WitnessSpec g online s votingBlock seat order)
    (hv : v ∈ preAcceptedBy g online s votingBlock seat order)
    (ht : OrderedCallInv g s votingBlock (v :: pending) t) :
    OrderedCallInv g s votingBlock pending (trackAcceptanceRatifierWeight g online t v) := by
  have hsingle' : ∀ p ∈ t.stored, (t.block p).accepted = false →
      ∀ n m, AtDepth g t v n p → AtDepth g t v m p → n = m := by
    intro p hs hacc
    have hacc' : (s.block p).accepted = false :=
      Bool.eq_false_iff.mpr fun hsacc =>
        Bool.eq_false_iff.mp hacc (ht.accepted_of_accepted p hsacc)
    unfold AtDepth
    rw [ht.call.stored] at hs ⊢
    exact hspec.singleDepth_of_preAcceptedBy hsingle hv hs hacc'
  refine ⟨?_, ?_, ?_, ?_⟩
  · exact ht.call.trackAcceptanceRatifierWeight (h.gadget.tracked_of_preAcceptedBy hp hspec hv)
  · exact ht.events.trackAcceptanceRatifierWeight v
  · exact ht.order.trackAcceptanceRatifierWeight ht.events ht.call.weight hsingle'
  · intro b hb
    exact accepted_trackAcceptanceRatifierWeight (ht.accepted_of_accepted b hb)

omit [DecidableEq BlockID] in
theorem OrderInv.confirmation (h : OrderInv g s) (hf : ConfirmationFrame s s') : OrderInv g s' := by
  obtain ⟨hpre, hacc⟩ := hf.events_eq
  refine ⟨?_, ?_⟩
  · rw [hf.stored, hpre]
    exact h.preAccepted
  · rw [hf.stored, hacc]
    exact h.accepted

theorem OrderedInv.trackWitnessWeight (h : OrderedInv g s)
    (hp : parentsTracked g s votingBlock = true) (hstored : votingBlock ∈ s.stored)
    (hsingle : SingleDepthStep g s (.track votingBlock online)) :
    OrderedInv g (trackWitnessWeight g online s votingBlock) := by
  refine trackWitnessWeight_rule (I := OrderedCallInv g s votingBlock) hstored ?_ ?_ ?_ ?_ ?_
  · intro _
    exact ⟨h.gadget.callInv hp, h.events, h.order, fun _ hb => hb⟩
  · intro seat order hseat hspec
    exact ⟨h.gadget.callInv_witnessedState hp hspec, h.events.witnessedState hspec,
      h.order.witnessedState h.events h.gadget.cache hstored hseat hsingle hspec, fun _ hb => hb⟩
  · intro seat order t v pending _ hspec _ hv ht
    exact ht.trackAcceptanceRatifierWeight h hp hsingle hspec hv
  · intro t t' hf ht
    refine ⟨ht.call.confirmation hf, ht.events.confirmation hf, ht.order.confirmation hf, ?_⟩
    intro b hb
    rw [hf.block b]
    exact ht.accepted_of_accepted b hb
  · intro t ht
    exact ⟨ht.call.setWeightPropagated h.gadget hp hstored,
      ht.events.setWeightPropagated votingBlock, ht.order.preAccepted, ht.order.accepted⟩

omit [DecidableEq BlockID] in
theorem CausallyOrdered.mono {stored' : List BlockID} (h : CausallyOrdered g stored blocks)
    (hsub : ∀ b ∈ stored', b ∈ stored) : CausallyOrdered g stored' blocks := by
  intro before c after heq p hp
  obtain ⟨hafter, hbefore⟩ := h before c after heq p hp
  exact ⟨hafter, fun hs => hbefore (hsub p hs)⟩

theorem orderedInv_step (h : OrderedInv g s) (hsingle : SingleDepthStep g s i)
    (hstep : step g s i = some s') : OrderedInv g s' := by
  have hgadget := gadgetInv_step h.gadget hstep
  have hevents := eventInv_step h.events hstep
  obtain ⟨b, -, hb, hroot, rfl⟩ | ⟨b, online, rfl, hs, hp, rfl⟩ | ⟨bs, -, rfl⟩ := step_cases hstep
  · refine ⟨hgadget, hevents, ?_, ?_⟩
    · apply h.order.preAccepted.append_stored h.events.preAccepted
      intro c hc
      rw [h.gadget.cache.untouched_of_new_parent hb hroot hc]
    · apply h.order.accepted.append_stored h.events.accepted
      intro c hc
      rw [h.gadget.cache.untouched_of_new_parent hb hroot hc]
  · exact h.trackWitnessWeight hp hs hsingle
  · have hsub : ∀ b ∈ s.stored.filter (fun b => decide (b ∉ bs)), b ∈ s.stored :=
      fun b hb => mem_of_mem_filter hb
    exact ⟨hgadget, hevents, h.order.preAccepted.mono hsub, h.order.accepted.mono hsub⟩

omit [DecidableEq BlockID] in
theorem orderedInv_initialState : OrderedInv g (initialState : State BlockID) := by
  refine ⟨gadgetInv_initialState, eventInv_initialState, ?_, ?_⟩ <;>
  · intro before c after heq
    simp [initialState, preAcceptedBlocks, acceptedBlocks] at heq

/-- In every run whose steps all meet the condition, both kinds of events are
    triggered at most once per block and never for a block before its parents. -/
theorem acceptance_events_ordered (g : Gadget BlockID AccountID) (is : List (Input BlockID))
    (s : State BlockID) (hsingle : AllSteps (step g) (SingleDepthStep g) initialState is)
    (hrun : run (step g) initialState is = some s) :
    ((preAcceptedBlocks s.events).Nodup ∧ (acceptedBlocks s.events).Nodup) ∧
      CausallyOrdered g s.stored (preAcceptedBlocks s.events) ∧
      CausallyOrdered g s.stored (acceptedBlocks s.events) := by
  have h : OrderedInv g s := run_invariant_of (fun _ _ _ h hi hs => orderedInv_step h hi hs)
    orderedInv_initialState hsingle hrun
  exact ⟨⟨h.events.preAccepted.nodup, h.events.accepted.nodup⟩, h.order.preAccepted,
    h.order.accepted⟩

/-! ## Section 6: Layered block DAGs -/

omit [DecidableEq BlockID] in
/-- If the parents of a block are all one level below it, there is a single depth. -/
theorem singleDepthStep_of_layered (hlayer : ∀ b, ∀ p ∈ g.parents b, g.height p + 1 = g.height b)
    (s : State BlockID) (i : Input BlockID) : SingleDepthStep g s i := by
  have hdepth : ∀ b p n, AtDepth g s b n p → g.height p + n + 1 = g.height b := by
    intro b p n hn
    induction hn with
    | start hmem =>
      have := hlayer b _ hmem
      omega
    | next _ _ hmem ih =>
      have := hlayer _ _ hmem
      omega
  cases i with
  | append b => trivial
  | evict bs => trivial
  | track b online =>
    intro p _ _ n m hn hm
    have h₁ := hdepth b p n hn
    have h₂ := hdepth b p m hm
    omega

/-- The triangle without the direct reference to block `1`. -/
def chainGadget : Gadget Nat Unit :=
  { triangleGadget (fun _ => 1) with
    parents := fun b =>
      match b with
      | 1 => [0]
      | 2 => [1]
      | 3 => [2]
      | _ => []
    height_lt := by
      intro b p hp
      split at hp <;> simp at hp <;> subst hp <;> decide }

theorem acceptance_events_ordered_chain :
    ∃ s, run (step chainGadget) initialState (triangleInputs 1) = some s ∧
      (preAcceptedBlocks s.events = [1, 2, 3] ∧ acceptedBlocks s.events = [1, 2]) ∧
      CausallyOrdered chainGadget s.stored (acceptedBlocks s.events) := by
  refine exists_result (by decide) fun s hs _ => ?_
  have hlayer : ∀ b, ∀ p ∈ chainGadget.parents b,
      chainGadget.height p + 1 = chainGadget.height b := by
    intro b p hp
    simp only [chainGadget] at hp
    split at hp <;> simp at hp <;> subst hp <;> rfl
  have hsteps : AllSteps (step chainGadget) (SingleDepthStep chainGadget) initialState
      (triangleInputs 1) :=
    allSteps_of_forall (fun i _ s => singleDepthStep_of_layered hlayer s i) _
  exact (acceptance_events_ordered chainGadget (triangleInputs 1) s hsteps hs).2.2

end AxonCore.BlockGadget

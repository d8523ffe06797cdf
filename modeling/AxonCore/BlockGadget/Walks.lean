import AxonCore.BlockGadget.Model
import AxonCore.Lib.Cascade

/-! # The walks of the block gadget as cascades

    The witness walk and the acceptance walk are collecting walks: each visited
    block of the cache gets the seat, and a block is collected if it reaches its
    threshold or if one of its children was collected.  This file relates the
    functions of the model to `Lib.Cascade`, with one specification per function;
    the invariants are derived from these. -/

namespace AxonCore.BlockGadget

open AxonCore.Lib List Cascade

variable {BlockID AccountID : Type} [DecidableEq BlockID] {g : Gadget BlockID AccountID}
  {online : Nat} {s : State BlockID} {votingBlock : BlockID} {seat : SeatIndex}

/-! ## Section 1: The cache and the walk -/

variable {stored : List BlockID} {id : BlockID} {α : Type} {f : Block → Block}

theorem cachedBlock_of_mem (h : id ∈ stored) :
    cachedBlock g stored id = some false := by
  simp [cachedBlock, h]

section

variable (evaluateFunc : α → BlockID → α × Bool)

theorem evaluateCached_of_mem (a : α) (h : id ∈ stored) :
    evaluateCached g stored evaluateFunc a id = evaluateFunc a id := by
  simp [evaluateCached, cachedBlock_of_mem h]

theorem evaluateCached_of_notMem (a : α) (h : id ∉ stored) :
    evaluateCached g stored evaluateFunc a id = (a, false) := by
  unfold evaluateCached cachedBlock
  rw [if_neg h]
  cases g.isRootBlock id <;> rfl

theorem mem_stored_of_evaluateCached (a : α) (id : BlockID)
    (h : (evaluateCached g stored evaluateFunc a id).2 = true) : id ∈ stored := by
  by_cases hid : id ∈ stored
  · exact hid
  · rw [evaluateCached_of_notMem _ _ hid] at h
    cases h

end

theorem propagate_spec (g : Gadget BlockID AccountID) (stored start : List BlockID)
    (evaluateFunc : α → BlockID → α × Bool) (a : α) :
    ∃ order, WalkSpec (evaluateCached g stored evaluateFunc) g.parents (· ∈ stored) start a order
      (propagate g stored start evaluateFunc a) :=
  walk_spec (mem_stored_of_evaluateCached evaluateFunc) start a

theorem mem_children {appended : List BlockID} {block child : BlockID} :
    child ∈ children g appended block ↔ child ∈ appended ∧ block ∈ g.parents child := by
  simp [children]

@[simp] theorem anyChildInSet_nil (appended : List BlockID) (block : BlockID) :
    anyChildInSet g appended block [] = false := by
  simp [anyChildInSet]

theorem update_eq_modify (m : Metadata BlockID) (id : BlockID) (f : Block → Block) :
    (fun b => if b = id then f (m id) else m b) = modify m id f := by
  funext b
  unfold modify
  split
  · next h => rw [h]
  · rfl

theorem modify_eq_self (m : Metadata BlockID) (id : BlockID) (h : f (m id) = m id) :
    modify m id f = m := by
  funext b
  by_cases hb : b = id
  · rw [hb, modify_self, h]
  · rw [modify_ne _ _ hb]

/-! ## Section 2: Setting flags -/

/-- If none of the blocks has the flag yet, each of them gets it and triggers
    one event, in the order of the list. -/
theorem setAndTrigger_eq {flag : Flag BlockID} {blocks : List BlockID} (hnodup : blocks.Nodup)
    (hunset : ∀ b ∈ blocks, flag.isSet (s.block b) = false) :
    setAndTrigger flag blocks s =
      ({ s with
          block := fun b => if b ∈ blocks then flag.set (s.block b) else s.block b
          events := s.events ++ blocks.map flag.event }, blocks) := by
  -- the fold started from any list of updated blocks
  suffices h : ∀ (l done : List BlockID) (t : State BlockID), l.Nodup →
      (∀ b ∈ l, flag.isSet (t.block b) = false) →
      l.foldl (setAndTriggerBlock flag) (t, done) =
        ({ t with
            block := fun b => if b ∈ l then flag.set (t.block b) else t.block b
            events := t.events ++ l.map flag.event }, done ++ l) by
    exact h blocks [] s hnodup hunset
  intro l
  induction l with
  | nil => intro done t _ _; simp
  | cons x l ih =>
    intro done t hnd hun
    obtain ⟨hx, hnd'⟩ := nodup_cons.mp hnd
    have hone : setAndTriggerBlock flag (t, done) x =
        ({ t with block := modify t.block x flag.set, events := t.events ++ [flag.event x] },
          done ++ [x]) := by
      simp [setAndTriggerBlock, hun x mem_cons_self]
    rw [foldl_cons, hone, ih _ _ hnd']
    · have hblock : (fun b => if b ∈ l then flag.set (modify t.block x flag.set b)
          else modify t.block x flag.set b) =
          fun b => if b ∈ x :: l then flag.set (t.block b) else t.block b := by
        funext b
        by_cases hb : b = x
        · subst hb; simp [hx]
        · simp [hb]
      simp [hblock]
    · intro b hb
      have hne : b ≠ x := fun h => hx (h ▸ hb)
      simpa [hne] using hun b (mem_cons_of_mem _ hb)

section

omit [DecidableEq BlockID]

theorem acceptedFlag_set_if (p : Prop) [Decidable p] (b : Block) :
    (if p then (acceptedFlag : Flag BlockID).set b else b) =
      { b with accepted := b.accepted || decide p } := by
  split <;> simp [acceptedFlag, *]

theorem preAcceptedFlag_set_if (p : Prop) [Decidable p] (b : Block) :
    (if p then (preAcceptedFlag : Flag BlockID).set b else b) =
      { b with preAccepted := b.preAccepted || decide p } := by
  split <;> simp [preAcceptedFlag, *]

theorem preConfirmedFlag_set_if (p : Prop) [Decidable p] (b : Block) :
    (if p then (preConfirmedFlag : Flag BlockID).set b else b) =
      { b with preConfirmed := b.preConfirmed || decide p } := by
  split <;> simp [preConfirmedFlag, *]

end

/-! ## Section 3: The acceptance walk -/

section

variable (g online s seat)

/-- The acceptance walk at one block. -/
def acceptanceCascade : Cascade BlockID Block where
  mark := fun id b =>
    if id ∈ s.stored ∧ b.accepted = false then
      { b with acceptanceRatifiers := insert seat b.acceptanceRatifiers }
    else b
  added := fun id b =>
    decide (id ∈ s.stored) && !b.accepted && decide (seat ∉ b.acceptanceRatifiers)
  eligible := fun id b => decide (id ∈ s.stored) && !b.accepted
  reached := fun _ b =>
    shouldAccept g online { b with acceptanceRatifiers := insert seat b.acceptanceRatifiers }
  children := children g s.appended

/-- The blocks that a walk in the given order accepts. -/
def acceptedBy (order : List BlockID) : List BlockID :=
  ((acceptanceCascade g online s seat).run order (s.block, [])).2

end

theorem evaluateAcceptance_eq {a : RatifierWalk BlockID} (hid : id ∈ s.stored)
    (hacc : (a.block id).accepted = false) :
    evaluateAcceptance g online s.appended seat a id =
      if (acceptanceCascade g online s seat).collects a.collected id (a.block id) then
        ({ block := modify a.block id ((acceptanceCascade g online s seat).mark id),
           collected := id :: a.collected }, true)
      else
        ({ a with block := modify a.block id ((acceptanceCascade g online s seat).mark id) },
          (acceptanceCascade g online s seat).added id (a.block id)) := by
  have hmark : modify a.block id ((acceptanceCascade g online s seat).mark id) =
      (addAcceptanceRatifier a.block id seat).1 := by
    funext b
    by_cases hb : b = id
    · subst hb; simp [addAcceptanceRatifier, acceptanceCascade, hid, hacc]
    · simp [addAcceptanceRatifier, hb]
  have hcollects : (acceptanceCascade g online s seat).collects a.collected id (a.block id) =
      (anyChildInSet g s.appended id a.collected ||
        shouldAccept g online ((addAcceptanceRatifier a.block id seat).1 id)) := by
    simp [collects, acceptanceCascade, addAcceptanceRatifier, anyChildInSet, hid, hacc,
      Bool.or_comm]
  rw [hmark, hcollects]
  simp [evaluateAcceptance, addAcceptanceRatifier, acceptanceCascade, hid, hacc]

theorem evaluateAcceptance_visit (a : RatifierWalk BlockID) (id : BlockID) :
    ((evaluateCached g s.stored (evaluateAcceptance g online s.appended seat) a id).1.block,
      (evaluateCached g s.stored (evaluateAcceptance g online s.appended seat) a id).1.collected) =
        (acceptanceCascade g online s seat).visit (a.block, a.collected) id ∧
    ((acceptanceCascade g online s seat).added id (a.block id) = true ∨
      (acceptanceCascade g online s seat).collects a.collected id (a.block id) = true →
      (evaluateCached g s.stored (evaluateAcceptance g online s.appended seat) a id).2 = true) := by
  unfold visit
  rw [update_eq_modify]
  by_cases hid : id ∈ s.stored
  · rw [evaluateCached_of_mem _ _ hid]
    cases hacc : (a.block id).accepted with
    | true =>
      rw [modify_eq_self _ _ (by simp [acceptanceCascade, hacc])]
      simp [evaluateAcceptance, collects, acceptanceCascade, hacc]
    | false =>
      rw [evaluateAcceptance_eq hid hacc]
      split
      · exact ⟨rfl, fun _ => rfl⟩
      · next hcol => exact ⟨rfl, fun h => h.resolve_right hcol⟩
  · rw [evaluateCached_of_notMem _ _ hid, modify_eq_self _ _ (by simp [acceptanceCascade, hid])]
    simp [collects, acceptanceCascade, hid]

variable {order : List BlockID} {b : BlockID}

theorem acceptedBy_eligible (hnodup : order.Nodup) (hb : b ∈ acceptedBy g online s seat order) :
    b ∈ s.stored ∧ (s.block b).accepted = false := by
  have h := (eligible_of_collected hnodup hb).resolve_left (by simp)
  simpa [acceptanceCascade] using h

theorem acceptedBy_nodup (hnodup : order.Nodup) :
    (acceptedBy g online s seat order).Nodup := by
  obtain ⟨l, hl, heq⟩ := exists_collected_eq
    (c := acceptanceCascade g online s seat) order (s.block, [])
  unfold acceptedBy
  rw [heq, append_nil]
  exact nodup_reverse.mpr (hnodup.sublist hl)

variable (g online s seat order) in
/-- The metadata after a walk in the given order that adds the ratifier. -/
def ratified : Metadata BlockID := fun b =>
  { s.block b with
    acceptanceRatifiers :=
      if b ∈ order ∧ b ∈ s.stored ∧ (s.block b).accepted = false then
        insert seat (s.block b).acceptanceRatifiers
      else (s.block b).acceptanceRatifiers
    accepted := (s.block b).accepted || decide (b ∈ acceptedBy g online s seat order) }

theorem acceptanceCascade_run_value (g : Gadget BlockID AccountID) (online : Nat)
    (s : State BlockID) (seat : SeatIndex) (hnodup : order.Nodup) (b : BlockID) :
    ((acceptanceCascade g online s seat).run order (s.block, [])).1 b =
      { s.block b with
        acceptanceRatifiers :=
          if b ∈ order ∧ b ∈ s.stored ∧ (s.block b).accepted = false then
            insert seat (s.block b).acceptanceRatifiers
          else (s.block b).acceptanceRatifiers } := by
  rw [run_value hnodup]
  by_cases ho : b ∈ order
  · simp only [ho, if_true, true_and, acceptanceCascade]
    split <;> rfl
  · simp [ho]

theorem trackAcceptanceRatifierWeight_eq (online : Nat) (s : State BlockID)
    (hseat : isCommitteeValidationBlock g votingBlock = some seat) :
    ∃ order,
      (acceptanceCascade g online s seat).Spec g.parents (· ∈ s.stored) (g.parents votingBlock)
        (s.block, []) order ∧
      trackAcceptanceRatifierWeight g online s votingBlock =
        { s with
          block := ratified g online s seat order
          events := s.events ++ (acceptedBy g online s seat order).map .blockAccepted } := by
  obtain ⟨order, hwalk⟩ := propagate_spec g s.stored (g.parents votingBlock)
    (evaluateAcceptance g online s.appended seat)
    ({ block := s.block, collected := [] } : RatifierWalk BlockID)
  obtain ⟨hview, hspec⟩ := walk_cascade hwalk (fun a => (a.block, a.collected))
    (fun a id => (evaluateAcceptance_visit a id).1) (fun a id => (evaluateAcceptance_visit a id).2)
  refine ⟨order, hspec, ?_⟩
  have hblock := congrArg Prod.fst hview
  have hcol : _ = acceptedBy g online s seat order := congrArg Prod.snd hview
  dsimp only at hblock hcol
  unfold trackAcceptanceRatifierWeight
  simp only [hseat]
  rw [hcol, hblock, setAndTrigger_eq (acceptedBy_nodup hspec.nodup)]
  · simp only [acceptedFlag_set_if, acceptanceCascade_run_value g online s seat hspec.nodup]
    rfl
  · intro b hb
    obtain ⟨-, hacc⟩ := acceptedBy_eligible hspec.nodup hb
    simp only [acceptedFlag, acceptanceCascade_run_value g online s seat hspec.nodup]
    exact hacc

theorem trackAcceptanceRatifierWeight_none (online : Nat) (s : State BlockID)
    (hseat : isCommitteeValidationBlock g votingBlock = none) :
    trackAcceptanceRatifierWeight g online s votingBlock = s := by
  simp [trackAcceptanceRatifierWeight, hseat]

/-- What holds before the call and after a ratification holds after the call. -/
theorem trackAcceptanceRatifierWeight_rule {I : State BlockID → Prop} (h : I s)
    (hratified : ∀ seat order, isCommitteeValidationBlock g votingBlock = some seat →
      (acceptanceCascade g online s seat).Spec g.parents (· ∈ s.stored) (g.parents votingBlock)
        (s.block, []) order →
      I { s with
        block := ratified g online s seat order
        events := s.events ++ (acceptedBy g online s seat order).map .blockAccepted }) :
    I (trackAcceptanceRatifierWeight g online s votingBlock) := by
  cases hseat : isCommitteeValidationBlock g votingBlock with
  | none =>
    rw [trackAcceptanceRatifierWeight_none online s hseat]
    exact h
  | some seat =>
    obtain ⟨order, hspec, heq⟩ := trackAcceptanceRatifierWeight_eq online s hseat
    rw [heq]
    exact hratified seat order hseat hspec

/-! ## Section 4: The confirmation walk -/

/-- Nothing but the confirmation ratifiers and the confirmed flags differs. -/
def OnlyConfirmation (m m' : Metadata BlockID) : Prop :=
  ∀ b, m' b =
    { m b with
      confirmationRatifiers := (m' b).confirmationRatifiers
      confirmed := (m' b).confirmed }

omit [DecidableEq BlockID] in
theorem OnlyConfirmation.refl (m : Metadata BlockID) : OnlyConfirmation m m := fun _ => rfl

omit [DecidableEq BlockID] in
theorem OnlyConfirmation.trans {m₁ m₂ m₃ : Metadata BlockID} (h₁ : OnlyConfirmation m₁ m₂)
    (h₂ : OnlyConfirmation m₂ m₃) : OnlyConfirmation m₁ m₃ := by
  intro b
  rw [h₂ b, h₁ b]

theorem OnlyConfirmation.modify {m : Metadata BlockID}
    (hf : ∀ b, f b = { b with
      confirmationRatifiers := (f b).confirmationRatifiers
      confirmed := (f b).confirmed }) :
    OnlyConfirmation m (modify m id f) := by
  intro b
  by_cases hb : b = id
  · subst hb; rw [modify_self]; exact hf _
  · rw [modify_ne _ _ hb]

theorem evaluateConfirmation_frame (g : Gadget BlockID AccountID) (votingBlock : BlockID)
    (seat : SeatIndex) (a : RatifierWalk BlockID) (id : BlockID) :
    OnlyConfirmation a.block (evaluateConfirmation g votingBlock seat a id).1.block := by
  have hadd : OnlyConfirmation a.block (modify a.block id
      (fun b => { b with confirmationRatifiers := insert seat b.confirmationRatifiers })) :=
    OnlyConfirmation.modify (fun _ => rfl)
  unfold evaluateConfirmation
  simp only
  split_ifs
  · exact .refl _
  · exact .refl _
  · exact .refl _
  · exact hadd
  · exact hadd

/-- The state differs in nothing but what confirmation writes. -/
structure ConfirmationFrame (s s' : State BlockID) : Prop where
  stored : s'.stored = s.stored
  appended : s'.appended = s.appended
  block : OnlyConfirmation s.block s'.block
  events : ∃ l : List BlockID, s'.events = s.events ++ l.map .blockConfirmed

omit [DecidableEq BlockID] in
theorem ConfirmationFrame.refl (s : State BlockID) : ConfirmationFrame s s :=
  ⟨rfl, rfl, .refl _, [], by simp⟩

omit [DecidableEq BlockID] in
theorem ConfirmationFrame.trans {s₁ s₂ s₃ : State BlockID} (h₁ : ConfirmationFrame s₁ s₂)
    (h₂ : ConfirmationFrame s₂ s₃) : ConfirmationFrame s₁ s₃ := by
  obtain ⟨l₁, hl₁⟩ := h₁.events
  obtain ⟨l₂, hl₂⟩ := h₂.events
  refine ⟨h₂.stored.trans h₁.stored, h₂.appended.trans h₁.appended, h₁.block.trans h₂.block,
    l₁ ++ l₂, ?_⟩
  rw [hl₂, hl₁, map_append, append_assoc]

theorem setAndTrigger_confirmed_frame (blocks : List BlockID) (s : State BlockID) :
    ConfirmationFrame s (setAndTrigger confirmedFlag blocks s).1 := by
  unfold setAndTrigger
  generalize ([] : List BlockID) = done
  induction blocks generalizing s done with
  | nil => exact .refl s
  | cons b blocks ih =>
    rw [foldl_cons, setAndTriggerBlock]
    split
    · exact ih s done
    · refine ConfirmationFrame.trans ?_ (ih _ _)
      exact ⟨rfl, rfl, OnlyConfirmation.modify (fun b => rfl), [b], rfl⟩

theorem trackConfirmationRatifierWeight_frame (g : Gadget BlockID AccountID) (s : State BlockID)
    (votingBlock : BlockID) :
    ConfirmationFrame s (trackConfirmationRatifierWeight g s votingBlock) := by
  unfold trackConfirmationRatifierWeight
  split
  · exact .refl s
  · next seat _ =>
    refine ConfirmationFrame.trans ?_ (setAndTrigger_confirmed_frame _ _)
    refine ⟨rfl, rfl, ?_, [], by simp⟩
    refine walk_invariant (P := fun a : RatifierWalk BlockID => OnlyConfirmation s.block a.block)
      (mem_stored_of_evaluateCached _) ?_ _ (OnlyConfirmation.refl s.block)
    intro a id ha
    refine OnlyConfirmation.trans ha ?_
    by_cases hid : id ∈ s.stored
    · rw [evaluateCached_of_mem _ _ hid]
      exact evaluateConfirmation_frame g votingBlock seat a id
    · rw [evaluateCached_of_notMem _ _ hid]
      exact .refl _

theorem foldl_trackConfirmationRatifierWeight_frame (g : Gadget BlockID AccountID)
    (blocks : List BlockID) (s : State BlockID) :
    ConfirmationFrame s (blocks.foldl (trackConfirmationRatifierWeight g) s) := by
  induction blocks generalizing s with
  | nil => exact .refl s
  | cons b blocks ih =>
    exact (trackConfirmationRatifierWeight_frame g s b).trans (ih _)

/-! ## Section 5: The witness walk -/

section

variable (g online s votingBlock seat)

/-- The witness walk at one block, with what it collects for pre-acceptance. -/
def preAcceptanceCascade : Cascade BlockID Block where
  mark := fun id b =>
    if id ∈ s.stored then { b with witnesses := insert seat b.witnesses } else b
  added := fun id b => decide (id ∈ s.stored) && decide (seat ∉ b.witnesses)
  eligible := fun id b => decide (id ∈ s.stored) && !b.preAccepted
  reached := fun id b =>
    (shouldPreAcceptAndPreConfirm g online id
      { b with witnesses := insert seat b.witnesses }).1
  children := children g s.appended

/-- The witness walk at one block, with what it collects for pre-confirmation. -/
def preConfirmationCascade : Cascade BlockID Block where
  mark := fun id b =>
    if id ∈ s.stored then { b with witnesses := insert seat b.witnesses } else b
  added := fun id b => decide (id ∈ s.stored) && decide (seat ∉ b.witnesses)
  eligible := fun id b => decide (id ∈ s.stored) && !b.preConfirmed &&
    decide (g.epochFromSlot (g.slot votingBlock) = g.epochFromSlot (g.slot id))
  reached := fun id b =>
    (shouldPreAcceptAndPreConfirm g online id
      { b with witnesses := insert seat b.witnesses }).2
  children := children g s.appended

end

theorem stored_of_preConfirmationCascade_eligible {block : Block}
    (h : (preConfirmationCascade g online s votingBlock seat).eligible id block = true) :
    id ∈ s.stored := by
  simp only [preConfirmationCascade, Bool.and_eq_true, decide_eq_true_eq] at h
  exact h.1.1

theorem modify_mark_eq_addWitness (a : Metadata BlockID) (hid : id ∈ s.stored) :
    modify a id ((preAcceptanceCascade g online s seat).mark id) = (addWitness a id seat).1 := by
  funext b
  by_cases hb : b = id
  · subst hb; simp [addWitness, preAcceptanceCascade, hid]
  · simp [addWitness, hb]

theorem evaluateWitness_eq {a : WitnessWalk BlockID} (hid : id ∈ s.stored) :
    evaluateWitness g online s.appended votingBlock seat a id =
      ({ block := (addWitness a.block id seat).1
         toPreAccept :=
           if (preAcceptanceCascade g online s seat).collects a.toPreAccept id (a.block id) then
             id :: a.toPreAccept else a.toPreAccept
         toPreConfirm :=
           if (preConfirmationCascade g online s votingBlock seat).collects a.toPreConfirm id
             (a.block id) then id :: a.toPreConfirm else a.toPreConfirm },
       (preAcceptanceCascade g online s seat).added id (a.block id) ||
         ((preAcceptanceCascade g online s seat).collects a.toPreAccept id (a.block id) ||
          (preConfirmationCascade g online s votingBlock seat).collects a.toPreConfirm id
            (a.block id))) := by
  simp [evaluateWitness, process, addWitness, collects, preAcceptanceCascade,
    preConfirmationCascade, anyChildInSet, hid]

theorem evaluateWitness_visit (a : WitnessWalk BlockID) (id : BlockID) :
    ((evaluateCached g s.stored (evaluateWitness g online s.appended votingBlock seat) a
        id).1.block,
      (evaluateCached g s.stored
        (evaluateWitness g online s.appended votingBlock seat) a id).1.toPreAccept) =
      (preAcceptanceCascade g online s seat).visit (a.block, a.toPreAccept) id ∧
    ((evaluateCached g s.stored (evaluateWitness g online s.appended votingBlock seat) a
        id).1.block,
      (evaluateCached g s.stored
        (evaluateWitness g online s.appended votingBlock seat) a id).1.toPreConfirm) =
      (preConfirmationCascade g online s votingBlock seat).visit (a.block, a.toPreConfirm) id := by
  unfold visit
  rw [update_eq_modify, update_eq_modify]
  by_cases hid : id ∈ s.stored
  · rw [evaluateCached_of_mem _ _ hid, evaluateWitness_eq hid]
    have hmark : modify a.block id ((preAcceptanceCascade g online s seat).mark id) =
        (addWitness a.block id seat).1 := modify_mark_eq_addWitness a.block hid
    exact ⟨Prod.ext hmark.symm rfl, Prod.ext hmark.symm rfl⟩
  · rw [evaluateCached_of_notMem _ _ hid,
      modify_eq_self _ _ (by simp [preAcceptanceCascade, hid]),
      modify_eq_self _ _ (by simp [preConfirmationCascade, hid])]
    simp [collects, preAcceptanceCascade, preConfirmationCascade, hid]

theorem evaluateWitness_goOn (a : WitnessWalk BlockID) (id : BlockID) :
    ((preAcceptanceCascade g online s seat).added id (a.block id) = true ∨
      (preAcceptanceCascade g online s seat).collects a.toPreAccept id (a.block id) = true ∨
      (preConfirmationCascade g online s votingBlock seat).collects a.toPreConfirm id
        (a.block id) = true) →
    (evaluateCached g s.stored
      (evaluateWitness g online s.appended votingBlock seat) a id).2 = true := by
  by_cases hid : id ∈ s.stored
  · rw [evaluateCached_of_mem _ _ hid, evaluateWitness_eq hid]
    simp only [Bool.or_eq_true]
    exact fun h => h
  · simp [collects, preAcceptanceCascade, preConfirmationCascade, hid]

section

variable (g online s votingBlock seat order)

/-- The metadata once the voting block has voted for itself. -/
def selfWitnessed : Metadata BlockID :=
  (addWitness s.block votingBlock seat).1

/-- `toPreAccept` before the walk. -/
def selfPreAccepted : List BlockID :=
  if (preAcceptanceCascade g online s seat).added votingBlock (s.block votingBlock) &&
    (preAcceptanceCascade g online s seat).collects [] votingBlock (s.block votingBlock)
  then [votingBlock] else []

/-- `toPreConfirm` before the walk. -/
def selfPreConfirmed : List BlockID :=
  if (preAcceptanceCascade g online s seat).added votingBlock (s.block votingBlock) &&
    (preConfirmationCascade g online s votingBlock seat).collects [] votingBlock
      (s.block votingBlock)
  then [votingBlock] else []

/-- `toPreAccept` after a walk in the given order. -/
def preAcceptedBy : List BlockID :=
  ((preAcceptanceCascade g online s seat).run order
    (selfWitnessed s votingBlock seat, selfPreAccepted g online s votingBlock seat)).2

/-- `toPreConfirm` after a walk in the given order. -/
def preConfirmedBy : List BlockID :=
  ((preConfirmationCascade g online s votingBlock seat).run order
    (selfWitnessed s votingBlock seat, selfPreConfirmed g online s votingBlock seat)).2

/-- The guarantees of the witness walk about its visiting order. -/
structure WitnessSpec : Prop where
  preAcceptance : (preAcceptanceCascade g online s seat).Spec g.parents (· ∈ s.stored)
    (g.parents votingBlock)
    (selfWitnessed s votingBlock seat, selfPreAccepted g online s votingBlock seat) order
  preConfirmation : (preConfirmationCascade g online s votingBlock seat).Spec g.parents
    (· ∈ s.stored) (g.parents votingBlock)
    (selfWitnessed s votingBlock seat, selfPreConfirmed g online s votingBlock seat) order

/-- The blocks that got the seat as a witness. -/
def Witnessed (b : BlockID) : Prop := b = votingBlock ∨ (b ∈ order ∧ b ∈ s.stored)

instance (b : BlockID) : Decidable (Witnessed s votingBlock order b) :=
  inferInstanceAs (Decidable (_ ∨ _))

/-- The metadata once the collected blocks are pre-accepted and pre-confirmed. -/
def witnessed : Metadata BlockID := fun b =>
  { s.block b with
    witnesses := if Witnessed s votingBlock order b then insert seat (s.block b).witnesses
      else (s.block b).witnesses
    preAccepted := (s.block b).preAccepted ||
      decide (b ∈ preAcceptedBy g online s votingBlock seat order)
    preConfirmed := (s.block b).preConfirmed ||
      decide (b ∈ preConfirmedBy g online s votingBlock seat order) }

/-- The state before the ratifier weights are tracked. -/
def witnessedState : State BlockID :=
  { s with
    block := witnessed g online s votingBlock seat order
    events := s.events ++ (preAcceptedBy g online s votingBlock seat order).map .blockPreAccepted ++
      (preConfirmedBy g online s votingBlock seat order).map .blockPreConfirmed }

end

theorem witnessWalk_eq (online : Nat) (hstored : votingBlock ∈ s.stored) (seat : SeatIndex) :
    ∃ order, WitnessSpec g online s votingBlock seat order ∧
      witnessWalk g online s votingBlock seat =
        { block := ((preAcceptanceCascade g online s seat).run order
            (selfWitnessed s votingBlock seat, selfPreAccepted g online s votingBlock seat)).1
          toPreAccept := preAcceptedBy g online s votingBlock seat order
          toPreConfirm := preConfirmedBy g online s votingBlock seat order } := by
  -- the voting block is processed like a block met by the walk, if its witness is new
  have hself : witnessWalk g online s votingBlock seat =
      propagate g s.stored (g.parents votingBlock)
        (evaluateWitness g online s.appended votingBlock seat)
        { block := selfWitnessed s votingBlock seat
          toPreAccept := selfPreAccepted g online s votingBlock seat
          toPreConfirm := selfPreConfirmed g online s votingBlock seat } := by
    unfold witnessWalk selfPreAccepted selfPreConfirmed selfWitnessed
    by_cases hadded : seat ∈ (s.block votingBlock).witnesses
    · simp [addWitness, preAcceptanceCascade, hadded]
    · simp [addWitness, process, collects, preAcceptanceCascade, preConfirmationCascade,
        hadded, hstored]
  obtain ⟨order, hwalk⟩ := propagate_spec g s.stored (g.parents votingBlock)
    (evaluateWitness g online s.appended votingBlock seat)
    { block := selfWitnessed s votingBlock seat
      toPreAccept := selfPreAccepted g online s votingBlock seat
      toPreConfirm := selfPreConfirmed g online s votingBlock seat }
  obtain ⟨hview₁, hspec₁⟩ := walk_cascade hwalk (fun a => (a.block, a.toPreAccept))
    (fun a id => (evaluateWitness_visit a id).1)
    (fun a id h => evaluateWitness_goOn a id (h.imp_right .inl))
  obtain ⟨hview₂, hspec₂⟩ := walk_cascade hwalk (fun a => (a.block, a.toPreConfirm))
    (fun a id => (evaluateWitness_visit a id).2)
    (fun a id h => evaluateWitness_goOn a id (h.imp_right .inr))
  refine ⟨order, ⟨hspec₁, hspec₂⟩, ?_⟩
  rw [hself]
  have hblock := congrArg Prod.fst hview₁
  have haccept : _ = preAcceptedBy g online s votingBlock seat order := congrArg Prod.snd hview₁
  have hconfirm : _ = preConfirmedBy g online s votingBlock seat order := congrArg Prod.snd hview₂
  rw [← hblock, ← haccept, ← hconfirm]

/-! ## Section 6: The voting block and its past cone -/

omit [DecidableEq BlockID] in
theorem height_lt_of_depth (g : Gadget BlockID AccountID) {expands : BlockID → Prop} {x : BlockID}
    {n : Nat} (h : Depth g.parents expands (g.parents b) n x) : g.height x < g.height b := by
  induction h with
  | start hx => exact g.height_lt _ _ hx
  | next _ _ hy ih => exact Nat.lt_trans (g.height_lt _ _ hy) ih

section order

variable {order : List BlockID} (h : WitnessSpec g online s votingBlock seat order)
include h

theorem WitnessSpec.ne_votingBlock (hb : b ∈ order) : b ≠ votingBlock := by
  obtain ⟨n, hn⟩ := h.preAcceptance.exists_depth hb
  rintro rfl
  exact Nat.lt_irrefl _ (height_lt_of_depth g hn)

theorem WitnessSpec.notMem_order : votingBlock ∉ order := fun hv => h.ne_votingBlock hv rfl

omit h in
theorem mem_selfCollected {c : Cascade BlockID Block} {added : Bool} {block : Block}
    (hb : b ∈ if added && c.collects [] votingBlock block then [votingBlock] else []) :
    b = votingBlock ∧ added = true ∧ c.eligible votingBlock block = true ∧
      c.reached votingBlock block = true := by
  split at hb
  · next hcol =>
    obtain ⟨hadd, hcol⟩ := Bool.and_eq_true_iff.mp hcol
    obtain ⟨hel, hr | ⟨y, -, hy⟩⟩ := collects_eq_true.mp hcol
    · exact ⟨mem_singleton.mp hb, hadd, hel, hr⟩
    · cases hy
  · cases hb

omit h in
theorem selfWitnessed_ne (hb : b ≠ votingBlock) :
    selfWitnessed s votingBlock seat b = s.block b := by
  simp [selfWitnessed, addWitness, hb]

theorem WitnessSpec.selfWitnessed_eq (ho : b ∈ order) :
    selfWitnessed s votingBlock seat b = s.block b :=
  selfWitnessed_ne (h.ne_votingBlock ho)

section collected

variable {c : Cascade BlockID Block} {added : Bool}

theorem WitnessSpec.nodup_collected (m : Metadata BlockID) (p : Prop) [Decidable p] :
    (c.run order (m, if p then [votingBlock] else [])).2.Nodup := by
  obtain ⟨l, hl, heq⟩ := exists_collected_eq (c := c) order
    (m, if p then [votingBlock] else [])
  rw [heq]
  refine nodup_append.mpr ⟨nodup_reverse.mpr (h.preAcceptance.nodup.sublist hl), ?_, ?_⟩
  · split <;> simp
  · rintro x hx y hy rfl
    split at hy
    · rw [mem_singleton] at hy
      exact h.notMem_order (hy ▸ hl.subset (mem_reverse.mp hx))
    · cases hy

/-- What is collected is the voting block or was visited, and was eligible before the walk. -/
theorem WitnessSpec.eligible_of_collected
    (hb : b ∈ (c.run order (selfWitnessed s votingBlock seat,
      if added && c.collects [] votingBlock (s.block votingBlock) then [votingBlock] else [])).2) :
    (b = votingBlock ∨ b ∈ order) ∧ c.eligible b (s.block b) = true := by
  rcases mem_order_of_collected hb with hself | ho
  · obtain ⟨rfl, -, hel, -⟩ := mem_selfCollected hself
    exact ⟨.inl rfl, hel⟩
  · refine ⟨.inr ho, ?_⟩
    rcases Cascade.eligible_of_collected h.preAcceptance.nodup hb with hself | hel
    · exact absurd (mem_selfCollected hself).1 (h.ne_votingBlock ho)
    · simpa only [h.selfWitnessed_eq ho] using hel

end collected

theorem WitnessSpec.preAcceptedBy_nodup :
    (preAcceptedBy g online s votingBlock seat order).Nodup :=
  h.nodup_collected _ _

theorem WitnessSpec.preConfirmedBy_nodup :
    (preConfirmedBy g online s votingBlock seat order).Nodup :=
  h.nodup_collected _ _

theorem WitnessSpec.preAcceptedBy_eligible
    (hb : b ∈ preAcceptedBy g online s votingBlock seat order) :
    (b = votingBlock ∨ b ∈ order) ∧ b ∈ s.stored ∧ (s.block b).preAccepted = false := by
  have hcase := h.eligible_of_collected hb
  simpa [preAcceptanceCascade] using hcase

theorem WitnessSpec.preConfirmedBy_eligible
    (hb : b ∈ preConfirmedBy g online s votingBlock seat order) :
    (b = votingBlock ∨ b ∈ order) ∧ b ∈ s.stored ∧ (s.block b).preConfirmed = false := by
  have hcase := h.eligible_of_collected hb
  simp only [preConfirmationCascade, Bool.and_eq_true, decide_eq_true_eq,
    Bool.not_eq_true'] at hcase
  exact ⟨hcase.1, hcase.2.1⟩

theorem WitnessSpec.run_value (b : BlockID) :
    ((preAcceptanceCascade g online s seat).run order
      (selfWitnessed s votingBlock seat, selfPreAccepted g online s votingBlock seat)).1 b =
      { s.block b with
        witnesses := if Witnessed s votingBlock order b then insert seat (s.block b).witnesses
          else (s.block b).witnesses } := by
  rw [Cascade.run_value h.preAcceptance.nodup]
  by_cases hv : b = votingBlock
  · subst hv
    simp [h.notMem_order, Witnessed, selfWitnessed, addWitness]
  · simp only [selfWitnessed_ne hv, preAcceptanceCascade, Witnessed, hv, false_or]
    by_cases ho : b ∈ order <;> by_cases hs : b ∈ s.stored <;> simp [ho, hs]

end order

theorem trackWitnessWeight_eq (online : Nat)
    (hseat : isCommitteeValidationBlock g votingBlock = some seat)
    (hstored : votingBlock ∈ s.stored) :
    ∃ order, WitnessSpec g online s votingBlock seat order ∧
      ∃ t, ConfirmationFrame
        ((preAcceptedBy g online s votingBlock seat order).foldl
          (trackAcceptanceRatifierWeight g online)
          (witnessedState g online s votingBlock seat order)) t ∧
        trackWitnessWeight g online s votingBlock = setWeightPropagated t votingBlock := by
  obtain ⟨order, h, hwalk⟩ := witnessWalk_eq (g := g) (s := s) online hstored seat
  refine ⟨order, h, _, foldl_trackConfirmationRatifierWeight_frame g
    (preConfirmedBy g online s votingBlock seat order) _, ?_⟩
  unfold trackWitnessWeight
  simp only [hseat]
  have happly : applyWitnessWalk g online s (witnessWalk g online s votingBlock seat) =
      (preConfirmedBy g online s votingBlock seat order).foldl (trackConfirmationRatifierWeight g)
        ((preAcceptedBy g online s votingBlock seat order).foldl
          (trackAcceptanceRatifierWeight g online)
          (witnessedState g online s votingBlock seat order)) := by
    unfold applyWitnessWalk
    rw [hwalk]
    rw [setAndTrigger_eq h.preAcceptedBy_nodup]
    · simp only
      rw [setAndTrigger_eq h.preConfirmedBy_nodup]
      · simp only [preAcceptedFlag_set_if, preConfirmedFlag_set_if, h.run_value]
        rfl
      · intro b hb
        have hunset := (h.preConfirmedBy_eligible hb).2.2
        simp only [h.run_value, preAcceptedFlag, preConfirmedFlag]
        split <;> exact hunset
    · intro b hb
      simp only [h.run_value, preAcceptedFlag]
      exact (h.preAcceptedBy_eligible hb).2.2
  rw [happly]

end AxonCore.BlockGadget

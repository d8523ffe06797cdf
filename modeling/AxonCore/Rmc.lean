import AxonCore.Lib.Keyed
import AxonCore.Lib.SafeMath

/-! # The reference mana cost

    The manager adds up the work of the accepted blocks of every slot.  When a slot is committed,
    the cost goes up or down by a fixed amount if there was much or little work, and not below a
    minimum.  Costs are kept for some slots and read from the stored commitments otherwise.

    * `updated`: the cost after a slot, in integers.
    * `Computable`: the checked and the unchecked arithmetic of a step gives that cost.  It does
      not where a cost above the minimum is less than the amount by which it goes down: the
      subtraction fails before the minimum is applied.
    * `commitSlot_law`: the costs of all runs whose steps are computable. -/

namespace AxonCore.Rmc

open AxonCore.Lib Option

/-! ## Section 1: Model -/

/-- `CongestionControlParameters` and `MaxCommittableAge`. -/
structure Params where
  minReferenceManaCost : Nat
  increase : Nat
  decrease : Nat
  increaseThreshold : Nat
  decreaseThreshold : Nat
  maxCommittableAge : Nat

/-- Why there is no cost. -/
inductive Error where
  | alreadyCommitted
  | noCommitment
  | arithmetic (e : ArithmeticError)
  | alreadySet
  | notCommitted
  | alreadyEvicted
  deriving DecidableEq

/-- `Manager`, with the costs of the stored commitments that `commitmentLoader` reads. -/
structure Manager where
  slotWork : Map Nat Nat
  rmc : Map Nat Nat
  latestCommittedSlot : Nat
  commitments : Map Nat Nat

namespace Manager

/-- `Reset`. -/
def reset (m : Manager) : Manager :=
  { m with
    slotWork := ∅
    rmc := m.rmc.entries.foldl
      (fun rmc e => if m.latestCommittedSlot < e.1 then rmc.erase e.1 else rmc) m.rmc }

/-- `BlockAccepted`, for a block that is given by its slot and its work.  The sum is not
    checked. -/
def blockAccepted (m : Manager) (slot work : Nat) : Manager :=
  if slot ≤ m.latestCommittedSlot then m
  else
    { m with
      slotWork := m.slotWork.insert slot (((m.slotWork.lookup slot).getD 0 + work) % 2 ^ 32) }

/-- The new cost that `CommitSlot` calculates. -/
def newRMC (p : Params) (lastRMC currentSlotWork : Nat) : Except ArithmeticError Nat :=
  if currentSlotWork < p.decreaseThreshold ∧ p.minReferenceManaCost < lastRMC then
    (safeSub lastRMC p.decrease).map fun rmc => max rmc p.minReferenceManaCost
  else if p.increaseThreshold < currentSlotWork then safeAdd lastRMC p.increase
  else .ok lastRMC

/-- The state after a slot was committed: its work and an old cost are evicted. -/
def committed (p : Params) (m : Manager) (index rmc : Nat) : Manager :=
  { m with
    slotWork := m.slotWork.erase index
    rmc :=
      if p.maxCommittableAge < index then
        (m.rmc.insert index rmc).erase (index - p.maxCommittableAge)
      else m.rmc.insert index rmc
    latestCommittedSlot := index }

/-- `CommitSlot`. -/
def commitSlot (p : Params) (m : Manager) (index : Nat) : Manager × Except Error Nat :=
  if index ≤ m.latestCommittedSlot then (m, .error .alreadyCommitted)
  else
    match m.commitments.lookup (index - 1) with
    | none => (m, .error .noCommitment)
    | some lastRMC =>
      match newRMC p lastRMC ((m.slotWork.lookup index).getD 0) with
      | .error e => (m, .error (.arithmetic e))
      | .ok rmc =>
        if (m.rmc.lookup index).isSome then
          ({ m with rmc := m.rmc.insert index rmc }, .error .alreadySet)
        else (m.committed p index rmc, .ok rmc)

/-- `RMC`.  The sum is not checked. -/
def rmcAt (p : Params) (m : Manager) (slot : Nat) : Except Error Nat :=
  if m.latestCommittedSlot < slot then .error .notCommitted
  else if (slot + p.maxCommittableAge) % 2 ^ 32 < m.latestCommittedSlot then .error .alreadyEvicted
  else
    match m.rmc.lookup slot with
    | some rmc => .ok rmc
    | none =>
      match m.commitments.lookup slot with
      | none => .error .noCommitment
      | some rmc => .ok rmc

/-- The commitment of the latest slot is stored. -/
def store (m : Manager) (rmc : Nat) : Manager :=
  { m with commitments := m.commitments.insert m.latestCommittedSlot rmc }

end Manager

inductive Input where
  | blockAccepted (slot work : Nat)
  | reset
  /-- The next slot is committed, and its commitment stored. -/
  | commitSlot
  deriving DecidableEq

/-- One step; a slot that cannot be committed stops the run. -/
def step (p : Params) (m : Manager) : Input → Option Manager
  | .blockAccepted slot work => some (m.blockAccepted slot work)
  | .reset => some m.reset
  | .commitSlot =>
    match m.commitSlot p (m.latestCommittedSlot + 1) with
    | (_, .error _) => none
    | (m', .ok rmc) => some (m'.store rmc)

/-! ## Section 2: The law -/

/-- What an input adds to the work of a slot. -/
def accumulate (slot work : Nat) : Input → Nat
  | .blockAccepted s w => if s = slot then work + w else work
  | .reset => 0
  | .commitSlot => work

/-- The work that was accepted for a slot since the last reset. -/
def accumulated (slot : Nat) (inputs : List Input) : Nat := inputs.foldl (accumulate slot) 0

/-- The cost after a slot. -/
def updated (p : Params) (last work : Nat) : Nat :=
  if work < p.decreaseThreshold then max p.minReferenceManaCost (last - p.decrease)
  else if p.increaseThreshold < work then last + p.increase
  else last

/-- A step whose arithmetic gives the cost: a cost that goes down is at least the decrease, and
    no sum overflows. -/
def Computable (p : Params) (m : Manager) : Input → Prop
  | .blockAccepted slot work =>
    m.latestCommittedSlot < slot → (m.slotWork.lookup slot).getD 0 + work < 2 ^ 32
  | .reset => True
  | .commitSlot =>
    let last := (m.commitments.lookup m.latestCommittedSlot).getD 0
    let work := (m.slotWork.lookup (m.latestCommittedSlot + 1)).getD 0
    (work < p.decreaseThreshold → p.minReferenceManaCost < last → p.decrease ≤ last) ∧
      (p.increaseThreshold < work → last + p.increase < wordSize)

instance (p : Params) (m : Manager) : (input : Input) → Decidable (Computable p m input)
  | .blockAccepted _ _ => inferInstanceAs (Decidable (_ → _))
  | .reset => isTrue trivial
  | .commitSlot => inferInstanceAs (Decidable (_ ∧ _))

/-- The stored costs are not below the minimum, the cached ones are the stored ones, and the work
    of the slots to come is counted. -/
structure Inv (p : Params) (start : Nat) (inputs : List Input) (m : Manager) : Prop where
  start_le : start ≤ m.latestCommittedSlot
  stored : ∀ slot ≤ m.latestCommittedSlot, (m.commitments.lookup slot).isSome
  minimum : ∀ slot rmc, start ≤ slot → slot ≤ m.latestCommittedSlot →
    m.commitments.lookup slot = some rmc → p.minReferenceManaCost ≤ rmc
  cached : ∀ slot rmc, m.rmc.lookup slot = some rmc →
    slot ≤ m.latestCommittedSlot ∧ m.commitments.lookup slot = some rmc
  work : ∀ slot, m.latestCommittedSlot < slot →
    (m.slotWork.lookup slot).getD 0 = accumulated slot inputs

variable {p : Params} {m m' : Manager} {start last : Nat} {inputs : List Input}

theorem newRMC_eq (hp : p.decreaseThreshold ≤ p.increaseThreshold)
    (hmin : p.minReferenceManaCost ≤ last) (work : Nat) :
    Manager.newRMC p last work =
      if work < p.decreaseThreshold ∧ p.minReferenceManaCost < last ∧ last < p.decrease then
        .error .underflow
      else if p.increaseThreshold < work ∧ wordSize ≤ last + p.increase then .error .overflow
      else .ok (updated p last work) := by
  unfold Manager.newRMC updated safeSub safeAdd
  -- a cost that goes down does not go up as well
  by_cases hlow : work < p.decreaseThreshold
  · have hhigh : ¬ p.increaseThreshold < work := by omega
    grind [Except.map]
  · grind [Except.map]

theorem minimum_le_updated (hmin : p.minReferenceManaCost ≤ last) (work : Nat) :
    p.minReferenceManaCost ≤ updated p last work := by
  unfold updated
  split
  · exact Nat.le_max_left _ _
  · split <;> omega

theorem lookup_of_reset {slot rmc : Nat} (h : m.reset.rmc.lookup slot = some rmc) :
    m.rmc.lookup slot = some rmc := by
  have hdrop := lookup_foldl_erase (fun index _ => decide (m.latestCommittedSlot < index))
    m.rmc slot
  simp only [decide_eq_true_eq] at hdrop
  exact (filter_eq_some_iff.mp (hdrop.symm.trans h)).1

theorem accumulated_append (slot : Nat) (inputs : List Input) (input : Input) :
    accumulated slot (inputs ++ [input]) = accumulate slot (accumulated slot inputs) input :=
  List.foldl_append

section

variable (h : Inv p start inputs m)
include h

theorem Inv.store {rmc : Nat} (hrmc : p.minReferenceManaCost ≤ rmc) :
    Inv p start (inputs ++ [.commitSlot])
      ((m.committed p (m.latestCommittedSlot + 1) rmc).store rmc) where
  start_le := Nat.le_succ_of_le h.start_le
  stored := by
    intro slot hslot
    exact isSome_insert_of fun hne =>
      h.stored slot (Nat.le_of_lt_succ (Nat.lt_of_le_of_ne hslot hne))
  minimum := by
    intro slot v hstart hslot hv
    have hv := (lookup_insert_eq m.commitments slot (m.latestCommittedSlot + 1) rmc).symm.trans hv
    have hslot : slot ≤ m.latestCommittedSlot + 1 := hslot
    have hold := h.minimum slot v hstart
    grind
  cached := by
    intro slot v hv
    have hv : (m.rmc.insert (m.latestCommittedSlot + 1) rmc).lookup slot = some v := by
      unfold Manager.store Manager.committed at hv
      grind [lookup_of_erase]
    show slot ≤ m.latestCommittedSlot + 1 ∧
      (m.commitments.insert (m.latestCommittedSlot + 1) rmc).lookup slot = some v
    rw [lookup_insert_eq] at hv ⊢
    have hold := h.cached slot v
    grind
  work := by
    intro slot hslot
    have hslot : m.latestCommittedSlot + 1 < slot := hslot
    show ((m.slotWork.erase (m.latestCommittedSlot + 1)).lookup slot).getD 0 = _
    rw [accumulated_append, lookup_erase_eq, if_neg (Nat.ne_of_gt hslot)]
    exact h.work slot (Nat.lt_of_succ_lt hslot)

theorem Inv.commitSlot (hp : p.decreaseThreshold ≤ p.increaseThreshold)
    (hm : Computable p m .commitSlot) :
    ∃ last, m.commitments.lookup m.latestCommittedSlot = some last ∧
      p.minReferenceManaCost ≤ last ∧ m.commitSlot p (m.latestCommittedSlot + 1) =
        (m.committed p (m.latestCommittedSlot + 1)
            (updated p last (accumulated (m.latestCommittedSlot + 1) inputs)),
          .ok (updated p last (accumulated (m.latestCommittedSlot + 1) inputs))) := by
  obtain ⟨last, hlast⟩ := isSome_iff_exists.mp (h.stored _ (Nat.le_refl _))
  have hmin := h.minimum _ last h.start_le (Nat.le_refl _) hlast
  have hwork := h.work (m.latestCommittedSlot + 1) (Nat.lt_succ_self _)
  have hfree : m.rmc.lookup (m.latestCommittedSlot + 1) = none := by
    by_contra hsome
    obtain ⟨rmc, hrmc⟩ := ne_none_iff_exists'.mp hsome
    exact absurd (h.cached _ rmc hrmc).1 (Nat.not_succ_le_self _)
  unfold Computable at hm
  simp only [hlast, hwork, getD_some] at hm
  have hnew := newRMC_eq hp hmin (accumulated (m.latestCommittedSlot + 1) inputs)
  rw [if_neg (by omega), if_neg (by omega)] at hnew
  refine ⟨last, hlast, hmin, ?_⟩
  unfold Manager.commitSlot
  rw [if_neg (by omega), Nat.add_sub_cancel, hlast]
  simp only [hwork, hnew, hfree, isSome_none, Bool.false_eq_true, if_false]

theorem Inv.step (hp : p.decreaseThreshold ≤ p.increaseThreshold)
    {input : Input} (hinput : Computable p m input) :
    ∃ m', step p m input = some m' ∧ Inv p start (inputs ++ [input]) m' := by
  cases input with
  | blockAccepted slot work =>
    refine ⟨_, rfl, ?_⟩
    unfold Manager.blockAccepted
    split
    all_goals
      refine ⟨h.start_le, h.stored, h.minimum, h.cached, fun j hj => ?_⟩
      have hold := h.work j hj
      rw [accumulated_append, accumulate]
    next => grind
    next hslot =>
      have hword := hinput (Nat.lt_of_not_le hslot)
      rw [Nat.mod_eq_of_lt hword, lookup_insert_eq]
      grind
  | reset =>
    refine ⟨_, rfl, h.start_le, h.stored, h.minimum, fun slot rmc hrmc => ?_, fun j _ => ?_⟩
    · exact h.cached slot rmc (lookup_of_reset hrmc)
    · rw [accumulated_append]
      rfl
  | commitSlot =>
    obtain ⟨last, _, hmin, hm'⟩ := h.commitSlot hp hinput
    unfold Rmc.step
    rw [hm']
    exact ⟨_, rfl, h.store (minimum_le_updated hmin _)⟩

theorem Inv.rmcAt {slot : Nat} (hslot : slot ≤ m.latestCommittedSlot)
    (hage : m.latestCommittedSlot ≤ slot + p.maxCommittableAge)
    (hword : slot + p.maxCommittableAge < 2 ^ 32) :
    ∃ rmc, m.commitments.lookup slot = some rmc ∧ m.rmcAt p slot = .ok rmc := by
  obtain ⟨rmc, hrmc⟩ := isSome_iff_exists.mp (h.stored slot hslot)
  have hcached := h.cached slot
  refine ⟨rmc, hrmc, ?_⟩
  unfold Manager.rmcAt
  rw [Nat.mod_eq_of_lt hword]
  grind

end

/-- From a stored cost that is not below the minimum, every run whose steps are computable goes
    through, the costs follow the law and stay above the minimum, and they can be asked for. -/
theorem commitSlot_law (p : Params) (hp : p.decreaseThreshold ≤ p.increaseThreshold)
    (start : Nat) (commitments : Map Nat Nat)
    (hstored : ∀ slot ≤ start, (commitments.lookup slot).isSome)
    (hmin : ∀ rmc ∈ commitments.lookup start, p.minReferenceManaCost ≤ rmc) (inputs : List Input)
    (hinputs : AllSteps (step p) (Computable p) ⟨∅, ∅, start, commitments⟩ inputs) :
    ∃ m, run (step p) ⟨∅, ∅, start, commitments⟩ inputs = some m ∧
      (∀ slot rmc, start ≤ slot → slot ≤ m.latestCommittedSlot →
        m.commitments.lookup slot = some rmc → p.minReferenceManaCost ≤ rmc) ∧
      (Computable p m .commitSlot →
        ∃ last m', m.commitments.lookup m.latestCommittedSlot = some last ∧
          m.commitSlot p (m.latestCommittedSlot + 1) =
            (m', .ok (updated p last (accumulated (m.latestCommittedSlot + 1) inputs)))) ∧
      ∀ slot ≤ m.latestCommittedSlot, m.latestCommittedSlot ≤ slot + p.maxCommittableAge →
        slot + p.maxCommittableAge < 2 ^ 32 →
        ∃ rmc, m.commitments.lookup slot = some rmc ∧ m.rmcAt p slot = .ok rmc := by
  have hinit : Inv p start [] ⟨∅, ∅, start, commitments⟩ := by
    refine ⟨Nat.le_refl _, hstored, fun slot rmc hle hge hrmc => ?_,
      fun _ _ h => (nomatch h), fun _ _ => rfl⟩
    obtain rfl : slot = start := Nat.le_antisymm hge hle
    exact hmin rmc hrmc
  obtain ⟨m, hm, hinv⟩ := run_history_total_of (I := Inv p start)
    (fun _ _ _ h hinput => h.step hp hinput) hinit hinputs
  refine ⟨m, hm, hinv.minimum, fun hnext => ?_, fun slot => hinv.rmcAt⟩
  obtain ⟨last, hlast, _, hm'⟩ := hinv.commitSlot hp hnext
  exact ⟨last, _, hlast, hm'⟩

/-- A cost above the minimum that cannot go down by the whole decrease is an error, and the slot
    is not committed. -/
theorem commitSlot_underflow :
    (Manager.commitSlot ⟨1, 10, 10, 1, 1, 5⟩ ⟨∅, ∅, 0, (∅ : Map Nat Nat).insert 0 5⟩ 1).2 =
        .error (.arithmetic .underflow) ∧
      updated ⟨1, 10, 10, 1, 1, 5⟩ 5 0 = 1 :=
  ⟨rfl, rfl⟩

/-- Work in the first slot and none in the second. -/
theorem commitSlot_law_two : ∃ m,
    run (step ⟨1, 2, 1, 1, 1, 5⟩) ⟨∅, ∅, 0, (∅ : Map Nat Nat).insert 0 3⟩
      [.blockAccepted 1 4, .commitSlot, .reset, .commitSlot] = some m ∧
    m.commitments.lookup 2 = some 4 ∧ m.rmcAt ⟨1, 2, 1, 1, 1, 5⟩ 2 = .ok 4 := by
  obtain ⟨m, hm, _, _, hcosts⟩ := commitSlot_law ⟨1, 2, 1, 1, 1, 5⟩ (by decide) 0
    ((∅ : Map Nat Nat).insert 0 3) (by decide) (by decide)
    [.blockAccepted 1 4, .commitSlot, .reset, .commitSlot] (by decide)
  refine exists_of_result (P := fun m => m.latestCommittedSlot = 2 ∧
      m.commitments.lookup 2 = some 4)
    (by decide) fun m' hm' hP => ?_
  obtain rfl : m = m' := some.inj (hm.symm.trans hm')
  obtain ⟨rmc, hrmc, hat⟩ := hcosts 2 (Nat.le_of_eq hP.1.symm) (by rw [hP.1]; decide) (by decide)
  rw [hP.2, some.injEq] at hrmc
  exact ⟨hP.2, hrmc ▸ hat⟩

end AxonCore.Rmc

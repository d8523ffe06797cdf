import Mathlib.Data.Finset.Card
import AxonCore.Notarization.Model

/-! # Published commitments

    The set of accepted blocks of a slot is given away when the commitment of the slot is
    tried.  If a component returns an error after that, the slot is tried again with an
    empty set, and blocks of the slot that are accepted meanwhile are refused.

    * `Inv`, `Exact`: the manager and the published commitments agree with the log.
    * `commitments_exact`: every published commitment extends the latest one, and has the
      tangle root of all accepted blocks if its slot is tried for the first time; accepted
      blocks lead to attempts as long as no forced commitment failed.
    * `retry_publishes_empty_slot`: with one error the published root is wrong, and the
      manager may stay in the force commit mode. -/

namespace AxonCore.Notarization

open List Function Option Manager

variable {p : Params} {c₀ : Commitment} {m : Manager}

/-! ## Section 1: The log -/

/-- The blocks of a slot that were handed over as accepted. -/
def handed (log : List Event) (slot : Nat) : Finset BlockID :=
  (log.filterMap fun
    | .accepted b => if b.slot = slot then some b else none
    | _ => none).toFinset

/-- The latest commitment. -/
def latestOf (c₀ : Commitment) (log : List Event) : Commitment :=
  log.foldl (fun c e => match e with
    | .latestCommitment c' => c'
    | _ => c) c₀

section

variable (log : List Event)

theorem handed_append (e : Event) (slot : Nat) :
    handed (log ++ [e]) slot = match e with
      | .accepted b => if b.slot = slot then insert b (handed log slot) else handed log slot
      | _ => handed log slot := by
  cases e with
  | accepted b =>
    ext b'
    by_cases h : b.slot = slot <;> simp [handed, h]
  | _ => simp [handed]

theorem latestOf_append (e : Event) :
    latestOf c₀ (log ++ [e]) = match e with
      | .latestCommitment c => c
      | _ => latestOf c₀ log := by
  cases e <;> simp [latestOf]

end

/-! ## Section 2: The invariant -/

/-- What a published commitment carries, by the log before it.  The slot was tried for the
    first time if this attempt is the only one. -/
structure Exact (p : Params) (c₀ : Commitment) (pre : List Event) (d : SlotCommittedDetails) :
    Prop where
  slot : d.commitment.slot = (latestOf c₀ pre).slot + 1
  previous : d.commitment.previousCommitmentID = p.commitmentID (latestOf c₀ pre)
  roots : d.commitment.rootsID = p.rootsID d.roots
  tangleRoot : d.roots.tangleRoot = p.root
    (if pre.count (.attempt d.commitment.slot) = 1 then handed pre d.commitment.slot else ∅)

structure Inv (p : Params) (c₀ : Commitment) (m : Manager) : Prop where
  latest : m.latestCommitment = latestOf c₀ m.log
  /-- A slot that was tried is closed for accepted blocks. -/
  closed : m.slotMutations.latestCommittedSlot =
    if .attempt (m.latestCommitment.slot + 1) ∈ m.log then m.latestCommitment.slot + 1
    else m.latestCommitment.slot
  attempts : ∀ slot, .attempt slot ∈ m.log → slot ≤ m.latestCommitment.slot + 1
  blocks : ∀ slot, m.slotMutations.acceptedBlocksBySlot slot =
    if m.slotMutations.latestCommittedSlot < slot then handed m.log slot else ∅
  published : ∀ pre d post, m.log = pre ++ .slotCommitted d :: post → Exact p c₀ pre d

theorem published_append {log : List Event} {e : Event}
    (h : ∀ pre d post, log = pre ++ .slotCommitted d :: post → Exact p c₀ pre d)
    (hnew : ∀ d, e = .slotCommitted d → Exact p c₀ log d) :
    ∀ pre d post, log ++ [e] = pre ++ .slotCommitted d :: post → Exact p c₀ pre d := by
  intro pre d post heq
  rcases eq_nil_or_concat post with rfl | ⟨post', e', rfl⟩
  · obtain ⟨rfl, he⟩ := append_inj' heq rfl
    exact hnew d (List.cons.inj he).1
  · rw [concat_eq_append, ← cons_append, ← append_assoc] at heq
    exact h pre d post' (append_inj' heq rfl).1

theorem Inv.accept (h : Inv p c₀ m) (b : BlockID) :
    Inv p c₀ { m with
      slotMutations := m.slotMutations.addAcceptedBlock b
      log := m.log ++ [.accepted b] } := by
  have hmutations : (m.slotMutations.addAcceptedBlock b).latestCommittedSlot =
      m.slotMutations.latestCommittedSlot := by
    unfold SlotMutations.addAcceptedBlock
    split <;> rfl
  have hattempt : ∀ slot, .attempt slot ∈ m.log ++ [.accepted b] ↔ .attempt slot ∈ m.log := by
    simp
  constructor
  · exact h.latest.trans (latestOf_append m.log (.accepted b)).symm
  · rw [hmutations, h.closed]
    simp only [hattempt]
  · intro slot hslot
    exact h.attempts slot ((hattempt slot).mp hslot)
  · intro slot
    rw [hmutations, handed_append]
    dsimp only
    have hold := h.blocks slot
    unfold SlotMutations.addAcceptedBlock
    by_cases hlate : b.slot ≤ m.slotMutations.latestCommittedSlot
    · rw [if_pos hlate, hold]
      by_cases hslot : b.slot = slot
      · rw [if_neg (by omega), if_neg (by omega)]
      · rw [if_neg hslot]
    · rw [if_neg hlate]
      by_cases hslot : b.slot = slot
      · subst hslot
        show update _ b.slot _ b.slot = _
        rw [update_self, hold, if_pos (by omega), if_pos (by omega), if_pos rfl]
      · show update _ b.slot _ slot = _
        rw [update_of_ne (Ne.symm hslot), hold, if_neg hslot]
  · exact published_append h.published (fun d hd => nomatch hd)

theorem Inv.attempt (h : Inv p c₀ m) :
    Inv p c₀ { m with
      slotMutations := m.slotMutations.commit (m.latestCommitment.slot + 1)
      log := m.log ++ [.attempt (m.latestCommitment.slot + 1)] } := by
  have hclosed : m.slotMutations.latestCommittedSlot ≤ m.latestCommitment.slot + 1 := by
    rw [h.closed]
    split <;> omega
  constructor
  · exact h.latest.trans (latestOf_append m.log (.attempt _)).symm
  · show m.latestCommitment.slot + 1 = _
    rw [if_pos (mem_append_right _ mem_cons_self)]
  · intro slot hslot
    rcases mem_append.mp hslot with hold | hnew
    · exact h.attempts slot hold
    · obtain rfl := Event.attempt.inj (mem_singleton.mp hnew)
      exact Nat.le_refl _
  · intro slot
    show update m.slotMutations.acceptedBlocksBySlot (m.latestCommitment.slot + 1) ∅ slot =
      if m.latestCommitment.slot + 1 < slot then handed (m.log ++ [.attempt _]) slot else ∅
    rw [handed_append]
    by_cases hslot : slot = m.latestCommitment.slot + 1
    · rw [hslot, update_self, if_neg (Nat.lt_irrefl _)]
    · rw [update_of_ne hslot, h.blocks slot]
      by_cases hlate : m.latestCommitment.slot + 1 < slot
      · rw [if_pos hlate, if_pos (by omega)]
      · rw [if_neg hlate]
        apply if_neg
        -- the latest committed slot has nothing either
        intro hlt
        have hlower : m.latestCommitment.slot ≤ m.slotMutations.latestCommittedSlot := by
          rw [h.closed]
          split <;> omega
        omega
  · exact published_append h.published (fun d hd => nomatch hd)

theorem Inv.acceptedBlocks (h : Inv p c₀ m) :
    m.slotMutations.acceptedBlocksBySlot (m.latestCommitment.slot + 1) =
      if (m.log ++ [Event.attempt (m.latestCommitment.slot + 1)]).count
          (.attempt (m.latestCommitment.slot + 1)) = 1 then
        handed (m.log ++ [.attempt (m.latestCommitment.slot + 1)]) (m.latestCommitment.slot + 1)
      else ∅ := by
  rw [h.blocks, h.closed, handed_append, count_append, count_singleton_self]
  by_cases htried : .attempt (m.latestCommitment.slot + 1) ∈ m.log
  · have hcount := count_pos_iff.mpr htried
    rw [if_pos htried, if_neg (Nat.lt_irrefl _), if_neg (by omega)]
  · rw [if_neg htried, if_pos (Nat.lt_succ_self _), count_eq_zero.mpr htried, if_pos rfl]

theorem Inv.publish (h : Inv p c₀ m) (sub : SubCommits) {d : SlotCommittedDetails}
    (hexact : Exact p c₀ m.log d)
    (hclosed : m.slotMutations.latestCommittedSlot = d.commitment.slot) :
    Inv p c₀ (m.publish sub d).1 := by
  have hslot : d.commitment.slot = m.latestCommitment.slot + 1 := by
    rw [h.latest]
    exact hexact.slot
  have hpublished : Inv p c₀ { m with log := m.log ++ [.slotCommitted d] } := by
    have hattempt : ∀ slot, .attempt slot ∈ m.log ++ [.slotCommitted d] ↔
        .attempt slot ∈ m.log := by
      simp
    constructor
    · exact h.latest.trans (latestOf_append m.log (.slotCommitted d)).symm
    · rw [h.closed]
      simp only [hattempt]
    · intro slot hslot
      exact h.attempts slot ((hattempt slot).mp hslot)
    · intro slot
      rw [handed_append]
      exact h.blocks slot
    · refine published_append h.published (fun d' hd' => ?_)
      obtain rfl := Event.slotCommitted.inj hd'
      exact hexact
  have hlatest : Inv p c₀ { m with
      latestCommitment := d.commitment
      log := m.log ++ [.slotCommitted d] ++ [.latestCommitment d.commitment] } := by
    have hattempt : ∀ slot, .attempt slot ∈ m.log ++ [.slotCommitted d] ++
        [.latestCommitment d.commitment] ↔ .attempt slot ∈ m.log := by
      simp
    constructor
    · exact (latestOf_append _ (.latestCommitment _)).symm
    · dsimp only
      rw [hclosed, if_neg]
      intro htried
      have hle := h.attempts _ ((hattempt _).mp htried)
      omega
    · intro slot htried
      have hle := h.attempts slot ((hattempt slot).mp htried)
      dsimp only
      omega
    · intro slot
      rw [handed_append]
      exact hpublished.blocks slot
    · exact published_append hpublished.published (fun d' hd' => nomatch hd')
  unfold Manager.publish
  split_ifs
  · exact hpublished
  · exact hlatest
  · exact hlatest
  · exact ⟨hlatest.latest, hlatest.closed, hlatest.attempts, hlatest.blocks,
      hlatest.published⟩

theorem tangleRoot_collect {sub : SubCommits} {tangleRoot : Nat} {x : Roots × Nat × Nat}
    (h : sub.collect tangleRoot = some x) : x.1.tangleRoot = tangleRoot := by
  unfold SubCommits.collect at h
  simp only [bind_eq_some_iff, map_eq_some_iff] at h
  obtain ⟨_, _, _, _, _, _, _, _, _, _, rfl⟩ := h
  rfl

theorem Inv.createCommitment (h : Inv p c₀ m) (slot : Nat) :
    Inv p c₀ (m.createCommitment p slot).1 := by
  have hcalls : Inv p c₀ { m with calls := m.calls + 1 } :=
    ⟨h.latest, h.closed, h.attempts, h.blocks, h.published⟩
  unfold Manager.createCommitment
  dsimp only
  split
  · exact hcalls
  next hnext =>
    obtain rfl := not_not.mp hnext
    split
    · exact hcalls
    · have hattempt := hcalls.attempt
      split
      · exact hattempt
      next roots cumulativeWeight rmc hcollect =>
        split
        · exact hattempt
        · apply hattempt.publish
          · constructor
            · rw [latestOf_append, ← h.latest]
            · rw [latestOf_append, ← h.latest]
            · rfl
            · rw [← h.acceptedBlocks]
              exact tangleRoot_collect hcollect
          · rfl

section Loops

-- a property that every call of `createCommitment` keeps
variable {I : Manager → Prop} (hcreate : ∀ m slot, I m → I (m.createCommitment p slot).1)
include hcreate

theorem tryCommitLoop_invariant (acceptedBlockIndex rounds i : Nat) (h : I m) :
    I (tryCommitLoop p acceptedBlockIndex rounds i m) := by
  induction rounds generalizing i m with
  | zero => exact h
  | succ rounds ih =>
    unfold tryCommitLoop
    have hnext := hcreate m i h
    split
    · exact h
    · split
      next heq =>
        rw [heq] at hnext
        exact hnext
      next heq =>
        rw [heq] at hnext
        exact ih (i + 1) hnext

theorem tryCommitUntil_invariant (h : I m) (slot : Nat) : I (m.tryCommitUntil p slot) := by
  unfold tryCommitUntil
  split
  · exact h
  · split
    · exact tryCommitLoop_invariant hcreate _ _ _ h
    · exact h

theorem forceCommitLoop_invariant (rounds i : Nat) (h : I m) :
    I (forceCommitLoop p rounds i m).1 := by
  induction rounds generalizing i m with
  | zero => exact h
  | succ rounds ih =>
    unfold forceCommitLoop
    have hnext : I (m.forceCommit p i).1 := hcreate m i h
    split
    next heq =>
      rw [heq] at hnext
      exact hnext
    next heq =>
      rw [heq] at hnext
      exact ih (i + 1) hnext

end Loops

theorem Inv.setMode (h : Inv p c₀ m) (mode : Bool) :
    Inv p c₀ { m with forceCommitMode := mode } :=
  ⟨h.latest, h.closed, h.attempts, h.blocks, h.published⟩

theorem Inv.forceCommitUntil (h : Inv p c₀ m) (slot : Nat) :
    Inv p c₀ (m.forceCommitUntil p slot).1 := by
  unfold Manager.forceCommitUntil
  split
  · exact h
  · have hloop := forceCommitLoop_invariant (I := Inv p c₀)
      (fun _ slot h => h.createCommitment slot)
      (slot - m.latestCommitment.slot) (m.latestCommitment.slot + 1) (h.setMode true)
    split
    next heq =>
      rw [heq] at hloop
      exact hloop
    next heq =>
      rw [heq] at hloop
      exact hloop.setMode false

theorem Inv.step (h : Inv p c₀ m) (input : Input) : Inv p c₀ (step p m input) := by
  have hcreate : ∀ m slot, Inv p c₀ m → Inv p c₀ (m.createCommitment p slot).1 :=
    fun _ slot h => h.createCommitment slot
  cases input with
  | accepted b => exact tryCommitUntil_invariant hcreate (h.accept b) b.slot
  | tryCommitUntil slot => exact tryCommitUntil_invariant hcreate h slot
  | forceCommit slot => exact h.createCommitment slot
  | forceCommitUntil slot => exact h.forceCommitUntil slot

theorem inv_newManager (p : Params) (c₀ : Commitment) (latestNonEmptySlot : Nat) :
    Inv p c₀ (newManager c₀ latestNonEmptySlot) := by
  constructor
  · rfl
  · rfl
  · exact fun _ hmem => (nomatch hmem)
  · intro slot
    split <;> rfl
  · intro pre d post heq
    cases pre <;> cases heq

/-! ## Section 3: The force commit mode -/

/-- No component returns an error. -/
def SubCommits.succeed (sub : SubCommits) : Bool :=
  sub.acceptedBlocks && sub.attestation.isSome && sub.ledger.isSome &&
    sub.sybilProtection.isSome && sub.upgradeOrchestrator.isSome && sub.rmc.isSome &&
    sub.modelCommitment && sub.rootsStorage && sub.commitments && sub.setLatestCommitment &&
    sub.advanceLatestNonEmptySlot

theorem frame_createCommitment (m : Manager) (slot : Nat) :
    (m.createCommitment p slot).1.forceCommitMode = m.forceCommitMode ∧
      (m.createCommitment p slot).1.calls = m.calls + 1 := by
  unfold createCommitment
  dsimp only
  split
  · exact ⟨rfl, rfl⟩
  · split
    · exact ⟨rfl, rfl⟩
    · split
      · exact ⟨rfl, rfl⟩
      · split
        · exact ⟨rfl, rfl⟩
        · unfold publish
          split_ifs <;> exact ⟨rfl, rfl⟩

theorem calls_le_tryCommitLoop (acceptedBlockIndex rounds i : Nat) (m : Manager) :
    m.calls ≤ (tryCommitLoop p acceptedBlockIndex rounds i m).calls := by
  apply tryCommitLoop_invariant (I := fun m' => m.calls ≤ m'.calls) _ _ _ _ (Nat.le_refl _)
  intro m' slot h
  rw [(frame_createCommitment m' slot).2]
  exact Nat.le_succ_of_le h

theorem forceCommitMode_tryCommitUntil (m : Manager) (slot : Nat) :
    (m.tryCommitUntil p slot).forceCommitMode = m.forceCommitMode :=
  tryCommitUntil_invariant (I := fun m' => m'.forceCommitMode = m.forceCommitMode)
    (fun m' slot h => (frame_createCommitment m' slot).1.trans h) rfl slot

theorem createCommitment_of_succeed (h : (p.subCommits m.calls).succeed = true) :
    ∃ m' c, m.createCommitment p (m.latestCommitment.slot + 1) = (m', some c) ∧
      m'.latestCommitment.slot = m.latestCommitment.slot + 1 := by
  simp only [SubCommits.succeed, Bool.and_eq_true, isSome_iff_exists] at h
  obtain ⟨⟨⟨⟨⟨⟨⟨⟨⟨⟨hblocks, ⟨_, _⟩, hattestation⟩, ⟨_, _, _⟩, hledger⟩, ⟨_, _⟩, hsybil⟩,
    _, hupgrade⟩, _, hrmc⟩, hmodel⟩, hroots⟩, hcommitments⟩, hset⟩, hadvance⟩ := h
  unfold createCommitment SubCommits.collect publish
  simp only [hblocks, hattestation, hledger, hsybil, hupgrade, hrmc, hmodel, hroots, hcommitments,
    hset, hadvance, bind_some, map_some, ne_eq, not_true_eq_false, if_false,
    Bool.true_eq_false, Bool.and_self]
  split <;> exact ⟨_, _, rfl, rfl⟩

/-- The components return no error in the calls that are needed to reach a slot. -/
def Succeeds (p : Params) (m : Manager) (commitUntilSlot : Nat) : Prop :=
  ∀ k, m.calls ≤ k → k < m.calls + (commitUntilSlot - m.latestCommitment.slot) →
    (p.subCommits k).succeed = true

theorem forceCommitLoop_of_succeed (rounds : Nat)
    (h : ∀ k, m.calls ≤ k → k < m.calls + rounds → (p.subCommits k).succeed = true) :
    ∃ m', forceCommitLoop p rounds (m.latestCommitment.slot + 1) m = (m', true) := by
  induction rounds generalizing m with
  | zero => exact ⟨m, rfl⟩
  | succ rounds ih =>
    obtain ⟨m', c, hcreate, hlatest⟩ :=
      createCommitment_of_succeed (h m.calls (Nat.le_refl _) (by omega))
    have hcalls := (frame_createCommitment (p := p) m (m.latestCommitment.slot + 1)).2
    rw [hcreate] at hcalls
    dsimp only at hcalls
    obtain ⟨m'', hloop⟩ := ih (m := m') (fun k hlow hhigh => h k (by omega) (by omega))
    refine ⟨m'', ?_⟩
    unfold forceCommitLoop forceCommit
    rw [hcreate, ← hlatest]
    exact hloop

/-- `ForceCommitUntil` leaves the mode again if no component returns an error. -/
theorem forceCommitMode_forceCommitUntil {slot : Nat} (h : Succeeds p m slot)
    (hmode : m.forceCommitMode = false) :
    (m.forceCommitUntil p slot).1.forceCommitMode = false := by
  obtain ⟨m', hloop⟩ := forceCommitLoop_of_succeed (p := p)
    (m := { m with forceCommitMode := true }) (slot - m.latestCommitment.slot) h
  unfold forceCommitUntil
  rw [if_neg (by rw [hmode]; exact Bool.false_ne_true), hloop]

/-- The manager after a sequence of calls. -/
def Manager.after (p : Params) (m : Manager) (inputs : List Input) : Manager :=
  inputs.foldl (step p) m

theorem forceCommitMode_after {inputs : List Input} (hmode : m.forceCommitMode = false)
    (h : ∀ pre slot post, inputs = pre ++ .forceCommitUntil slot :: post →
      Succeeds p (m.after p pre) slot) :
    (m.after p inputs).forceCommitMode = false := by
  induction inputs using reverseRecOn with
  | nil => exact hmode
  | append_singleton inputs input ih =>
    have hbefore : (m.after p inputs).forceCommitMode = false := by
      apply ih
      intro pre slot post heq
      apply h pre slot (post ++ [input])
      rw [heq, append_assoc, cons_append]
    rw [Manager.after, foldl_concat]
    cases input with
    | accepted b => exact (forceCommitMode_tryCommitUntil _ b.slot).trans hbefore
    | tryCommitUntil slot => exact (forceCommitMode_tryCommitUntil _ slot).trans hbefore
    | forceCommit slot => exact (frame_createCommitment _ slot).1.trans hbefore
    | forceCommitUntil slot =>
      exact forceCommitMode_forceCommitUntil (h inputs slot [] rfl) hbefore

/-- Outside of the mode, an accepted block that makes the next slot committable leads to
    an attempt. -/
theorem calls_accepted (hmode : m.forceCommitMode = false) {b : BlockID}
    (hb : m.latestCommitment.slot + 1 + p.minCommittableAge ≤ b.slot) :
    m.calls < (step p m (.accepted b)).calls := by
  obtain ⟨rounds, hrounds⟩ : ∃ rounds, b.slot - m.latestCommitment.slot = rounds + 1 :=
    ⟨b.slot - m.latestCommitment.slot - 1, by omega⟩
  show m.calls < (tryCommitUntil p _ b.slot).calls
  unfold tryCommitUntil tryCommitSlotUntil
  dsimp only
  rw [if_neg (by rw [hmode]; exact Bool.false_ne_true), if_pos (by omega), hrounds]
  unfold tryCommitLoop isCommittable
  rw [if_neg (by rw [decide_eq_true hb]; exact Bool.noConfusion)]
  obtain ⟨_, hcalls⟩ := frame_createCommitment (p := p) { m with
    slotMutations := m.slotMutations.addAcceptedBlock b
    log := m.log ++ [.accepted b] } (m.latestCommitment.slot + 1)
  split
  next heq =>
    rw [heq] at hcalls
    dsimp only at hcalls
    omega
  next m' c heq =>
    rw [heq] at hcalls
    have hle := calls_le_tryCommitLoop (p := p) b.slot rounds (m.latestCommitment.slot + 1 + 1) m'
    dsimp only at hcalls
    omega

/-! ## Section 4: The commitments of a run -/

theorem inv_after (h : Inv p c₀ m) (inputs : List Input) : Inv p c₀ (m.after p inputs) := by
  unfold Manager.after
  exact foldlRecOn (motive := Inv p c₀) _ _ h fun _ h input _ => h.step input

/-- After any sequence of calls, every commitment that was published extends the latest
    one, and carries the tangle root of all blocks of its slot that were handed over as
    accepted before it, if the slot was tried for the first time.  And if no component
    returned an error to `ForceCommitUntil`, an accepted block leads to an attempt to
    commit the next slot as soon as that is committable. -/
theorem commitments_exact (p : Params) (c₀ : Commitment) (latestNonEmptySlot : Nat)
    (inputs : List Input) :
    (∀ pre d post, ((newManager c₀ latestNonEmptySlot).after p inputs).log =
        pre ++ .slotCommitted d :: post →
      d.commitment.slot = (latestOf c₀ pre).slot + 1 ∧
      d.commitment.previousCommitmentID = p.commitmentID (latestOf c₀ pre) ∧
      d.commitment.rootsID = p.rootsID d.roots ∧
      (pre.count (.attempt d.commitment.slot) = 1 →
        d.roots.tangleRoot = p.root (handed pre d.commitment.slot))) ∧
    ((∀ pre slot post, inputs = pre ++ .forceCommitUntil slot :: post →
        Succeeds p ((newManager c₀ latestNonEmptySlot).after p pre) slot) →
      ∀ b : BlockID,
        ((newManager c₀ latestNonEmptySlot).after p inputs).latestCommitment.slot + 1 +
          p.minCommittableAge ≤ b.slot →
        ((newManager c₀ latestNonEmptySlot).after p inputs).calls <
          (step p ((newManager c₀ latestNonEmptySlot).after p inputs) (.accepted b)).calls) := by
  have hinv := inv_after (inv_newManager p c₀ latestNonEmptySlot) inputs
  constructor
  · intro pre d post heq
    have hexact := hinv.published pre d post heq
    refine ⟨hexact.slot, hexact.previous, hexact.roots, fun hfirst => ?_⟩
    rw [hexact.tangleRoot, if_pos hfirst]
  · intro hsucceeds b hb
    exact calls_accepted (forceCommitMode_after rfl hsucceeds) hb

/-- No errors. -/
def sampleSubCommits : SubCommits where
  acceptedBlocks := true
  attestation := some (0, 0)
  ledger := some (0, 0, 0)
  sybilProtection := some (0, 0)
  upgradeOrchestrator := some 0
  rmc := some 0
  modelCommitment := true
  rootsStorage := true
  commitments := true
  setLatestCommitment := true
  advanceLatestNonEmptySlot := true

/-- A slot is committable after one more slot; the attestations return errors in the given
    calls.  The root of a set is the number of its blocks. -/
def sampleParams (errors : List Nat) : Params where
  minCommittableAge := 1
  root := Finset.card
  rootsID := Roots.tangleRoot
  commitmentID := Commitment.slot
  subCommits := fun call =>
    if call ∈ errors then { sampleSubCommits with attestation := none } else sampleSubCommits

def sampleGenesis : Commitment := ⟨0, 0, 0, 0, 0⟩

/-- A block of slot 1, and then two blocks of slot 2. -/
def sampleInputs : List Input := [.accepted ⟨1, 0⟩, .accepted ⟨2, 0⟩, .accepted ⟨2, 1⟩]

/-- The commitments that were published: their slots and the numbers of their blocks. -/
def publishedBlocks (m : Manager) : List (Nat × Nat) :=
  m.log.filterMap fun
    | .slotCommitted d => some (d.commitment.slot, d.roots.tangleRoot)
    | _ => none

/-- The commitment of slot 1 has its block, and a block leads to an attempt after a slot
    was forced. -/
theorem commitments_exact_forced :
    ∃ pre d post, ((newManager sampleGenesis 0).after (sampleParams [])
        (sampleInputs ++ [.forceCommitUntil 2])).log = pre ++ .slotCommitted d :: post ∧
      d.commitment.slot = 1 ∧
      d.roots.tangleRoot = (handed pre 1).card ∧ (handed pre 1).card = 1 ∧
      ((newManager sampleGenesis 0).after (sampleParams [])
        (sampleInputs ++ [.forceCommitUntil 2])).calls <
        (step (sampleParams []) ((newManager sampleGenesis 0).after (sampleParams [])
          (sampleInputs ++ [.forceCommitUntil 2])) (.accepted ⟨4, 0⟩)).calls := by
  obtain ⟨hpublished, hattempts⟩ := commitments_exact (sampleParams []) sampleGenesis 0
    (sampleInputs ++ [.forceCommitUntil 2])
  have hlog : ((newManager sampleGenesis 0).after (sampleParams [])
      (sampleInputs ++ [.forceCommitUntil 2])).log =
      [.accepted ⟨1, 0⟩, .accepted ⟨2, 0⟩, .attempt 1] ++
        .slotCommitted ⟨⟨1, 0, 1, 0, 0⟩, ⟨1, 0, 0, 0, 0, 0, 0, 0⟩, {⟨1, 0⟩}⟩ ::
        [.latestCommitment ⟨1, 0, 1, 0, 0⟩, .accepted ⟨2, 1⟩, .attempt 2,
          .slotCommitted ⟨⟨2, 1, 2, 0, 0⟩, ⟨2, 0, 0, 0, 0, 0, 0, 0⟩, {⟨2, 1⟩, ⟨2, 0⟩}⟩,
          .latestCommitment ⟨2, 1, 2, 0, 0⟩] := by
    decide +kernel
  have hroot := (hpublished _ _ _ hlog).2.2.2 (by decide)
  refine ⟨_, _, _, hlog, rfl, hroot, by decide, ?_⟩
  apply hattempts
  · intro pre slot post _ k _ _
    rfl
  · decide +kernel

/-- The attestations return an error when slot 1 is tried for the first time: the next
    attempt publishes slot 1 without its block.  And after an error in `ForceCommitUntil`
    the manager stays in the force commit mode: blocks of any later slot are accepted, and
    no slot is tried. -/
theorem retry_publishes_empty_slot :
    publishedBlocks ((newManager sampleGenesis 0).after (sampleParams [0]) sampleInputs) =
        [(1, 0)] ∧
      handed ((newManager sampleGenesis 0).after (sampleParams [0]) sampleInputs).log 1 =
        {⟨1, 0⟩} ∧
      ((newManager sampleGenesis 0).after (sampleParams [0])
        [.forceCommitUntil 1, .accepted ⟨1, 0⟩, .accepted ⟨5, 0⟩, .accepted ⟨9, 0⟩]).calls = 1 := by
  refine ⟨by decide +kernel, by decide +kernel, by decide +kernel⟩

end AxonCore.Notarization

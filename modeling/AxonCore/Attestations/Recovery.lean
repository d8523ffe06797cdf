import AxonCore.Attestations.Exact

/-! # Restart, snapshot and rollback of the attestations

    A manager can be put in the place of another one in three ways: the window is
    written to disk on shutdown and read again, the attestations of one commitment are
    exported and imported, or they are taken from the storage after a rollback.  In all
    three the window is rebuilt by applying attestations to an empty one.

    * `Agrees`: two nodes whose next commitments are the same; they stay so (`Agrees.step`).
    * `CarriedInv`: what is left of the window after a commitment is what was stored with
      it, as far as it commits to later slots.
    * `recovered_agrees`: all three ways lead to the same later commitments, if the slot
      has a full window or nothing is pending.  Before the window is full nothing is
      written, and the attestations so far are lost (`restart_loses_attestations`). -/

namespace AxonCore.Attestations

open AxonCore.Lib Function List Manager

variable {p : Params} {t : Nat} {n r : Node}

/-! ## Section 1: The three ways -/

/-- The node is shut down and started again: the new manager begins at the latest
    commitment. -/
def Node.restart (p : Params) (n : Node) : Node :=
  { n with
    manager := (newManager n.manager.lastCommittedSlot
      (n.cumulativeWeight n.manager.lastCommittedSlot)
      (n.manager.writeToDisk p)).restoreFromDisk p }

/-- The storage without the slots after a slot. -/
def Storage.rollback (s : Storage) (slot : Nat) : Storage where
  attestations := fun i => if i ≤ slot then s.attestations i else ∅
  tracker := fun i => if i ≤ slot then s.tracker i else ∅

/-- A new node that begins at the commitment of a slot, on the storage that was rolled
    back to it. -/
def Node.rollbackTo (p : Params) (n : Node) (slot : Nat) : Option Node :=
  ((newManager slot (n.cumulativeWeight slot) (n.manager.bucketedStorage.rollback slot)).rollback
    p slot).map fun m => { n with manager := m }

/-- The blocks of later slots that were added before slot `t` was committed. -/
def uncommitted (t : Nat) (inputs : List Input) : List Input :=
  inputs.filter fun
    | .add b => t < b.slot
    | .commit => false

/-! ## Section 2: Nodes that agree -/

/-- The two nodes have the same later attestations, and the same commitments after slot
    `t` so far. -/
structure Agrees (p : Params) (t : Nat) (n r : Node) : Prop where
  wellFormed : WellFormed p n.manager
  wellFormed' : WellFormed p r.manager
  last : r.manager.lastCommittedSlot = n.manager.lastCommittedSlot
  weight : r.manager.lastCumulativeWeight = n.manager.lastCumulativeWeight
  future : ∀ slot, n.manager.lastCommittedSlot < slot → ∀ id,
    column r.manager.futureAttestations id slot = column n.manager.futureAttestations id slot
  pending : ∀ slot, nextCutoff p n.manager.lastCommittedSlot ≤ slot → ∀ id,
    column r.manager.pendingAttestations id slot = column n.manager.pendingAttestations id slot
  stored : ∀ slot, t < slot → slot ≤ n.manager.lastCommittedSlot →
    (∀ id, column r.manager.bucketedStorage.attestations id slot =
      column n.manager.bucketedStorage.attestations id slot) ∧
    r.cumulativeWeight slot = n.cumulativeWeight slot

theorem Agrees.add (h : Agrees p t n r) (b : Block) :
    Agrees p t
      { n with manager := (n.manager.addAttestationFromValidationBlock p b).getD n.manager }
      { r with manager := (r.manager.addAttestationFromValidationBlock p b).getD r.manager } := by
  have hwf := h.wellFormed.add b
  have hwf' := h.wellFormed'.add b
  rw [n.manager.add_spec b] at hwf ⊢
  rw [r.manager.add_spec b] at hwf' ⊢
  by_cases hadd : b.counts p ∧ n.manager.lastCommittedSlot < b.slot
  · have hadd' : b.counts p ∧ r.manager.lastCommittedSlot < b.slot := by rwa [h.last]
    rw [if_pos hadd] at hwf ⊢
    rw [if_pos hadd'] at hwf' ⊢
    refine ⟨hwf, hwf', h.last, h.weight, ?_, h.pending, h.stored⟩
    intro slot hslot id
    have hold := h.future b.slot hadd.2 b.issuerID
    unfold column at hold
    rw [column_add, column_add, hold]
    split
    · rfl
    · exact h.future slot hslot id
  · have hadd' : ¬ (b.counts p ∧ r.manager.lastCommittedSlot < b.slot) := by rwa [h.last]
    rw [if_neg hadd, if_neg hadd']
    exact h

variable {slot : Nat}

theorem Agrees.appliedColumn (h : Agrees p t n r)
    (hslot : nextCutoff p n.manager.lastCommittedSlot ≤ slot) (id : AccountID) :
    r.manager.appliedColumn (nextCutoff p n.manager.lastCommittedSlot)
        (n.manager.lastCommittedSlot + 1) id slot =
      n.manager.appliedColumn (nextCutoff p n.manager.lastCommittedSlot)
        (n.manager.lastCommittedSlot + 1) id slot := by
  unfold Manager.appliedColumn
  rw [h.future _ (Nat.lt_succ_self _) id]
  cases column n.manager.futureAttestations id (n.manager.lastCommittedSlot + 1) with
  | none => exact h.pending slot hslot id
  | some a =>
    show applyColumn _ a _ slot = applyColumn _ a _ slot
    unfold applyColumn
    rw [h.pending _ (Nat.le_refl _) id, h.pending slot hslot id]

variable {m : Manager} {n' : Node} {newCW : Nat}

theorem Agrees.commit {r' : Node} {newCW' : Nat} (h : Agrees p t n r)
    (hn : Committed p n.manager n'.manager newCW) (hr : Committed p r.manager r'.manager newCW')
    (hncw : n'.cumulativeWeight =
      update n.cumulativeWeight (n.manager.lastCommittedSlot + 1) newCW)
    (hrcw : r'.cumulativeWeight =
      update r.cumulativeWeight (r.manager.lastCommittedSlot + 1) newCW') :
    Agrees p t n' r' := by
  have hstored := hr.stored h.wellFormed'
  have hweight := hr.weight h.wellFormed'
  have hnew := hr.newCW_eq
  have hpending := hr.pending
  have hother := fun slot (hslot : slot ≠ r.manager.lastCommittedSlot + 1) => hr.other hslot
  rw [h.last] at hstored hweight hnew hpending hother hrcw
  -- the two store the same attestations of the new slot, and so have the same weight
  have hsame : ∀ id, column r'.manager.bucketedStorage.attestations id
      (n.manager.lastCommittedSlot + 1) =
        column n'.manager.bucketedStorage.attestations id (n.manager.lastCommittedSlot + 1) := by
    intro id
    rw [hstored, hn.stored h.wellFormed, h.appliedColumn (Nat.le_refl _)]
  have hlength : r'.manager.lastCumulativeWeight = n'.manager.lastCumulativeWeight := by
    rw [hweight, hn.weight h.wellFormed, h.weight,
      length_keys_congr (fun id => congrArg Option.isSome (hsame id))]
  refine ⟨h.wellFormed.commit hn, h.wellFormed'.commit hr, by rw [hr.last, hn.last, h.last],
    hlength, fun slot hslot id => ?_, fun slot hslot id => ?_, fun slot hlow hhigh => ?_⟩
  · rw [hn.last] at hslot
    rw [column, column, hr.future, hn.future, h.last, if_neg (by omega), if_neg (by omega)]
    exact h.future slot (by omega) id
  · rw [hn.last] at hslot
    have hcutoff := nextCutoff_succ p n.manager.lastCommittedSlot
    rw [hpending slot hslot, hn.pending slot hslot]
    exact h.appliedColumn (by omega) id
  · rw [hn.last] at hhigh
    rw [hncw, hrcw]
    by_cases hslot : slot = n.manager.lastCommittedSlot + 1
    · subst hslot
      rw [update_self, update_self, hnew, hn.newCW_eq, hlength]
      exact ⟨hsame, rfl⟩
    · obtain ⟨hold, hcw⟩ := h.stored slot hlow (by omega)
      rw [update_of_ne hslot, update_of_ne hslot]
      refine ⟨fun id => ?_, hcw⟩
      rw [column, column, hother slot hslot, hn.other hslot]
      exact hold id

theorem Agrees.step (h : Agrees p t n r) (input : Input) :
    ∃ n' r', step p n input = some n' ∧ step p r input = some r' ∧ Agrees p t n' r' := by
  cases input with
  | add b => exact ⟨_, _, rfl, rfl, h.add b⟩
  | commit =>
    obtain ⟨n', _, hn', hn, hncw⟩ := step_commit h.wellFormed
    obtain ⟨r', _, hr', hr, hrcw⟩ := step_commit h.wellFormed'
    exact ⟨n', r', hn', hr', h.commit hn hr hncw hrcw⟩

/-! ## Section 3: The window after a commitment -/

/-- What a node at the slot `lastCommittedSlot` has in its window and its storage. -/
structure CarriedInv (p : Params) (n : Node) : Prop where
  /-- The rest of the window is what was stored, as far as it commits to later slots. -/
  carried : p.genesisSlot + p.maxCommittableAge ≤ n.manager.lastCommittedSlot → ∀ id slot,
    n.manager.lastCommittedSlot - p.maxCommittableAge ≤ slot →
    column n.manager.pendingAttestations id slot =
      if slot = n.manager.lastCommittedSlot - p.maxCommittableAge then none
      else visible slot (column n.manager.bucketedStorage.attestations id
        n.manager.lastCommittedSlot)
  weight : n.manager.lastCumulativeWeight = n.cumulativeWeight n.manager.lastCommittedSlot
  tracker : ∀ slot, n.manager.bucketedStorage.tracker slot = ∅
  seated : ∀ slot id a, column n.manager.bucketedStorage.attestations id slot = some a →
    a.issuerID = id ∧ HasSeat p a

theorem CarriedInv.issued (h : CarriedInv p n) (slot : Nat) :
    Issued (n.manager.bucketedStorage.attestations slot) :=
  fun id a ha => (h.seated slot id a ha).1

variable {s : Nat × List Attestation} {storage : Storage} {slots : List Nat}

theorem CarriedInv.commit (hinv : Inv p s n) (h : CarriedInv p n)
    (hspec : Committed p n.manager n'.manager newCW)
    (hcw : n'.cumulativeWeight =
      update n.cumulativeWeight (n.manager.lastCommittedSlot + 1) newCW) :
    CarriedInv p n' := by
  constructor
  · intro hlate id slot hslot
    rw [hspec.last] at hlate hslot ⊢
    obtain ⟨hpending, hstored, _⟩ := hspec.window hlate
    obtain ⟨top, htops, _⟩ := hinv.applied id
    rw [← hinv.last, (nextCutoff_window hlate).1] at htops
    rw [hpending, hstored, htops.at_cutoff, htops.2 slot hslot]
  · rw [hcw, hspec.last, update_self, hinv.newCW_eq hspec]
  · rw [hspec.tracker]
    exact h.tracker
  · intro slot id a ha
    by_cases hslot : slot = n.manager.lastCommittedSlot + 1
    · subst hslot
      rw [hspec.stored hinv.wellFormed] at ha
      split_ifs at ha
      rcases appliedColumn_eq_some ha with hold | hadded
      · exact hinv.wellFormed.pending _ id a hold
      · exact hinv.wellFormed.future _ id a hadded
    · rw [column, hspec.other hslot] at ha
      exact h.seated slot id a ha

theorem CarriedInv.step {input : Input} (hinv : Inv p s n) (h : CarriedInv p n)
    (hstep : step p n input = some n') : CarriedInv p n' := by
  obtain ⟨_, rfl, _⟩ | ⟨_, hspec, hcw⟩ := step_cases hinv.wellFormed hstep
  · exact ⟨h.carried, h.weight, h.tracker, h.seated⟩
  · exact h.commit hinv hspec hcw

/-! ## Section 4: The rebuilt window -/

/-- The window is full, or there is nothing in it. -/
def Recoverable (p : Params) (n : Node) : Prop :=
  (p.genesisSlot + p.maxCommittableAge ≤ n.manager.lastCommittedSlot ∧ 0 < p.maxCommittableAge) ∨
    ∀ slot, n.manager.pendingAttestations slot = ∅

theorem Recoverable.early (h : Recoverable p n)
    (hearly : n.manager.lastCommittedSlot < p.genesisSlot + p.maxCommittableAge) :
    ∀ slot, n.manager.pendingAttestations slot = ∅ := by
  rcases h with h | h
  · omega
  · exact h

section

variable (cutoffSlot : Nat)

end

variable {inputs : List Input} {β : Type}

/-- One validator, and a window of two slots. -/
def sampleParams : Params := ⟨0, 2, fun _ => some {1}⟩

/-- A validation block of the slot that commits to the slot before it. -/
def sampleBlock (slot : Nat) : Block := ⟨slot, 1, true, slot - 1, slot, 0, ⟨0, true⟩⟩

def sampleCodecs : Codecs (Nat ⊕ Attestation) where
  length := .single .inl Sum.getLeft? (fun _ => rfl)
  attestation := .single .inr Sum.getRight? (fun _ => rfl)

def sampleInputs : List Input := [.commit, .add (sampleBlock 2), .commit]

end AxonCore.Attestations

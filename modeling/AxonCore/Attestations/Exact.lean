import Mathlib.Algebra.BigOperators.Intervals
import AxonCore.Attestations.Window

/-! # Committed attestations are exact

    An attestation counts for the commitment of a slot if its block is not from a later
    slot and was added before its own slot was committed, and if it commits to a slot of
    the window.  `Commit` stores a greatest one for each account.

    * `Inv`: the attestations of a slot are kept until it is committed, and then go to
      the top of the column of their issuer.
    * `committed_attestations_exact`: what `Commit` stores and the weight it returns. -/

namespace AxonCore.Attestations

open AxonCore.Lib Function List Manager Attestation

variable {p : Params}

/-! ## Section 1: Attestations that are added in time -/

/-- The block is a validation block of a member of the committee of its slot. -/
def Block.counts (p : Params) (b : Block) : Bool :=
  b.isValidationBlock && (p.committee b.slot).any fun committee => b.issuerID ∈ committee

/-- The last committed slot and the attestations that were added before their slot was
    committed, after one more input. -/
def track (p : Params) (s : Nat × List Attestation) : Input → Nat × List Attestation
  | .add b => if b.counts p ∧ s.1 < b.slot then (s.1, s.2 ++ [newAttestation b]) else s
  | .commit => (s.1 + 1, s.2)

def tracked (p : Params) (inputs : List Input) : Nat × List Attestation :=
  inputs.foldl (track p) (p.genesisSlot, [])

/-- The attestation counts for the commitment of the slot. -/
def Candidate (p : Params) (attestations : List Attestation) (slot : Nat) (id : AccountID)
    (a : Attestation) : Prop :=
  a ∈ attestations ∧ a.issuerID = id ∧ a.slot ≤ slot ∧ slot - p.maxCommittableAge ≤ a.committedSlot

/-- The accounts with an attestation that counts for the commitment of the slot. -/
def attestors (p : Params) (attestations : List Attestation) (slot : Nat) : Finset AccountID :=
  ((attestations.filter fun a =>
    a.slot ≤ slot ∧ slot - p.maxCommittableAge ≤ a.committedSlot).map issuerID).toFinset

variable {attestations : List Attestation} {id : AccountID} {last cutoffSlot : Nat}
  {top : Option Attestation}

theorem mem_attestors {slot : Nat} :
    id ∈ attestors p attestations slot ↔ ∃ a, Candidate p attestations slot id a := by
  unfold attestors Candidate
  simp only [mem_toFinset, mem_map, mem_filter, decide_eq_true_eq]
  constructor
  · rintro ⟨a, ⟨ha, hslot, hcommitted⟩, rfl⟩
    exact ⟨a, ha, rfl, hslot, hcommitted⟩
  · rintro ⟨a, ha, rfl, hslot, hcommitted⟩
    exact ⟨a, ⟨ha, hslot, hcommitted⟩, rfl⟩

theorem length_keys_of_greatest {slot : Nat} {stored : Map AccountID Attestation}
    (h : ∀ id, Greatest compare (Candidate p attestations slot id) (stored.lookup id)) :
    stored.keys.length = (attestors p attestations slot).card := by
  have hfinset : stored.keys.toFinset = attestors p attestations slot := by
    ext id
    rw [mem_toFinset, mem_keys_iff, mem_attestors]
    have hid := h id
    cases hlookup : stored.lookup id with
    | none =>
      rw [hlookup] at hid
      constructor
      · exact fun hsome => nomatch hsome
      · rintro ⟨a, ha⟩
        exact absurd ha (hid a)
    | some a =>
      rw [hlookup] at hid
      exact ⟨fun _ => ⟨a, hid.1⟩, fun _ => rfl⟩
  rw [← hfinset, toFinset_card_of_nodup stored.keys_nodup]

/-! ## Section 2: Adding a block -/

theorem Block.counts_iff {b : Block} :
    b.counts p ↔ b.isValidationBlock ∧ HasSeat p (newAttestation b) := by
  unfold Block.counts HasSeat newAttestation
  cases p.committee b.slot with
  | none => simp
  | some committee => simp

/-- A block is added if it counts and its slot is not committed yet; otherwise nothing
    changes. -/
theorem Manager.add_spec (m : Manager) (b : Block) :
    (m.addAttestationFromValidationBlock p b).getD m =
      if b.counts p ∧ m.lastCommittedSlot < b.slot then
        { m with
          futureAttestations := update m.futureAttestations b.slot
            ((m.futureAttestations b.slot).insert b.issuerID
              (keepGreater compare
                ((m.futureAttestations b.slot).lookup b.issuerID) (newAttestation b))) }
      else m := by
  unfold addAttestationFromValidationBlock Block.counts
  cases b.isValidationBlock with
  | false => simp
  | true =>
    cases p.committee b.slot with
    | none => simp
    | some committee =>
      by_cases hmem : b.issuerID ∈ committee
      · by_cases hslot : b.slot ≤ m.lastCommittedSlot
        · have hnot : ¬ m.lastCommittedSlot < b.slot := by omega
          simp [hmem, hslot, hnot]
        · have hlt : m.lastCommittedSlot < b.slot := by omega
          simp [hmem, hslot, hlt]
      · simp [hmem]

theorem column_add (w : Window) (b : Block) (a : Attestation) (id : AccountID) (slot : Nat) :
    column (update w b.slot ((w b.slot).insert b.issuerID a)) id slot =
      if slot = b.slot ∧ id = b.issuerID then some a else column w id slot := by
  unfold column
  by_cases hslot : slot = b.slot
  · subst hslot
    rw [update_self, lookup_insert_eq]
    simp
  · rw [update_of_ne hslot, if_neg (fun h => hslot h.1)]

/-! ## Section 3: The invariant -/

/-- The cutoff slot of the next commitment. -/
def nextCutoff (p : Params) (lastCommittedSlot : Nat) : Nat :=
  (computeAttestationCommitmentOffset p (lastCommittedSlot + 1)).1

theorem nextCutoff_early (h : last + 1 < p.genesisSlot + p.maxCommittableAge) :
    nextCutoff p last = p.genesisSlot ∧ nextCutoff p (last + 1) = p.genesisSlot := by
  unfold nextCutoff
  rw [offset_of_lt h]
  refine ⟨rfl, ?_⟩
  by_cases hnext : last + 1 + 1 < p.genesisSlot + p.maxCommittableAge
  · rw [offset_of_lt hnext]
  · rw [offset_of_le (by omega)]
    omega

theorem nextCutoff_window (h : p.genesisSlot + p.maxCommittableAge ≤ last + 1) :
    nextCutoff p last = last + 1 - p.maxCommittableAge ∧
      nextCutoff p (last + 1) = last + 1 - p.maxCommittableAge + 1 := by
  unfold nextCutoff
  rw [offset_of_le h, offset_of_le (by omega)]
  refine ⟨rfl, ?_⟩
  omega

theorem nextCutoff_succ (p : Params) (last : Nat) :
    nextCutoff p (last + 1) = nextCutoff p last ∨
      nextCutoff p (last + 1) = nextCutoff p last + 1 := by
  by_cases hearly : last + 1 < p.genesisSlot + p.maxCommittableAge
  · obtain ⟨hcutoff, hcutoff'⟩ := nextCutoff_early hearly
    exact .inl (hcutoff'.trans hcutoff.symm)
  · obtain ⟨hcutoff, hcutoff'⟩ := nextCutoff_window (Nat.le_of_not_lt hearly)
    exact .inr (by rw [hcutoff', hcutoff])

/-- The attestations that were added for an account in a slot. -/
def addedIn (attestations : List Attestation) (slot : Nat) (id : AccountID) : List Attestation :=
  attestations.filter fun a => a.slot = slot ∧ a.issuerID = id

theorem mem_addedIn {slot : Nat} {a : Attestation} :
    a ∈ addedIn attestations slot id ↔ a ∈ attestations ∧ a.slot = slot ∧ a.issuerID = id := by
  simp [addedIn, mem_filter]

/-- The attestations of an account that are in the window. -/
def InWindow (attestations : List Attestation) (last cutoffSlot : Nat) (id : AccountID)
    (a : Attestation) : Prop :=
  a ∈ attestations ∧ a.issuerID = id ∧ a.slot ≤ last ∧ cutoffSlot ≤ a.committedSlot

/-- The invariant, for the attestations that were added in time. -/
structure Inv (p : Params) (s : Nat × List Attestation) (n : Node) : Prop where
  last : n.manager.lastCommittedSlot = s.1
  genesis : p.genesisSlot ≤ s.1
  wellFormed : WellFormed p n.manager
  future : ∀ slot, s.1 < slot → ∀ id,
    column n.manager.futureAttestations id slot =
      greatestOf compare (addedIn s.2 slot id)
  pending : ∀ id, ∃ top,
    Tops (nextCutoff p s.1) top (column n.manager.pendingAttestations id) ∧
      Greatest compare (InWindow s.2 s.1 (nextCutoff p s.1) id) top
  stored : ∀ slot, p.genesisSlot + p.maxCommittableAge ≤ slot → slot ≤ s.1 → ∀ id,
    Greatest compare (Candidate p s.2 slot id)
      (column n.manager.bucketedStorage.attestations id slot)
  weight : n.manager.lastCumulativeWeight =
    ∑ slot ∈ Finset.Icc (p.genesisSlot + p.maxCommittableAge) s.1,
      (n.manager.bucketedStorage.attestations slot).keys.length

section

variable (htop : Greatest compare (InWindow attestations last cutoffSlot id) top)
include htop

theorem greatest_applyTop :
    Greatest compare (InWindow attestations (last + 1) cutoffSlot id)
      (match greatestOf compare (addedIn attestations (last + 1) id) with
        | none => top
        | some a => applyTop cutoffSlot a top) := by
  have hadded := greatest_greatestOf compare
    (addedIn attestations (last + 1) id)
  -- the window is as before if no attestation of the slot is in it
  have hsame : (∀ b, InWindow attestations (last + 1) cutoffSlot id b → b.slot ≠ last + 1) →
      Greatest compare (InWindow attestations (last + 1) cutoffSlot id) top := by
    intro hnone
    apply htop.congr
    intro b
    constructor
    · exact fun hb => ⟨hb.1, hb.2.1, Nat.le_succ_of_le hb.2.2.1, hb.2.2.2⟩
    · intro hb
      have hslot := hnone b hb
      have hle := hb.2.2.1
      exact ⟨hb.1, hb.2.1, by omega, hb.2.2.2⟩
  cases hgreatest : greatestOf compare (addedIn attestations (last + 1) id) with
  | none =>
    rw [hgreatest] at hadded
    exact hsame fun b hb heq => hadded b (mem_addedIn.mpr ⟨hb.1, heq, hb.2.1⟩)
  | some a =>
    rw [hgreatest] at hadded
    obtain ⟨hmem, haslot, haid⟩ := mem_addedIn.mp hadded.1
    unfold applyTop
    dsimp only
    split_ifs with hcutoff
    · apply hsame
      intro b hb heq
      -- no attestation of the slot commits to a slot of the window
      have hle := committedSlot_le (hadded.2 b (mem_addedIn.mpr ⟨hb.1, heq, hb.2.1⟩))
      have hb' := hb.2.2.2
      omega
    · apply (htop.keep a).extend
      · intro b hb
        rcases hb with hb | rfl
        · exact ⟨hb.1, hb.2.1, Nat.le_succ_of_le hb.2.2.1, hb.2.2.2⟩
        · exact ⟨hmem, haid, by omega, by omega⟩
      · intro b hb
        by_cases hslot : b.slot = last + 1
        · exact ⟨a, .inr rfl, hadded.2 b (mem_addedIn.mpr ⟨hb.1, hslot, hb.2.1⟩)⟩
        · have hle := hb.2.2.1
          exact ⟨b, .inl ⟨hb.1, hb.2.1, by omega, hb.2.2.2⟩, Std.ReflCmp.isLE_rfl⟩

theorem greatest_visible :
    Greatest compare (InWindow attestations last (cutoffSlot + 1) id)
      (visible (cutoffSlot + 1) top) := by
  have hsub : ∀ b, InWindow attestations last (cutoffSlot + 1) id b →
      InWindow attestations last cutoffSlot id b := by
    intro b hb
    have hcommitted := hb.2.2.2
    exact ⟨hb.1, hb.2.1, hb.2.2.1, by omega⟩
  cases top with
  | none => exact fun b hb => htop b (hsub b hb)
  | some a =>
    by_cases hle : cutoffSlot + 1 ≤ a.committedSlot
    · rw [visible_of_le hle]
      exact ⟨⟨htop.1.1, htop.1.2.1, htop.1.2.2.1, hle⟩, fun b hb => htop.2 b (hsub b hb)⟩
    · rw [visible_of_lt (by omega)]
      intro b hb
      have hcommitted := committedSlot_le (htop.2 b (hsub b hb))
      have hb' := hb.2.2.2
      omega

end

/-! ## Section 4: The steps keep it -/

variable {s : Nat × List Attestation} {n n' : Node}

theorem WellFormed.add {m : Manager} (h : WellFormed p m) (b : Block) :
    WellFormed p ((m.addAttestationFromValidationBlock p b).getD m) := by
  rw [m.add_spec b]
  split
  · rename_i hadd
    refine ⟨fun slot id a ha => ?_, h.pending, h.uncommitted⟩
    rw [column_add] at ha
    split at ha
    · rename_i hkey
      obtain rfl := Option.some.inj ha
      -- the kept attestation is the new one or the one that was there
      rcases keepGreater_mem compare
        ((m.futureAttestations b.slot).lookup b.issuerID) (newAttestation b) with heq | heq
      · rw [heq]
        exact ⟨hkey.2.symm, (Block.counts_iff.mp hadd.1).2⟩
      · rw [hkey.2]
        exact h.future b.slot b.issuerID _ heq.symm
    · exact h.future slot id a ha
  · exact h

section Committed

variable {m m' : Manager} {newCW slot : Nat}

theorem Committed.other (h : Committed p m m' newCW) (hslot : slot ≠ m.lastCommittedSlot + 1) :
    m'.bucketedStorage.attestations slot = m.bucketedStorage.attestations slot := by
  by_cases hearly : m.lastCommittedSlot + 1 < p.genesisSlot + p.maxCommittableAge
  · rw [(h.early hearly).2.1]
  · exact (h.window (Nat.le_of_not_lt hearly)).2.2.1 slot hslot

theorem Committed.pending (h : Committed p m m' newCW) (slot : Nat)
    (hslot : nextCutoff p (m.lastCommittedSlot + 1) ≤ slot) (id : AccountID) :
    column m'.pendingAttestations id slot =
      m.appliedColumn (nextCutoff p m.lastCommittedSlot) (m.lastCommittedSlot + 1) id slot := by
  by_cases hearly : m.lastCommittedSlot + 1 < p.genesisSlot + p.maxCommittableAge
  · rw [(h.early hearly).1, (nextCutoff_early hearly).1]
  · have hwindow := Nat.le_of_not_lt hearly
    obtain ⟨hcutoff, hcutoff'⟩ := nextCutoff_window hwindow
    rw [(h.window hwindow).1, hcutoff, if_neg (by omega)]

theorem Committed.stored (hwf : WellFormed p m) (h : Committed p m m' newCW) (id : AccountID) :
    column m'.bucketedStorage.attestations id (m.lastCommittedSlot + 1) =
      if m.lastCommittedSlot + 1 < p.genesisSlot + p.maxCommittableAge then none
      else m.appliedColumn (nextCutoff p m.lastCommittedSlot) (m.lastCommittedSlot + 1) id
        (nextCutoff p m.lastCommittedSlot) := by
  split
  next hearly =>
    rw [(h.early hearly).2.1, column, hwf.uncommitted _ (Nat.lt_succ_self _), AList.lookup_empty]
  next hearly =>
    have hwindow := Nat.le_of_not_lt hearly
    rw [(h.window hwindow).2.1, (nextCutoff_window hwindow).1]

theorem Committed.weight (hwf : WellFormed p m) (h : Committed p m m' newCW) :
    m'.lastCumulativeWeight = m.lastCumulativeWeight +
      (m'.bucketedStorage.attestations (m.lastCommittedSlot + 1)).keys.length := by
  by_cases hearly : m.lastCommittedSlot + 1 < p.genesisSlot + p.maxCommittableAge
  · obtain ⟨_, hstorage, hweight, _⟩ := h.early hearly
    rw [hweight, hstorage, hwf.uncommitted _ (Nat.lt_succ_self _)]
    rfl
  · exact (h.window (Nat.le_of_not_lt hearly)).2.2.2.1

theorem Committed.newCW_eq (h : Committed p m m' newCW) :
    newCW = if m.lastCommittedSlot + 1 < p.genesisSlot + p.maxCommittableAge then 0
      else m'.lastCumulativeWeight := by
  split
  next hearly => exact (h.early hearly).2.2.2
  next hearly => exact (h.window (Nat.le_of_not_lt hearly)).2.2.2.2

theorem WellFormed.commit (h : WellFormed p m) (hspec : Committed p m m' newCW) :
    WellFormed p m' := by
  have hpending : ∀ cutoffSlot slot id a,
      m.appliedColumn cutoffSlot (m.lastCommittedSlot + 1) id slot = some a →
      a.issuerID = id ∧ HasSeat p a := by
    intro cutoffSlot slot id a ha
    rcases appliedColumn_eq_some ha with hold | hnew
    · exact h.pending slot id a hold
    · exact h.future _ id a hnew
  constructor
  · intro slot id a ha
    unfold column at ha
    rw [hspec.future slot] at ha
    split at ha
    · cases ha
    · exact h.future slot id a ha
  · intro slot id a ha
    by_cases hearly : m.lastCommittedSlot + 1 < p.genesisSlot + p.maxCommittableAge
    · rw [(hspec.early hearly).1] at ha
      exact hpending _ slot id a ha
    · rw [(hspec.window (by omega)).1] at ha
      split_ifs at ha
      exact hpending _ slot id a ha
  · intro slot hslot
    rw [hspec.last] at hslot
    rw [hspec.other (by omega)]
    exact h.uncommitted slot (by omega)

end Committed

theorem step_commit (hwf : WellFormed p n.manager) :
    ∃ n' newCW, step p n .commit = some n' ∧ Committed p n.manager n'.manager newCW ∧
      n'.cumulativeWeight =
        update n.cumulativeWeight (n.manager.lastCommittedSlot + 1) newCW := by
  obtain ⟨m', newCW, hcommit, hspec⟩ := commit_spec hwf
  exact ⟨_, newCW, congrArg (Option.map _) hcommit, hspec, rfl⟩

/-- A block changes nothing but the future attestations; all else is done by commitments. -/
theorem step_cases {input : Input} (hwf : WellFormed p n.manager) (h : step p n input = some n') :
    (∃ future, n' = { n with manager := { n.manager with futureAttestations := future } } ∧
      WellFormed p n'.manager) ∨
    ∃ newCW, Committed p n.manager n'.manager newCW ∧ n'.cumulativeWeight =
      update n.cumulativeWeight (n.manager.lastCommittedSlot + 1) newCW := by
  cases input with
  | add b =>
    obtain rfl := Option.some.inj h
    have hadded := hwf.add b
    rw [n.manager.add_spec b] at hadded ⊢
    split at hadded
    next hadd => exact .inl ⟨_, by rw [if_pos hadd], by rwa [if_pos hadd]⟩
    next hadd => exact .inl ⟨_, by rw [if_neg hadd], by rwa [if_neg hadd]⟩
  | commit =>
    obtain ⟨_, newCW, hcommit, hspec⟩ := step_commit hwf
    obtain rfl := Option.some.inj (hcommit.symm.trans h)
    exact .inr ⟨newCW, hspec⟩

theorem future_add {m : Manager} (hlast : m.lastCommittedSlot = s.1)
    (hfuture : ∀ slot, s.1 < slot → ∀ id, column m.futureAttestations id slot =
      greatestOf compare (addedIn s.2 slot id)) (b : Block) :
    ∀ slot, s.1 < slot → ∀ id,
      column ((m.addAttestationFromValidationBlock p b).getD m).futureAttestations id slot =
        greatestOf compare (addedIn (track p s (.add b)).2 slot id) := by
  intro slot hslot id
  rw [m.add_spec b]
  unfold track
  dsimp only
  rw [hlast]
  split_ifs with hadd
  · rw [column_add]
    unfold addedIn
    rw [filter_append]
    by_cases hkey : slot = b.slot ∧ id = b.issuerID
    · have hnew : [newAttestation b].filter (fun a => a.slot = slot ∧ a.issuerID = id) =
          [newAttestation b] := by
        rw [filter_singleton]
        simp [newAttestation, hkey.1, hkey.2]
      rw [if_pos hkey, hnew, greatestOf_append_singleton, hkey.1, hkey.2]
      have hold := hfuture b.slot hadd.2 b.issuerID
      unfold column addedIn at hold
      rw [hold]
    · have hnew : [newAttestation b].filter (fun a => a.slot = slot ∧ a.issuerID = id) = [] := by
        rw [filter_singleton]
        have hne : ¬ (b.slot = slot ∧ b.issuerID = id) := fun h => hkey ⟨h.1.symm, h.2.symm⟩
        simp [newAttestation, hne]
      rw [if_neg hkey, hnew, append_nil]
      exact hfuture slot hslot id
  · exact hfuture slot hslot id

theorem track_add_fst (s : Nat × List Attestation) (b : Block) : (track p s (.add b)).1 = s.1 := by
  unfold track
  dsimp only
  split <;> rfl

theorem Inv.add (hinv : Inv p s n) (b : Block) : Inv p (track p s (.add b))
      { n with manager := (n.manager.addAttestationFromValidationBlock p b).getD n.manager } := by
  have hwf := hinv.wellFormed.add b
  have hfuture := future_add (p := p) hinv.last hinv.future b
  rw [← track_add_fst (p := p) s b] at hfuture
  rw [n.manager.add_spec b] at hwf hfuture ⊢
  unfold track at hfuture ⊢
  dsimp only at hfuture ⊢
  rw [← hinv.last] at hfuture ⊢
  split_ifs with hadd
  · rw [if_pos hadd] at hwf
    rw [if_pos hadd, if_pos hadd] at hfuture
    have hslot := hadd.2
    have hlast := hinv.last
    -- the new attestation belongs to a later slot than anything the window is about
    have hwindow : ∀ last, last ≤ s.1 → ∀ cutoffSlot id a,
        InWindow s.2 last cutoffSlot id a ↔
          InWindow (s.2 ++ [newAttestation b]) last cutoffSlot id a := by
      intro last hle cutoffSlot id a
      unfold InWindow
      rw [mem_append, mem_singleton]
      constructor
      · exact fun ha => ⟨.inl ha.1, ha.2⟩
      · rintro ⟨ha | rfl, hid, haslot, hcommitted⟩
        · exact ⟨ha, hid, haslot, hcommitted⟩
        · change b.slot ≤ last at haslot
          omega
    constructor
    · rfl
    · rw [hlast]
      exact hinv.genesis
    · exact hwf
    · exact hfuture
    · intro id
      obtain ⟨top, htops, hgreatest⟩ := hinv.pending id
      rw [hlast]
      exact ⟨top, htops, hgreatest.congr (hwindow s.1 (Nat.le_refl _) _ id)⟩
    · intro slot hlow hhigh id
      exact (hinv.stored slot hlow (by omega) id).congr
        (hwindow slot (by omega) (slot - p.maxCommittableAge) id)
    · rw [hlast]
      exact hinv.weight
  · exact hinv

theorem Inv.applied (hinv : Inv p s n) (id : AccountID) :
    ∃ top, Tops (nextCutoff p s.1) top
        (n.manager.appliedColumn (nextCutoff p s.1) (n.manager.lastCommittedSlot + 1) id) ∧
      Greatest compare (InWindow s.2 (s.1 + 1) (nextCutoff p s.1) id) top := by
  obtain ⟨top, htops, hgreatest⟩ := hinv.pending id
  have hfuture := hinv.future (s.1 + 1) (Nat.lt_succ_self _) id
  refine ⟨_, ?_, greatest_applyTop hgreatest⟩
  unfold appliedColumn
  rw [hinv.last, hfuture]
  cases greatestOf compare (addedIn s.2 (s.1 + 1) id) with
  | none => exact htops
  | some a => exact htops.apply a

theorem Inv.commit {newCW : Nat} (hinv : Inv p s n)
    (hspec : Committed p n.manager n'.manager newCW) : Inv p (track p s .commit) n' := by
  have hlast := hinv.last
  unfold track
  refine ⟨by rw [hspec.last, hlast], Nat.le_succ_of_le hinv.genesis, hinv.wellFormed.commit hspec,
    fun slot hslot id => ?_, fun id => ?_, fun slot hlow hhigh id => ?_, ?_⟩
  · dsimp only at hslot
    rw [column, hspec.future slot, if_neg (by omega)]
    exact hinv.future slot (by omega) id
  · obtain ⟨top, htops, hgreatest⟩ := hinv.applied id
    have hpending := fun slot hslot => hspec.pending slot hslot id
    rw [hlast] at hpending htops
    rcases nextCutoff_succ p s.1 with hcutoff | hcutoff
    · rw [hcutoff] at hpending ⊢
      exact ⟨top, ⟨htops.1, fun slot hslot => (hpending slot hslot).trans (htops.2 slot hslot)⟩,
        hgreatest⟩
    · rw [hcutoff] at hpending ⊢
      exact ⟨visible _ top, ⟨htops.advance.1, fun slot hslot =>
        (hpending slot hslot).trans (htops.advance.2 slot hslot)⟩, greatest_visible hgreatest⟩
  · dsimp only at hhigh
    by_cases hslot : slot = s.1 + 1
    · subst hslot
      obtain ⟨top, htops, hgreatest⟩ := hinv.applied id
      have hstored := hspec.stored hinv.wellFormed id
      rw [hlast] at htops hstored
      rw [hstored, if_neg (by omega), htops.at_cutoff]
      rw [(nextCutoff_window hlow).1] at hgreatest
      exact hgreatest
    · rw [column, hspec.other (by omega)]
      exact hinv.stored slot hlow (by omega) id
  · by_cases hwindow : p.genesisSlot + p.maxCommittableAge ≤ s.1 + 1
    · rw [Finset.sum_Icc_succ_top hwindow, hspec.weight hinv.wellFormed, hinv.weight, hlast]
      congr 1
      apply Finset.sum_congr rfl
      intro slot hslot
      rw [hspec.other (by have := (Finset.mem_Icc.mp hslot).2; omega)]
    · rw [(hspec.early (by omega)).2.2.1, hinv.weight, Finset.Icc_eq_empty (by omega),
        Finset.sum_empty, Finset.Icc_eq_empty (by omega), Finset.sum_empty]

theorem Inv.step (hinv : Inv p s n) (input : Input) :
    ∃ n', step p n input = some n' ∧ Inv p (track p s input) n' := by
  cases input with
  | add b => exact ⟨_, rfl, hinv.add b⟩
  | commit =>
    obtain ⟨n', newCW, hcommit, hspec, _⟩ := step_commit hinv.wellFormed
    exact ⟨n', hcommit, hinv.commit hspec⟩

/-- The weight that a commitment has is the one the manager goes on with. -/
theorem Inv.newCW_eq {newCW : Nat} (hinv : Inv p s n)
    (hspec : Committed p n.manager n'.manager newCW) : newCW = n'.manager.lastCumulativeWeight := by
  rw [hspec.newCW_eq]
  split
  next hearly =>
    have hlast := hinv.last
    rw [(hinv.commit hspec).weight, Finset.Icc_eq_empty, Finset.sum_empty]
    dsimp only [track]
    omega
  next => rfl

theorem wellFormed_newManager (last weight : Nat) {storage : Storage}
    (h : ∀ slot, last < slot → storage.attestations slot = ∅) :
    WellFormed p (newManager last weight storage) :=
  ⟨fun _ _ _ ha => (nomatch ha), fun _ _ _ ha => (nomatch ha), h⟩

theorem inv_genesis (p : Params) : Inv p (p.genesisSlot, []) (genesis p) := by
  constructor
  · rfl
  · exact Nat.le_refl _
  · exact wellFormed_newManager _ _ (fun _ _ => rfl)
  · intro slot _ id
    rfl
  · intro id
    refine ⟨none, ⟨fun _ ha => (nomatch ha), fun _ _ => rfl⟩, fun a ha => ?_⟩
    exact not_mem_nil ha.1
  · intro slot _ _ id a ha
    exact not_mem_nil ha.1
  · symm
    apply Finset.sum_eq_zero
    intro slot _
    rfl

/-- Every run goes through and keeps the invariant, and what a step keeps beside it. -/
theorem inv_run_with {I : Node → Prop} (hI : I (genesis p))
    (hstep : ∀ {s n input n'}, Inv p s n → I n → step p n input = some n' → I n')
    (inputs : List Input) :
    ∃ n, run (step p) (genesis p) inputs = some n ∧ Inv p (tracked p inputs) n ∧ I n := by
  have hgenesis : Inv p (tracked p []) (genesis p) ∧ I (genesis p) := ⟨inv_genesis p, hI⟩
  refine run_history_total_of (I := fun hist n => Inv p (tracked p hist) n ∧ I n) ?_ hgenesis
    (allSteps_of_forall (fun _ _ _ => trivial) _)
  intro hist n input h _
  obtain ⟨n', hn', hinv'⟩ := h.1.step input
  refine ⟨n', hn', ?_, hstep h.1 h.2 hn'⟩
  unfold tracked
  rw [foldl_append]
  exact hinv'

theorem inv_run (p : Params) (inputs : List Input) :
    ∃ n, run (step p) (genesis p) inputs = some n ∧ Inv p (tracked p inputs) n := by
  obtain ⟨n, hrun, hinv, _⟩ := inv_run_with (I := fun _ => True) trivial
    (fun _ _ _ => trivial) inputs
  exact ⟨n, hrun, hinv⟩

/-- After any run, `Commit` of the next slot returns; if the window is full it has stored
    for each account a greatest attestation that counts for the slot, and nothing for
    other accounts, and the weight it returns is the number of these accounts over all
    slots so far. -/
theorem committed_attestations_exact (p : Params) (inputs : List Input) :
    ∃ n m' newCW, run (step p) (genesis p) inputs = some n ∧
      n.manager.commit p (n.manager.lastCommittedSlot + 1) = some (m', newCW) ∧
      (p.genesisSlot + p.maxCommittableAge ≤ n.manager.lastCommittedSlot + 1 →
        (∀ id, Greatest compare
          (Candidate p (tracked p inputs).2 (n.manager.lastCommittedSlot + 1) id)
          ((m'.bucketedStorage.attestations (n.manager.lastCommittedSlot + 1)).lookup id)) ∧
        newCW = ∑ slot ∈ Finset.Icc (p.genesisSlot + p.maxCommittableAge)
            (n.manager.lastCommittedSlot + 1),
          (attestors p (tracked p inputs).2 slot).card) := by
  obtain ⟨n, hrun, hinv⟩ := inv_run p inputs
  obtain ⟨m', newCW, hcommit, hspec⟩ := commit_spec hinv.wellFormed
  refine ⟨n, m', newCW, hrun, hcommit, fun hwindow => ?_⟩
  have hinv' : Inv p _ ⟨m', n.cumulativeWeight⟩ := hinv.commit hspec
  have hlast : n.manager.lastCommittedSlot + 1 = (track p (tracked p inputs) .commit).1 := by
    rw [hinv.last]
    rfl
  rw [hlast] at hwindow ⊢
  have hstored := hinv'.stored
  refine ⟨hstored _ hwindow (Nat.le_refl _), ?_⟩
  have hnew : newCW = lastCumulativeWeight (Node.mk m' n.cumulativeWeight).manager :=
    hinv.newCW_eq hspec
  rw [hnew, hinv'.weight]
  apply Finset.sum_congr rfl
  intro slot hslot
  obtain ⟨hlow, hhigh⟩ := Finset.mem_Icc.mp hslot
  exact length_keys_of_greatest (hstored slot hlow hhigh)

end AxonCore.Attestations

import AxonCore.Attestations.Model

/-! # What a commitment does to the window

    The window is looked at one account at a time: its column gives the attestation of
    the account in every slot.  All slots from the cutoff slot on show the same
    attestation, the top of the column, as far as it commits to them.

    * `applyColumn`: what one attestation does to the column of its issuer.
    * `Tops`: a column is determined by its top; an attestation replaces the top only if
      it is greater (`Tops.apply`).
    * `Manager.commit_spec`: what `Commit` does, account by account. -/

namespace AxonCore.Attestations

open AxonCore.Lib Function List AList

variable {p : Params}

/-! ## Section 1: Columns -/

/-- The attestations of an account in all slots. -/
def column (w : Window) (id : AccountID) (slot : Nat) : Option Attestation := (w slot).lookup id

/-- The test of `applyToPendingAttestations`: is the attestation stored? -/
def beats (a : Attestation) (current : Option Attestation) : Prop :=
  ∀ c ∈ current, a.compare c = .gt

instance (a : Attestation) (current : Option Attestation) : Decidable (beats a current) :=
  Option.decidableForallMem current

@[simp] theorem beats_none (a : Attestation) : beats a none := fun _ hc => nomatch hc

@[simp] theorem beats_some {a c : Attestation} : beats a (some c) ↔ a.compare c = .gt := by
  simp [beats]

/-- What an attestation does to the column of its issuer. -/
def applyColumn (cutoffSlot : Nat) (a : Attestation) (col : Nat → Option Attestation) :
    Nat → Option Attestation := fun slot =>
  if beats a (col cutoffSlot) ∧ cutoffSlot ≤ slot ∧ slot ≤ a.committedSlot then some a else col slot

variable {slot low : Nat} {id : AccountID}

theorem mem_slotsFrom {high : Nat} : slot ∈ slotsFrom low high ↔ low ≤ slot ∧ slot ≤ high := by
  unfold slotsFrom
  rw [mem_range'_1]
  omega

theorem column_foldl_setAttestation (a : Attestation) (slots : List Nat) (w : Window)
    (id : AccountID) (slot : Nat) :
    column (slots.foldl (setAttestation a) w) id slot =
      if id = a.issuerID ∧ slot ∈ slots then some a else column w id slot := by
  rw [foldl_observed (column · id slot) (setAttestation a) (fun _ => some a) (fun _ => rfl)
    (fun s => id = a.issuerID ∧ slot = s)]
  · simp [and_comm]
  · intro w s
    unfold column setAttestation
    by_cases hs : slot = s
    · subst hs
      rw [update_self, lookup_insert_eq]
      simp
    · rw [update_of_ne hs, if_neg (fun h => hs h.2)]

theorem column_apply (cutoffSlot : Nat) (w : Window) (a : Attestation) (id : AccountID) :
    column (applyToPendingAttestations cutoffSlot w a) id =
      if id = a.issuerID then applyColumn cutoffSlot a (column w id) else column w id := by
  funext slot
  rw [apply_ite (fun col : Nat → Option Attestation => col slot)]
  unfold applyToPendingAttestations applyColumn
  by_cases hcutoff : a.committedSlot < cutoffSlot
  · rw [if_pos hcutoff, if_neg (c := _ ∧ _) (by omega), ite_self]
  rw [if_neg hcutoff]
  -- the two branches that store the attestation agree with the loop over the slots
  have hstore : column ((slotsFrom cutoffSlot a.committedSlot).foldl (setAttestation a) w)
      id slot = if id = a.issuerID ∧ cutoffSlot ≤ slot ∧ slot ≤ a.committedSlot then some a
        else column w id slot := by
    simp only [column_foldl_setAttestation, mem_slotsFrom]
  cases hcurrent : (w cutoffSlot).lookup a.issuerID with
  | none =>
    have hcolumn : column w a.issuerID cutoffSlot = none := hcurrent
    rw [hstore]
    by_cases hid : id = a.issuerID <;> simp [hid, hcolumn]
  | some current =>
    have hcolumn : column w a.issuerID cutoffSlot = some current := hcurrent
    dsimp only
    by_cases hgt : a.compare current = .gt
    · rw [if_pos hgt, hstore]
      by_cases hid : id = a.issuerID <;> simp [hid, hcolumn, hgt]
    · have hkeep : column (update w cutoffSlot ((w cutoffSlot).insert a.issuerID current)) id slot =
          column w id slot := by
        unfold column
        by_cases hslot : slot = cutoffSlot
        · rw [hslot, update_self, lookup_insert_eq]
          split_ifs with hid
          · rw [hid, hcurrent]
          · rfl
        · rw [update_of_ne hslot]
      rw [if_neg hgt, hkeep]
      by_cases hid : id = a.issuerID <;> simp [hid, hcolumn, hgt]

/-- The attestations of a map stand under their issuers. -/
def Issued (attestations : Map AccountID Attestation) : Prop :=
  ∀ id a, attestations.lookup id = some a → a.issuerID = id

variable {attestations : Map AccountID Attestation}

theorem Issued.map_issuerID (h : Issued attestations) :
    (values attestations).map Attestation.issuerID = attestations.keys := by
  unfold values
  rw [map_map]
  apply map_congr_left
  intro entry hentry
  exact h entry.1 entry.2 (mem_lookup_iff.mpr hentry)

variable {a : Attestation}

theorem Issued.mem_values (h : Issued attestations) :
    a ∈ values attestations ↔ attestations.lookup a.issuerID = some a := by
  constructor
  · intro ha
    obtain ⟨entry, hentry, rfl⟩ := mem_map.mp ha
    have hlookup : attestations.lookup entry.1 = some entry.2 := mem_lookup_iff.mpr hentry
    rw [h entry.1 entry.2 hlookup]
    exact hlookup
  · intro ha
    exact mem_map.mpr ⟨⟨a.issuerID, a⟩, mem_lookup_iff.mp ha, rfl⟩

theorem Issued.foldl_values (h : Issued attestations) {σ β : Type} (view : σ → AccountID → β)
    (body : σ → Attestation → σ) (own : Attestation → β → β)
    (hown : ∀ s a, view (body s a) a.issuerID = own a (view s a.issuerID))
    (hframe : ∀ s a id, id ≠ a.issuerID → view (body s a) id = view s id) (s : σ)
    (id : AccountID) :
    view ((values attestations).foldl body s) id =
      match attestations.lookup id with
      | none => view s id
      | some a => own a (view s id) := by
  have hkeyed := foldl_keyed view Attestation.issuerID body own hown hframe
    (values attestations) (by rw [h.map_issuerID]; exact attestations.keys_nodup) s
  cases hlookup : attestations.lookup id with
  | none =>
    apply hkeyed.2 id
    rw [h.map_issuerID, mem_keys_iff, hlookup]
    exact Bool.false_ne_true
  | some a =>
    obtain rfl := h id a hlookup
    exact hkeyed.1 a (h.mem_values.mpr hlookup)

theorem column_foldl_apply (cutoffSlot : Nat) (w : Window) (h : Issued attestations)
    (id : AccountID) :
    column ((values attestations).foldl (applyToPendingAttestations cutoffSlot) w) id =
      match attestations.lookup id with
      | none => column w id
      | some a => applyColumn cutoffSlot a (column w id) := by
  exact h.foldl_values column _ (applyColumn cutoffSlot)
    (fun w a => (column_apply cutoffSlot w a _).trans (if_pos rfl))
    (fun w a id hid => (column_apply cutoffSlot w a id).trans (if_neg hid)) w id

/-! ## Section 2: The top of a column -/

/-- An attestation as it is seen in a slot: not at all if it commits to an earlier one. -/
def visible (slot : Nat) : Option Attestation → Option Attestation
  | none => none
  | some a => if slot ≤ a.committedSlot then some a else none

theorem visible_of_le (h : slot ≤ a.committedSlot) :
    visible slot (some a) = some a := if_pos h

theorem visible_of_lt (h : a.committedSlot < slot) :
    visible slot (some a) = none := if_neg (by omega)

theorem visible_eq_some {o : Option Attestation} :
    visible slot o = some a ↔ o = some a ∧ slot ≤ a.committedSlot := by
  cases o with
  | none => simp [visible]
  | some b =>
    simp only [visible, Option.ite_none_right_eq_some, Option.some.injEq]
    constructor
    · rintro ⟨hle, rfl⟩
      exact ⟨rfl, hle⟩
    · rintro ⟨rfl, hle⟩
      exact ⟨hle, rfl⟩

/-- What is seen in a slot is seen through every earlier one. -/
theorem visible_visible (h : low ≤ slot) (o : Option Attestation) :
    visible slot (visible low o) = visible slot o := by
  cases o with
  | none => rfl
  | some a =>
    by_cases hlow : low ≤ a.committedSlot
    · rw [visible_of_le hlow]
    · rw [visible_of_lt (by omega), visible_of_lt (by omega)]
      rfl

/-- From the cutoff slot on, the column shows its top as far as it commits to the slots. -/
def Tops (cutoffSlot : Nat) (top : Option Attestation) (col : Nat → Option Attestation) : Prop :=
  (∀ a ∈ top, cutoffSlot ≤ a.committedSlot) ∧
    ∀ slot, cutoffSlot ≤ slot → col slot = visible slot top

/-- The top after an attestation was applied. -/
def applyTop (cutoffSlot : Nat) (a : Attestation) (top : Option Attestation) : Option Attestation :=
  if a.committedSlot < cutoffSlot then top else some (keepGreater Attestation.compare top a)

variable {cutoffSlot : Nat} {top : Option Attestation} {col : Nat → Option Attestation}
  {m : Manager}

theorem Tops.at_cutoff (h : Tops cutoffSlot top col) : col cutoffSlot = top := by
  rw [h.2 cutoffSlot (Nat.le_refl _)]
  cases top with
  | none => rfl
  | some a => exact visible_of_le (h.1 a rfl)

theorem Tops.apply (h : Tops cutoffSlot top col) (a : Attestation) :
    Tops cutoffSlot (applyTop cutoffSlot a top) (applyColumn cutoffSlot a col) := by
  unfold applyTop applyColumn
  rw [h.at_cutoff]
  split_ifs with hcutoff
  · refine ⟨h.1, fun slot hslot => ?_⟩
    dsimp only
    rw [if_neg (by omega)]
    exact h.2 slot hslot
  by_cases hbeats : beats a top
  · have hkeep : keepGreater Attestation.compare top a = a := by
      cases top with
      | none => rfl
      | some c => exact if_pos (hbeats c rfl)
    rw [hkeep]
    constructor
    · intro b hb
      obtain rfl := Option.some.inj hb
      omega
    · intro slot hslot
      dsimp only
      by_cases hle : slot ≤ a.committedSlot
      · rw [if_pos ⟨hbeats, hslot, hle⟩, visible_of_le hle]
      · rw [if_neg (fun h => hle h.2.2), h.2 slot hslot, visible_of_lt (by omega)]
        cases top with
        | none => rfl
        | some c =>
          -- the old top commits to no later slot than the new one
          have hc : c.committedSlot ≤ a.committedSlot := Attestation.committedSlot_le
            (Ordering.ne_gt_iff_isLE.mp (Std.OrientedCmp.not_gt_of_gt (hbeats c rfl)))
          exact visible_of_lt (by omega)
  · have hkeep : some (keepGreater Attestation.compare top a) = top := by
      cases top with
      | none => exact absurd (beats_none a) hbeats
      | some c => exact congrArg some (if_neg fun hgt => hbeats (beats_some.mpr hgt))
    rw [hkeep]
    refine ⟨h.1, fun slot hslot => ?_⟩
    dsimp only
    rw [if_neg (fun h => hbeats h.1)]
    exact h.2 slot hslot

theorem Tops.advance (h : Tops cutoffSlot top col) :
    Tops (cutoffSlot + 1) (visible (cutoffSlot + 1) top) col := by
  constructor
  · intro a ha
    exact (visible_eq_some.mp ha).2
  · intro slot hslot
    rw [h.2 slot (by omega), visible_visible hslot]

/-! ## Section 3: Commitments -/

/-- The issuer has a seat in the committee of the slot of the attestation. -/
def HasSeat (p : Params) (a : Attestation) : Prop :=
  ∃ committee, p.committee a.slot = some committee ∧ a.issuerID ∈ committee

/-- The attestations in memory stand under their issuers and count, and nothing is stored
    for slots that are not committed. -/
structure WellFormed (p : Params) (m : Manager) : Prop where
  future : ∀ slot id a, column m.futureAttestations id slot = some a → a.issuerID = id ∧ HasSeat p a
  pending : ∀ slot id a, column m.pendingAttestations id slot = some a →
    a.issuerID = id ∧ HasSeat p a
  uncommitted : ∀ slot, m.lastCommittedSlot < slot → m.bucketedStorage.attestations slot = ∅

theorem offset_of_lt (h : slot < p.genesisSlot + p.maxCommittableAge) :
    computeAttestationCommitmentOffset p slot = (p.genesisSlot, false) := if_pos h

theorem offset_of_le (h : p.genesisSlot + p.maxCommittableAge ≤ slot) :
    computeAttestationCommitmentOffset p slot = (slot - p.maxCommittableAge, true) :=
  if_neg (by omega)

theorem lookup_foldl_values (h : Issued attestations) (s : Map AccountID Attestation)
    (id : AccountID) :
    ((values attestations).foldl (fun s a => s.insert a.issuerID a) s).lookup id =
      (attestations.lookup id).or (s.lookup id) := by
  rw [h.foldl_values (fun (s : Map AccountID Attestation) id => s.lookup id) _ (fun a _ => some a)
    (fun s a => lookup_insert s) (fun s a id hid => lookup_insert_ne hid)]
  cases attestations.lookup id <;> rfl

theorem run_commitAttestation {l : List Attestation} (hseat : ∀ a ∈ l, HasSeat p a)
    (tree : Map AccountID Attestation) (weight : Nat) :
    run (commitAttestation p) (tree, weight) l =
      some (l.foldl (fun s a => s.insert a.issuerID a) tree, weight + l.length) := by
  induction l generalizing tree weight with
  | nil => rfl
  | cons a l ih =>
    obtain ⟨committee, hcommittee, hmem⟩ := hseat a mem_cons_self
    have hone : commitAttestation p (tree, weight) a =
        some (tree.insert a.issuerID a, weight + 1) := by
      unfold commitAttestation
      rw [hcommittee, Option.map_some, if_pos hmem]
    show (commitAttestation p (tree, weight) a).bind _ = _
    rw [hone, Option.bind_some, ih (fun b hb => hseat b (mem_cons_of_mem a hb)),
      length_cons, foldl_cons]
    congr 2
    omega

/-- The column of an account after the attestations of the slot were applied. -/
def Manager.appliedColumn (m : Manager) (cutoffSlot slot : Nat) (id : AccountID) :
    Nat → Option Attestation :=
  match column m.futureAttestations id slot with
  | none => column m.pendingAttestations id
  | some a => applyColumn cutoffSlot a (column m.pendingAttestations id)

theorem Manager.appliedColumn_eq_some {s : Nat}
    (h : m.appliedColumn cutoffSlot slot id s = some a) :
    column m.pendingAttestations id s = some a ∨ column m.futureAttestations id slot = some a := by
  unfold Manager.appliedColumn at h
  cases hfuture : column m.futureAttestations id slot with
  | none =>
    rw [hfuture] at h
    exact .inl h
  | some b =>
    rw [hfuture] at h
    change applyColumn cutoffSlot b _ s = some a at h
    unfold applyColumn at h
    split at h
    · exact .inr h
    · exact .inl h

/-- What `Commit` of the next slot does, account by account. -/
structure Committed (p : Params) (m m' : Manager) (newCW : Nat) : Prop where
  last : m'.lastCommittedSlot = m.lastCommittedSlot + 1
  future : ∀ slot, m'.futureAttestations slot =
    if slot = m.lastCommittedSlot + 1 then ∅ else m.futureAttestations slot
  tracker : m'.bucketedStorage.tracker = m.bucketedStorage.tracker
  /-- Before the window is full, no attestations are stored. -/
  early : m.lastCommittedSlot + 1 < p.genesisSlot + p.maxCommittableAge →
    (∀ id, column m'.pendingAttestations id =
      m.appliedColumn p.genesisSlot (m.lastCommittedSlot + 1) id) ∧
    m'.bucketedStorage = m.bucketedStorage ∧
    m'.lastCumulativeWeight = m.lastCumulativeWeight ∧ newCW = 0
  /-- After that, those at the cutoff slot are stored, and the cutoff slot is evicted. -/
  window : p.genesisSlot + p.maxCommittableAge ≤ m.lastCommittedSlot + 1 →
    (∀ id slot, column m'.pendingAttestations id slot =
      if slot = m.lastCommittedSlot + 1 - p.maxCommittableAge then none
      else m.appliedColumn (m.lastCommittedSlot + 1 - p.maxCommittableAge)
        (m.lastCommittedSlot + 1) id slot) ∧
    (∀ id, column m'.bucketedStorage.attestations id (m.lastCommittedSlot + 1) =
      m.appliedColumn (m.lastCommittedSlot + 1 - p.maxCommittableAge) (m.lastCommittedSlot + 1) id
        (m.lastCommittedSlot + 1 - p.maxCommittableAge)) ∧
    (∀ slot, slot ≠ m.lastCommittedSlot + 1 →
      m'.bucketedStorage.attestations slot = m.bucketedStorage.attestations slot) ∧
    m'.lastCumulativeWeight = m.lastCumulativeWeight +
      (m'.bucketedStorage.attestations (m.lastCommittedSlot + 1)).keys.length ∧
    newCW = m'.lastCumulativeWeight

theorem Manager.commit_spec (hwf : WellFormed p m) :
    ∃ m' newCW, m.commit p (m.lastCommittedSlot + 1) = some (m', newCW) ∧
      Committed p m m' newCW := by
  have hissued : Issued (m.futureAttestations (m.lastCommittedSlot + 1)) :=
    fun id a ha => (hwf.future _ id a ha).1
  have hcolumn := fun cutoffSlot id =>
    column_foldl_apply cutoffSlot m.pendingAttestations hissued id
  have hfuture : ∀ slot, update m.futureAttestations (m.lastCommittedSlot + 1) ∅ slot =
      if slot = m.lastCommittedSlot + 1 then ∅ else m.futureAttestations slot := by
    intro slot
    rw [update_apply]
  by_cases hearly : m.lastCommittedSlot + 1 < p.genesisSlot + p.maxCommittableAge
  · unfold Manager.commit
    rw [offset_of_lt hearly]
    exact ⟨_, _, rfl, rfl, hfuture, rfl, fun _ => ⟨hcolumn p.genesisSlot, rfl, rfl, rfl⟩,
      fun hlate => absurd hearly (by omega)⟩
  · have hwindow : p.genesisSlot + p.maxCommittableAge ≤ m.lastCommittedSlot + 1 := by omega
    generalize hcutoff : m.lastCommittedSlot + 1 - p.maxCommittableAge = cutoffSlot
    unfold Manager.commit
    rw [offset_of_le hwindow, hcutoff]
    dsimp only
    -- the attestations at the cutoff slot stand under their issuers and count
    generalize hpending : (values (m.futureAttestations (m.lastCommittedSlot + 1))).foldl
      (applyToPendingAttestations cutoffSlot) m.pendingAttestations = pending
    have happlied : ∀ id, column pending id =
        m.appliedColumn cutoffSlot (m.lastCommittedSlot + 1) id := by
      rw [← hpending]
      exact hcolumn cutoffSlot
    have hgood : ∀ id a, (pending cutoffSlot).lookup id = some a →
        a.issuerID = id ∧ HasSeat p a := by
      intro id a ha
      change column pending id cutoffSlot = some a at ha
      rw [happlied] at ha
      rcases Manager.appliedColumn_eq_some ha with hold | hnew
      · exact hwf.pending _ id a hold
      · exact hwf.future _ id a hnew
    have hpissued : Issued (pending cutoffSlot) := fun id a ha => (hgood id a ha).1
    have hseat : ∀ a ∈ values (pending cutoffSlot), HasSeat p a := fun a ha =>
      (hgood _ a (hpissued.mem_values.mp ha)).2
    rw [if_pos rfl, run_commitAttestation hseat, Option.map_some]
    have hstored : ∀ id, ((values (pending cutoffSlot)).foldl (fun s a => s.insert a.issuerID a)
        (m.bucketedStorage.attestations (m.lastCommittedSlot + 1))).lookup id =
        (pending cutoffSlot).lookup id := by
      intro id
      rw [lookup_foldl_values hpissued, hwf.uncommitted _ (Nat.lt_succ_self _), lookup_empty,
        Option.or_none]
    refine ⟨_, _, rfl, rfl, hfuture, rfl, fun h => absurd h hearly, fun _ => ⟨?_, ?_, ?_, ?_, rfl⟩⟩
    · intro id slot
      rw [hcutoff, ← happlied id]
      show lookup id (update pending cutoffSlot ∅ slot) = _
      rw [update_apply]
      split <;> rfl
    · intro id
      rw [hcutoff, ← happlied id]
      show lookup id (update m.bucketedStorage.attestations
        (m.lastCommittedSlot + 1) _ (m.lastCommittedSlot + 1)) = _
      rw [update_self, hstored]
      rfl
    · intro slot hslot
      exact update_of_ne hslot _ _
    · show _ + (values (pending cutoffSlot)).length = _ + (update
        m.bucketedStorage.attestations (m.lastCommittedSlot + 1) _
          (m.lastCommittedSlot + 1)).keys.length
      rw [update_self, length_keys_congr (n := pending cutoffSlot)
        (fun id => by rw [hstored]), ← hpissued.map_issuerID, length_map]

end AxonCore.Attestations

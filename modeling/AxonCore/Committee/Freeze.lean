import AxonCore.Committee.Totals

/-! # When a committee is fixed

    `SybilProtection` selects the committee of the next epoch at two occasions.  When a slot
    `EpochNearingThreshold` before the end of the epoch is finalized, a committee is elected
    from the candidates.  When the slot `MaxCommittableAge` before the end is committed and
    there is still no committee, the current one is reused.

    From that commitment on the committee of the next epoch is frozen: it exists, it is not
    changed any more, and every committed root is the root of the committee that is frozen
    for the slot.

    The commitment that reuses a committee is recognized by an equation between slots.  If
    `MaxCommittableAge` is one less than the length of an epoch, that slot of the first
    epoch is the genesis slot, which is never committed, and the first commitment fails. -/

namespace AxonCore.Committee

open AxonCore.Lib AxonCore.Stores List Option SeatedAccounts EpochStore

variable {ID Root : Type} [LinearOrder ID] {candidates : List (AccountData ID)}

/-! ## Section 1: The model -/

/-- The protocol parameters that the selection of committees depends on. -/
structure Params where
  timeProvider : TimeProvider
  maxCommittableAge : Nat
  epochNearingThreshold : Nat
  targetCommitteeSize : TargetCommitteeSize
  maxCommittableAge_lt : maxCommittableAge < timeProvider.epochDurationSlots

/-- `SybilProtection`, as far as it selects committees. -/
structure SybilProtection (ID : Type) where
  seatManager : SeatManager ID
  lastCommittedSlot : Nat

/-- Why `CommitSlot` fails. -/
inductive CommitFailure where
  /-- "failed to reuse committee". -/
  | reuse (failure : Failure)
  /-- "committee for an epoch not found". -/
  | committeeNotFound
  /-- "failed to apply epoch". -/
  | applyEpoch
  deriving DecidableEq, Repr

namespace SybilProtection

variable (p : Params) (root : List ID → Root) (o : SybilProtection ID)

/-- The committee of an epoch. -/
def committee (epoch : Nat) : Option (SeatedAccounts ID) :=
  o.seatManager.committeeStore.load epoch

/-- The committee part of `CommitSlot`: register (reuse) a committee for the next epoch. -/
def registerCommittee (slot : Nat) : Except CommitFailure (SeatManager ID) :=
  let currentEpoch := p.timeProvider.epochFromSlot slot
  if slot + p.maxCommittableAge = p.timeProvider.epochEnd currentEpoch then
    match o.committee (currentEpoch + 1) with
    | some _ => .ok o.seatManager
    | none =>
      match o.seatManager.reuseCommittee currentEpoch (currentEpoch + 1) with
      | .ok seatManager => .ok seatManager
      | .error failure => .error (.reuse failure)
  else .ok o.seatManager

/-- The epoch whose committee root is committed with a slot. -/
def targetCommitteeEpoch (slot : Nat) : Nat :=
  let currentEpoch := p.timeProvider.epochFromSlot slot
  if slot + p.maxCommittableAge ≥ p.timeProvider.epochEnd currentEpoch then currentEpoch + 1
  else currentEpoch

/-- `committeeRoot`. -/
def committeeRoot (seatManager : SeatManager ID) (targetCommitteeEpoch : Nat) :
    Except CommitFailure Root :=
  match seatManager.committeeStore.load targetCommitteeEpoch with
  | none => .error .committeeNotFound
  | some committee => .ok (root committee.ids)

/-- The performance part of `CommitSlot`; `applied` is the outcome of `ApplyEpoch`. -/
def finishEpoch (seatManager : SeatManager ID) (applied : Bool) (slot : Nat) :
    Except CommitFailure Unit :=
  let currentEpoch := p.timeProvider.epochFromSlot slot
  if slot = p.timeProvider.epochEnd currentEpoch then
    match seatManager.committeeStore.load currentEpoch with
    | none => .error .committeeNotFound
    | some _ => if applied then .ok () else .error .applyEpoch
  else .ok ()

/-- `CommitSlot`, and the committee root that it returns. -/
def commitSlot (applied : Bool) (slot : Nat) : Except CommitFailure (SybilProtection ID × Root) :=
  (o.registerCommittee p slot).bind fun seatManager =>
    (committeeRoot root seatManager (targetCommitteeEpoch p slot)).bind fun committeeRoot =>
      (finishEpoch p seatManager applied slot).bind fun _ =>
        .ok (⟨seatManager, slot⟩, committeeRoot)

/-- `selectNewCommittee`, from the accounts of the candidates. -/
def selectNewCommittee (slot : Nat)
    (candidateAccounts : List (AccountData ID)) : Except Failure (SeatManager ID) :=
  let currentEpoch := p.timeProvider.epochFromSlot slot
  let nextEpoch := currentEpoch + 1
  if candidateAccounts = [] then o.seatManager.reuseCommittee currentEpoch nextEpoch
  else o.seatManager.rotateCommittee p.targetCommitteeSize nextEpoch candidateAccounts

/-- `slotFinalized`; `none` is a panic. -/
def slotFinalized (slot : Nat)
    (candidateAccounts : List (AccountData ID)) : Option (SybilProtection ID) :=
  let epochEndSlot := p.timeProvider.epochEnd (p.timeProvider.epochFromSlot slot)
  if slot + p.epochNearingThreshold = epochEndSlot ∧
      o.lastCommittedSlot < epochEndSlot - p.maxCommittableAge then
    match o.selectNewCommittee p slot candidateAccounts with
    | .ok seatManager => some { o with seatManager }
    | .error _ => none
  else some o

end SybilProtection

/-- A node with the slots that were finalized and the roots that were committed so far. -/
structure Node (ID Root : Type) where
  sybilProtection : SybilProtection ID
  lastFinalizedSlot : Nat
  committeeRoots : List (Nat × Root)

inductive Input (ID : Type) where
  /-- The next slot is committed. -/
  | commit (applied : Bool)
  /-- A later slot is finalized; with the accounts of the candidates of its epoch. -/
  | finalize (slot : Nat) (candidateAccounts : List (AccountData ID))

namespace Node

variable (p : Params) (root : List ID → Root)

/-- One input; `none` where it is not allowed, or fails. -/
def step (n : Node ID Root) : Input ID → Option (Node ID Root)
  | .commit applied =>
    let slot := n.sybilProtection.lastCommittedSlot + 1
    match n.sybilProtection.commitSlot p root applied slot with
    | .ok (o, committeeRoot) =>
      some { n with
        sybilProtection := o
        committeeRoots := (slot, committeeRoot) :: n.committeeRoots }
    | .error _ => none
  | .finalize slot candidateAccounts =>
    if n.lastFinalizedSlot < slot then
      (n.sybilProtection.slotFinalized p slot candidateAccounts).map fun o =>
        { n with sybilProtection := o, lastFinalizedSlot := slot }
    else none

end Node

/-- A committee as the code stores it: seated, with exact totals and at least one member. -/
structure Sound (c : SeatedAccounts ID) : Prop where
  seated : Seated c
  balanced : c.accounts.Balanced
  nonempty : c.ids ≠ []

/-- A committee for the first epoch. -/
structure GenesisCommittee (ID : Type) [LinearOrder ID] where
  committee : SeatedAccounts ID
  sound : Sound committee

/-- A node at genesis. -/
def Node.genesis (p : Params) (g : GenesisCommittee ID) : Node ID Root :=
  { sybilProtection :=
      { seatManager := ⟨empty.store 0 g.committee⟩
        lastCommittedSlot := p.timeProvider.genesisSlot }
    lastFinalizedSlot := p.timeProvider.genesisSlot
    committeeRoots := [] }

/-! ## Section 2: What is stored is sound -/

section Stored

variable {m m' : SeatManager ID} {epoch currentEpoch : Nat}

/-- A selection that stores a sound committee for one epoch. -/
def StoresSound (m m' : SeatManager ID) (epoch : Nat) : Prop :=
  ∃ c, Sound c ∧ m'.committeeStore = m.committeeStore.store epoch c

theorem SeatManager.rotateCommittee_sound {targetCommitteeSize : TargetCommitteeSize}
    (hsize : 0 < (targetCommitteeSize epoch).toNat) (hprev : Seated (m.prevCommittee epoch))
    (h : m.rotateCommittee targetCommitteeSize epoch candidates = .ok m') :
    StoresSound m m' epoch := by
  unfold rotateCommittee at h
  by_cases hempty : candidates = []
  · rw [if_pos hempty] at h
    cases h
  rw [if_neg hempty] at h
  obtain ⟨a, ha, h⟩ := bind_eq_ok.mp h
  have hbalanced : a.Balanced :=
    foldlM_ok (I := fun _ (b : Accounts ID) => b.Balanced)
      (fun _ _ _ _ hI hset => hI.set (liftArithmetic_eq_ok.mp hset)) Accounts.balanced_new ha
  -- the first candidate that is taken becomes a member, and members stay
  have hnonempty : a.ids ≠ [] := by
    have hinv := foldlM_ok (I := fun todo (b : Accounts ID) => todo ≠ [] ∨ b.ids ≠ []) ?_ ?_ ha
    · simpa using hinv
    · intro c todo b b' _ hset
      right
      intro hnil
      have hmem : c.id ∈ b'.ids := by
        rw [b'.mem_ids, b.has_set (liftArithmetic_eq_ok.mp hset)]
        simp
      rw [hnil] at hmem
      cases hmem
    · left
      intro hnil
      have hlength := congrArg List.length hnil
      have hpos := length_pos_iff.mpr hempty
      rw [length_take, length_insertionSort] at hlength
      simp only [length_nil] at hlength
      omega
  obtain ⟨c, hc, hac, _, hseated, _⟩ :=
    a.seatedAccounts_spec (selectNewCommitteeAccounts_size ha) hprev
  unfold storeSeated at h
  rw [hc] at h
  have hm' := (Except.ok.inj h).symm
  refine ⟨c, ⟨hseated, hac ▸ hbalanced, ?_⟩, by rw [hm']⟩
  unfold ids
  rw [hac]
  exact hnonempty

theorem SeatManager.reuseCommittee_sound {c : SeatedAccounts ID} (epoch : Nat)
    (hload : m.committeeStore.load currentEpoch = some c) (hc : Sound c) :
    ∃ m', m.reuseCommittee currentEpoch epoch = .ok m' ∧ StoresSound m m' epoch := by
  obtain ⟨c', hreuse, hseated, hbalanced, hget⟩ := hc.seated.reuse hc.balanced
  have hmember : ∀ id, id ∈ c'.ids ↔ id ∈ c.ids := by
    intro id
    rw [ids, ids, Accounts.mem_ids, Accounts.mem_ids]
    show (c'.accounts.get id).isSome = true ↔ (c.accounts.get id).isSome = true
    rw [hget id]
  obtain ⟨id, hid⟩ := exists_mem_of_ne_nil _ hc.nonempty
  -- a member has a seat, so the committee counts seats
  have hcount : c.seatCount ≠ 0 := by
    intro hzero
    have hkey : id ∈ c.seatsByAccount.keys := by
      rw [mem_keys_iff]
      show (c.getSeat id).isSome = true
      rw [hc.seated.members]
      exact (c.accounts.mem_ids id).mp hid
    rw [eq_nil_of_length_eq_zero hzero] at hkey
    cases hkey
  refine ⟨⟨m.committeeStore.store epoch c'⟩, ?_, c', ⟨hseated, hbalanced, ?_⟩, rfl⟩
  · unfold reuseCommittee
    rw [hload]
    simp only [if_neg hcount]
    exact bind_eq_ok.mpr ⟨c', hreuse, rfl⟩
  · exact ne_nil_of_mem ((hmember id).mpr hid)

theorem SeatManager.storesSound_of_reuseCommittee
    (hsound : ∀ e c, m.committeeStore.load e = some c → Sound c)
    (h : m.reuseCommittee currentEpoch epoch = .ok m') : StoresSound m m' epoch := by
  cases hload : m.committeeStore.load currentEpoch with
  | none =>
    unfold reuseCommittee at h
    rw [hload] at h
    cases h
  | some c =>
    obtain ⟨m'', hm'', hstores⟩ := reuseCommittee_sound epoch hload (hsound _ c hload)
    rw [hm''] at h
    exact Except.ok.inj h ▸ hstores

end Stored

/-! ## Section 3: The invariant -/

variable {p : Params} {root : List ID → Root}

/-- The slot whose commitment freezes the committee of the epoch after `epoch`. -/
def freezeSlot (p : Params) (epoch : Nat) : Nat :=
  p.timeProvider.epochEnd epoch - p.maxCommittableAge

theorem freezeSlot_spec (p : Params) (epoch : Nat) :
    freezeSlot p epoch + p.maxCommittableAge = p.timeProvider.epochEnd epoch ∧
    p.timeProvider.epochStart epoch ≤ freezeSlot p epoch := by
  have hend := p.timeProvider.epochEnd_add_one epoch
  have hlt := p.maxCommittableAge_lt
  unfold freezeSlot TimeProvider.epochStart at *
  rw [Nat.add_mul] at hend
  omega

variable {epoch slot : Nat}

/-- The committee root of a slot is that of the epoch frozen last. -/
theorem targetCommitteeEpoch_eq (hgenesis : p.timeProvider.genesisSlot ≤ slot)
    (hlo : freezeSlot p epoch ≤ slot) (hhi : slot < freezeSlot p (epoch + 1)) :
    SybilProtection.targetCommitteeEpoch p slot = epoch + 1 := by
  obtain ⟨hspec, hfirst⟩ := freezeSlot_spec p epoch
  obtain ⟨hspec', _⟩ := freezeSlot_spec p (epoch + 1)
  have hnext := p.timeProvider.epochEnd_add_one epoch
  have hcurrent := fun e : Nat =>
    (p.timeProvider.epochFromSlot_eq_iff hgenesis : p.timeProvider.epochFromSlot slot = e ↔ _)
  unfold SybilProtection.targetCommitteeEpoch
  -- the slot is in the epoch or in the next one
  rcases Nat.lt_or_ge (p.timeProvider.epochEnd epoch) slot with hlt | hle
  · rw [(hcurrent (epoch + 1)).mpr (by omega)]
    exact if_neg (by omega)
  · rw [(hcurrent epoch).mpr (by omega)]
    exact if_pos (by omega)

/-- What holds of a node at all times. -/
structure Inv (p : Params) (root : List ID → Root) (n : Node ID Root) : Prop where
  genesis : p.timeProvider.genesisSlot ≤ n.sybilProtection.lastCommittedSlot
  sound : ∀ epoch c, n.sybilProtection.committee epoch = some c → Sound c
  first : (n.sybilProtection.committee 0).isSome
  /-- Once the freezing slot is committed there is a committee. -/
  frozen : ∀ epoch, freezeSlot p epoch ≤ n.sybilProtection.lastCommittedSlot →
    (n.sybilProtection.committee (epoch + 1)).isSome
  /-- The roots that were committed are those of the frozen committees. -/
  roots : ∀ slot r, (slot, r) ∈ n.committeeRoots →
    slot ≤ n.sybilProtection.lastCommittedSlot ∧
    ∀ epoch, freezeSlot p epoch ≤ slot → slot < freezeSlot p (epoch + 1) →
      ∃ c, n.sybilProtection.committee (epoch + 1) = some c ∧ r = root c.ids

variable {n : Node ID Root}

theorem Inv.committee_isSome (h : Inv p root n)
    (hepoch : epoch ≤ p.timeProvider.epochFromSlot (n.sybilProtection.lastCommittedSlot + 1)) :
    (n.sybilProtection.committee epoch).isSome := by
  cases epoch with
  | zero => exact h.first
  | succ epoch =>
    -- the epoch before has ended
    have hended := p.timeProvider.epochEnd_lt_iff.mpr (Nat.lt_of_succ_le hepoch)
    obtain ⟨hspec, _⟩ := freezeSlot_spec p epoch
    exact h.frozen epoch (by omega)

theorem StoresSound.load {m m' : SeatManager ID} (h : StoresSound m m' epoch) :
    ∃ c, Sound c ∧ ∀ e, m'.committeeStore.load e =
      if e = epoch then some c else m.committeeStore.load e := by
  obtain ⟨c, hc, hstore⟩ := h
  refine ⟨c, hc, fun e => ?_⟩
  rw [hstore, load_store]

/-- `registerCommittee` stores at most the committee of an epoch that has none; it does not
    fail, and afterwards the committee of the next epoch exists if the slot freezes it. -/
theorem Inv.registerCommittee (h : Inv p root n)
    (hslot : slot = n.sybilProtection.lastCommittedSlot + 1) :
    ∃ m, n.sybilProtection.registerCommittee p slot = .ok m ∧
      (∀ e c, n.sybilProtection.committee e = some c → m.committeeStore.load e = some c) ∧
      (∀ e c, m.committeeStore.load e = some c → Sound c) ∧
      ∀ epoch, freezeSlot p epoch = slot → (m.committeeStore.load (epoch + 1)).isSome := by
  have hgenesis : p.timeProvider.genesisSlot ≤ slot := by
    have := h.genesis
    omega
  -- the epoch that a slot freezes is the epoch of the slot
  have hown : ∀ epoch, freezeSlot p epoch = slot →
      p.timeProvider.epochFromSlot slot = epoch ∧
      slot + p.maxCommittableAge = p.timeProvider.epochEnd (p.timeProvider.epochFromSlot slot) := by
    intro epoch hfreeze
    obtain ⟨hspec, hstart⟩ := freezeSlot_spec p epoch
    have hepoch : p.timeProvider.epochFromSlot slot = epoch :=
      (p.timeProvider.epochFromSlot_eq_iff hgenesis).mpr (by omega)
    rw [hepoch]
    exact ⟨rfl, by omega⟩
  unfold SybilProtection.registerCommittee
  by_cases hfreeze : slot + p.maxCommittableAge =
      p.timeProvider.epochEnd (p.timeProvider.epochFromSlot slot)
  · simp only [if_pos hfreeze]
    cases hnext : n.sybilProtection.committee (p.timeProvider.epochFromSlot slot + 1) with
    | some c =>
      refine ⟨n.sybilProtection.seatManager, rfl, fun e c hc => hc, h.sound, ?_⟩
      intro epoch hepoch
      rw [← (hown epoch hepoch).1]
      show (n.sybilProtection.committee _).isSome
      rw [hnext]
      rfl
    | none =>
      obtain ⟨current, hcurrent⟩ := isSome_iff_exists.mp
        (h.committee_isSome (Nat.le_of_eq (congrArg p.timeProvider.epochFromSlot hslot)))
      obtain ⟨m, hm, hstores⟩ := SeatManager.reuseCommittee_sound
        (p.timeProvider.epochFromSlot slot + 1) hcurrent (h.sound _ current hcurrent)
      obtain ⟨c, hc, hload⟩ := hstores.load
      simp only [hm]
      refine ⟨m, rfl, ?_, ?_, ?_⟩ <;> simp only [hload]
      · intro e d hd
        rw [if_neg]
        · exact hd
        · rintro rfl
          rw [hnext] at hd
          cases hd
      · intro e d hd
        split at hd
        · exact some.inj hd ▸ hc
        · exact h.sound e d hd
      · intro epoch hepoch
        rw [(hown epoch hepoch).1, if_pos rfl]
        rfl
  · simp only [if_neg hfreeze]
    refine ⟨n.sybilProtection.seatManager, rfl, fun e c hc => hc, h.sound, ?_⟩
    intro epoch hepoch
    exact absurd (hown epoch hepoch).2 hfreeze

/-- `CommitSlot` of the next slot: it fails at most because `ApplyEpoch` does. -/
theorem Inv.commitSlot (h : Inv p root n) (applied : Bool)
    (hslot : slot = n.sybilProtection.lastCommittedSlot + 1) :
    ∃ m c, (∀ e d, n.sybilProtection.committee e = some d → m.committeeStore.load e = some d) ∧
      (∀ e d, m.committeeStore.load e = some d → Sound d) ∧
      (∀ epoch, freezeSlot p epoch = slot → (m.committeeStore.load (epoch + 1)).isSome) ∧
      m.committeeStore.load (SybilProtection.targetCommitteeEpoch p slot) = some c ∧
      (n.sybilProtection.commitSlot p root applied slot = .ok (⟨m, slot⟩, root c.ids) ∨
        n.sybilProtection.commitSlot p root applied slot = .error .applyEpoch) := by
  have hgenesis : p.timeProvider.genesisSlot ≤ slot := by
    have := h.genesis
    omega
  obtain ⟨m, hm, hkept, hsound, hfrozen⟩ := h.registerCommittee hslot
  -- every epoch up to the target has a committee now
  have hstays : ∀ e, (n.sybilProtection.committee e).isSome → (m.committeeStore.load e).isSome := by
    intro e he
    obtain ⟨d, hd⟩ := isSome_iff_exists.mp he
    exact isSome_of_mem (hkept e d hd)
  have hcurrent : (m.committeeStore.load (p.timeProvider.epochFromSlot slot)).isSome :=
    hstays _ (h.committee_isSome (hslot ▸ Nat.le_refl _))
  have htarget : (m.committeeStore.load (SybilProtection.targetCommitteeEpoch p slot)).isSome := by
    unfold SybilProtection.targetCommitteeEpoch
    by_cases hge : slot + p.maxCommittableAge ≥
        p.timeProvider.epochEnd (p.timeProvider.epochFromSlot slot)
    · simp only [if_pos hge]
      obtain ⟨hspec, _⟩ := freezeSlot_spec p (p.timeProvider.epochFromSlot slot)
      have hle : freezeSlot p (p.timeProvider.epochFromSlot slot) ≤ slot := by omega
      rcases Nat.lt_or_eq_of_le hle with hlt | heq
      · exact hstays _ (h.frozen _ (by omega))
      · exact hfrozen _ heq
    · simp only [if_neg hge]
      exact hcurrent
  obtain ⟨c, hc⟩ := isSome_iff_exists.mp htarget
  refine ⟨m, c, hkept, hsound, hfrozen, hc, ?_⟩
  have hfinish : SybilProtection.finishEpoch p m applied slot = .ok () ∨
      SybilProtection.finishEpoch p m applied slot = .error .applyEpoch := by
    obtain ⟨d, hd⟩ := isSome_iff_exists.mp hcurrent
    simp only [SybilProtection.finishEpoch, hd]
    split_ifs <;> simp
  simp only [SybilProtection.commitSlot, SybilProtection.committeeRoot, hm, hc, Except.bind]
  rcases hfinish with hok | herror
  · left
    rw [hok]
  · right
    rw [herror]

/-- A finalized slot stores at most a sound committee that is not frozen yet. -/
theorem Inv.slotFinalized (h : Inv p root n)
    (hsize : ∀ epoch, 0 < (p.targetCommitteeSize epoch).toNat) {o : SybilProtection ID}
    (ho : n.sybilProtection.slotFinalized p slot candidates = some o) :
    o.lastCommittedSlot = n.sybilProtection.lastCommittedSlot ∧
    ∀ e, o.committee e = n.sybilProtection.committee e ∨
      ∃ epoch c, e = epoch + 1 ∧ n.sybilProtection.lastCommittedSlot < freezeSlot p epoch ∧
        Sound c ∧ o.committee e = some c := by
  unfold SybilProtection.slotFinalized at ho
  dsimp only at ho
  split at ho
  next hcond =>
    split at ho
    next m hm =>
      obtain rfl := some.inj ho
      have hstores : StoresSound n.sybilProtection.seatManager m
          (p.timeProvider.epochFromSlot slot + 1) := by
        unfold SybilProtection.selectNewCommittee at hm
        split at hm
        · exact SeatManager.storesSound_of_reuseCommittee h.sound hm
        · exact SeatManager.rotateCommittee_sound (hsize _)
            (SeatManager.seated_prevCommittee (fun hload => (h.sound _ _ hload).seated) _) hm
      obtain ⟨c, hc, hload⟩ := hstores.load
      refine ⟨rfl, fun e => ?_⟩
      by_cases he : e = p.timeProvider.epochFromSlot slot + 1
      · exact .inr ⟨_, c, he, hcond.2, hc, (hload e).trans (if_pos he)⟩
      · exact .inl ((hload e).trans (if_neg he))
    · cases ho
  · obtain rfl := some.inj ho
    exact ⟨rfl, fun _ => .inl rfl⟩

/-! ## Section 4: Runs -/

variable {n' : Node ID Root}

/-- What a step does to the committees and the roots. -/
structure Advances (p : Params) (root : List ID → Root) (n n' : Node ID Root) : Prop where
  le : n.sybilProtection.lastCommittedSlot ≤ n'.sybilProtection.lastCommittedSlot
  sound : ∀ epoch c, n'.sybilProtection.committee epoch = some c → Sound c
  first : (n'.sybilProtection.committee 0).isSome
  /-- A frozen committee stays as it is. -/
  kept : ∀ epoch c, freezeSlot p epoch ≤ n.sybilProtection.lastCommittedSlot →
    n.sybilProtection.committee (epoch + 1) = some c →
    n'.sybilProtection.committee (epoch + 1) = some c
  freezes : ∀ epoch, n.sybilProtection.lastCommittedSlot < freezeSlot p epoch →
    freezeSlot p epoch ≤ n'.sybilProtection.lastCommittedSlot →
    (n'.sybilProtection.committee (epoch + 1)).isSome
  roots : ∀ slot r, (slot, r) ∈ n'.committeeRoots → (slot, r) ∈ n.committeeRoots ∨
    slot = n'.sybilProtection.lastCommittedSlot ∧ ∃ c, r = root c.ids ∧
      n'.sybilProtection.committee (SybilProtection.targetCommitteeEpoch p slot) = some c

theorem Inv.advances {i : Input ID} (h : Inv p root n)
    (hsize : ∀ epoch, 0 < (p.targetCommitteeSize epoch).toNat) (hstep : n.step p root i = some n') :
    Advances p root n n' := by
  cases i with
  | commit applied =>
    obtain ⟨m, d, hkept, hsound, hfreezes, htarget, hcommit⟩ := h.commitSlot applied rfl
    simp only [Node.step] at hstep
    rcases hcommit with hcommit | hcommit <;> rw [hcommit] at hstep
    · obtain rfl := some.inj hstep
      constructor
      · exact Nat.le_succ _
      · exact hsound
      · obtain ⟨c, hc⟩ := isSome_iff_exists.mp h.first
        exact isSome_of_mem (hkept 0 c hc)
      · exact fun epoch c _ hc => hkept (epoch + 1) c hc
      · exact fun epoch hlt hle => hfreezes epoch (Nat.le_antisymm hle hlt)
      · intro slot r hmem
        rcases mem_cons.mp hmem with hnew | hold
        · obtain ⟨rfl, rfl⟩ := Prod.mk.inj hnew
          exact .inr ⟨rfl, d, rfl, htarget⟩
        · exact .inl hold
    · cases hstep
  | finalize slot candidates =>
    simp only [Node.step] at hstep
    split_ifs at hstep
    obtain ⟨o, ho, rfl⟩ := map_eq_some_iff.mp hstep
    obtain ⟨hlast, hcommittee⟩ := h.slotFinalized hsize ho
    constructor
    · exact Nat.le_of_eq hlast.symm
    · intro e c hc
      rcases hcommittee e with hsame | ⟨_, c', _, _, hsound, hc'⟩
      · exact h.sound e c (hsame ▸ hc)
      · exact some.inj (hc'.symm.trans hc) ▸ hsound
    · rcases hcommittee 0 with hsame | ⟨_, _, hzero, _⟩
      · exact hsame ▸ h.first
      · cases hzero
    · intro epoch c hle hc
      rcases hcommittee (epoch + 1) with hsame | ⟨_, _, heq, hlt, _⟩
      · exact hsame ▸ hc
      · -- the committee that is stored is not frozen, so it is another one
        cases heq
        omega
    · exact fun epoch hlt hle => absurd (hlast ▸ hle) (Nat.not_le_of_lt hlt)
    · exact fun _ _ hmem => .inl hmem

theorem Inv.step (h : Inv p root n) (ha : Advances p root n n') : Inv p root n' where
  genesis := Nat.le_trans h.genesis ha.le
  sound := ha.sound
  first := ha.first
  frozen := by
    intro epoch hfrozen
    rcases Nat.lt_or_ge n.sybilProtection.lastCommittedSlot (freezeSlot p epoch) with hlt | hge
    · exact ha.freezes epoch hlt hfrozen
    · obtain ⟨c, hc⟩ := isSome_iff_exists.mp (h.frozen epoch hge)
      exact isSome_of_mem (ha.kept epoch c hge hc)
  roots := by
    intro slot r hmem
    rcases ha.roots slot r hmem with hold | ⟨rfl, c, hr, hc⟩
    · obtain ⟨hle, hrange⟩ := h.roots slot r hold
      refine ⟨Nat.le_trans hle ha.le, fun epoch hlo hhi => ?_⟩
      obtain ⟨c, hc, hr⟩ := hrange epoch hlo hhi
      exact ⟨c, ha.kept epoch c (Nat.le_trans hlo hle) hc, hr⟩
    · refine ⟨Nat.le_refl _, fun epoch hlo hhi => ⟨c, ?_, hr⟩⟩
      rwa [targetCommitteeEpoch_eq (Nat.le_trans h.genesis ha.le) hlo hhi] at hc

theorem inv_genesis (hgap : p.maxCommittableAge + 1 < p.timeProvider.epochDurationSlots)
    (g : GenesisCommittee ID) : Inv p root (Node.genesis p g) := by
  have hload : ∀ e, (Node.genesis p g : Node ID Root).sybilProtection.committee e =
      if e = 0 then some g.committee else none := by
    intro e
    exact load_store empty 0 g.committee e
  constructor
  case genesis => exact Nat.le_refl _
  case sound =>
    intro e c hc
    rw [hload] at hc
    split_ifs at hc
    exact some.inj hc ▸ g.sound
  case first =>
    rw [hload, if_pos rfl]
    rfl
  case frozen =>
    intro epoch hfrozen
    change freezeSlot p epoch ≤ p.timeProvider.genesisSlot at hfrozen
    obtain ⟨hspec, _⟩ := freezeSlot_spec p epoch
    have hend := p.timeProvider.epochEnd_add_one epoch
    unfold TimeProvider.epochStart at hend
    rw [Nat.add_mul] at hend
    omega
  case roots => exact fun slot r hmem => absurd hmem not_mem_nil

/-- From the commitment of the slot `MaxCommittableAge` before the end of an epoch on, the
    committee of the next epoch exists, has members and never changes, and it is the
    committee whose root is committed until the next committee is frozen.  `CommitSlot`
    fails at most because the rewards of an epoch cannot be calculated. -/
theorem committee_frozen (hgap : p.maxCommittableAge + 1 < p.timeProvider.epochDurationSlots)
    (hsize : ∀ epoch, 0 < (p.targetCommitteeSize epoch).toNat) (g : GenesisCommittee ID)
    {inputs : List (Input ID)} {n : Node ID Root}
    (hrun : run (Node.step p root) (Node.genesis p g) inputs = some n) :
    (∀ epoch, p.timeProvider.epochEnd epoch - p.maxCommittableAge ≤
        n.sybilProtection.lastCommittedSlot →
      ∃ c, n.sybilProtection.committee (epoch + 1) = some c ∧ c.ids ≠ [] ∧
        (∀ later n', run (Node.step p root) n later = some n' →
          n'.sybilProtection.committee (epoch + 1) = some c) ∧
        ∀ slot r, (slot, r) ∈ n.committeeRoots →
          p.timeProvider.epochEnd epoch - p.maxCommittableAge ≤ slot →
          slot < p.timeProvider.epochEnd (epoch + 1) - p.maxCommittableAge → r = root c.ids) ∧
    ∀ applied failure, n.sybilProtection.commitSlot p root applied
        (n.sybilProtection.lastCommittedSlot + 1) = .error failure → failure = .applyEpoch := by
  have h : Inv p root n :=
    run_invariant (fun _ _ _ hn hstep => hn.step (hn.advances hsize hstep))
      (inv_genesis hgap g) hrun
  constructor
  · intro epoch hfrozen
    obtain ⟨c, hc⟩ := isSome_iff_exists.mp (h.frozen epoch hfrozen)
    refine ⟨c, hc, (h.sound _ c hc).nonempty, ?_, ?_⟩
    · intro later n' hlater
      -- a later node has the same committee and has committed at least as many slots
      have hinv := run_invariant
        (I := fun (n' : Node ID Root) => Inv p root n' ∧
          freezeSlot p epoch ≤ n'.sybilProtection.lastCommittedSlot ∧
          n'.sybilProtection.committee (epoch + 1) = some c)
        (fun s i s' hs hstep =>
          have ha := hs.1.advances hsize hstep
          ⟨hs.1.step ha, Nat.le_trans hs.2.1 ha.le, ha.kept epoch c hs.2.1 hs.2.2⟩)
        ⟨h, hfrozen, hc⟩ hlater
      exact hinv.2.2
    · intro slot r hmem hlo hhi
      obtain ⟨d, hd, hr⟩ := (h.roots slot r hmem).2 epoch hlo hhi
      rw [hc, some.injEq] at hd
      rw [hr, hd]
  · intro applied failure hfailure
    obtain ⟨m, d, _, _, _, _, hok | herror⟩ := h.commitSlot applied rfl
    · rw [hok] at hfailure
      cases hfailure
    · rw [herror] at hfailure
      exact (Except.error.inj hfailure).symm

/-! ## Section 5: The first epoch -/

/-- A committee with one member on the first seat. -/
def soleMember (id : Nat) : GenesisCommittee Nat where
  committee :=
    { accounts := ⟨(∅ : Map Nat Pool).insert id ⟨5, 5, 1⟩, 5, 5⟩
      seatsByAccount := (∅ : Map Nat SeatIndex).insert id 0
      reused := false }
  sound :=
    { seated :=
        { members := by
            intro j
            simp only [getSeat, Accounts.has, lookup_insert_eq]
            split <;> rfl
          distinct := by
            intro j j' seat hj hj'
            simp only [getSeat, lookup_insert_eq] at hj hj'
            split at hj
            · split at hj'
              · simp_all
              · cases hj'
            · cases hj }
      balanced := ⟨rfl, rfl, show 5 < wordSize by decide, show 5 < wordSize by decide⟩
      nonempty := cons_ne_nil _ _ }

/-- Epochs of eight slots, the committee is frozen two slots before the end. -/
def eightSlots : Params where
  timeProvider := ⟨0, 8, by decide⟩
  maxCommittableAge := 2
  epochNearingThreshold := 4
  targetCommitteeSize := fun _ => 1
  maxCommittableAge_lt := by decide

/-- Slot 3 is finalized before slot 5 is committed, and account 9 is elected. -/
theorem committee_frozen_eightSlots :
    ∃ n, run (Node.step eightSlots id) (Node.genesis eightSlots (soleMember 7))
        [.commit true, .commit true, .commit true, .finalize 3 [⟨9, 4, 0, 9, 1⟩],
          .commit true, .commit true, .commit true] = some n ∧
      (5 ≤ n.sybilProtection.lastCommittedSlot ∧ (6, [9]) ∈ n.committeeRoots) ∧
      ∃ c, n.sybilProtection.committee 1 = some c ∧ ∀ slot r, (slot, r) ∈ n.committeeRoots →
        5 ≤ slot → slot < 13 → r = c.ids := by
  refine exists_result (by decide +kernel) fun n hrun hn => ?_
  have hsize : ∀ epoch, 0 < (eightSlots.targetCommitteeSize epoch).toNat := by
    intro epoch
    show 0 < (1 : UInt8).toNat
    decide
  obtain ⟨c, hc, _, _, hroots⟩ :=
    (committee_frozen (by decide) hsize (soleMember 7) hrun).1 0 hn.1
  exact ⟨c, hc, hroots⟩

/-- `MaxCommittableAge` is one less than the length of an epoch. -/
def tightParams : Params where
  timeProvider := .fourSlots
  maxCommittableAge := 3
  epochNearingThreshold := 3
  targetCommitteeSize := fun _ => 1
  maxCommittableAge_lt := by decide

/-- No commitment reuses the committee of the first epoch: the root of the second committee
    is needed at once, and there is none. -/
theorem first_commitment_without_committee :
    run (Node.step tightParams id) (Node.genesis tightParams (soleMember 7)) [] =
      some (Node.genesis tightParams (soleMember 7)) ∧
    (Node.genesis tightParams (soleMember 7) : Node Nat (List Nat)).sybilProtection.commitSlot
      tightParams id true 1 = .error .committeeNotFound :=
  ⟨rfl, rfl⟩

end AxonCore.Committee

import AxonCore.Accounts.History

/-! # Which accounts are in the tree

    `commitAccountTree` writes an account for every diff of the slot.  A diff is made for
    every account that is looked up with `getAccountDiff`: for the target of an allotment,
    for the validator of a delegation and for a version signal, too, whether the ledger
    knows the account or not.

    The tree has the accounts it had, without the destroyed ones and with the created
    ones, exactly if none of these concerns an account that is neither in the tree nor
    created in the slot (`commitSlot_members_iff`). -/

namespace AxonCore.Accounts

open AxonCore.Lib List Manager

variable {p : Params} {m : Manager} {id : AccountID} {stateDiff : StateDiff}
  {l : Ledger} {rmc : UInt64}

/-! ## Section 1: The accounts that get a diff -/

theorem foldl_delegation_isSome {f : AccountDiffs → Output → AccountDiffs}
    (hf : ∀ diffs o, ((f diffs o).lookup id).isSome ↔
      (diffs.lookup id).isSome ∨ o.delegate = some id)
    (states : List Output) (diffs : AccountDiffs) :
    ((states.foldl f diffs).lookup id).isSome ↔
      (diffs.lookup id).isSome ∨ some id ∈ states.map Output.delegate := by
  induction states generalizing diffs with
  | nil => simp
  | cons o states ih =>
    rw [foldl_cons, ih, hf, map_cons, mem_cons, or_assoc, @eq_comm _ (some id)]

theorem modifyDiff_isSome (diffs : AccountDiffs) (k : AccountID)
    (change : AccountDiff → AccountDiff) :
    ((modifyDiff diffs k change).lookup id).isSome ↔ (diffs.lookup id).isSome ∨ k = id := by
  rw [lookup_modifyDiff]
  by_cases hid : id = k
  · simp [hid]
  · simp [hid, Ne.symm hid]

theorem processDelegations_isSome (diffs : AccountDiffs) :
    ((processDelegations stateDiff diffs).lookup id).isSome ↔
      (diffs.lookup id).isSome ∨ stateDiff.Delegates id := by
  have hremove : ∀ (diffs : AccountDiffs) o, ((removeDelegation diffs o).lookup id).isSome ↔
      (diffs.lookup id).isSome ∨ o.delegate = some id := by
    intro diffs o
    unfold removeDelegation Output.delegate
    split
    · rw [modifyDiff_isSome, Option.some.injEq]
    · simp
  have hadd : ∀ (diffs : AccountDiffs) o, ((addDelegation diffs o).lookup id).isSome ↔
      (diffs.lookup id).isSome ∨ o.delegate = some id := by
    intro diffs o
    unfold addDelegation Output.delegate
    split
    · rw [modifyDiff_isSome, Option.some.injEq]
    · simp
  unfold processDelegations StateDiff.Delegates
  rw [foldl_delegation_isSome hadd, foldl_delegation_isSome hremove, map_append,
    mem_append, or_assoc]

/-! ## Section 2: The tree after a commitment -/

/-- The accounts in the tree. -/
def Manager.members (m : Manager) : Set AccountID := {id | (m.accountsTree.lookup id).isSome}

/-- The accounts of the created account outputs with a block issuer or staking feature and
    of the created implicit accounts. -/
def StateDiff.createdAccounts (p : Params) (stateDiff : StateDiff) : Set AccountID :=
  {id | ∃ o ∈ stateDiff.createdStates, o.accountID p = some id ∧ o.tracked = true}

/-- An account that is neither in the tree nor created in the slot gets mana or stake, or
    a validation block of it signals a version. -/
def Stray (p : Params) (m : Manager) (stateDiff : StateDiff) (id : AccountID) : Prop :=
  id ∉ m.members ∧ id ∉ stateDiff.createdAccounts p ∧
    (stateDiff.Allots id ∨ stateDiff.Delegates id ∨
      ∃ s ∈ (m.latestSupportedVersionSignals (m.latestCommittedSlot + 1)).lookup id,
        0 < s.highestSupportedVersion)

theorem collectAccountOutputs_isSome (states : List Output) (id : AccountID) :
    ((collectAccountOutputs p states).lookup id).isSome ↔
      ∃ o ∈ states, o.accountID p = some id ∧ o.tracked = true := by
  have hfold : ∀ outputs : Map AccountID Output,
      ((states.foldl (collectAccountOutput p) outputs).lookup id).isSome ↔
        (outputs.lookup id).isSome ∨ ∃ o ∈ states, o.accountID p = some id ∧ o.tracked = true := by
    induction states with
    | nil => simp
    | cons o states ih =>
      intro outputs
      rw [foldl_cons, ih, lookup_collectAccountOutput, exists_mem_cons_iff, ← or_assoc]
      by_cases ho : o.accountID p = some id ∧ o.tracked = true <;> simp [ho]
  unfold collectAccountOutputs
  simpa using hfold ∅

/-- An account that is not in the tree gets a diff if it is created, and if it is a stray
    one. -/
theorem Ledger.commitSlot_unknown_diff {diffs₀ diffs₂ diffs₃ diffs₄ : AccountDiffs}
    (hallot : l.manager.processStateDiffTransactions (l.manager.latestCommittedSlot + 1) stateDiff =
      some diffs₀)
    (hprepare : l.manager.prepareAccountDiffs (l.manager.latestCommittedSlot + 1)
      (collectAccountOutputs p stateDiff.destroyedStates)
      (collectAccountOutputs p stateDiff.createdStates) (processDelegations stateDiff diffs₀) =
      some diffs₂)
    (hburns : l.manager.updateSlotDiffWithBurns p (l.manager.latestCommittedSlot + 1) diffs₂ rmc =
      some diffs₃)
    (hsignals : l.manager.updateSlotDiffWithVersionSignals (l.manager.latestCommittedSlot + 1)
      diffs₃ = some diffs₄)
    (hunknown : id ∉ l.manager.members) :
    (diffs₄.lookup id).isSome ↔
      id ∈ stateDiff.createdAccounts p ∨ Stray p l.manager stateDiff id := by
  have hload : l.manager.accountsTree.lookup id = none := by
    simpa [members] using hunknown
  have hallots := (processStateDiffTransactions_spec hallot id).isSome_iff
  have hprepared := prepareAccountDiffs_spec hprepare id
  have hnotConsumed : ¬ ((collectAccountOutputs p stateDiff.destroyedStates).lookup id).isSome := by
    intro hconsumed
    have hloaded := hprepared.loaded_isSome hconsumed
    rw [hload] at hloaded
    cases hloaded
  obtain ⟨_, _, hburned⟩ := updateSlotDiffWithBurns_spec hburns
  obtain ⟨hkept, hnone⟩ := (hburned id).isSome_iff
  have hsignaled := (updateSlotDiffWithVersionSignals_spec hsignals id).isSome_iff
  have hcreated : ((collectAccountOutputs p stateDiff.createdStates).lookup id).isSome ↔
      id ∈ stateDiff.createdAccounts p := collectAccountOutputs_isSome stateDiff.createdStates id
  -- the version of an account without data is zero
  have hzero : ((l.manager.accountsTree.lookup id).getD
      (newAccountData id)).latestSupportedProtocolVersionAndHash.version = 0 := by
    rw [hload]
    rfl
  rw [hsignaled, Iff.intro (hnone hload) hkept, hprepared.isSome_iff, processDelegations_isSome,
    hallots, hcreated, hzero, or_iff_right hnotConsumed]
  unfold Stray
  by_cases hid : id ∈ stateDiff.createdAccounts p
  · simp only [hid, or_true, true_or]
  · simp only [hid, hunknown, or_false, false_or, not_false_eq_true, true_and, or_assoc]

theorem Ledger.commitSlot_member {l' : Ledger} (h : l.commitSlot p rmc stateDiff = some l')
    (id : AccountID) :
    id ∈ l'.manager.members ↔
      id ∈ l.manager.members \ {id | id ∈ destroyedAccounts p stateDiff} ∪
        stateDiff.createdAccounts p ∨ Stray p l.manager stateDiff id := by
  obtain ⟨diffs₀, diffs₂, hallot, hprepare, happly, _⟩ := Ledger.commitSlot_applies h
  obtain ⟨diffs₃, diffs₄, diffs₅, diffs₆, _, _, hburns, hsignals, hpreserve, hcommit, _⟩ :=
    applyDiff_stages happly
  have hprepared := prepareAccountDiffs_spec hprepare id
  have hpreserved := preserveDestroyed_spec hpreserve id
  have hcommitted := commitAccountTree_spec hcommit id
  by_cases hdestroyed : id ∈ destroyedAccounts p stateDiff
  · -- it is in the tree, so it is no stray account, and its diff deletes it
    obtain ⟨o, ho, hid, htracked, hnone⟩ := mem_destroyedAccounts hdestroyed
    have hconsumed := (collectAccountOutputs_isSome stateDiff.destroyedStates id).mpr
      ⟨o, ho, hid, htracked⟩
    have hmember : id ∈ l.manager.members := hprepared.loaded_isSome hconsumed
    have hnotCreated : id ∉ stateDiff.createdAccounts p := by
      intro hcreated
      exact absurd hnone (Option.isSome_iff_ne_none.mp
        ((collectAccountOutputs_isSome stateDiff.createdStates id).mpr hcreated))
    obtain ⟨_, _, hburned⟩ := updateSlotDiffWithBurns_spec hburns
    have hdiff : (diffs₄.lookup id).isSome := by
      rw [(updateSlotDiffWithVersionSignals_spec hsignals id).isSome_iff]
      exact .inl ((hburned id).isSome_iff.1 (hprepared.isSome_iff.mpr (.inr (.inl hconsumed))))
    obtain ⟨a, _, hd⟩ := hpreserved.preserved hdiff hdestroyed
    have hdeleted : id ∉ l'.manager.members := by
      simp [members, (hcommitted.deleted _ hd hdestroyed).1]
    simp [hdeleted, hdestroyed, hnotCreated, Stray, hmember]
  · have hdiff := hpreserved.kept hdestroyed
    have hmember : id ∈ l'.manager.members ↔
        id ∈ l.manager.members ∨ (diffs₄.lookup id).isSome := by
      unfold members
      cases hd : diffs₄.lookup id with
      | none => simp [(hcommitted.unset (hdiff.trans hd)).1]
      | some e =>
        obtain ⟨_, a, _, _, hloaded, _⟩ := hcommitted.applied e (hdiff.trans hd) hdestroyed
        simp [hloaded]
    by_cases hknown : id ∈ l.manager.members
    · simp [hmember, hknown, hdestroyed]
    · rw [hmember, Ledger.commitSlot_unknown_diff hallot hprepare hburns hsignals hknown]
      simp [hknown]

/-- The accounts in the tree are those before the slot, without the destroyed and with the
    created ones, exactly if there is no stray account. -/
theorem commitSlot_members_iff {l l' : Ledger} {rmc : UInt64}
    (h : l.commitSlot p rmc stateDiff = some l') :
    l'.manager.members = l.manager.members \ {id | id ∈ destroyedAccounts p stateDiff} ∪
        stateDiff.createdAccounts p ↔
      ∀ id, ¬ Stray p l.manager stateDiff id := by
  constructor
  · intro heq id hstray
    -- a stray account is in the tree afterwards, but neither known nor created
    have hin := (Ledger.commitSlot_member h id).mpr (.inr hstray)
    rw [heq] at hin
    rcases hin with ⟨hknown, _⟩ | hcreated
    · exact hstray.1 hknown
    · exact hstray.2.1 hcreated
  · intro hnone
    ext id
    rw [Ledger.commitSlot_member h id, or_iff_left (hnone id)]

/-- A slot in which account 1 is destroyed, an implicit account is created, and it gets an
    allotment and a delegation. -/
theorem commitSlot_members_iff_destroyed_and_created :
    ∃ l l', genesis 0 [(sampleOutput 10, 100)] = some l ∧
      l.commitSlot sampleParams 1
        ⟨[(1011, 5)], [.implicitAccount 11 7, .delegation 12 true 1011 3], [sampleOutput 10]⟩ =
        some l' ∧ l.manager.members = {1} ∧ l'.manager.members = {1011} := by
  obtain ⟨l, hgenesis, hkeys, hsome⟩ : ∃ l, genesis 0 [(sampleOutput 10, 100)] = some l ∧
      l.manager.accountsTree.keys = [1] ∧ (l.commitSlot sampleParams 1 ⟨[(1011, 5)],
        [.implicitAccount 11 7, .delegation 12 true 1011 3], [sampleOutput 10]⟩).isSome := by
    decide +kernel
  obtain ⟨l', hl'⟩ := Option.isSome_iff_exists.mp hsome
  have hbefore : l.manager.members = {1} := by
    ext id
    rw [members, Set.mem_ofPred_eq, ← mem_keys_iff, hkeys, mem_singleton]
    rfl
  have hcreated : StateDiff.createdAccounts sampleParams
      ⟨[(1011, 5)], [.implicitAccount 11 7, .delegation 12 true 1011 3], [sampleOutput 10]⟩ =
      {1011} := by
    ext id
    simp only [StateDiff.createdAccounts, Output.accountID, Output.tracked,
      Output.isImplicitAccount, sampleParams, Set.mem_ofPred_eq, Set.mem_singleton_iff]
    simp [@eq_comm _ id]
  have hnone : ∀ id, ¬ Stray sampleParams l.manager
      ⟨[(1011, 5)], [.implicitAccount 11 7, .delegation 12 true 1011 3], [sampleOutput 10]⟩ id := by
    rintro id ⟨_, hnew, hstray⟩
    rw [hcreated] at hnew
    rcases hstray with hallots | hdelegates | ⟨s, hs, _⟩
    · exact hnew (by simpa [StateDiff.Allots] using hallots)
    · exact hnew (by simpa [StateDiff.Delegates, Output.delegate, sampleOutput] using hdelegates)
    · -- no block has been tracked
      obtain rfl := Option.some.inj hgenesis
      simp [emptyManager] at hs
  refine ⟨l, l', hgenesis, hl', hbefore, ?_⟩
  rw [(commitSlot_members_iff hl').mpr hnone, hbefore, hcreated]
  have hdestroyed : destroyedAccounts sampleParams
      ⟨[(1011, 5)], [.implicitAccount 11 7, .delegation 12 true 1011 3], [sampleOutput 10]⟩ =
      [1] := by
    decide
  rw [hdestroyed]
  simp

/-- An allotment to account 5 and a delegation to account 6. -/
def sampleStray : StateDiff := ⟨[(5, 10)], [.delegation 12 true 6 3], []⟩

/-- Both accounts are unknown, and both are in the tree afterwards. -/
theorem commitSlot_members_stray :
    ∃ l l', genesis 0 [] = some l ∧ l.commitSlot sampleParams 1 sampleStray = some l' ∧
      l.manager.members = ∅ ∧ 5 ∈ l'.manager.members ∧ 6 ∈ l'.manager.members ∧
      l'.manager.members ≠
        l.manager.members \ {id | id ∈ destroyedAccounts sampleParams sampleStray} ∪
          sampleStray.createdAccounts sampleParams := by
  obtain ⟨l, hgenesis, l', hl', hfive, hsix⟩ : ∃ l, genesis 0 [] = some l ∧
      ∃ l', l.commitSlot sampleParams 1 sampleStray = some l' ∧
        (l'.manager.accountsTree.lookup 5).isSome ∧ (l'.manager.accountsTree.lookup 6).isSome := by
    decide +kernel
  have hbefore : l.manager.members = ∅ := by
    obtain rfl := Option.some.inj hgenesis
    ext id
    simp [members, emptyManager]
  have hcreated : 5 ∉ sampleStray.createdAccounts sampleParams := by
    simp [StateDiff.createdAccounts, sampleStray, Output.accountID]
  refine ⟨l, l', hgenesis, hl', hbefore, hfive, hsix, fun heq => ?_⟩
  have hin : 5 ∈ l'.manager.members := hfive
  rw [heq, hbefore] at hin
  exact hin.elim (fun h => h.1) hcreated

end AxonCore.Accounts

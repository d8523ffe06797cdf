import AxonCore.Accounts.Diffs

/-! # What the commitment of a slot does to one account

    `CommitSlot` goes through the accounts in seven loops: allotments, delegations,
    consumed and created accounts, burns, version signals, destroyed accounts, and
    the commitment of the tree.  No loop mixes the data of two accounts, so each of
    them is described by what it does to the diff of one account, and
    `Ledger.commitSlot_spec` puts the descriptions together. -/

namespace AxonCore.Accounts

open AxonCore.Lib Function Option Manager AList

variable {p : Params} {m m' : Manager} {id : AccountID} {loaded : Option AccountData}
  {d : Option AccountDiff} {stateDiff : StateDiff} {diffs diffs' : AccountDiffs} {rmc : UInt64}
  {slot : Nat} {s' : Map AccountID AccountData × AccountDiffs} {l l' : Ledger}

/-- The data of an account at the latest committed slot is what the tree holds. -/
@[simp] theorem Manager.account_latest (m : Manager) (id : AccountID) :
    m.account id m.latestCommittedSlot = some (m.accountsTree.lookup id) := by
  unfold account rollbackAccountTo
  rw [if_neg (Nat.lt_irrefl _), Nat.sub_self]
  cases hload : m.accountsTree.lookup id with
  | none => rfl
  | some a => rfl

theorem Manager.account_pred (m : Manager) (id : AccountID) :
    m.account id (m.latestCommittedSlot + 1 - 1) = some (m.accountsTree.lookup id) := by
  rw [Nat.add_sub_cancel]
  exact m.account_latest id

/-! ## Section 1: Allotments and delegations -/

section

variable (stateDiff : StateDiff) (id : AccountID)

/-- An allotment of the slot goes to the account. -/
def StateDiff.Allots : Prop :=
  id ∈ stateDiff.allotments.map Prod.fst

instance : Decidable (stateDiff.Allots id) :=
  inferInstanceAs (Decidable (id ∈ _))

/-- The validator that a delegating output delegates to. -/
def Output.delegate : Output → Option AccountID
  | .delegation _ true validatorID _ => some validatorID
  | _ => none

/-- A delegating output of the account is created or spent in the slot. -/
def StateDiff.Delegates : Prop :=
  some id ∈ (stateDiff.destroyedStates ++ stateDiff.createdStates).map Output.delegate

instance : Decidable (stateDiff.Delegates id) :=
  inferInstanceAs (Decidable (some id ∈ _))

end

/-- A diff that leaves the output, the expiry slot, the keys, the end epoch and the
    version of the account as they are. -/
structure Plain (loaded : Option AccountData) (d : AccountDiff) : Prop where
  expirySlot : d.previousExpirySlot = d.newExpirySlot
  outputID : d.previousOutputID = d.newOutputID
  newOutputID : d.newOutputID ≠ emptyOutputID → ∃ a, loaded = some a ∧ d.newOutputID = a.outputID
  keysAdded : d.blockIssuerKeysAdded = ∅
  keysRemoved : d.blockIssuerKeysRemoved = ∅
  stakeEndEpoch : d.stakeEndEpochChange = 0
  version : d.prevLatestSupportedVersionAndHash = d.newLatestSupportedVersionAndHash

theorem plain_newAccountDiff (loaded : Option AccountData) : Plain loaded newAccountDiff :=
  ⟨rfl, rfl, fun h => absurd rfl h, rfl, rfl, rfl, rfl⟩

theorem Plain.reversible {a : AccountData} {d : AccountDiff} (h : Plain (some a) d) :
    Reversible a d where
  expirySlot hne := absurd h.expirySlot hne
  newOutputID hne := by rwa [h.outputID]
  previousOutputID hne := by
    rw [h.outputID] at hne ⊢
    obtain ⟨b, hb, heq⟩ := h.newOutputID hne
    rw [heq, some.inj hb]
  keysAdded := by
    rw [h.keysAdded]
    exact Finset.disjoint_empty_left _
  keysRemoved := by
    rw [h.keysRemoved]
    exact Finset.empty_subset _
  stakeEndEpoch := ⟨a.stakeEndEpoch, by rw [h.stakeEndEpoch, Int64.sub_self]⟩
  version hne := absurd h.version hne

/-- What the allotments leave for one account. -/
structure AllotSpec (loaded : Option AccountData) (stateDiff : StateDiff) (id : AccountID)
    (d : Option AccountDiff) : Prop where
  isSome_iff : d.isSome ↔ stateDiff.Allots id
  plain : ∀ d' ∈ d, Plain loaded d'
  updatedSlot : ∀ d' ∈ d, ∀ a, loaded = some a → d'.previousUpdatedSlot = a.credits.updateSlot

theorem lookup_modifyDiff (diffs : AccountDiffs) (k id : AccountID)
    (change : AccountDiff → AccountDiff) :
    (modifyDiff diffs id change).lookup k =
      if k = id then some (change ((diffs.lookup id).getD newAccountDiff)) else diffs.lookup k :=
  lookup_insert_eq diffs k id _

theorem Plain.allotDiff {d : AccountDiff} (h : Plain loaded d) (mana : UInt64) :
    Plain loaded (Accounts.allotDiff loaded mana d) := by
  cases loaded with
  | none => exact h
  | some a =>
    exact ⟨rfl, rfl, fun _ => ⟨a, rfl, rfl⟩, h.keysAdded, h.keysRemoved, h.stakeEndEpoch, h.version⟩

theorem plain_getD (h : ∀ d' ∈ d, Plain loaded d') : Plain loaded (d.getD newAccountDiff) := by
  cases d with
  | none => exact plain_newAccountDiff loaded
  | some d => exact h d rfl

theorem Manager.processStateDiffTransactions_spec
    (h : m.processStateDiffTransactions (m.latestCommittedSlot + 1) stateDiff = some diffs)
    (id : AccountID) : AllotSpec (m.accountsTree.lookup id) stateDiff id (diffs.lookup id) := by
  -- an account has a diff as soon as one of its allotments has been processed
  have hloop := run_loop (I := fun rest diffs =>
    ((diffs.lookup id).isSome ∨ id ∈ rest.map Prod.fst ↔ stateDiff.Allots id) ∧
    ∀ d ∈ diffs.lookup id, Plain (m.accountsTree.lookup id) d ∧
      ∀ a, m.accountsTree.lookup id = some a → d.previousUpdatedSlot = a.credits.updateSlot)
    ?_ ⟨by simp [StateDiff.Allots], fun d hd => by simp at hd⟩ h
  · obtain ⟨hsome, hd⟩ := hloop
    exact ⟨by simpa using hsome, fun d h => (hd d h).1, fun d h => (hd d h).2⟩
  intro allotment rest t t' hI hstep
  unfold allot at hstep
  rw [m.account_pred, map_some, some.injEq] at hstep
  subst hstep
  rw [lookup_modifyDiff]
  split_ifs with hid
  · rw [← hid]
    constructor
    · rw [← hI.1, List.map_cons, hid]
      simp
    · intro d hd
      obtain rfl := some.inj hd
      have hplain := plain_getD fun d hd => (hI.2 d hd).1
      exact ⟨hplain.allotDiff allotment.2, fun a ha => by rw [ha]; rfl⟩
  · constructor
    · rw [← hI.1, List.map_cons, List.mem_cons, or_iff_right hid]
    · exact hI.2

/-- What the delegations change for one account. -/
structure DelegationSpec (states : List Output) (id : AccountID) (d d' : Option AccountDiff) :
    Prop where
  unchanged : some id ∉ states.map Output.delegate → d' = d
  changed : d' = d ∨
    ∃ change, d' = some { d.getD newAccountDiff with delegationStakeChange := change }

theorem DelegationSpec.trans {states states' : List Output} {d' d'' : Option AccountDiff}
    (h : DelegationSpec states id d d') (h' : DelegationSpec states' id d' d'') :
    DelegationSpec (states ++ states') id d d'' where
  unchanged hnot := by
    rw [List.map_append, List.mem_append, not_or] at hnot
    rw [h'.unchanged hnot.2, h.unchanged hnot.1]
  changed := by
    rcases h'.changed with heq | ⟨change, heq⟩
    · rw [heq]
      exact h.changed
    · right
      use change
      rcases h.changed with heq' | ⟨_, heq'⟩
      · rw [heq, heq']
      · rw [heq, heq']
        rfl

theorem foldl_delegation {f : AccountDiffs → Output → AccountDiffs}
    (hf : ∀ diffs o, DelegationSpec [o] id (diffs.lookup id) ((f diffs o).lookup id))
    (states : List Output) (diffs : AccountDiffs) :
    DelegationSpec states id (diffs.lookup id) ((states.foldl f diffs).lookup id) := by
  induction states generalizing diffs with
  | nil => exact ⟨fun _ => rfl, .inl rfl⟩
  | cons o states ih => exact (hf diffs o).trans (ih (f diffs o))

theorem delegationSpec_modifyDiff (diffs : AccountDiffs) (o : Output) {validatorID : AccountID}
    (ho : o.delegate = some validatorID) (change : AccountDiff → Int64) :
    DelegationSpec [o] id (diffs.lookup id)
      ((modifyDiff diffs validatorID fun d =>
        { d with delegationStakeChange := change d }).lookup id) := by
  rw [lookup_modifyDiff]
  by_cases hid : id = validatorID
  · subst hid
    rw [if_pos rfl]
    exact ⟨fun hnot => absurd (by simp [ho]) hnot, .inr ⟨_, rfl⟩⟩
  · rw [if_neg hid]
    exact ⟨fun _ => rfl, .inl rfl⟩

theorem removeDelegation_spec (diffs : AccountDiffs) (o : Output) :
    DelegationSpec [o] id (diffs.lookup id) ((removeDelegation diffs o).lookup id) := by
  unfold removeDelegation
  split
  · exact delegationSpec_modifyDiff diffs _ rfl _
  · exact ⟨fun _ => rfl, .inl rfl⟩

theorem addDelegation_spec (diffs : AccountDiffs) (o : Output) :
    DelegationSpec [o] id (diffs.lookup id) ((addDelegation diffs o).lookup id) := by
  unfold addDelegation
  split
  · exact delegationSpec_modifyDiff diffs _ rfl _
  · exact ⟨fun _ => rfl, .inl rfl⟩

theorem processDelegations_spec (stateDiff : StateDiff) (diffs : AccountDiffs) (id : AccountID) :
    DelegationSpec (stateDiff.destroyedStates ++ stateDiff.createdStates) id (diffs.lookup id)
      ((processDelegations stateDiff diffs).lookup id) :=
  (foldl_delegation removeDelegation_spec stateDiff.destroyedStates diffs).trans
    (foldl_delegation addDelegation_spec stateDiff.createdStates _)

/-! ## Section 2: Consumed and created accounts -/

/-- What `prepareAccountDiffs` does to the diff of one account. -/
def PrepareSpec (loaded : Option AccountData) (consumed created : Option Output)
    (d d' : Option AccountDiff) : Prop :=
  match consumed, created with
  | some consumedOutput, some createdOutput => ∃ a e, loaded = some a ∧ d' = some e ∧
      transitionDiff a consumedOutput createdOutput (d.getD newAccountDiff) = some e
  | some _, none => loaded.isSome ∧ d' = some (d.getD newAccountDiff)
  | none, some createdOutput => ∃ e, d' = some e ∧
      creationDiff createdOutput (d.getD newAccountDiff) = some e
  | none, none => d' = d

variable {consumed created : Option Output} {d' : Option AccountDiff}

theorem PrepareSpec.isSome_iff (h : PrepareSpec loaded consumed created d d') :
    d'.isSome ↔ d.isSome ∨ consumed.isSome ∨ created.isSome := by
  unfold PrepareSpec at h
  cases consumed with
  | none =>
    cases created with
    | none => simp [h]
    | some o =>
      obtain ⟨e, rfl, _⟩ := h
      simp
  | some c =>
    cases created with
    | none => simp [h.2]
    | some o =>
      obtain ⟨a, e, _, rfl, _⟩ := h
      simp

theorem PrepareSpec.loaded_isSome (h : PrepareSpec loaded consumed created d d')
    (hconsumed : consumed.isSome) : loaded.isSome := by
  cases consumed with
  | none => cases hconsumed
  | some c =>
    cases created with
    | none => exact h.1
    | some o =>
      obtain ⟨a, e, rfl, _⟩ := h
      rfl

theorem Manager.consumedDiff_eq_some {e : AccountDiff}
    (h : m.consumedDiff (m.latestCommittedSlot + 1) id consumed created d = some e) :
    ∃ a, m.accountsTree.lookup id = some a ∧ (created = none → e = d.getD newAccountDiff) ∧
      ∀ c o, consumed = some c → created = some o →
        transitionDiff a c o (d.getD newAccountDiff) = some e := by
  unfold consumedDiff at h
  rw [m.account_pred] at h
  cases hload : m.accountsTree.lookup id with
  | none =>
    rw [hload] at h
    cases h
  | some a =>
    rw [hload] at h
    refine ⟨a, rfl, ?_, ?_⟩
    · intro ho
      subst ho
      cases consumed with
      | none => exact (some.inj h).symm
      | some c => exact (some.inj h).symm
    · intro c o hc ho
      subst hc ho
      exact h

theorem Manager.prepareAccountDiffs_spec {consumed created : Map AccountID Output}
    (h : m.prepareAccountDiffs (m.latestCommittedSlot + 1) consumed created diffs = some diffs')
    (id : AccountID) :
    PrepareSpec (m.accountsTree.lookup id) (consumed.lookup id) (created.lookup id)
      (diffs.lookup id) (diffs'.lookup id) := by
  obtain ⟨mid, hconsumed, hcreated⟩ := bind_eq_some_iff.mp h
  cases hc : consumed.lookup id with
  | none =>
    have hmid := alterKeys_keys_none hconsumed hc
    cases ho : created.lookup id with
    | none => exact (alterKeys_keys_none hcreated ho).trans hmid
    | some o =>
      have hcreate := alterKeys_keys_some hcreated ho
      rw [hc, ho, hmid] at hcreate
      obtain ⟨e, he, hlookup⟩ := map_eq_some_iff.mp hcreate
      exact ⟨e, hlookup.symm, he⟩
  | some c =>
    obtain ⟨e, he, hmid⟩ := map_eq_some_iff.mp (alterKeys_keys_some hconsumed hc)
    obtain ⟨a, hload, hkept, htransition⟩ := consumedDiff_eq_some he
    -- the second loop skips the accounts of the first one
    have hlast : diffs'.lookup id = mid.lookup id := by
      cases ho : created.lookup id with
      | none => exact alterKeys_keys_none hcreated ho
      | some o =>
        have hskip := alterKeys_keys_some hcreated ho
        rw [hc] at hskip
        exact (some.inj hskip).symm
    cases ho : created.lookup id with
    | none =>
      rw [hload, hlast, ← hmid]
      exact ⟨rfl, congrArg some (hkept ho)⟩
    | some o => exact ⟨a, e, hload, hlast.trans hmid.symm, htransition c o hc ho⟩

/-! ## Section 3: Burns, version signals and destroyed accounts -/

/-- What `updateSlotDiffWithBurns` does to the diff of one account with data `loaded`. -/
def BurnSpec (loaded : Option AccountData) (burn : Option UInt64) (d d' : Option AccountDiff) :
    Prop :=
  match burn, d with
  | none, _ => d' = d
  | some burn, some e => d' = some { e with bicChange := e.bicChange - burn.toInt64 }
  | some burn, none => ∃ a, loaded = some a ∧ d' = some { newAccountDiff with
      bicChange := 0 - burn.toInt64
      previousUpdatedSlot := a.credits.updateSlot
      newExpirySlot := a.expirySlot
      previousExpirySlot := a.expirySlot
      newOutputID := a.outputID
      previousOutputID := a.outputID }

theorem BurnSpec.isSome_iff {burn : Option UInt64} (h : BurnSpec loaded burn d d') :
    (d.isSome → d'.isSome) ∧ (loaded = none → d'.isSome → d.isSome) := by
  unfold BurnSpec at h
  cases burn with
  | none =>
    subst h
    exact ⟨fun h => h, fun _ h => h⟩
  | some burn =>
    cases d with
    | some e => simp [h]
    | none =>
      obtain ⟨a, rfl, _⟩ := h
      exact ⟨fun h => (nomatch h), fun h => (nomatch h)⟩

theorem Manager.updateSlotDiffWithBurns_spec
    (h : m.updateSlotDiffWithBurns p (m.latestCommittedSlot + 1) diffs rmc = some diffs') :
    ∃ burns, m.computeBlockBurnsForSlot p (m.latestCommittedSlot + 1) rmc = some burns ∧
      ∀ id, BurnSpec (m.accountsTree.lookup id) (burns.lookup id) (diffs.lookup id)
        (diffs'.lookup id) := by
  obtain ⟨burns, hburns, hloop⟩ := bind_eq_some_iff.mp h
  refine ⟨burns, hburns, fun id => ?_⟩
  cases hb : burns.lookup id with
  | none => exact alterKeys_keys_none hloop hb
  | some burn =>
    obtain ⟨e, he, hlookup⟩ := map_eq_some_iff.mp (alterKeys_keys_some hloop hb)
    rw [hb, getD_some] at he
    cases hd : diffs.lookup id with
    | some d =>
      rw [hd] at he
      exact hlookup.symm.trans he.symm
    | none =>
      rw [hd] at he
      unfold burnDiff at he
      simp only [m.account_pred] at he
      cases hload : m.accountsTree.lookup id with
      | none =>
        rw [hload] at he
        cases he
      | some a =>
        rw [hload] at he
        exact ⟨a, rfl, hlookup.symm.trans he.symm⟩

/-- What `updateSlotDiffWithVersionSignals` does to the diff of one account. -/
def SignalSpec (current : VersionAndHash) (signal : Option SignaledBlock)
    (d d' : Option AccountDiff) : Prop :=
  match signal with
  | none => d' = d
  | some signaledBlock => d' = signalDiff current signaledBlock d

theorem SignalSpec.isSome_iff {current : VersionAndHash} {signal : Option SignaledBlock}
    (h : SignalSpec current signal d d') :
    d'.isSome ↔ d.isSome ∨ ∃ s ∈ signal, current.version < s.highestSupportedVersion := by
  unfold SignalSpec at h
  cases signal with
  | none => simp [h]
  | some s =>
    have hnewer : ∀ v h, current.version < v → current ≠ ⟨v, h⟩ := by
      rintro v h hlt rfl
      exact Nat.lt_irrefl _ hlt
    subst h
    unfold signalDiff
    dsimp only
    split
    · next hcond => simp [hcond.2]
    · next hcond =>
      have hle : ¬ current.version < s.highestSupportedVersion :=
        fun hlt => hcond ⟨hnewer _ _ hlt, hlt⟩
      simp [hle]

theorem Manager.updateSlotDiffWithVersionSignals_spec
    (h : m.updateSlotDiffWithVersionSignals slot diffs = some diffs') (id : AccountID) :
    SignalSpec ((m.accountsTree.lookup id).getD
      (newAccountData id)).latestSupportedProtocolVersionAndHash
      ((m.latestSupportedVersionSignals slot).lookup id) (diffs.lookup id) (diffs'.lookup id) := by
  unfold updateSlotDiffWithVersionSignals at h
  cases hs : (m.latestSupportedVersionSignals slot).lookup id with
  | none => exact alterKeys_keys_none h hs
  | some signaledBlock =>
    have hloop := alterKeys_keys_some h hs
    rw [hs] at hloop
    exact (some.inj hloop).symm

/-- What the loop over the destroyed accounts does to the diff of one account. -/
structure PreserveSpec (loaded : Option AccountData) (destroyed : Prop)
    (d d' : Option AccountDiff) : Prop where
  unset : d = none → d' = none
  preserved : d.isSome → destroyed → ∃ a, loaded = some a ∧
    d' = some (preserveDestroyedAccountData a)
  kept : ¬ destroyed → d' = d

section

variable {destroyedAccounts : List AccountID}

theorem Manager.preserveDestroyed_spec
    (h : m.preserveDestroyed destroyedAccounts diffs = some diffs') (id : AccountID) :
    PreserveSpec (m.accountsTree.lookup id) (id ∈ destroyedAccounts) (diffs.lookup id)
      (diffs'.lookup id) := by
  constructor
  · intro hnone
    rw [alterKeys_keys_none h hnone, hnone]
  · intro hsome hdestroyed
    obtain ⟨d, hd⟩ := isSome_iff_exists.mp hsome
    have hloop := alterKeys_keys_some h hd
    rw [if_pos hdestroyed] at hloop
    obtain ⟨a, ha, hlookup⟩ := map_eq_some_iff.mp hloop
    exact ⟨a, ha, hlookup.symm⟩
  · intro hkept
    cases hd : diffs.lookup id with
    | none => rw [alterKeys_keys_none h hd, hd]
    | some d =>
      have hloop := alterKeys_keys_some h hd
      rw [if_neg hkept] at hloop
      exact (some.inj hloop).symm.trans hd

/-! ## Section 4: The tree and the stored diffs -/

/-- What `commitAccountTree` does to the data and the diff of one account. -/
structure CommitSpec (p : Params) (slot : Nat) (id : AccountID) (destroyed : Prop)
    (loaded loaded' : Option AccountData) (d d' : Option AccountDiff) : Prop where
  unset : d = none → loaded' = loaded ∧ d' = none
  deleted : ∀ e, d = some e → destroyed → loaded' = none ∧ d' = some e
  applied : ∀ e, d = some e → ¬ destroyed → ∃ e' a', decayCredits p slot loaded e = some e' ∧
    e'.apply slot loaded.isSome (loaded.getD (newAccountData id)) = some a' ∧
    loaded' = some a' ∧ d' = some e'

theorem commitSpec_none {destroyed : Prop} :
    CommitSpec p slot id destroyed loaded loaded none none :=
  ⟨fun _ => ⟨rfl, rfl⟩, fun _ he => (nomatch he), fun _ he => (nomatch he)⟩

theorem commitAccount_own {s : Map AccountID AccountData × AccountDiffs}
    (h : commitAccount p slot destroyedAccounts s id = some s') :
    CommitSpec p slot id (id ∈ destroyedAccounts) (s.1.lookup id) (s'.1.lookup id)
      (s.2.lookup id) (s'.2.lookup id) := by
  unfold commitAccount at h
  cases hd : s.2.lookup id with
  | none =>
    rw [hd] at h
    obtain rfl := some.inj h
    rw [hd]
    exact commitSpec_none
  | some e =>
    rw [hd] at h
    dsimp only at h
    split_ifs at h with hdestroyed
    · rw [some.injEq] at h
      subst h
      exact ⟨fun hn => (nomatch hn), fun e' he _ => ⟨lookup_erase id s.1, hd.trans he⟩,
        fun _ _ hnot => absurd hdestroyed hnot⟩
    · obtain ⟨e', he', hmap⟩ := bind_eq_some_iff.mp h
      obtain ⟨a', ha', rfl⟩ := map_eq_some_iff.mp hmap
      refine ⟨fun hn => (nomatch hn), fun _ _ hin => absurd hin hdestroyed, fun e₀ he₀ _ => ?_⟩
      obtain rfl := some.inj he₀
      exact ⟨e', a', he', ha', lookup_insert s.1, lookup_insert s.2⟩

theorem commitAccount_frame (s : Map AccountID AccountData × AccountDiffs) (k : AccountID)
    (s' : Map AccountID AccountData × AccountDiffs)
    (h : commitAccount p slot destroyedAccounts s k = some s') (j : AccountID) (hj : j ≠ k) :
    (s'.1.lookup j, s'.2.lookup j) = (s.1.lookup j, s.2.lookup j) := by
  unfold commitAccount at h
  cases hd : s.2.lookup k with
  | none =>
    rw [hd] at h
    rw [some.inj h]
  | some e =>
    rw [hd] at h
    dsimp only at h
    split_ifs at h with hdestroyed
    · rw [some.injEq] at h
      subst h
      rw [lookup_erase_ne hj]
    · obtain ⟨e', _, hmap⟩ := bind_eq_some_iff.mp h
      obtain ⟨a', _, rfl⟩ := map_eq_some_iff.mp hmap
      rw [lookup_insert_ne hj, lookup_insert_ne hj]

theorem Manager.commitAccountTree_spec
    (h : m.commitAccountTree p slot diffs destroyedAccounts = some s') (id : AccountID) :
    CommitSpec p slot id (id ∈ destroyedAccounts) (m.accountsTree.lookup id) (s'.1.lookup id)
      (diffs.lookup id) (s'.2.lookup id) := by
  obtain ⟨hown, hother⟩ := run_keys (fun s k => (s.1.lookup k, s.2.lookup k))
    (R := fun k v v' => CommitSpec p slot k (k ∈ destroyedAccounts) v.1 v'.1 v.2 v'.2)
    (fun s k s' => commitAccount_own) commitAccount_frame diffs.keys_nodup h
  by_cases hkey : id ∈ diffs.keys
  · exact hown id hkey
  · have hsame := hother id hkey
    have hnone : diffs.lookup id = none := by
      rwa [mem_keys_iff, Bool.not_eq_true, isSome_eq_false_iff, isNone_iff_eq_none]
        at hkey
    rw [(Prod.mk.inj hsame).1, (Prod.mk.inj hsame).2, hnone]
    exact commitSpec_none

end

/-- What the commitment of a slot makes of the data of one account, and the diff it
    stores for it. -/
def AccountStages (p : Params) (m : Manager) (stateDiff : StateDiff)
    (burns : Map AccountID UInt64) (id : AccountID) (loaded' : Option AccountData)
    (stored : Option (AccountDiff × Bool)) : Prop :=
  let slot := m.latestCommittedSlot + 1
  let loaded := m.accountsTree.lookup id
  let destroyed := id ∈ destroyedAccounts p stateDiff
  ∃ d₀ d₁ d₂ d₃ d₄ d₅ d₆ : Option AccountDiff,
    AllotSpec loaded stateDiff id d₀ ∧
    DelegationSpec (stateDiff.destroyedStates ++ stateDiff.createdStates) id d₀ d₁ ∧
    PrepareSpec loaded ((collectAccountOutputs p stateDiff.destroyedStates).lookup id)
      ((collectAccountOutputs p stateDiff.createdStates).lookup id) d₁ d₂ ∧
    BurnSpec loaded (burns.lookup id) d₂ d₃ ∧
    SignalSpec (loaded.getD (newAccountData id)).latestSupportedProtocolVersionAndHash
      ((m.latestSupportedVersionSignals slot).lookup id) d₃ d₄ ∧
    PreserveSpec loaded destroyed d₄ d₅ ∧
    CommitSpec p slot id destroyed loaded loaded' d₅ d₆ ∧
    stored = d₆.map fun d => (d, decide destroyed)

/-- What the commitment of a slot does. -/
structure Committed (p : Params) (l : Ledger) (rmc : UInt64) (stateDiff : StateDiff)
    (l' : Ledger) : Prop where
  latestCommittedSlot : l'.manager.latestCommittedSlot = l.manager.latestCommittedSlot + 1
  accountOutput : l'.accountOutput = spendOutputs p l.accountOutput stateDiff
  prunedBelow : l'.manager.prunedBelow = l.manager.prunedBelow
  notPruned : l.manager.prunedBelow ≤ l.manager.latestCommittedSlot + 1
  otherSlots : ∀ slot, slot ≠ l.manager.latestCommittedSlot + 1 →
    l'.manager.slotDiffs slot = l.manager.slotDiffs slot
  accounts : l.manager.slotDiffs (l.manager.latestCommittedSlot + 1) = ∅ →
    ∃ burns, l.manager.computeBlockBurnsForSlot p (l.manager.latestCommittedSlot + 1) rmc =
        some burns ∧
      ∀ id, AccountStages p l.manager stateDiff burns id (l'.manager.accountsTree.lookup id)
        ((l'.manager.slotDiffs (l.manager.latestCommittedSlot + 1)).lookup id)

theorem storeDiffs_lookup {destroyedAccounts : List AccountID} {store : DiffStore}
    (h : storeDiffs destroyedAccounts diffs ∅ = some store) (id : AccountID) :
    store.lookup id = (diffs.lookup id).map fun d => (d, decide (id ∈ destroyedAccounts)) := by
  cases hd : diffs.lookup id with
  | none =>
    rw [alterKeys_keys_none h hd]
    rfl
  | some d =>
    rw [← hd]
    exact (some.inj (alterKeys_keys_some h hd)).symm

theorem Manager.applyDiff_stages {destroyedAccounts : List AccountID}
    (h : m.applyDiff p (m.latestCommittedSlot + 1) rmc diffs destroyedAccounts = some m') :
    ∃ diffs₃ diffs₄ diffs₅ diffs₆ store store',
      m.updateSlotDiffWithBurns p (m.latestCommittedSlot + 1) diffs rmc = some diffs₃ ∧
      m.updateSlotDiffWithVersionSignals (m.latestCommittedSlot + 1) diffs₃ = some diffs₄ ∧
      m.preserveDestroyed destroyedAccounts diffs₄ = some diffs₅ ∧
      m.commitAccountTree p (m.latestCommittedSlot + 1) diffs₅ destroyedAccounts =
        some (m'.accountsTree, diffs₆) ∧
      m.slotDiff (m.latestCommittedSlot + 1) = some store ∧
      storeDiffs destroyedAccounts diffs₆ store = some store' ∧
      m'.slotDiffs = update m.slotDiffs (m.latestCommittedSlot + 1) store' ∧
      m'.latestCommittedSlot = m.latestCommittedSlot + 1 ∧ m'.prunedBelow = m.prunedBelow := by
  unfold applyDiff at h
  rw [if_neg (not_not.mpr rfl)] at h
  simp only [bind_eq_some_iff, map_eq_some_iff] at h
  obtain ⟨diffs₃, hburns, diffs₄, hsignals, diffs₅, hpreserve, ⟨tree, diffs₆⟩, hcommit, store,
    hslot, store', hstore, hm'⟩ := h
  -- the eviction touches none of the fields below
  have hfields : m'.latestCommittedSlot = m.latestCommittedSlot + 1 ∧
      m'.prunedBelow = m.prunedBelow ∧ m'.accountsTree = tree ∧
      m'.slotDiffs = update m.slotDiffs (m.latestCommittedSlot + 1) store' := by
    subst hm'
    unfold committed
    split <;> exact ⟨rfl, rfl, rfl, rfl⟩
  obtain ⟨hlatest, hpruned, rfl, hstores⟩ := hfields
  exact ⟨diffs₃, diffs₄, diffs₅, diffs₆, store, store', hburns, hsignals, hpreserve, hcommit, hslot,
    hstore, hstores, hlatest, hpruned⟩

theorem Ledger.commitSlot_applies (h : l.commitSlot p rmc stateDiff = some l') :
    ∃ diffs₀ diffs₂,
      l.manager.processStateDiffTransactions (l.manager.latestCommittedSlot + 1) stateDiff =
        some diffs₀ ∧
      l.manager.prepareAccountDiffs (l.manager.latestCommittedSlot + 1)
        (collectAccountOutputs p stateDiff.destroyedStates)
        (collectAccountOutputs p stateDiff.createdStates) (processDelegations stateDiff diffs₀) =
        some diffs₂ ∧
      l.manager.applyDiff p (l.manager.latestCommittedSlot + 1) rmc diffs₂
        (destroyedAccounts p stateDiff) = some l'.manager ∧
      l'.accountOutput = spendOutputs p l.accountOutput stateDiff := by
  obtain ⟨diffs, hdiffs, hmap⟩ := bind_eq_some_iff.mp h
  obtain ⟨m', happly, rfl⟩ := map_eq_some_iff.mp hmap
  obtain ⟨diffs₀, hallot, hprepare⟩ := bind_eq_some_iff.mp hdiffs
  exact ⟨diffs₀, diffs, hallot, hprepare, happly, rfl⟩

theorem Ledger.commitSlot_spec (h : l.commitSlot p rmc stateDiff = some l') :
    Committed p l rmc stateDiff l' := by
  obtain ⟨diffs₀, diffs₂, hallot, hprepare, happly, houtput⟩ := Ledger.commitSlot_applies h
  obtain ⟨diffs₃, diffs₄, diffs₅, diffs₆, store, store', hburns, hsignals, hpreserve, hcommit,
    hslot, hstore, hstores, hlatest, hpruned⟩ := applyDiff_stages happly
  have hnotPruned : ¬ l.manager.latestCommittedSlot + 1 < l.manager.prunedBelow := by
    intro hlt
    rw [slotDiff, if_pos hlt] at hslot
    cases hslot
  rw [slotDiff, if_neg hnotPruned, some.injEq] at hslot
  refine ⟨hlatest, houtput, hpruned, Nat.not_lt.mp hnotPruned, ?_, ?_⟩
  · intro slot hne
    rw [hstores, update_of_ne hne]
  · intro hempty
    obtain ⟨burns, hcompute, hburn⟩ := updateSlotDiffWithBurns_spec hburns
    refine ⟨burns, hcompute, fun id => ?_⟩
    rw [hstores, update_self]
    rw [hempty] at hslot
    subst hslot
    exact ⟨_, _, _, _, _, _, _, processStateDiffTransactions_spec hallot id,
      processDelegations_spec stateDiff diffs₀ id, prepareAccountDiffs_spec hprepare id,
      hburn id, updateSlotDiffWithVersionSignals_spec hsignals id,
      preserveDestroyed_spec hpreserve id, commitAccountTree_spec hcommit id,
      storeDiffs_lookup hstore id⟩

/-! ## Section 5: The credits -/

/-- The credits at a slot: a positive value decays from the slot of its last update on. -/
def Credits.decayed (p : Params) (slot : Nat) (c : Credits) : Option Int64 :=
  if 0 < c.value then (p.decayManaBySlots c.value.toUInt64 c.updateSlot slot).map UInt64.toInt64
  else some c.value

/-- The change of the credits in a diff, if there is one. -/
def bicChangeOf (d : Option AccountDiff) : Int64 := (d.map AccountDiff.bicChange).getD 0

theorem BurnSpec.bicChange {burn : Option UInt64} (h : BurnSpec loaded burn d d') :
    bicChangeOf d' = bicChangeOf d - (burn.getD 0).toInt64 := by
  unfold BurnSpec at h
  cases burn with
  | none =>
    rw [h]
    exact (Int64.sub_zero _).symm
  | some burn =>
    cases d with
    | some e => rw [h]; rfl
    | none =>
      obtain ⟨a, -, rfl⟩ := h
      rfl

theorem SignalSpec.bicChange {current : VersionAndHash} {signal : Option SignaledBlock}
    (h : SignalSpec current signal d d') : bicChangeOf d' = bicChangeOf d := by
  unfold SignalSpec signalDiff at h
  cases signal with
  | none => rw [h]
  | some signaledBlock =>
    subst h
    dsimp only
    split
    · cases d <;> rfl
    · rfl

/-- The decay is part of the change that is stored. -/
theorem bicChange_decayCredits {a : AccountData} {e e' : AccountDiff} (hne : e.bicChange ≠ 0)
    (h : decayCredits p slot (some a) e = some e') :
    ∃ decayed, a.credits.decayed p slot = some decayed ∧
      e'.bicChange = e.bicChange - (a.credits.value - decayed) := by
  unfold decayCredits at h
  unfold Credits.decayed
  by_cases hpos : 0 < a.credits.value
  · simp only [hpos, hne, ne_eq, not_false_eq_true, and_self, if_true] at h
    obtain ⟨decayed, hdecayed, rfl⟩ := map_eq_some_iff.mp h
    exact ⟨decayed.toInt64, by rw [if_pos hpos, hdecayed]; rfl, rfl⟩
  · simp only [hpos, and_false, if_false] at h
    refine ⟨a.credits.value, if_neg hpos, ?_⟩
    rw [some.inj h]
    grind

/-- The credits of an account whose allotments and burns differ.  If the change and the decay
    make up for each other, neither the value nor the slot of its last update changes. -/
theorem Manager.applyDiff_credits {p : Params} {m m' : Manager} {rmc : UInt64}
    {diffs : AccountDiffs} {destroyedAccounts : List AccountID} {burns : Map AccountID UInt64}
    {id : AccountID} {a : AccountData}
    (happly : m.applyDiff p (m.latestCommittedSlot + 1) rmc diffs destroyedAccounts = some m')
    (hempty : m.slotDiffs (m.latestCommittedSlot + 1) = ∅)
    (hburns : m.computeBlockBurnsForSlot p (m.latestCommittedSlot + 1) rmc = some burns)
    (hload : m.accountsTree.lookup id = some a) (hkept : id ∉ destroyedAccounts)
    (hne : bicChangeOf (diffs.lookup id) - ((burns.lookup id).getD 0).toInt64 ≠ 0) :
    ∃ decayed a' d, a.credits.decayed p (m.latestCommittedSlot + 1) = some decayed ∧
      m'.accountsTree.lookup id = some a' ∧
      (m'.slotDiffs (m.latestCommittedSlot + 1)).lookup id = some (d, false) ∧
      d.bicChange = a'.credits.value - a.credits.value ∧
      let value := decayed + (bicChangeOf (diffs.lookup id) - ((burns.lookup id).getD 0).toInt64)
      a'.credits =
        if value = a.credits.value then a.credits else ⟨value, m.latestCommittedSlot + 1⟩ := by
  obtain ⟨diffs₃, diffs₄, diffs₅, diffs₆, store, store', hburned, hsignals, hpreserve, hcommit,
    hslot, hstore, hstores, -⟩ := applyDiff_stages happly
  obtain ⟨burns', hburns', hburn⟩ := updateSlotDiffWithBurns_spec hburned
  obtain rfl := some.inj (hburns'.symm.trans hburns)
  have hkeeps := (preserveDestroyed_spec hpreserve id).kept hkept
  have hchange : bicChangeOf (diffs₅.lookup id) =
      bicChangeOf (diffs.lookup id) - ((burns'.lookup id).getD 0).toInt64 := by
    rw [hkeeps, (updateSlotDiffWithVersionSignals_spec hsignals id).bicChange, (hburn id).bicChange]
  rw [← hchange] at hne ⊢
  cases hd : diffs₅.lookup id with
  | none => exact absurd (congrArg bicChangeOf hd) hne
  | some e =>
    rw [hd] at hne
    obtain ⟨e', a', hdecay, happly', hloaded', hd'⟩ :=
      (commitAccountTree_spec hcommit id).applied e hd hkept
    rw [hload] at hdecay happly'
    obtain ⟨decayed, hdecayed, hbic⟩ := bicChange_decayCredits hne hdecay
    have hvalue : a.credits.value + e'.bicChange = decayed + e.bicChange := by
      rw [hbic]
      grind
    have hzero : e'.bicChange = 0 ↔ decayed + e.bicChange = a.credits.value := by
      rw [← hvalue]
      grind
    have hcredits : a'.credits = if e'.bicChange ≠ 0 then
        ⟨a.credits.value + e'.bicChange, m.latestCommittedSlot + 1⟩ else a.credits :=
      AccountDiff.apply_credits happly'
    rw [ite_not] at hcredits
    refine ⟨decayed, a', e', hdecayed, hloaded', ?_, ?_, ?_⟩
    · rw [slotDiff, hempty, ite_none_left_eq_some] at hslot
      obtain rfl := some.inj hslot.2
      rw [hstores, update_self, storeDiffs_lookup hstore, hd', map_some, decide_eq_false hkept]
    · rw [hcredits]
      split <;> grind
    · rw [hcredits, hvalue]
      exact if_congr hzero rfl rfl

/-- The credits of an account decay from ten to nine. -/
def decayToNine : Params :=
  ⟨10, 10, 10, 1, fun outputID => outputID, fun _ _ _ => some 9, fun _ _ _ => some 0⟩

def tenCredits : Manager :=
  { emptyManager 0 with
    accountsTree := insert 1 { newAccountData 1 with credits := ⟨10, 0⟩ } ∅ }

theorem Manager.applyDiff_credits_five :
    ∃ m' a', tenCredits.applyDiff decayToNine 1 0
        (insert 1 { newAccountDiff with bicChange := 5 } ∅) [] = some m' ∧
      m'.accountsTree.lookup 1 = some a' ∧ a'.credits = ⟨14, 1⟩ := by
  obtain ⟨m', happly⟩ : ∃ m', tenCredits.applyDiff decayToNine 1 0
      (insert 1 { newAccountDiff with bicChange := 5 } ∅) [] = some m' := ⟨_, rfl⟩
  obtain ⟨decayed, a', _, hdecayed, ha', _, _, hcredits⟩ := applyDiff_credits happly rfl rfl
    (show tenCredits.accountsTree.lookup 1 = some _ from rfl) List.not_mem_nil (by decide)
  obtain rfl : 9 = decayed := some.inj hdecayed
  exact ⟨m', a', happly, ha', hcredits⟩

/-- An allotment that makes up for the decay: the credits keep the slot of their last update. -/
theorem Manager.applyDiff_keeps_updateSlot :
    ((tenCredits.applyDiff decayToNine 1 0
      (insert 1 { newAccountDiff with bicChange := 1 } ∅) []).bind
        (·.accountsTree.lookup 1)).map (·.credits) = some ⟨10, 0⟩ := by
  decide +kernel

end AxonCore.Accounts

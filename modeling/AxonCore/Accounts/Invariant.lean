import AxonCore.Accounts.Outcome

/-! # The accounts tree and the unspent outputs

    In every ledger that is reached from genesis, the data of an account whose unspent
    output is tracked was taken from that output, and an account in the tree without
    such an output was only a target of allotments, delegations or signals.

    * `Inv`: the invariant; `genesis_inv` and `step_inv`.
    * `Inv.outputsMatch`: a spent output is the one the account data was taken from.
-/

namespace AxonCore.Accounts

open AxonCore.Lib Function Option

variable {p : Params} {l l' : Ledger} {stateDiff : StateDiff} {input : Input}

/-- The invariant of the ledger. -/
structure Inv (l : Ledger) : Prop where
  ids : ∀ id a, l.manager.accountsTree.lookup id = some a → a.id = id
  /-- The data of an account with a tracked output was taken from it. -/
  tracked : ∀ id o, l.accountOutput id = some o → o.tracked = true →
    ∃ a, l.manager.accountsTree.lookup id = some a ∧ a.outputID = o.outputID ∧
      o.expirySlot = some a.expirySlot ∧ o.outputID ≠ emptyOutputID
  /-- Any other account in the tree has neither an output nor an expiry slot. -/
  untracked : ∀ id, (∀ o, l.accountOutput id = some o → o.tracked = false) →
    ∀ a, l.manager.accountsTree.lookup id = some a →
      a.outputID = emptyOutputID ∧ a.expirySlot = 0
  /-- No diffs are stored for slots that are not committed. -/
  future : ∀ slot, l.manager.latestCommittedSlot < slot → l.manager.slotDiffs slot = ∅

/-! ## Section 1: Spent and created outputs -/

theorem Inv.outputsMatch (hinv : Inv l) (hvalid : ValidStateDiff p l.accountOutput stateDiff)
    (id : AccountID) :
    OutputsMatch (l.manager.accountsTree.lookup id) (stateDiff.consumed p id)
      (stateDiff.created p id) := by
  constructor
  · intro c hc a ha
    obtain ⟨hmem, hid, htracked⟩ := collectAccountOutputs_mem hc
    obtain ⟨b, hb, hout, hexpiry, hne⟩ :=
      hinv.tracked id c (hvalid.destroyed_unspent c hmem id hid) htracked
    obtain rfl := some.inj (ha.symm.trans hb)
    exact ⟨hout.symm, hexpiry, hne⟩
  · intro o ho
    obtain ⟨hmem, _, htracked⟩ := collectAccountOutputs_mem ho
    exact ⟨hvalid.created_nonempty o hmem, htracked⟩

section

variable (hvalid : ValidStateDiff p l.accountOutput stateDiff)
include hvalid

theorem ValidStateDiff.consumed_of_destroyed {id : AccountID}
    (h : id ∈ destroyedAccounts p stateDiff) : (stateDiff.consumed p id).isSome := by
  obtain ⟨o, ho, hid, htracked, _⟩ := mem_destroyedAccounts h
  have hcollect := collectAccountOutputs_of_mem hvalid.destroyed_nodup ho hid htracked
  exact isSome_iff_exists.mpr ⟨o, hcollect⟩

/-- A tracked output that is spent without a new tracked output of the account destroys
    the account. -/
theorem ValidStateDiff.mem_destroyedAccounts {id : AccountID}
    (hconsumed : (stateDiff.consumed p id).isSome) (hcreated : stateDiff.created p id = none) :
    id ∈ destroyedAccounts p stateDiff := by
  obtain ⟨c, hc⟩ := isSome_iff_exists.mp hconsumed
  obtain ⟨hmem, hid, htracked⟩ := collectAccountOutputs_mem hc
  have hexplicit : c.isImplicitAccount = false := by
    -- a spent implicit account is converted to an account that is tracked
    by_contra himplicit
    obtain ⟨o, ho, hid', hissuer⟩ :=
      hvalid.implicit_converted c hmem (Bool.not_eq_false _ ▸ himplicit)
    have htracked' : o.tracked = true := by
      unfold Output.tracked
      rw [hissuer]
      rfl
    have hcollect := collectAccountOutputs_of_mem hvalid.created_nodup ho (hid'.trans hid) htracked'
    cases hcollect.symm.trans hcreated
  unfold destroyedAccounts
  rw [List.mem_filterMap]
  refine ⟨c, hmem, ?_⟩
  rw [hid]
  exact if_pos ⟨htracked, hexplicit, isNone_iff_eq_none.mpr hcreated⟩

/-- Without a spent tracked output, the account had no tracked output that could be
    replaced in the slot. -/
theorem ValidStateDiff.untracked_of_spent {id : AccountID}
    (hconsumed : stateDiff.consumed p id = none)
    (hspent : l.accountOutput id = none ∨ id ∈ accountIDs p stateDiff.destroyedStates)
    (o : Output) (ho : l.accountOutput id = some o) : o.tracked = false := by
  rcases hspent with hnone | hmem
  · rw [hnone] at ho
    cases ho
  · obtain ⟨c, hc, hid⟩ := List.mem_filterMap.mp hmem
    obtain rfl := some.inj (ho.symm.trans (hvalid.destroyed_unspent c hc id hid))
    by_contra htracked
    have hcollect := collectAccountOutputs_of_mem hvalid.destroyed_nodup hc hid
      (Bool.not_eq_false _ ▸ htracked)
    cases hcollect.symm.trans hconsumed

end

/-! ## Section 2: A committed slot keeps the invariant -/

section Commit

variable {id : AccountID} {burns : Map AccountID UInt64} {loaded' : Option AccountData}
  {stored : Option (AccountDiff × Bool)}

theorem Inv.getD_id (hinv : Inv l) (id : AccountID) :
    ((l.manager.accountsTree.lookup id).getD (newAccountData id)).id = id := by
  cases hload : l.manager.accountsTree.lookup id with
  | none => rfl
  | some a => exact hinv.ids id a hload

theorem Inv.getD_untracked (hinv : Inv l)
    (huntracked : ∀ o, l.accountOutput id = some o → o.tracked = false) :
    ((l.manager.accountsTree.lookup id).getD (newAccountData id)).outputID = emptyOutputID ∧
      ((l.manager.accountsTree.lookup id).getD (newAccountData id)).expirySlot = 0 := by
  cases hload : l.manager.accountsTree.lookup id with
  | none => exact ⟨rfl, rfl⟩
  | some a => exact hinv.untracked id huntracked a hload

theorem Inv.kept (hinv : Inv l) (hvalid : ValidStateDiff p l.accountOutput stateDiff)
    (hstages : AccountStages p l.manager stateDiff burns id loaded' stored)
    (hcreated : stateDiff.created p id = none) :
    (id ∈ destroyedAccounts p stateDiff ∧ loaded' = none) ∨
      stateDiff.consumed p id = none ∧ (loaded' = l.manager.accountsTree.lookup id ∨
        ∃ a', loaded' = some a' ∧ a'.id = id ∧
          a'.outputID =
            ((l.manager.accountsTree.lookup id).getD (newAccountData id)).outputID ∧
          a'.expirySlot =
            ((l.manager.accountsTree.lookup id).getD (newAccountData id)).expirySlot) := by
  have hmatch := hinv.outputsMatch hvalid id
  by_cases hin : id ∈ destroyedAccounts p stateDiff
  · exact .inl ⟨hin, hstages.destroyed hmatch hin (hvalid.consumed_of_destroyed hin)⟩
  · right
    constructor
    · by_contra hne
      exact hin (hvalid.mem_destroyedAccounts (isSome_iff_ne_none.mpr hne) hcreated)
    · have hkept := hstages.kept hmatch hin hcreated
      rwa [hinv.getD_id] at hkept

theorem Inv.created {o : Output} (hinv : Inv l)
    (hvalid : ValidStateDiff p l.accountOutput stateDiff)
    (hstages : AccountStages p l.manager stateDiff burns id loaded' stored)
    (ho : stateDiff.created p id = some o) :
    ∃ a', loaded' = some a' ∧ a'.id = id ∧ a'.outputID = o.outputID ∧
      o.expirySlot = some a'.expirySlot := by
  have htracked := hstages.tracked (hinv.outputsMatch hvalid id) ho
  rw [hinv.getD_id] at htracked
  apply htracked
  intro hconsumed
  obtain ⟨hmem, hid, _⟩ := collectAccountOutputs_mem ho
  exact (hinv.getD_untracked
    (hvalid.untracked_of_spent hconsumed (hvalid.created_chain o hmem id hid))).2

theorem spendOutputs_cases (hvalid : ValidStateDiff p l.accountOutput stateDiff) (id : AccountID) :
    (∃ o, stateDiff.created p id = some o ∧
      spendOutputs p l.accountOutput stateDiff id = some o) ∨
    stateDiff.created p id = none ∧
      ((∀ o, spendOutputs p l.accountOutput stateDiff id = some o → o.tracked = false) ∧
          (l.accountOutput id = none ∨ id ∈ accountIDs p stateDiff.destroyedStates) ∨
        spendOutputs p l.accountOutput stateDiff id = l.accountOutput id ∧
          id ∉ accountIDs p stateDiff.destroyedStates) := by
  unfold spendOutputs
  cases hfind : stateDiff.createdStates.find? (fun o => o.accountID p == some id) with
  | some o =>
    have hid : o.accountID p = some id := by simpa using List.find?_some hfind
    have hmem := List.mem_of_find?_eq_some hfind
    by_cases htracked : o.tracked = true
    · left
      exact ⟨o, collectAccountOutputs_of_mem hvalid.created_nodup hmem hid htracked, rfl⟩
    · right
      constructor
      · by_contra hne
        obtain ⟨o', ho'⟩ := ne_none_iff_exists'.mp hne
        obtain ⟨hmem', hid', htracked'⟩ := collectAccountOutputs_mem ho'
        obtain rfl := eq_of_nodup_filterMap hvalid.created_nodup hmem' hmem hid' hid
        exact htracked htracked'
      · left
        constructor
        · intro o' ho'
          obtain rfl := some.inj ho'
          exact Bool.eq_false_iff.mpr htracked
        · exact hvalid.created_chain o hmem id hid
  | none =>
    right
    constructor
    · by_contra hne
      obtain ⟨o', ho'⟩ := ne_none_iff_exists'.mp hne
      obtain ⟨hmem', hid', _⟩ := collectAccountOutputs_mem ho'
      have hnot := List.find?_eq_none.mp hfind o' hmem'
      rw [hid', beq_self_eq_true] at hnot
      exact hnot rfl
    · by_cases hdestroyed : id ∈ accountIDs p stateDiff.destroyedStates
      · left
        refine ⟨fun o ho => ?_, .inr hdestroyed⟩
        rw [if_pos hdestroyed] at ho
        cases ho
      · right
        exact ⟨if_neg hdestroyed, hdestroyed⟩

end Commit

theorem commitSlot_inv {rmc : UInt64} (hinv : Inv l)
    (hvalid : ValidStateDiff p l.accountOutput stateDiff)
    (h : l.commitSlot p rmc stateDiff = some l') : Inv l' := by
  have hspec := Ledger.commitSlot_spec h
  obtain ⟨burns, _, hstages⟩ := hspec.accounts (hinv.future _ (Nat.lt_succ_self _))
  constructor
  · intro id a ha
    cases hcreated : stateDiff.created p id with
    | some o =>
      obtain ⟨a', ha', hid, _⟩ := hinv.created hvalid (hstages id) hcreated
      rw [some.inj (ha.symm.trans ha'), hid]
    | none =>
      rcases hinv.kept hvalid (hstages id) hcreated with ⟨_, hnone⟩ | ⟨_, hsame | ⟨a', ha', hid, _⟩⟩
      · rw [hnone] at ha
        cases ha
      · exact hinv.ids id a (hsame ▸ ha)
      · rw [some.inj (ha.symm.trans ha'), hid]
  · intro id o ho htracked
    rw [hspec.accountOutput] at ho
    rcases spendOutputs_cases hvalid id with ⟨o', ho', hspend⟩ | ⟨hcreated, hold⟩
    · obtain rfl := some.inj (ho.symm.trans hspend)
      obtain ⟨a', ha', _, hout, hexpiry⟩ := hinv.created hvalid (hstages id) ho'
      exact ⟨a', ha', hout, hexpiry, ((hinv.outputsMatch hvalid id).new o ho').1⟩
    · rcases hold with ⟨hfalse, _⟩ | ⟨hsame, hnotSpent⟩
      · rw [hfalse o ho] at htracked
        cases htracked
      · obtain ⟨a, ha, hout, hexpiry, hne⟩ := hinv.tracked id o (hsame ▸ ho) htracked
        rcases hinv.kept hvalid (hstages id) hcreated with
          ⟨hdestroyed, _⟩ | ⟨_, hkept | ⟨a', ha', _, hout', hexpiry'⟩⟩
        · -- the output of a destroyed account is spent
          obtain ⟨c, hc, hid, _⟩ := mem_destroyedAccounts hdestroyed
          exact absurd (List.mem_filterMap.mpr ⟨c, hc, hid⟩) hnotSpent
        · exact ⟨a, hkept.trans ha, hout, hexpiry, hne⟩
        · rw [ha, getD_some] at hout' hexpiry'
          exact ⟨a', ha', hout'.trans hout, hexpiry' ▸ hexpiry, hne⟩
  · intro id huntracked a ha
    rw [hspec.accountOutput] at huntracked
    rcases spendOutputs_cases hvalid id with ⟨o, ho, hspend⟩ | ⟨hcreated, hold⟩
    · have hfalse := huntracked o hspend
      rw [(collectAccountOutputs_mem ho).2.2] at hfalse
      cases hfalse
    · rcases hinv.kept hvalid (hstages id) hcreated with ⟨_, hnone⟩ | ⟨hconsumed, hkept⟩
      · rw [hnone] at ha
        cases ha
      · have hbefore : ∀ o, l.accountOutput id = some o → o.tracked = false := by
          rcases hold with ⟨_, hspent⟩ | ⟨hsame, _⟩
          · exact hvalid.untracked_of_spent hconsumed hspent
          · rwa [hsame] at huntracked
        obtain ⟨hout, hexpiry⟩ := hinv.getD_untracked hbefore
        rcases hkept with hsame | ⟨a', ha', _, hout', hexpiry'⟩
        · exact hinv.untracked id hbefore a (hsame ▸ ha)
        · obtain rfl := some.inj (ha.symm.trans ha')
          exact ⟨hout'.trans hout, hexpiry'.trans hexpiry⟩
  · intro slot hslot
    rw [hspec.latestCommittedSlot] at hslot
    rw [hspec.otherSlots slot (by omega)]
    exact hinv.future slot (by omega)

/-! ## Section 3: Every reachable ledger -/

theorem Manager.trackBlock_frame (m : Manager) (b : Block) :
    (m.trackBlock b).accountsTree = m.accountsTree ∧
      (m.trackBlock b).latestCommittedSlot = m.latestCommittedSlot ∧
      (m.trackBlock b).slotDiffs = m.slotDiffs ∧ (m.trackBlock b).prunedBelow = m.prunedBelow := by
  unfold Manager.trackBlock
  cases b.body with
  | basic workScore => exact ⟨rfl, rfl, rfl, rfl⟩
  | validation version hash => exact ⟨rfl, rfl, rfl, rfl⟩

/-- What a step can do: commit a slot, or leave everything alone but the tracked
    blocks and the pruned slots. -/
theorem step_cases (h : step p l input = some l') :
    (∃ rmc stateDiff, input = .commitSlot rmc stateDiff ∧
      ValidStateDiff p l.accountOutput stateDiff ∧ l.commitSlot p rmc stateDiff = some l') ∨
    (∀ rmc stateDiff, input ≠ .commitSlot rmc stateDiff) ∧
      l'.accountOutput = l.accountOutput ∧ l'.manager.accountsTree = l.manager.accountsTree ∧
      l'.manager.latestCommittedSlot = l.manager.latestCommittedSlot ∧
      l'.manager.slotDiffs = l.manager.slotDiffs ∧
      l.manager.prunedBelow ≤ l'.manager.prunedBelow := by
  cases input with
  | trackBlock b =>
    obtain rfl := some.inj h
    obtain ⟨htree, hlatest, hdiffs, hpruned⟩ := l.manager.trackBlock_frame b
    exact .inr ⟨fun _ _ heq => (nomatch heq), rfl, htree, hlatest, hdiffs,
      Nat.le_of_eq hpruned.symm⟩
  | commitSlot rmc stateDiff =>
    unfold step at h
    dsimp only at h
    split_ifs at h with hvalid
    exact .inl ⟨rmc, stateDiff, rfl, hvalid, h⟩
  | prune slot =>
    unfold step at h
    dsimp only at h
    split_ifs at h
    obtain rfl := some.inj h
    exact .inr ⟨fun _ _ heq => (nomatch heq), rfl, rfl, rfl, rfl, Nat.le_max_left _ _⟩

theorem step_inv (hinv : Inv l) (h : step p l input = some l') : Inv l' := by
  rcases step_cases h with ⟨rmc, stateDiff, _, hvalid, hcommit⟩ |
    ⟨_, hout, htree, hlatest, hdiffs, _⟩
  · exact commitSlot_inv hinv hvalid hcommit
  · constructor
    · rw [htree]
      exact hinv.ids
    · rw [htree, hout]
      exact hinv.tracked
    · rw [htree, hout]
      exact hinv.untracked
    · rw [hlatest, hdiffs]
      exact hinv.future

theorem addAccount_inv {account : Output × Int64} (hinv : Inv l)
    (h : addAccount l account = some l') : Inv l' := by
  unfold addAccount at h
  split at h
  · rename_i outputID id feature staking credits
    split_ifs at h with hcond
    · obtain rfl := some.inj h
      constructor
      · intro k a ha
        rw [lookup_insert_eq] at ha
        split_ifs at ha with hk
        · rw [hk, ← some.inj ha]
          rfl
        · exact hinv.ids k a ha
      · intro k o ho htracked
        rw [lookup_insert_eq]
        by_cases hk : k = id
        · subst hk
          obtain rfl := some.inj ((update_self k _ _).symm.trans ho)
          rw [if_pos rfl]
          exact ⟨_, rfl, rfl, rfl, hcond.1⟩
        · rw [if_neg hk]
          exact hinv.tracked k o ((update_of_ne hk _ _).symm.trans ho) htracked
      · intro k huntracked a ha
        rw [lookup_insert_eq] at ha
        by_cases hk : k = id
        · subst hk
          cases huntracked _ (update_self k _ _)
        · rw [if_neg hk] at ha
          exact hinv.untracked k
            (fun o ho => huntracked o ((update_of_ne hk _ _).trans ho)) a ha
      · exact hinv.future
  · cases h

theorem genesis_inv {slot : Nat} {accounts : List (Output × Int64)}
    (h : genesis slot accounts = some l) : Inv l := by
  apply run_invariant (I := Inv) (fun l account l' hinv h => addAccount_inv hinv h) _ h
  exact ⟨fun id a ha => (nomatch ha), fun id o ho => (nomatch ho), fun id _ a ha => (nomatch ha),
    fun _ _ => rfl⟩

/-- The ledgers that a run reaches from genesis. -/
def Reachable (p : Params) (l : Ledger) : Prop :=
  ∃ slot accounts inputs l₀, genesis slot accounts = some l₀ ∧ run (step p) l₀ inputs = some l

theorem Reachable.inv (h : Reachable p l) : Inv l := by
  obtain ⟨slot, accounts, inputs, l₀, hgenesis, hrun⟩ := h
  exact run_invariant (fun _ _ _ hinv hstep => step_inv hinv hstep) (genesis_inv hgenesis) hrun

end AxonCore.Accounts

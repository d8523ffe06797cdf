import Mathlib.Data.Finset.Basic
import AxonCore.Accounts.Stages

/-! # The outcome of a commitment for one account

    From the stages of `CommitSlot` to what they leave for one account: the data in
    the tree and the stored diff.

    * `Prepared`: the shape of the diff of an account before it is committed, for
      the outputs of the account that were consumed and created in the slot.
    * `AccountStages.present`, `AccountStages.absent`: the outcome for an account
      that is in the tree before the slot, and for one that is not. -/

namespace AxonCore.Accounts

open AxonCore.Lib List Option

variable {p : Params} {m : Manager} {id : AccountID}

/-! ## Section 1: The tracked outputs of a slot -/

/-- The tracked output of an account among the created outputs of the slot. -/
def StateDiff.created (p : Params) (stateDiff : StateDiff) (id : AccountID) : Option Output :=
  (collectAccountOutputs p stateDiff.createdStates).lookup id

/-- The tracked output of an account among the spent outputs of the slot. -/
def StateDiff.consumed (p : Params) (stateDiff : StateDiff) (id : AccountID) : Option Output :=
  (collectAccountOutputs p stateDiff.destroyedStates).lookup id

theorem lookup_collectAccountOutput (outputs : Map AccountID Output) (o : Output) (id : AccountID) :
    (collectAccountOutput p outputs o).lookup id =
      if o.accountID p = some id ∧ o.tracked = true then some o else outputs.lookup id := by
  unfold collectAccountOutput
  cases ho : o.accountID p with
  | none => simp
  | some k =>
    by_cases htracked : o.tracked = true
    · simp only [htracked, if_true, and_true, some.injEq, lookup_insert_eq]
      exact if_congr eq_comm rfl rfl
    · simp [htracked]

variable {o : Output} {states : List Output}

theorem collectAccountOutputs_mem (h : (collectAccountOutputs p states).lookup id = some o) :
    o ∈ states ∧ o.accountID p = some id ∧ o.tracked = true := by
  refine foldlRecOn states (collectAccountOutput p)
    (motive := fun outputs => ∀ o, outputs.lookup id = some o →
      o ∈ states ∧ o.accountID p = some id ∧ o.tracked = true)
    (fun o ho => by simp at ho) ?_ o h
  intro outputs houtputs x hx o ho
  rw [lookup_collectAccountOutput] at ho
  split_ifs at ho with hown
  · obtain rfl := some.inj ho
    exact ⟨hx, hown⟩
  · exact houtputs o ho

theorem collectAccountOutputs_of_mem (hnodup : (accountIDs p states).Nodup) (ho : o ∈ states)
    (hid : o.accountID p = some id) (htracked : o.tracked = true) :
    (collectAccountOutputs p states).lookup id = some o := by
  have hunique : ∀ o' ∈ states, o'.accountID p = some id → o' = o :=
    fun o' ho' hid' => eq_of_nodup_filterMap hnodup ho' ho hid' hid
  have hfold : ∀ (l : List Output) (outputs : Map AccountID Output),
      (∀ o' ∈ l, o'.accountID p = some id → o' = o) →
      outputs.lookup id = some o ∨ o ∈ l →
      (l.foldl (collectAccountOutput p) outputs).lookup id = some o := by
    intro l
    induction l with
    | nil => exact fun outputs _ h => h.resolve_right not_mem_nil
    | cons x l ih =>
      intro outputs hl h
      apply ih _ fun o' ho' => hl o' (mem_cons_of_mem x ho')
      rw [lookup_collectAccountOutput]
      by_cases hx : x = o
      · left
        rw [hx, if_pos ⟨hid, htracked⟩]
      · rw [if_neg fun hx' => hx (hl x mem_cons_self hx'.1)]
        exact h.imp_right fun hmem => (mem_cons.mp hmem).resolve_left fun heq => hx heq.symm
  exact hfold states ∅ hunique (.inr ho)

/-! ## Section 2: The shape of a prepared diff -/

/-- The consumed output is the one the data of the account was taken from, and created
    outputs have an ID. -/
structure OutputsMatch (loaded : Option AccountData) (consumed created : Option Output) : Prop where
  spent : ∀ c ∈ consumed, ∀ a ∈ loaded, c.outputID = a.outputID ∧
    c.expirySlot = some a.expirySlot ∧ c.outputID ≠ emptyOutputID
  new : ∀ o ∈ created, o.outputID ≠ emptyOutputID ∧ o.tracked = true

/-- The shape of the diff of an account before it is committed. -/
structure Prepared (loaded : Option AccountData) (consumed created : Option Output)
    (d : AccountDiff) : Prop where
  kept : created = none → d.previousExpirySlot = d.newExpirySlot ∧
    (d.newOutputID ≠ emptyOutputID → ∃ a, loaded = some a ∧ d.newOutputID = a.outputID)
  output : ∀ o ∈ created, d.newOutputID = o.outputID ∧ o.expirySlot = some d.newExpirySlot
  transition : consumed.isSome → created.isSome → ∀ a ∈ loaded,
    d.previousExpirySlot = a.expirySlot
  creation : consumed = none → created.isSome →
    d.previousOutputID = emptyOutputID ∧ d.previousExpirySlot = 0
  reversible : ∀ a ∈ loaded, (created.isSome → consumed.isSome) → Reversible a d

variable {loaded : Option AccountData} {d : AccountDiff}

theorem Plain.prepared (h : Plain loaded d) (consumed : Option Output) :
    Prepared loaded consumed none d where
  kept _ := ⟨h.expirySlot, h.newOutputID⟩
  output o ho := nomatch ho
  transition _ hn := nomatch hn
  creation _ hn := nomatch hn
  reversible a ha _ := by
    rw [ha] at h
    exact h.reversible

variable {a : AccountData}

theorem Reversible.with_bicChange (h : Reversible a d) (bicChange : Int64) :
    Reversible a { d with bicChange := bicChange } :=
  ⟨h.1, h.2, h.3, h.4, h.5, h.6, h.7⟩

theorem Prepared.with_bicChange {consumed created : Option Output}
    (h : Prepared loaded consumed created d) (bicChange : Int64) :
    Prepared loaded consumed created { d with bicChange := bicChange } :=
  ⟨h.1, h.2, h.3, h.4, fun a ha hc => (h.5 a ha hc).with_bicChange bicChange⟩

theorem transitionStaking_fields (a : AccountData) (c o : Output) (d : AccountDiff) :
    ∃ validatorStakeChange stakeEndEpochChange fixedCostChange,
      transitionStaking a c o d = { d with
        validatorStakeChange := validatorStakeChange
        stakeEndEpochChange := stakeEndEpochChange
        fixedCostChange := fixedCostChange } ∧
      (d.stakeEndEpochChange = 0 → ∃ e : UInt32,
        stakeEndEpochChange = epochToInt64 e - epochToInt64 a.stakeEndEpoch) := by
  unfold transitionStaking
  cases o.staking with
  | some feature => exact ⟨_, _, _, rfl, fun _ => ⟨feature.endEpoch, rfl⟩⟩
  | none =>
    dsimp only
    split
    · refine ⟨_, _, _, rfl, fun _ => ⟨0, ?_⟩⟩
      show -epochToInt64 a.stakeEndEpoch = 0 - epochToInt64 a.stakeEndEpoch
      rw [Int64.zero_sub]
    · refine ⟨_, _, _, rfl, fun hzero => ⟨a.stakeEndEpoch, ?_⟩⟩
      rw [hzero, Int64.sub_self]

theorem Output.expirySlot_of_blockIssuer {feature : BlockIssuerFeature}
    (h : o.blockIssuer = some feature) : o.expirySlot = some feature.expirySlot := by
  cases o with
  | account outputID accountID blockIssuer staking =>
    obtain rfl : blockIssuer = some feature := h
    rfl
  | implicitAccount outputID key => cases h
  | delegation outputID delegating validatorID delegatedAmount => cases h
  | other outputID => cases h

variable {e : AccountDiff} {c : Output}

theorem prepared_transitionDiff (hmatch : OutputsMatch (some a) (some c) (some o))
    (hd : Plain (some a) d) (h : transitionDiff a c o d = some e) :
    Prepared (some a) (some c) (some o) e := by
  obtain ⟨previousExpirySlot, hprevious, hmap⟩ := bind_eq_some_iff.mp h
  obtain ⟨feature, hfeature, rfl⟩ := map_eq_some_iff.mp hmap
  obtain ⟨hout, hexpiry, hnonempty⟩ := hmatch.spent c rfl a rfl
  obtain rfl : previousExpirySlot = a.expirySlot := some.inj (hprevious.symm.trans hexpiry)
  obtain ⟨vs, es, fc, heq, hepoch⟩ := transitionStaking_fields a c o
    { d with
      previousExpirySlot := a.expirySlot
      previousOutputID := c.outputID
      newOutputID := o.outputID
      newExpirySlot := feature.expirySlot
      blockIssuerKeysAdded := feature.blockIssuerKeys \ a.blockIssuerKeys
      blockIssuerKeysRemoved := a.blockIssuerKeys \ feature.blockIssuerKeys }
  rw [heq]
  constructor
  · exact fun hn => nomatch hn
  · intro o' ho'
    obtain rfl := some.inj ho'
    exact ⟨rfl, Output.expirySlot_of_blockIssuer hfeature⟩
  · intro _ _ b hb
    obtain rfl := some.inj hb
    rfl
  · exact fun hn => nomatch hn
  · intro b hb _
    obtain rfl := some.inj hb
    exact {
      expirySlot := fun _ => rfl
      newOutputID := fun _ => hnonempty
      previousOutputID := fun _ => hout
      keysAdded := Finset.sdiff_disjoint
      keysRemoved := Finset.sdiff_subset
      stakeEndEpoch := hepoch hd.stakeEndEpoch
      version := fun hne => absurd hd.version hne }

theorem prepared_creationDiff (htracked : o.tracked = true) (h : creationDiff o d = some e) :
    Prepared loaded none (some o) e := by
  have hfields : e.newOutputID = o.outputID ∧ o.expirySlot = some e.newExpirySlot ∧
      e.previousOutputID = emptyOutputID ∧ e.previousExpirySlot = 0 := by
    cases o with
    | account outputID accountID blockIssuer staking =>
      cases blockIssuer with
      | none => cases h
      | some feature =>
        cases staking <;>
        · obtain rfl := some.inj h
          exact ⟨rfl, rfl, rfl, rfl⟩
    | implicitAccount outputID key =>
      obtain rfl := some.inj h
      exact ⟨rfl, rfl, rfl, rfl⟩
    | delegation outputID delegating validatorID delegatedAmount => cases htracked
    | other outputID => cases htracked
  obtain ⟨hnew, hexpiry, hprev, hprevExpiry⟩ := hfields
  constructor
  · exact fun hn => nomatch hn
  · intro o' ho'
    obtain rfl := some.inj ho'
    exact ⟨hnew, hexpiry⟩
  · exact fun hn => nomatch hn
  · exact fun _ _ => ⟨hprev, hprevExpiry⟩
  · exact fun a _ hc => nomatch hc rfl

/-! ## Section 3: The slot of the last update -/

/-- A diff before the burns: an allotment names the slot of the last update of the
    credits, and without one the diff has no change of the credits. -/
structure UpdateSpec (stateDiff : StateDiff) (id : AccountID) (loaded : Option AccountData)
    (d : AccountDiff) : Prop where
  allotted : stateDiff.Allots id → ∀ a ∈ loaded, d.previousUpdatedSlot = a.credits.updateSlot
  notAllotted : ¬ stateDiff.Allots id → d.bicChange = 0 ∧ d.previousUpdatedSlot = 0

/-- A diff that changes the credits names the slot of their last update. -/
def Recorded (loaded : Option AccountData) (d : AccountDiff) : Prop :=
  ∀ a ∈ loaded, d.bicChange ≠ 0 → d.previousUpdatedSlot = a.credits.updateSlot

theorem UpdateSpec.of_eq {stateDiff : StateDiff} (h : UpdateSpec stateDiff id loaded d)
    (hbic : e.bicChange = d.bicChange) (hslot : e.previousUpdatedSlot = d.previousUpdatedSlot) :
    UpdateSpec stateDiff id loaded e := by
  constructor
  · rw [hslot]
    exact h.allotted
  · rw [hbic, hslot]
    exact h.notAllotted

theorem UpdateSpec.recorded {stateDiff : StateDiff} (h : UpdateSpec stateDiff id loaded d) :
    Recorded loaded d := by
  intro a ha hbic
  by_cases hallots : stateDiff.Allots id
  · exact h.allotted hallots a ha
  · exact absurd (h.notAllotted hallots).1 hbic

theorem transitionDiff_credits (h : transitionDiff a c o d = some e) :
    e.bicChange = d.bicChange ∧ e.previousUpdatedSlot = d.previousUpdatedSlot := by
  obtain ⟨previousExpirySlot, _, hmap⟩ := bind_eq_some_iff.mp h
  obtain ⟨feature, _, rfl⟩ := map_eq_some_iff.mp hmap
  obtain ⟨_, _, _, heq, _⟩ := transitionStaking_fields a c o _
  rw [heq]
  exact ⟨rfl, rfl⟩

theorem creationDiff_credits (h : creationDiff o d = some e) :
    e.bicChange = d.bicChange ∧ e.previousUpdatedSlot = d.previousUpdatedSlot := by
  unfold creationDiff at h
  split at h
  · split at h <;> (obtain rfl := some.inj h; exact ⟨rfl, rfl⟩)
  · cases h
  all_goals obtain rfl := some.inj h
  all_goals exact ⟨rfl, rfl⟩

/-! ## Section 4: The diff before the commitment -/

section Stages

variable {stateDiff : StateDiff} {loaded : Option AccountData} {consumed created : Option Output}
  {d₀ d₁ d₂ d₃ d₄ : Option AccountDiff}

theorem delegated_spec (hallot : AllotSpec loaded stateDiff id d₀)
    (hdelegate : DelegationSpec (stateDiff.destroyedStates ++ stateDiff.createdStates) id d₀ d₁) :
    Plain loaded (d₁.getD newAccountDiff) ∧
      UpdateSpec stateDiff id loaded (d₁.getD newAccountDiff) ∧
      (d₁.isSome → stateDiff.Allots id ∨ stateDiff.Delegates id) := by
  have hplain := plain_getD hallot.plain
  have hupdate : UpdateSpec stateDiff id loaded (d₀.getD newAccountDiff) := by
    cases hd : d₀ with
    | none =>
      have hnot : ¬ stateDiff.Allots id := by
        rw [← hallot.isSome_iff, hd]
        exact Bool.false_ne_true
      exact ⟨fun h => absurd h hnot, fun _ => ⟨rfl, rfl⟩⟩
    | some d =>
      have hallots : stateDiff.Allots id := hallot.isSome_iff.mp (by rw [hd]; rfl)
      exact ⟨fun _ a ha => hallot.updatedSlot d hd a ha, fun h => absurd hallots h⟩
  rcases hdelegate.changed with heq | ⟨change, heq⟩
  · rw [heq]
    exact ⟨hplain, hupdate, fun h => .inl (hallot.isSome_iff.mp h)⟩
  · refine ⟨?_, ?_, ?_⟩
    · rw [heq]
      exact ⟨hplain.1, hplain.2, hplain.3, hplain.4, hplain.5, hplain.6, hplain.7⟩
    · rw [heq]
      exact hupdate.of_eq rfl rfl
    · intro hsome
      by_cases hdelegates : stateDiff.Delegates id
      · exact .inr hdelegates
      · rw [hdelegate.unchanged hdelegates] at hsome
        exact .inl (hallot.isSome_iff.mp hsome)

theorem prepared_spec (hmatch : OutputsMatch loaded consumed created)
    (hplain : Plain loaded (d₁.getD newAccountDiff))
    (hupdate : UpdateSpec stateDiff id loaded (d₁.getD newAccountDiff))
    (h : PrepareSpec loaded consumed created d₁ d₂) :
    ∀ d ∈ d₂, Prepared loaded consumed created d ∧ UpdateSpec stateDiff id loaded d := by
  intro d hd
  cases consumed with
  | none =>
    cases created with
    | none =>
      obtain rfl : d₂ = d₁ := h
      rw [mem_def.mp hd] at hplain hupdate
      exact ⟨hplain.prepared none, hupdate⟩
    | some o =>
      obtain ⟨e, rfl, he⟩ := h
      obtain rfl := some.inj hd
      have hcredits := creationDiff_credits he
      exact ⟨prepared_creationDiff (hmatch.new o rfl).2 he, hupdate.of_eq hcredits.1 hcredits.2⟩
  | some c =>
    cases created with
    | none =>
      obtain ⟨_, rfl⟩ := h
      obtain rfl := some.inj hd
      exact ⟨hplain.prepared (some c), hupdate⟩
    | some o =>
      obtain ⟨a, e, rfl, rfl, he⟩ := h
      obtain rfl := some.inj hd
      have hcredits := transitionDiff_credits he
      exact ⟨prepared_transitionDiff hmatch hplain he, hupdate.of_eq hcredits.1 hcredits.2⟩

theorem burned_spec {burn : Option UInt64}
    (hprepared : ∀ d ∈ d₂, Prepared loaded consumed created d ∧ UpdateSpec stateDiff id loaded d)
    (hsome : consumed.isSome ∨ created.isSome → d₂.isSome)
    (h : BurnSpec loaded burn d₂ d₃) :
    (∀ d ∈ d₃, Prepared loaded consumed created d) ∧
      ((∀ b ∈ burn, b ≠ 0 → d₂.isSome → stateDiff.Allots id ∨
          ∀ a ∈ loaded, a.credits.updateSlot = 0) →
        ∀ d ∈ d₃, Recorded loaded d) := by
  cases burn with
  | none =>
    obtain rfl : d₃ = d₂ := h
    exact ⟨fun d hd => (hprepared d hd).1, fun _ d hd => (hprepared d hd).2.recorded⟩
  | some b =>
    cases d₂ with
    | none =>
      obtain ⟨a, rfl, rfl⟩ := h
      -- no diff means that no output of the account was consumed or created
      obtain rfl : created = none := by
        by_contra hne
        exact nomatch hsome (.inr (isSome_iff_ne_none.mpr hne))
      refine ⟨fun d hd => ?_, fun _ d hd => ?_⟩
      · obtain rfl := some.inj hd
        exact Plain.prepared ⟨rfl, rfl, fun _ => ⟨a, rfl, rfl⟩, rfl, rfl, rfl, rfl⟩ consumed
      · obtain rfl := some.inj hd
        intro a' ha' _
        rw [some.inj ha']
    | some e =>
      obtain rfl : d₃ = some { e with bicChange := e.bicChange - b.toInt64 } := h
      obtain ⟨hprep, hupdate⟩ := hprepared e rfl
      refine ⟨fun d hd => ?_, fun hburn d hd => ?_⟩
      · obtain rfl := some.inj hd
        exact hprep.with_bicChange _
      · obtain rfl := some.inj hd
        intro a ha hbic
        by_cases hallots : stateDiff.Allots id
        · exact hupdate.allotted hallots a ha
        · obtain ⟨hzero, hslot⟩ := hupdate.notAllotted hallots
          have hb : b ≠ 0 := by
            intro hb
            apply hbic
            rw [hzero, hb]
            rfl
          rcases hburn b rfl hb rfl with h | h
          · exact absurd h hallots
          · exact hslot.trans (h a ha).symm

omit stateDiff in
theorem prepared_getD (hprepared : ∀ d ∈ d₃, Prepared loaded consumed created d)
    (hsome : consumed.isSome ∨ created.isSome → d₃.isSome) :
    Prepared loaded consumed created (d₃.getD newAccountDiff) := by
  cases d₃ with
  | some d => exact hprepared d rfl
  | none =>
    cases created with
    | some o => exact nomatch hsome (.inr rfl)
    | none => exact (plain_newAccountDiff loaded).prepared consumed

theorem signaled_spec {signal : Option SignaledBlock}
    (hprepared : ∀ d ∈ d₃, Prepared loaded consumed created d)
    (hsome : consumed.isSome ∨ created.isSome → d₃.isSome)
    (h : SignalSpec (loaded.getD (newAccountData id)).latestSupportedProtocolVersionAndHash
      signal d₃ d₄) :
    (∀ d ∈ d₄, Prepared loaded consumed created d) ∧
      ((∀ d ∈ d₃, Recorded loaded d) → ∀ d ∈ d₄, Recorded loaded d) := by
  unfold SignalSpec at h
  cases signal with
  | none =>
    obtain rfl : d₄ = d₃ := h
    exact ⟨hprepared, fun hrec => hrec⟩
  | some s =>
    unfold signalDiff at h
    dsimp only at h
    split at h
    · obtain rfl := h
      have hbase := prepared_getD hprepared hsome
      refine ⟨fun d hd => ?_, fun hrec d hd => ?_⟩
      · obtain rfl := some.inj hd
        refine ⟨hbase.kept, hbase.output, hbase.transition, hbase.creation, fun a ha hc => ?_⟩
        have hrev := hbase.reversible a ha hc
        refine ⟨hrev.1, hrev.2, hrev.3, hrev.4, hrev.5, hrev.6, fun _ => ?_⟩
        rw [mem_def.mp ha, getD_some]
      · obtain rfl := some.inj hd
        cases d₃ with
        | some e => exact hrec e rfl
        | none => exact fun a _ hbic => absurd rfl hbic
    · obtain rfl := h
      exact ⟨hprepared, fun hrec => hrec⟩

end Stages

/-! ## Section 5: The outcome -/

/-- A burn that meets a diff made by an output of the account or by a delegation comes
    with an allotment, or the credits were last updated in slot 0. -/
def BurnRecorded (p : Params) (stateDiff : StateDiff) (id : AccountID)
    (loaded : Option AccountData) (burn : Option UInt64) : Prop :=
  ∀ b ∈ burn, b ≠ 0 →
    stateDiff.Delegates id ∨ (stateDiff.consumed p id).isSome ∨ (stateDiff.created p id).isSome →
    stateDiff.Allots id ∨ ∀ a ∈ loaded, a.credits.updateSlot = 0

/-- The slot has nothing for the account, apart from burns and spent outputs. -/
def Untouched (p : Params) (m : Manager) (stateDiff : StateDiff) (id : AccountID) : Prop :=
  ¬ stateDiff.Allots id ∧ ¬ stateDiff.Delegates id ∧ stateDiff.created p id = none ∧
    (m.latestSupportedVersionSignals (m.latestCommittedSlot + 1)).lookup id = none

variable {stateDiff : StateDiff} {burns : Map AccountID UInt64} {loaded' : Option AccountData}
  {stored : Option (AccountDiff × Bool)}

theorem mem_destroyedAccounts (h : id ∈ destroyedAccounts p stateDiff) :
    ∃ o ∈ stateDiff.destroyedStates, o.accountID p = some id ∧ o.tracked = true ∧
      stateDiff.created p id = none := by
  obtain ⟨o, ho, hsome⟩ := mem_filterMap.mp h
  split at hsome
  next k hid =>
    split_ifs at hsome with hcond
    obtain rfl := some.inj hsome
    exact ⟨o, ho, hid, hcond.1, isNone_iff_eq_none.mp hcond.2.2⟩
  next => cases hsome

theorem notMem_destroyedAccounts (h : (stateDiff.created p id).isSome) :
    id ∉ destroyedAccounts p stateDiff := by
  intro hin
  obtain ⟨_, _, _, _, hnone⟩ := mem_destroyedAccounts hin
  rw [hnone] at h
  cases h

theorem decayCredits_spec {slot : Nat} {d' : AccountDiff}
    (h : decayCredits p slot loaded d = some d') :
    (∃ bicChange, d' = { d with bicChange := bicChange }) ∧
      (d'.bicChange ≠ 0 → d.bicChange ≠ 0) := by
  unfold decayCredits at h
  cases loaded with
  | none =>
    obtain rfl := some.inj h
    exact ⟨⟨_, rfl⟩, fun hbic => hbic⟩
  | some a =>
    dsimp only at h
    split at h
    · rename_i hcond
      obtain ⟨decayed, _, rfl⟩ := map_eq_some_iff.mp h
      exact ⟨⟨_, rfl⟩, fun _ => hcond.1⟩
    · obtain rfl := some.inj h
      exact ⟨⟨_, rfl⟩, fun hbic => hbic⟩

section Outcome

variable (h : AccountStages p m stateDiff burns id loaded' stored)
  (hmatch : OutputsMatch (m.accountsTree.lookup id) (stateDiff.consumed p id)
    (stateDiff.created p id))

include h hmatch

theorem AccountStages.diff :
    ∃ d d' d'' : Option AccountDiff,
      PreserveSpec (m.accountsTree.lookup id) (id ∈ destroyedAccounts p stateDiff) d d' ∧
      CommitSpec p (m.latestCommittedSlot + 1) id (id ∈ destroyedAccounts p stateDiff)
        (m.accountsTree.lookup id) loaded' d' d'' ∧
      stored = d''.map (fun d => (d, decide (id ∈ destroyedAccounts p stateDiff))) ∧
      (∀ e ∈ d, Prepared (m.accountsTree.lookup id) (stateDiff.consumed p id)
        (stateDiff.created p id) e) ∧
      ((stateDiff.consumed p id).isSome ∨ (stateDiff.created p id).isSome → d.isSome) ∧
      (m.accountsTree.lookup id = none → Untouched p m stateDiff id → d = none) ∧
      ((stateDiff.consumed p id).isSome → (m.accountsTree.lookup id).isSome) ∧
      (BurnRecorded p stateDiff id (m.accountsTree.lookup id) (burns.lookup id) →
        ∀ e ∈ d, Recorded (m.accountsTree.lookup id) e) := by
  obtain ⟨d₀, d₁, d₂, d₃, d₄, d₅, d₆, hallot, hdelegate, hprepare, hburn, hsignal, hpreserve,
    hcommit, hstored⟩ := h
  obtain ⟨hplain, hupdate, htouched₁⟩ := delegated_spec hallot hdelegate
  have hprepared₂ := prepared_spec hmatch hplain hupdate hprepare
  have hsome₂ := fun h => hprepare.isSome_iff.mpr (.inr h)
  obtain ⟨hsome₃, htouched₃⟩ := hburn.isSome_iff
  obtain ⟨hprepared₃, hrecorded₃⟩ := burned_spec hprepared₂ hsome₂ hburn
  obtain ⟨hprepared₄, hrecorded₄⟩ := signaled_spec hprepared₃ (fun h => hsome₃ (hsome₂ h)) hsignal
  refine ⟨d₄, d₅, d₆, hpreserve, hcommit, hstored, hprepared₄,
    fun h => hsignal.isSome_iff.mpr (.inl (hsome₃ (hsome₂ h))), ?_, hprepare.loaded_isSome, ?_⟩
  · rintro hnone ⟨hallots, hdelegates, hcreated, hnosignal⟩
    by_contra hd₄
    rcases hsignal.isSome_iff.mp (isSome_iff_ne_none.mpr hd₄) with hd₃ | ⟨s, hs, _⟩
    · rcases hprepare.isSome_iff.mp (htouched₃ hnone hd₃) with hd₁ | hc | ho
      · exact (htouched₁ hd₁).elim hallots hdelegates
      · have hloaded := hprepare.loaded_isSome hc
        rw [hnone] at hloaded
        cases hloaded
      · exact absurd hcreated (isSome_iff_ne_none.mp ho)
    · rw [hnosignal] at hs
      cases hs
  · intro hrecorded
    apply hrecorded₄
    apply hrecorded₃
    intro b hb hne hd₂
    rcases hprepare.isSome_iff.mp hd₂ with hd₁ | hout
    · rcases htouched₁ hd₁ with hallots | hdelegates
      · exact .inl hallots
      · exact hrecorded b hb hne (.inl hdelegates)
    · exact hrecorded b hb hne (.inr hout)

theorem AccountStages.present
    (hdestroyed : id ∈ destroyedAccounts p stateDiff → (stateDiff.consumed p id).isSome)
    (hload : m.accountsTree.lookup id = some a)
    (hnot : (stateDiff.created p id).isSome → (stateDiff.consumed p id).isSome) :
    (id ∈ destroyedAccounts p stateDiff →
      loaded' = none ∧ stored = some (preserveDestroyedAccountData a, true)) ∧
    (id ∉ destroyedAccounts p stateDiff →
      loaded' = some a ∧ stored = none ∨
      ∃ d a', loaded' = some a' ∧ stored = some (d, false) ∧ Reversible a d ∧
        d.apply (m.latestCommittedSlot + 1) true a = some a' ∧
        (BurnRecorded p stateDiff id (some a) (burns.lookup id) →
          d.bicChange ≠ 0 → d.previousUpdatedSlot = a.credits.updateSlot)) := by
  obtain ⟨d, d', d'', hpreserve, hcommit, rfl, hprepared, hsome, _, _, hrecorded⟩ := h.diff hmatch
  rw [hload] at hpreserve hcommit hprepared hrecorded
  constructor
  · intro hin
    obtain ⟨b, hb, hd'⟩ := hpreserve.preserved (hsome (.inl (hdestroyed hin))) hin
    obtain rfl := some.inj hb
    obtain ⟨hloaded', hd''⟩ := hcommit.deleted _ hd' hin
    rw [hd'', decide_eq_true hin]
    exact ⟨hloaded', rfl⟩
  · intro hnotin
    have hd' := hpreserve.kept hnotin
    cases hd : d with
    | none =>
      obtain ⟨hloaded', hd''⟩ := hcommit.unset (hd'.trans hd)
      left
      rw [hd'']
      exact ⟨hloaded', rfl⟩
    | some e =>
      obtain ⟨e', a', hdecay, happly, hloaded', hd''⟩ := hcommit.applied e (hd'.trans hd) hnotin
      obtain ⟨⟨bicChange, he'⟩, hbic⟩ := decayCredits_spec hdecay
      right
      refine ⟨e', a', hloaded', by rw [hd'', decide_eq_false hnotin]; rfl, ?_, happly, ?_⟩
      · rw [he']
        exact ((hprepared e hd).reversible a rfl hnot).with_bicChange bicChange
      · intro hburn hne
        have hslot := hrecorded hburn e hd a rfl (hbic hne)
        rw [he']
        exact hslot

theorem AccountStages.absent (hload : m.accountsTree.lookup id = none) :
    (Untouched p m stateDiff id → loaded' = none) ∧
    (loaded' = none → stored = none) ∧
    ((stateDiff.created p id).isSome →
      loaded'.isSome ∧ ∃ d, stored = some (d, false) ∧ d.createsAccount = true) := by
  obtain ⟨d, d', d'', hpreserve, hcommit, rfl, hprepared, hsome, huntouched, hloaded, _⟩ :=
    h.diff hmatch
  refine ⟨?_, ?_, ?_⟩
  · intro hu
    rw [(hcommit.unset (hpreserve.unset (huntouched hload hu))).1, hload]
  · intro hnone
    cases hd : d with
    | none =>
      rw [(hcommit.unset (hpreserve.unset hd)).2]
      rfl
    | some e =>
      -- an account that is not in the tree is not destroyed, and a diff would put it there
      by_cases hin : id ∈ destroyedAccounts p stateDiff
      · obtain ⟨a, ha, _⟩ := hpreserve.preserved (by rw [hd]; rfl) hin
        rw [hload] at ha
        cases ha
      · obtain ⟨_, a', _, _, hloaded', _⟩ := hcommit.applied e ((hpreserve.kept hin).trans hd) hin
        rw [hnone] at hloaded'
        cases hloaded'
  · intro hcreated
    have hnotin := notMem_destroyedAccounts hcreated
    obtain ⟨o, ho⟩ := isSome_iff_exists.mp hcreated
    obtain ⟨e, he⟩ := isSome_iff_exists.mp (hsome (.inr hcreated))
    obtain ⟨e', a', hdecay, happly, hloaded', hd''⟩ :=
      hcommit.applied e ((hpreserve.kept hnotin).trans he) hnotin
    obtain ⟨⟨bicChange, he'⟩, _⟩ := decayCredits_spec hdecay
    refine ⟨by rw [hloaded']; rfl, e', by rw [hd'', decide_eq_false hnotin]; rfl, ?_⟩
    have hconsumed : stateDiff.consumed p id = none := by
      by_contra hne
      have hin := hloaded (isSome_iff_ne_none.mpr hne)
      rw [hload] at hin
      exact nomatch hin
    have hprev := ((hprepared e he).creation hconsumed hcreated).1
    have hnew := ((hprepared e he).output o ho).1
    rw [he']
    show (e.previousOutputID == emptyOutputID && e.newOutputID != emptyOutputID) = true
    rw [hprev, hnew, Bool.and_eq_true, bne_iff_ne]
    exact ⟨beq_self_eq_true _, (hmatch.new o ho).1⟩

theorem AccountStages.destroyed (hin : id ∈ destroyedAccounts p stateDiff)
    (hconsumed : (stateDiff.consumed p id).isSome) : loaded' = none := by
  obtain ⟨d, d', d'', hpreserve, hcommit, _, _, hsome, _, _, _⟩ := h.diff hmatch
  obtain ⟨a, _, hd'⟩ := hpreserve.preserved (hsome (.inl hconsumed)) hin
  exact (hcommit.deleted _ hd' hin).1

theorem AccountStages.kept (hnotin : id ∉ destroyedAccounts p stateDiff)
    (hcreated : stateDiff.created p id = none) :
    loaded' = m.accountsTree.lookup id ∨
      ∃ a', loaded' = some a' ∧
        a'.id = ((m.accountsTree.lookup id).getD (newAccountData id)).id ∧
        a'.outputID = ((m.accountsTree.lookup id).getD (newAccountData id)).outputID ∧
        a'.expirySlot = ((m.accountsTree.lookup id).getD (newAccountData id)).expirySlot := by
  obtain ⟨d, d', d'', hpreserve, hcommit, _, hprepared, _, _, _, _⟩ := h.diff hmatch
  have hd' := hpreserve.kept hnotin
  cases hd : d with
  | none => exact .inl (hcommit.unset (hd'.trans hd)).1
  | some e =>
    obtain ⟨e', a', hdecay, happly, hloaded', _⟩ := hcommit.applied e (hd'.trans hd) hnotin
    obtain ⟨⟨bicChange, rfl⟩, _⟩ := decayCredits_spec hdecay
    obtain ⟨hid, hexpiry, houtput⟩ := AccountDiff.apply_fields happly
    obtain ⟨hsame, hnew⟩ := (hprepared e hd).kept hcreated
    right
    refine ⟨a', hloaded', hid, ?_, ?_⟩
    · rw [houtput]
      split
      · rename_i hne
        obtain ⟨a, ha, heq⟩ := hnew hne
        rw [ha, getD_some]
        exact heq
      · rfl
    · rw [hexpiry]
      exact if_neg (not_not.mpr hsame)

theorem AccountStages.tracked (ho : stateDiff.created p id = some o)
    (hzero : stateDiff.consumed p id = none →
      ((m.accountsTree.lookup id).getD (newAccountData id)).expirySlot = 0) :
    ∃ a', loaded' = some a' ∧
      a'.id = ((m.accountsTree.lookup id).getD (newAccountData id)).id ∧
      a'.outputID = o.outputID ∧ o.expirySlot = some a'.expirySlot := by
  obtain ⟨d, d', d'', hpreserve, hcommit, _, hprepared, hsome, _, hloaded, _⟩ := h.diff hmatch
  have hcreated : (stateDiff.created p id).isSome := by rw [ho]; rfl
  have hnotin := notMem_destroyedAccounts hcreated
  obtain ⟨e, he⟩ := isSome_iff_exists.mp (hsome (.inr hcreated))
  obtain ⟨e', a', hdecay, happly, hloaded', _⟩ :=
    hcommit.applied e ((hpreserve.kept hnotin).trans he) hnotin
  obtain ⟨⟨bicChange, rfl⟩, _⟩ := decayCredits_spec hdecay
  obtain ⟨hid, hexpiry, houtput⟩ := AccountDiff.apply_fields happly
  obtain ⟨hnew, hnewExpiry⟩ := (hprepared e he).output o ho
  refine ⟨a', hloaded', hid, ?_, ?_⟩
  · rw [houtput, hnew, if_pos (hmatch.new o ho).1]
  · -- where the expiry slot does not change it is the one of the data
    have hprev : e.previousExpirySlot =
        ((m.accountsTree.lookup id).getD (newAccountData id)).expirySlot := by
      cases hc : stateDiff.consumed p id with
      | none => rw [hzero hc, ((hprepared e he).creation hc hcreated).2]
      | some c =>
        have hconsumed : (stateDiff.consumed p id).isSome := by rw [hc]; rfl
        obtain ⟨a, ha⟩ := isSome_iff_exists.mp (hloaded hconsumed)
        rw [ha, getD_some]
        exact (hprepared e he).transition hconsumed hcreated a ha
    rw [hnewExpiry, hexpiry]
    split
    · rfl
    · rename_i heq
      rw [← hprev, not_not.mp heq]

end Outcome

end AxonCore.Accounts

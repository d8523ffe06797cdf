import AxonCore.Performance.RoundTrip

/-! # Going on from a snapshot

    A tracker that imported a snapshot goes on with the later blocks of the epoch in progress and
    applies the epoch at its end.  `SameProgress` relates it to a tracker that was there all the
    time.  Tracking a block of the epoch keeps the relation (`SameProgress.track`), and related
    trackers apply the epoch with the same result (`SameProgress.applyEpoch`), though their
    committees and performances may be stored in another order. -/

namespace AxonCore.Performance

open AxonCore.Lib AxonCore.Committee AxonCore.Stores Function Option EpochStore Tracker

variable {ID Hash : Type} [LinearOrder ID] {p : Params}

/-! ## Section 1: Trackers in the middle of an epoch -/

/-- A slot of an epoch. -/
def InEpoch (p : Params) (epoch slot : Nat) : Prop :=
  p.timeProvider.epochStart epoch ≤ slot ∧ slot ≤ p.timeProvider.epochEnd epoch

/-- Two trackers with the same data about an epoch. -/
structure SameProgress (p : Params) (epoch : Nat) (t t' : Tracker ID Hash) : Prop where
  performances : ∀ slot, InEpoch p epoch slot →
    Option.Rel SameEntries (t'.validatorPerformances slot) (t.validatorPerformances slot)
  committee : Option.Rel SameCommittee (t'.committeeStore.load epoch) (t.committeeStore.load epoch)
  wellFormed : ∀ c ∈ t.committeeStore.load epoch, WellFormed c
  rewards : Option.Rel SameEntries (t'.rewards.load epoch) (t.rewards.load epoch)
  subslots : p.validationBlocksPerSlot t'.latestAppliedEpoch =
    p.validationBlocksPerSlot t.latestAppliedEpoch

variable {epoch : Nat} {t t' t₁ : Tracker ID Hash} {accounts : Accounts ID}
  {m : Map ID PoolRewards}

section

variable (h : SameProgress p epoch t t')
include h

theorem SameProgress.isCommitteeMember {slot : Nat} (hslot : InEpoch p epoch slot) (id : ID) :
    t'.isCommitteeMember p slot id = t.isCommitteeMember p slot id := by
  unfold Tracker.isCommitteeMember Tracker.loadCommitteeForEpoch
  rw [epochFromSlot_of_mem hslot.1 hslot.2]
  exact eq_of_rel (rel_map h.committee fun c' c hsame => hsame.members id)

theorem SameProgress.update (slot : Nat) {m m' : Map ID (ValidatorPerformance Hash)}
    (hsame : SameEntries m' m) :
    SameProgress p epoch
      { t with validatorPerformances := update t.validatorPerformances slot (some m) }
      { t' with validatorPerformances := update t'.validatorPerformances slot (some m') } where
  performances := by
    intro s hs
    by_cases heq : s = slot
    · subst heq
      simp only [update_self]
      exact Option.Rel.some hsame
    · simp only [update_of_ne heq]
      exact h.performances s hs
  committee := h.committee
  wellFormed := h.wellFormed
  rewards := h.rewards
  subslots := h.subslots

theorem SameProgress.track {block : Block ID Hash} (hblock : InEpoch p epoch block.slot)
    (htrack : t.trackValidationBlock p block = some t₁) :
    ∃ t₁', t'.trackValidationBlock p block = some t₁' ∧ SameProgress p epoch t₁ t₁' := by
  have hsubslot : t'.subslotIndex p block.slot block.issuingTime =
      t.subslotIndex p block.slot block.issuingTime := by
    unfold subslotIndex
    rw [h.subslots]
  have hperformances := h.performances block.slot hblock
  have hmember : t'.isCommitteeMember p block.slot block.issuerID =
      t.isCommitteeMember p block.slot block.issuerID := h.isCommitteeMember hblock _
  rcases trackValidationBlock_cases htrack with
    ⟨rfl, hnot⟩ | ⟨versionAndHash, m, subslot, ⟨hvalidation, htrue, hm⟩, hindex, hnonneg, rfl⟩
  · refine ⟨t', trackValidationBlock_of_not ?_, h⟩
    rintro versionAndHash m' ⟨hvalidation, htrue, hm'⟩
    cases hm : t₁.validatorPerformances block.slot with
    | none =>
      rw [hm, hm'] at hperformances
      cases hperformances
    | some m => exact hnot versionAndHash m ⟨hvalidation, hmember ▸ htrue, hm⟩
  · rw [hm] at hperformances
    obtain ⟨m', hm', hsame⟩ := exists_of_rel_some hperformances
    rw [trackValidationBlock_of_counts ⟨hvalidation, hmember.trans htrue, hm'⟩, hsubslot,
      hindex, bind_some, if_neg hnonneg, hsame block.issuerID]
    exact ⟨_, rfl, h.update block.slot (hsame.insert block.issuerID _)⟩

/-! ## Section 2: The end of the epoch -/

theorem SameProgress.epochPerformanceFactor (id : ID) :
    t'.epochPerformanceFactor p epoch id = t.epochPerformanceFactor p epoch id := by
  have hslots : t'.validatorPerformancesInEpoch p epoch id =
      t.validatorPerformancesInEpoch p epoch id := by
    apply List.map_congr_left
    intro slot hslot
    refine eq_of_rel (rel_map (h.performances slot (mem_upTo.mp hslot)) fun m' m hsame => ?_)
    rw [hsame id]
  unfold Tracker.epochPerformanceFactor
  rw [hslots]

end

theorem Balanced.stakes_congr {a a' : Accounts ID} (ha : a.Balanced) (ha' : a'.Balanced)
    (hget : ∀ id, a'.get id = a.get id) :
    a'.totalStake = a.totalStake ∧ a'.totalValidatorStake = a.totalValidatorStake := by
  rw [ha'.totalStake, ha.totalStake, ha'.totalValidatorStake, ha.totalValidatorStake]
  exact ⟨total_congr Pool.poolStake hget, total_congr Pool.validatorStake hget⟩

/-- What `ApplyEpoch` does to the entry of a pool. -/
def AppliedPool (p : Params) (t : Tracker ID Hash) (epoch : Nat) (accounts : Accounts ID)
    (e : Sigma fun _ : ID => Pool) (v v' : Option PoolRewards) : Prop :=
  if t.epochPerformanceFactor p epoch e.1 = 0 then v' = v
  else ∃ reward, poolReward p (p.timeProvider.epochEnd epoch) accounts.totalValidatorStake
      accounts.totalStake e.2.poolStake e.2.validatorStake (t.epochPerformanceFactor p epoch e.1) =
        some reward ∧ v' = some ⟨e.2.poolStake, reward, e.2.fixedCost⟩

theorem AppliedPool.unique {e : Sigma fun _ : ID => Pool} {v v₁ v₂ : Option PoolRewards}
    (h₁ : AppliedPool p t epoch accounts e v v₁) (h₂ : AppliedPool p t epoch accounts e v v₂) :
    v₁ = v₂ := by
  unfold AppliedPool at h₁ h₂
  split at h₁
  · rename_i hzero
    rw [if_pos hzero] at h₂
    rw [h₁, h₂]
  · rename_i hpos
    rw [if_neg hpos] at h₂
    obtain ⟨r₁, hr₁, rfl⟩ := h₁
    obtain ⟨r₂, hr₂, rfl⟩ := h₂
    rw [hr₁] at hr₂
    rw [some.inj hr₂]

theorem appliedPool_of_run {m' : Map ID PoolRewards}
    (hrun : run (t.applyPool p epoch accounts) m accounts.accountPools.entries = some m') :
    (∀ e ∈ accounts.accountPools.entries,
      AppliedPool p t epoch accounts e (m.lookup e.1) (m'.lookup e.1)) ∧
    ∀ id, id ∉ accounts.accountPools.keys → m'.lookup id = m.lookup id := by
  have hkeys : (accounts.accountPools.entries.map Sigma.fst).Nodup :=
    accounts.accountPools.keys_nodup
  apply run_keyed (fun (m : Map ID PoolRewards) id => m.lookup id)
    (R := AppliedPool p t epoch accounts) _ _ hkeys hrun
  · intro s e s' hs'
    unfold applyPool at hs'
    unfold AppliedPool
    dsimp only at hs'
    split at hs'
    · rename_i hzero
      rw [if_pos hzero, ← some.inj hs']
    · rename_i hpos
      obtain ⟨reward, hreward, rfl⟩ := map_eq_some_iff.mp hs'
      rw [if_neg hpos]
      exact ⟨reward, hreward, by rw [lookup_insert_eq, if_pos rfl]⟩
  · intro s e s' hs' id hid
    unfold applyPool at hs'
    dsimp only at hs'
    split at hs'
    · rw [← some.inj hs']
    · obtain ⟨reward, _, rfl⟩ := map_eq_some_iff.mp hs'
      rw [lookup_insert_eq, if_neg hid]

theorem run_applyPool_isSome (m : Map ID PoolRewards)
    (h : ∀ e ∈ accounts.accountPools.entries, ∃ v v', AppliedPool p t epoch accounts e v v') :
    (run (t.applyPool p epoch accounts) m accounts.accountPools.entries).isSome := by
  apply run_isSome (I := fun _ => True) _ (fun _ _ _ _ _ _ => trivial) trivial
  intro e he s _
  obtain ⟨v, v', hv⟩ := h e he
  unfold AppliedPool at hv
  unfold applyPool
  dsimp only
  split
  · rfl
  · rename_i hpos
    rw [if_neg hpos] at hv
    obtain ⟨reward, hreward, _⟩ := hv
    rw [hreward]
    rfl

/-- The loops of both trackers, over the same pools in any order. -/
theorem SameProgress.run_applyPool (h : SameProgress p epoch t t') {a a' : Accounts ID}
    (ha : a.Balanced) (ha' : a'.Balanced) (hget : ∀ id, a'.get id = a.get id)
    {m₀ m₀' : Map ID PoolRewards} (hsame : SameEntries m₀' m₀)
    (hrun : run (t.applyPool p epoch a) m₀ a.accountPools.entries = some m) :
    ∃ m', run (t'.applyPool p epoch a') m₀' a'.accountPools.entries = some m' ∧
      SameEntries m' m := by
  obtain ⟨hstake, hvalidatorStake⟩ := Balanced.stakes_congr ha ha' hget
  have happlied : ∀ e v v', AppliedPool p t' epoch a' e v v' ↔ AppliedPool p t epoch a e v v' := by
    intro e v v'
    unfold AppliedPool
    rw [h.epochPerformanceFactor, hstake, hvalidatorStake]
  have hentries : ∀ e, e ∈ a'.accountPools.entries ↔ e ∈ a.accountPools.entries := by
    intro e
    rw [← AList.mem_lookup_iff, ← AList.mem_lookup_iff]
    show a'.get e.1 = some e.2 ↔ a.get e.1 = some e.2
    rw [hget]
  obtain ⟨hown, hother⟩ := appliedPool_of_run hrun
  have hsome : (run (t'.applyPool p epoch a') m₀' a'.accountPools.entries).isSome :=
    run_applyPool_isSome m₀' fun e he =>
      ⟨_, _, (happlied e _ _).mpr (hown e ((hentries e).mp he))⟩
  obtain ⟨m', hrun'⟩ := isSome_iff_exists.mp hsome
  obtain ⟨hown', hother'⟩ := appliedPool_of_run hrun'
  refine ⟨m', hrun', fun id => ?_⟩
  cases hpool : a'.get id with
  | some pool =>
    have he' : (⟨id, pool⟩ : Sigma fun _ : ID => Pool) ∈ a'.accountPools.entries :=
      AList.mem_lookup_iff.mp hpool
    have hv' := (happlied _ _ _).mp (hown' _ he')
    rw [hsame id] at hv'
    exact hv'.unique (hown _ ((hentries _).mp he'))
  | none =>
    have hnotin' : id ∉ a'.accountPools.keys := AList.lookup_eq_none.mp hpool
    have hnotin : id ∉ a.accountPools.keys := AList.lookup_eq_none.mp ((hget id).symm.trans hpool)
    rw [hother id hnotin, hother' id hnotin', hsame id]

/-- Two trackers with the same rewards and statistics of an epoch. -/
def SameResult (epoch : Nat) (t t' : Tracker ID Hash) : Prop :=
  Option.Rel SameEntries (t'.rewards.load epoch) (t.rewards.load epoch) ∧
    t'.poolStatsStore.load epoch = t.poolStatsStore.load epoch

theorem SameProgress.applyEpoch (h : SameProgress p epoch t t') {c : SeatedAccounts ID}
    (hload : t.committeeStore.load epoch = some c) (happly : t.applyEpoch p epoch c = some t₁) :
    ∃ c' t₁', t'.committeeStore.load epoch = some c' ∧ t'.applyEpoch p epoch c' = some t₁' ∧
      SameResult epoch t₁ t₁' := by
  obtain ⟨c', hload', hsame⟩ : ∃ c', t'.committeeStore.load epoch = some c' ∧
      SameCommittee c' c := by
    have hcommittee := h.committee
    rw [hload] at hcommittee
    exact exists_of_rel_some hcommittee
  have hwell := h.wellFormed c hload
  -- the accounts of both committees
  obtain ⟨a, ha, hbalanced, hget⟩ := hwell.seated.accountsOf hwell.balanced
  obtain ⟨a', ha', hbalanced', hget'⟩ := SeatedAccounts.accountsOf_isOk (c := c') (by
    intro id
    have hmembers : (c'.getSeat id).isSome = (c.getSeat id).isSome := hsame.members id
    rw [hmembers, hwell.seated.members]
    show (c.accounts.get id).isSome = (c'.accounts.get id).isSome
    rw [hsame.accounts]) hsame.balanced
  have hsameGet : ∀ id, a'.get id = a.get id := fun id => by rw [hget', hget, hsame.accounts]
  obtain ⟨hstake, hvalidatorStake⟩ := Balanced.stakes_congr hbalanced hbalanced' hsameGet
  unfold Tracker.applyEpoch at happly
  rw [toOption_eq_some.mpr ha, bind_some] at happly
  obtain ⟨margin, hmargin, happly⟩ := bind_eq_some_iff.mp happly
  obtain ⟨profitMargin, hprofitMargin, happly⟩ := bind_eq_some_iff.mp happly
  obtain ⟨rewardsMap, hloop, rfl⟩ := map_eq_some_iff.mp happly
  have hstart : SameEntries ((t'.rewards.load epoch).getD ∅) ((t.rewards.load epoch).getD ∅) := by
    have hrewards := h.rewards
    generalize t'.rewards.load epoch = o' at hrewards ⊢
    generalize t.rewards.load epoch = o at hrewards ⊢
    cases hrewards with
    | none => exact fun _ => rfl
    | some hsame => exact hsame
  obtain ⟨rewardsMap', hloop', hsameRewards⟩ :=
    h.run_applyPool hbalanced hbalanced' hsameGet hstart hloop
  refine ⟨c', t'.storeEpoch epoch ⟨a.totalStake, a.totalValidatorStake, profitMargin⟩ rewardsMap',
    hload', ?_, ?_⟩
  · unfold applyEpoch
    rw [toOption_eq_some.mpr ha', bind_some, hstake, hvalidatorStake, hmargin, bind_some,
      hprofitMargin, bind_some, hloop', map_some]
  · unfold SameResult storeEpoch
    simp only [load_store, if_true]
    exact ⟨Option.Rel.some hsameRewards, trivial⟩

/-! ## Section 3: Snapshots of all runs -/

/-- A tracker that has seen the slots up to `slot` as node `n` has, and nothing since. -/
structure AtSlot (p : Params) (n : Node ID Hash) (slot : Nat) (t : Tracker ID Hash) : Prop where
  performances : ∀ s, InEpoch p (epochInProgress p slot) s → t.validatorPerformances s =
    if s ≤ slot then n.tracker.validatorPerformances s else some ∅
  committee : t.committeeStore.load (epochInProgress p slot) =
    n.tracker.committeeStore.load (epochInProgress p slot)
  rewards : t.rewards.load (epochInProgress p slot) = none

/-- The tracker that imported the snapshot of a slot goes on like one that was at the slot: with
    the same blocks it applies the epoch in progress with the same result. -/
def Continues (p : Params) (n : Node ID Hash) (slot : Nat) (y : Tracker ID Hash) : Prop :=
  ∀ (t t₁ t₂ : Tracker ID Hash) (blocks : List (Block ID Hash)) (c : SeatedAccounts ID),
    AtSlot p n slot t →
    p.validationBlocksPerSlot y.latestAppliedEpoch =
      p.validationBlocksPerSlot t.latestAppliedEpoch →
    (∀ block ∈ blocks, InEpoch p (epochInProgress p slot) block.slot) →
    run (trackValidationBlock p) t blocks = some t₁ →
    t₁.committeeStore.load (epochInProgress p slot) = some c →
    t₁.applyEpoch p (epochInProgress p slot) c = some t₂ →
    ∃ y₁ y₂ c', run (trackValidationBlock p) y blocks = some y₁ ∧
      y₁.committeeStore.load (epochInProgress p slot) = some c' ∧
      y₁.applyEpoch p (epochInProgress p slot) c' = some y₂ ∧
      SameResult (epochInProgress p slot) t₂ y₂

variable {n : Node ID Hash} {slot : Nat} {y : Tracker ID Hash}

theorem RoundTrip.sameProgress (h : RoundTrip p n slot y) (hsound : Sound n)
    (ht : AtSlot p n slot t) (hsubslots : p.validationBlocksPerSlot y.latestAppliedEpoch =
      p.validationBlocksPerSlot t.latestAppliedEpoch) :
    SameProgress p (epochInProgress p slot) t y where
  performances := by
    intro s hs
    rw [ht.performances s hs]
    split_ifs with hle
    · exact h.performances s hs.1 hle
    · rw [h.laterPerformances s (Nat.lt_of_not_le hle)]
      exact Option.Rel.some fun _ => rfl
  committee := by
    rw [ht.committee]
    exact h.committees _ (Nat.le_refl _)
  wellFormed := by
    intro c hc
    rw [ht.committee] at hc
    exact (hsound.committees hc).2
  rewards := by
    have hrewards := h.rewards (epochInProgress p slot)
    rw [if_neg (fun hlt => Nat.lt_irrefl _ hlt.1)] at hrewards
    rw [ht.rewards]
    exact hrewards
  subslots := hsubslots

theorem RoundTrip.continues (h : RoundTrip p n slot y) (hsound : Sound n) :
    Continues p n slot y := by
  intro t t₁ t₂ blocks c ht hsubslots hblocks hrun hload happly
  obtain ⟨y₁, hrun', hprogress⟩ := run_simulates
    (fun block hblock _ _ _ hprogress htrack => hprogress.track (hblocks block hblock) htrack)
    (h.sameProgress hsound ht hsubslots) hrun
  obtain ⟨c', y₂, hload', happly', hresult⟩ := hprogress.applyEpoch hload happly
  exact ⟨y₁, y₂, c', hrun', hload', happly', hresult⟩

/-- After any run of a node, the snapshot of a slot can be exported and imported without loss or
    excess exactly if the node is exportable; the importing tracker then goes on like one that was
    at the slot. -/
theorem snapshot_roundTrip_iff {n₀ : Node ID Hash} {ops : List (NodeOp ID Hash)}
    (hsound : Sound n₀) (hops : ∀ op ∈ ops, Proper op) (hrun : run (Node.step p) n₀ ops = some n)
    (hslot : p.timeProvider.genesisSlot ≤ slot) (latestAppliedEpoch : Nat) :
    (Exportable p n slot ↔ ∃ snapshot y, n.exportSnapshot p slot = some snapshot ∧
      (empty latestAppliedEpoch).importSnapshot snapshot = some y ∧ RoundTrip p n slot y) ∧
    ∀ snapshot y, n.exportSnapshot p slot = some snapshot →
      (empty latestAppliedEpoch).importSnapshot snapshot = some y → RoundTrip p n slot y →
      Continues p n slot y := by
  have hsound : Sound n :=
    run_invariant_of (G := fun _ op => Proper op) (fun _ _ _ h hop hstep => h.step hop hstep) hsound
      (allSteps_of_forall (fun op hop _ => hops op hop) n₀) hrun
  refine ⟨⟨fun hexportable => ?_, ?_⟩, fun _ _ _ _ hroundTrip => hroundTrip.continues hsound⟩
  · have hexport : (n.exportSnapshot p slot).isSome := by
      rw [exportSnapshot_isSome_iff hsound hslot, exportStartSlot_eq hslot]
      exact ⟨hexportable.slots, hexportable.rewards⟩
    obtain ⟨snapshot, hsnapshot⟩ := isSome_iff_exists.mp hexport
    obtain ⟨y, himport, _, himported⟩ :=
      importSnapshot_exportSnapshot hsound hslot hsnapshot latestAppliedEpoch
    exact ⟨snapshot, y, hsnapshot, himport, himported.roundTrip hslot hexportable⟩
  · rintro ⟨snapshot, y, hsnapshot, himport, hroundTrip⟩
    obtain ⟨y', himport', _, himported⟩ :=
      importSnapshot_exportSnapshot hsound hslot hsnapshot latestAppliedEpoch
    obtain rfl : y' = y := some.inj (himport'.symm.trans himport)
    exact himported.exportable hslot hsound (isSome_iff_exists.mpr ⟨snapshot, hsnapshot⟩)
      hroundTrip

/-- `smallParams` with an epoch that is longer than the commitments may lag behind. -/
def snapshotParams : Params := { smallParams with maxCommittableAge := 1 }

theorem wellFormed_twoMembers : WellFormed twoMembers where
  seated := by
    have hlookup : ∀ {ν : Type} (u v : ν) (id : Nat),
        (((∅ : Map Nat ν).insert 2 v).insert 1 u).lookup id =
          if id = 1 then some u else if id = 2 then some v else none := by
      intro ν u v id
      rw [lookup_insert_eq, lookup_insert_eq]
      rfl
    have hseat : ∀ id, twoMembers.getSeat id = _ := hlookup 0 1
    have haccount : ∀ id, twoMembers.accounts.get id = _ := hlookup (Pool.mk 60 20 1) (.mk 40 10 1)
    constructor
    · intro id
      show (twoMembers.getSeat id).isSome = (twoMembers.accounts.get id).isSome
      rw [hseat, haccount]
      split_ifs <;> rfl
    · intro id id' seat hid hid'
      have hcases : ∀ j, twoMembers.getSeat j = some seat →
          (j = 1 ∧ seat = 0) ∨ (j = 2 ∧ seat = 1) := by
        intro j hj
        rw [hseat] at hj
        split_ifs at hj with hone htwo
        · exact .inl ⟨hone, (some.inj hj).symm⟩
        · exact .inr ⟨htwo, (some.inj hj).symm⟩
      rcases hcases id hid with ⟨rfl, rfl⟩ | ⟨rfl, rfl⟩
      · rcases hcases id' hid' with ⟨rfl, _⟩ | ⟨_, hne⟩
        · rfl
        · exact absurd hne (by decide)
      · rcases hcases id' hid' with ⟨_, hne⟩ | ⟨rfl, _⟩
        · exact absurd hne (by decide)
        · rfl
  balanced := ⟨rfl, rfl, by decide, by decide⟩

theorem sound_genesisNode : Sound genesisNode where
  poolStats h := nomatch h
  committees := by
    intro epoch c hload
    have hload : ((empty.store 1 twoMembers).store 0 twoMembers).load epoch = some c := hload
    rw [load_store, load_store] at hload
    show epoch ≤ 1 ∧ WellFormed c
    split_ifs at hload
    · exact ⟨by omega, some.inj hload ▸ wellFormed_twoMembers⟩
    · exact ⟨by omega, some.inj hload ▸ wellFormed_twoMembers⟩
    · cases hload

/-- The snapshot of slot 2, in the middle of epoch 1, exported as soon as the slot is committed. -/
theorem snapshot_roundTrip_iff_slotTwo :
    ∃ n snapshot y, run (Node.step snapshotParams) genesisNode untilSlotTwo = some n ∧
      n.exportSnapshot snapshotParams 2 = some snapshot ∧
      (empty 0).importSnapshot snapshot = some y ∧ RoundTrip snapshotParams n 2 y ∧
      Continues snapshotParams n 2 y := by
  obtain ⟨n, hrun, hlast, hretained, hslots⟩ :
      ∃ n, run (Node.step snapshotParams) genesisNode untilSlotTwo = some n ∧
        n.tracker.committeeStore.lastAccessedEpoch = 1 ∧ n.firstRetainedEpoch = 0 ∧
        ∀ s ∈ List.range 3, (n.tracker.validatorPerformances s).isSome := by
    decide +kernel
  have hops : ∀ op ∈ untilSlotTwo, Proper op := by
    intro op hop
    unfold untilSlotTwo at hop
    cases op with
    | storeCommittee epoch committee => simp at hop
    | _ => trivial
  have hsound : Sound n :=
    run_invariant_of (G := fun _ op => Proper op) (fun _ _ _ h hop hstep => h.step hop hstep)
      sound_genesisNode (allSteps_of_forall (fun op hop _ => hops op hop) genesisNode) hrun
  obtain ⟨hiff, hcontinues⟩ := snapshot_roundTrip_iff sound_genesisNode hops hrun
    (show snapshotParams.timeProvider.genesisSlot ≤ 2 from Nat.zero_le _) 0
  have hexportable : Exportable snapshotParams n 2 := by
    refine ⟨fun hzero => absurd hzero (by decide), fun epoch c hepoch hload => ?_,
      fun s _ hs => hslots s (List.mem_range.mpr (Nat.lt_succ_of_le hs)), hretained ▸ Nat.zero_le _⟩
    -- the last committee is the one of epoch 1
    have hle := (hsound.committees hload).1
    rw [hlast] at hle
    omega
  obtain ⟨snapshot, y, hexport, himport, hroundTrip⟩ := hiff.mp hexportable
  exact ⟨n, snapshot, y, hrun, hexport, himport, hroundTrip,
    hcontinues snapshot y hexport himport hroundTrip⟩

/-- Slots 1 to 5 are committed; the committee of epoch 3 is known in epoch 2. -/
def untilSlotFive : List (NodeOp Nat Unit) :=
  untilSlotTwo ++ [.storeCommittee 2 twoMembers, .commit, .commit, .storeCommittee 3 twoMembers,
    .commit]

/-- The node at slot 5 exports older slots.  The snapshot of slot 2 has the committee of epoch 3,
    two epochs later; the snapshot of slot 0, in the middle of epoch 0, has the statistics of
    epoch 0. -/
theorem snapshot_exports_later_epochs :
    ∃ n : Node Nat Unit, run (Node.step snapshotParams) genesisNode untilSlotFive = some n ∧
      n.lastCommittedSlot = 5 ∧ n.firstRetainedEpoch = 0 ∧
      (∃ snapshot y, n.exportSnapshot snapshotParams 2 = some snapshot ∧
        (empty 0).importSnapshot snapshot = some y ∧
        snapshotParams.timeProvider.epochFromSlot 2 + 1 < 3 ∧
        (y.committeeStore.load 3).isSome) ∧
      ∃ snapshot y, n.exportSnapshot snapshotParams 0 = some snapshot ∧
        (empty 0).importSnapshot snapshot = some y ∧
        epochInProgress snapshotParams 0 = 0 ∧ (y.poolStatsStore.load 0).isSome := by
  simp only [exists_and_left]
  decide +kernel

end AxonCore.Performance

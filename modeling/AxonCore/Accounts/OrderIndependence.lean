import AxonCore.Accounts.History
import AxonCore.Upgrade.Signals

/-! # The account commitment does not depend on orders

    Nodes accept the blocks of a slot in different orders, and every iteration over a
    map of the code has an order of its own.  Neither has an effect on what `ApplyDiff`
    commits: the burns of an issuer are a sum, the validation blocks of a validator are
    counted, the signal of a validator is the greatest one, and all loops over maps work
    on the data of one account at a time.

    The order of every map is a parameter of `applyDiff`. -/

namespace AxonCore.Accounts

open AxonCore.Lib Function List Manager
open AxonCore.Upgrade (compareSignals greater_iff id_eq_of_compareSignals)

/-! ## Section 1: Orders -/

theorem MapOrder.mem (o : MapOrder) {keys : List AccountID} {id : AccountID} :
    id ∈ o.order keys ↔ id ∈ keys :=
  (o.perm keys).mem_iff

theorem MapOrder.nodup (o : MapOrder) {keys : List AccountID} (h : keys.Nodup) :
    (o.order keys).Nodup :=
  (o.perm keys).nodup_iff.mpr h

/-! ## Section 2: Burns -/

/-- The ledgers of two managers are the same. -/
structure SameLedger (m n : Manager) : Prop where
  accountsTree : ∀ id, m.accountsTree.lookup id = n.accountsTree.lookup id
  slotDiffs : ∀ slot id, (m.slotDiffs slot).lookup id = (n.slotDiffs slot).lookup id
  latestCommittedSlot : m.latestCommittedSlot = n.latestCommittedSlot
  prunedBelow : m.prunedBelow = n.prunedBelow

/-- Two managers have tracked the same of a slot. -/
structure SameTracked (slot : Nat) (m n : Manager) : Prop where
  blockBurns : (m.blockBurns slot).Perm (n.blockBurns slot)
  signals : ∀ id, (m.latestSupportedVersionSignals slot).lookup id =
    (n.latestSupportedVersionSignals slot).lookup id

/-- The burn of one block, at all accounts. -/
def burned (rmc : UInt64) (burns : AccountID → Option UInt64) (b : Block) (id : AccountID) :
    Option UInt64 :=
  match b.body with
  | .basic workScore =>
    if id = b.issuerID then some ((burns id).getD 0 + workScore * rmc) else burns id
  | .validation _ _ => burns id

theorem lookup_foldl_burnBlock (rmc : UInt64) (blocks : List Block)
    (burns : Map AccountID UInt64) :
    (fun id => (blocks.foldl (burnBlock rmc) burns).lookup id) =
      blocks.foldl (burned rmc) (fun id => burns.lookup id) := by
  induction blocks generalizing burns with
  | nil => rfl
  | cons b blocks ih =>
    have hone : (fun id => (burnBlock rmc burns b).lookup id) =
        burned rmc (fun id => burns.lookup id) b := by
      funext id
      unfold burnBlock burned
      cases b.body with
      | basic workScore =>
        simp only [addBurn, lookup_insert_eq]
        split
        · next hid => rw [hid]
        · rfl
      | validation version hash => rfl
    rw [foldl_cons, foldl_cons, ih, hone]

theorem burned_comm (rmc : UInt64) (burns : AccountID → Option UInt64) (b b' : Block) :
    burned rmc (burned rmc burns b) b' = burned rmc (burned rmc burns b') b := by
  funext id
  unfold burned
  cases b.body with
  | validation version hash => rfl
  | basic workScore =>
    cases b'.body with
    | validation version hash => rfl
    | basic workScore' =>
      by_cases hb : id = b.issuerID
      · by_cases hb' : id = b'.issuerID
        · simp only [if_pos hb, if_pos hb', Option.getD_some, UInt64.add_assoc]
          rw [UInt64.add_comm (workScore * rmc)]
        · simp only [if_pos hb, if_neg hb']
      · simp only [if_neg hb]

theorem lookup_burns_perm {blocks blocks' : List Block} (h : blocks.Perm blocks') (rmc : UInt64)
    (id : AccountID) :
    (blocks.foldl (burnBlock rmc) ∅).lookup id = (blocks'.foldl (burnBlock rmc) ∅).lookup id := by
  have hfold := h.foldl_eq' (fun b _ b' _ burns => burned_comm rmc burns b b')
    (fun id => (∅ : Map AccountID UInt64).lookup id)
  rw [← lookup_foldl_burnBlock, ← lookup_foldl_burnBlock] at hfold
  exact congrFun hfold id

theorem validationBlockCount_perm {blocks blocks' : List Block} (h : blocks.Perm blocks')
    (id : AccountID) : validationBlockCount blocks id = validationBlockCount blocks' id :=
  (h.filter _).length_eq

variable {p : Params} {m n : Manager}

/-- The penalty of one validator, by the data of its account. -/
def penalized (p : Params) (slot count : Nat) (loaded : Option AccountData)
    (burn : Option UInt64) : Option (Option UInt64) :=
  if p.validationBlocksPerSlot < count then
    loaded.bind fun a =>
      (p.generateManaAndDecayBySlots a.validatorStake slot
        (slot + p.epochDurationSlots * p.punishmentEpochs)).map fun manaPunishment =>
          some (burn.getD 0 + UInt64.ofNat (count - p.validationBlocksPerSlot) * manaPunishment)
  else some burn

theorem Manager.punish_own (m : Manager) (slot : Nat) (blocks : List Block)
    (burns : Map AccountID UInt64) (id : AccountID) :
    (m.punish p slot blocks burns id).map (fun burns' => burns'.lookup id) =
      penalized p slot (validationBlockCount blocks id) (m.accountsTree.lookup id)
        (burns.lookup id) := by
  unfold punish penalized
  dsimp only
  split
  · rw [m.account_latest]
    cases m.accountsTree.lookup id with
    | none => rfl
    | some a =>
      simp only [Option.bind_some, Option.map_map]
      congr 1
      funext manaPunishment
      exact AList.lookup_insert burns
  · rfl

theorem Manager.punish_frame (m : Manager) (slot : Nat) (blocks : List Block)
    (burns : Map AccountID UInt64) (id : AccountID) (burns' : Map AccountID UInt64)
    (h : m.punish p slot blocks burns id = some burns') (j : AccountID) (hj : j ≠ id) :
    burns'.lookup j = burns.lookup j := by
  unfold punish at h
  dsimp only at h
  split at h
  · split at h
    · obtain ⟨manaPunishment, -, rfl⟩ := Option.map_eq_some_iff.mp h
      exact AList.lookup_insert_ne hj
    · cases h
  · cases h
    rfl

variable {slot : Nat}

theorem computeBlockBurns_same (h : SameLedger m n) (ht : SameTracked slot m n) (o o' : MapOrder)
    (rmc : UInt64) :
    Option.Rel SameEntries
      (m.computeBlockBurnsForSlot p slot rmc o) (n.computeBlockBurnsForSlot p slot rmc o') := by
  have hmem : ∀ id, id ∈ o.order ((m.blockBurns slot).map Block.issuerID).dedup ↔
      id ∈ o'.order ((n.blockBurns slot).map Block.issuerID).dedup := by
    intro id
    rw [o.mem, o'.mem, mem_dedup, mem_dedup]
    exact (ht.blockBurns.map _).mem_iff
  apply run_keys_congr (fun (burns : Map AccountID UInt64) id => burns.lookup id)
    (fun (burns : Map AccountID UInt64) id => burns.lookup id) (m.punish_own slot _)
    (m.punish_frame slot _) _ (n.punish_frame slot _) (o.nodup (nodup_dedup _))
    (o'.nodup (nodup_dedup _)) hmem (lookup_burns_perm ht.blockBurns rmc)
  intro burns id
  rw [n.punish_own, h.accountsTree, validationBlockCount_perm ht.blockBurns]

/-! ## Section 3: The other loops -/

theorem keys_iff {ν : Type} {a b : Map AccountID ν} (h : SameEntries a b)
    (o o' : MapOrder) (id : AccountID) : id ∈ o.order a.keys ↔ id ∈ o'.order b.keys := by
  rw [o.mem, o'.mem, mem_keys_iff, mem_keys_iff, h]

variable {diffs diffs' : AccountDiffs}

theorem updateSlotDiffWithBurns_same (h : SameLedger m n)
    (ht : SameTracked (m.latestCommittedSlot + 1) m n) (o o₁ o' o₁' : MapOrder) (rmc : UInt64)
    (hdiffs : SameEntries diffs diffs') :
    Option.Rel SameEntries
      (m.updateSlotDiffWithBurns p (m.latestCommittedSlot + 1) diffs rmc o o₁)
      (n.updateSlotDiffWithBurns p (m.latestCommittedSlot + 1) diffs' rmc o' o₁') := by
  apply rel_bind (computeBlockBurns_same h ht o o' rmc)
  intro burns burns' hburns
  apply alterKeys_congr _ (o₁.nodup burns.keys_nodup) (o₁'.nodup burns'.keys_nodup)
    (keys_iff hburns o₁ o₁') hdiffs
  intro id d
  have haccount : n.account id (m.latestCommittedSlot + 1 - 1) =
      some (m.accountsTree.lookup id) := by
    rw [h.latestCommittedSlot, n.account_pred, h.accountsTree]
  unfold burnDiff
  rw [hburns, m.account_pred, haccount]

theorem signalDiffs_same (h : SameLedger m n) (ht : SameTracked slot m n) (o o' : MapOrder)
    (hdiffs : SameEntries diffs diffs') :
    Option.Rel SameEntries
      (m.updateSlotDiffWithVersionSignals slot diffs o)
      (n.updateSlotDiffWithVersionSignals slot diffs' o') := by
  unfold updateSlotDiffWithVersionSignals
  apply alterKeys_congr _ (o.nodup (AList.keys_nodup _)) (o'.nodup (AList.keys_nodup _))
    (keys_iff ht.signals o o') hdiffs
  intro id d
  rw [h.accountsTree, ht.signals]

variable {destroyed destroyed' : List AccountID}

theorem preserveDestroyed_same (h : SameLedger m n) (o o' : MapOrder)
    (hdestroyed : ∀ id, id ∈ destroyed ↔ id ∈ destroyed')
    (hdiffs : SameEntries diffs diffs') :
    Option.Rel SameEntries
      (m.preserveDestroyed destroyed diffs o) (n.preserveDestroyed destroyed' diffs' o') := by
  apply alterKeys_congr _ (o.nodup diffs.keys_nodup) (o'.nodup diffs'.keys_nodup)
    (keys_iff hdiffs o o') hdiffs
  intro id d
  simp only [hdestroyed, h.accountsTree]

/-- What `commitAccountTree` makes of the data and the diff of one account. -/
def committedAccount (p : Params) (slot : Nat) (destroyed : Bool) (id : AccountID) :
    Option AccountData × Option AccountDiff → Option (Option AccountData × Option AccountDiff)
  | (loaded, none) => some (loaded, none)
  | (loaded, some d) =>
    if destroyed then some (none, some d)
    else
      (decayCredits p slot loaded d).bind fun d' =>
      (d'.apply slot loaded.isSome (loaded.getD (newAccountData id))).map fun a =>
        (some a, some d')

theorem commitAccount_eq (slot : Nat) (destroyedAccounts : List AccountID)
    (s : Map AccountID AccountData × AccountDiffs) (id : AccountID) :
    (commitAccount p slot destroyedAccounts s id).map
        (fun s' => (s'.1.lookup id, s'.2.lookup id)) =
      committedAccount p slot (decide (id ∈ destroyedAccounts)) id
        (s.1.lookup id, s.2.lookup id) := by
  unfold commitAccount
  cases hd : s.2.lookup id with
  | none => simp [committedAccount, hd]
  | some d =>
    dsimp only [committedAccount]
    by_cases hdestroyed : id ∈ destroyedAccounts
    · simp [hdestroyed, hd]
    · rw [if_neg hdestroyed, if_neg (by simpa using hdestroyed)]
      cases decayCredits p slot (s.1.lookup id) d with
      | none => rfl
      | some d' =>
        simp only [Option.bind_some, Option.map_map]
        cases d'.apply slot (s.1.lookup id).isSome
          ((s.1.lookup id).getD (newAccountData id)) with
        | none => rfl
        | some a => simp [AList.lookup_insert]

theorem commitAccountTree_same (h : SameLedger m n) (o o' : MapOrder)
    (hdestroyed : ∀ id, id ∈ destroyed ↔ id ∈ destroyed')
    (hdiffs : SameEntries diffs diffs') :
    Option.Rel (fun s s' => SameEntries s.1 s'.1 ∧ SameEntries s.2 s'.2)
      (m.commitAccountTree p slot diffs destroyed o)
      (n.commitAccountTree p slot diffs' destroyed' o') := by
  have hown' : ∀ (s : Map AccountID AccountData × AccountDiffs) (id : AccountID),
      (commitAccount p slot destroyed' s id).map (fun s' => (s'.1.lookup id, s'.2.lookup id)) =
        committedAccount p slot (decide (id ∈ destroyed)) id
          (s.1.lookup id, s.2.lookup id) := by
    intro s id
    rw [commitAccount_eq]
    simp only [hdestroyed]
  have hview : ∀ id, (m.accountsTree.lookup id, diffs.lookup id) =
      (n.accountsTree.lookup id, diffs'.lookup id) := by
    intro id
    rw [h.accountsTree, hdiffs]
  have hrel := run_keys_congr
    (fun (s : Map AccountID AccountData × AccountDiffs) id => (s.1.lookup id, s.2.lookup id))
    (fun (s : Map AccountID AccountData × AccountDiffs) id => (s.1.lookup id, s.2.lookup id))
    (commitAccount_eq slot destroyed) commitAccount_frame hown' commitAccount_frame
    (o.nodup diffs.keys_nodup) (o'.nodup diffs'.keys_nodup) (keys_iff hdiffs o o')
    (s := (m.accountsTree, diffs)) (t := (n.accountsTree, diffs')) hview
  refine rel_mono hrel fun s s' hs => ⟨fun id => ?_, fun id => ?_⟩
  · exact (Prod.mk.inj (hs id)).1
  · exact (Prod.mk.inj (hs id)).2

theorem storeDiffs_same (o o' : MapOrder) {store store' : DiffStore}
    (hdestroyed : ∀ id, id ∈ destroyed ↔ id ∈ destroyed')
    (hdiffs : SameEntries diffs diffs')
    (hstore : SameEntries store store') :
    Option.Rel SameEntries
      (storeDiffs destroyed diffs store o) (storeDiffs destroyed' diffs' store' o') := by
  apply alterKeys_congr _ (o.nodup diffs.keys_nodup) (o'.nodup diffs'.keys_nodup)
    (keys_iff hdiffs o o') hstore
  intro id d
  simp only [hdiffs id, hdestroyed]

/-- What `ApplyDiff` leaves alone of the tracked blocks: all of later slots. -/
structure KeepsTracked (slot : Nat) (m m' : Manager) : Prop where
  blockBurns : ∀ later, slot < later → m'.blockBurns later = m.blockBurns later
  signals : ∀ later, slot < later →
    m'.latestSupportedVersionSignals later = m.latestSupportedVersionSignals later

theorem Manager.committed_spec (m : Manager) (slot : Nat) (tree : Map AccountID AccountData)
    (store : DiffStore) :
    (m.committed p slot tree store).accountsTree = tree ∧
      (m.committed p slot tree store).slotDiffs = update m.slotDiffs slot store ∧
      (m.committed p slot tree store).latestCommittedSlot = slot ∧
      (m.committed p slot tree store).prunedBelow = m.prunedBelow ∧
      KeepsTracked slot m (m.committed p slot tree store) := by
  unfold committed
  split
  · -- the evicted slot is an old one
    refine ⟨rfl, rfl, rfl, rfl, fun later hlater => ?_, fun later hlater => ?_⟩
    · exact update_of_ne (by omega) _ _
    · exact update_of_ne (by omega) _ _
  · exact ⟨rfl, rfl, rfl, rfl, fun _ _ => rfl, fun _ _ => rfl⟩

/-- Two managers with the same ledger that have tracked the same of the slot commit the
    same, whatever the orders of their maps. -/
theorem applyDiff_same (h : SameLedger m n) (ht : SameTracked (m.latestCommittedSlot + 1) m n)
    (o o' : MapOrders) (rmc : UInt64) (hdiffs : SameEntries diffs diffs')
    (hdestroyed : ∀ id, id ∈ destroyed ↔ id ∈ destroyed') :
    Option.Rel (fun m' n' => SameLedger m' n' ∧
        m'.latestCommittedSlot = m.latestCommittedSlot + 1 ∧
        KeepsTracked (m.latestCommittedSlot + 1) m m' ∧
        KeepsTracked (m.latestCommittedSlot + 1) n n')
      (m.applyDiff p (m.latestCommittedSlot + 1) rmc diffs destroyed o)
      (n.applyDiff p (n.latestCommittedSlot + 1) rmc diffs' destroyed' o') := by
  unfold applyDiff
  rw [if_neg (not_not.mpr rfl), if_neg (not_not.mpr rfl), ← h.latestCommittedSlot]
  apply rel_bind (updateSlotDiffWithBurns_same h ht _ _ _ _ rmc hdiffs)
  intro d d' hd
  apply rel_bind (signalDiffs_same h ht _ _ hd)
  intro d d' hd
  apply rel_bind (preserveDestroyed_same h _ _ hdestroyed hd)
  intro d d' hd
  apply rel_bind (commitAccountTree_same h _ _ hdestroyed hd)
  rintro ⟨tree, d⟩ ⟨tree', d'⟩ ⟨htree, hd⟩
  -- a pruned slot is an error for both
  have hslot : Option.Rel SameEntries
      (m.slotDiff (m.latestCommittedSlot + 1)) (n.slotDiff (m.latestCommittedSlot + 1)) := by
    unfold slotDiff
    rw [h.prunedBelow]
    split
    · exact .none
    · exact .some (h.slotDiffs _)
  apply rel_bind hslot
  intro store store' hstore
  apply rel_map (storeDiffs_same _ _ hdestroyed hd hstore)
  intro store store' hstore
  obtain ⟨ht₁, hs₁, hl₁, hp₁, hk₁⟩ :=
    m.committed_spec (p := p) (m.latestCommittedSlot + 1) tree store
  obtain ⟨ht₂, hs₂, hl₂, hp₂, hk₂⟩ :=
    n.committed_spec (p := p) (m.latestCommittedSlot + 1) tree' store'
  refine ⟨⟨fun id => ?_, fun slot id => ?_, hl₁.trans hl₂.symm, ?_⟩, hl₁, hk₁, hk₂⟩
  · rw [ht₁, ht₂, htree]
  · rw [hs₁, hs₂]
    by_cases hslot : slot = m.latestCommittedSlot + 1
    · subst hslot
      rw [update_self, update_self, hstore]
    · rw [update_of_ne hslot, update_of_ne hslot, h.slotDiffs]
  · rw [hp₁, hp₂, h.prunedBelow]

/-! ## Section 4: Tracked blocks -/

/-- The block cache: an ID has one block. -/
structure BlockCache where
  block : Nat → Block
  id_eq : ∀ id, (block id).id = id

/-- The signal of a validation block. -/
def Block.signal (b : Block) : Option SignaledBlock :=
  match b.body with
  | .basic _ => none
  | .validation version hash => some ⟨b.id, b.issuingTime, version, hash⟩

/-- A signal of an account in a slot, of a block that has been tracked. -/
def BlockCache.Signals (cache : BlockCache) (slot : Nat) (T : Nat → Prop) (issuer : AccountID)
    (s : SignaledBlock) : Prop :=
  T s.id ∧ (cache.block s.id).slot = slot ∧ (cache.block s.id).issuerID = issuer ∧
    (cache.block s.id).signal = some s

/-- The blocks with the IDs in `T` have been tracked, as far as they are of the slot. -/
structure Tracked (cache : BlockCache) (slot : Nat) (T : Nat → Prop) (m : Manager) : Prop where
  nodup : (m.blockBurns slot).Nodup
  mem : ∀ b, b ∈ m.blockBurns slot ↔ b.slot = slot ∧ T b.id ∧ cache.block b.id = b
  signals : ∀ issuer, Greatest compareSignals (cache.Signals slot T issuer)
    ((m.latestSupportedVersionSignals slot).lookup issuer)

theorem tracked_nothing (cache : BlockCache) (hburns : m.blockBurns slot = [])
    (hsignals : m.latestSupportedVersionSignals slot = ∅) :
    Tracked cache slot (fun _ => False) m where
  nodup := by rw [hburns]; exact nodup_nil
  mem := fun b => by simp [hburns]
  signals := fun issuer => by
    rw [hsignals, AList.lookup_empty]
    exact fun s hs => hs.1

theorem Manager.trackBlock_blockBurns (m : Manager) (b : Block) (slot : Nat) :
    (m.trackBlock b).blockBurns slot =
      if b.slot = slot ∧ b ∉ m.blockBurns slot then m.blockBurns slot ++ [b]
      else m.blockBurns slot := by
  have hburns : (m.trackBlock b).blockBurns = update m.blockBurns b.slot
      (if b ∈ m.blockBurns b.slot then m.blockBurns b.slot else m.blockBurns b.slot ++ [b]) := by
    unfold trackBlock
    cases b.body with
    | basic workScore => rfl
    | validation version hash => rfl
  rw [hburns]
  by_cases hslot : b.slot = slot
  · subst hslot
    rw [update_self]
    by_cases hb : b ∈ m.blockBurns b.slot <;> simp [hb]
  · rw [update_of_ne (Ne.symm hslot), if_neg (fun h => hslot h.1)]

theorem Manager.trackBlock_signals (m : Manager) (b : Block) (slot : Nat) (issuer : AccountID) :
    ((m.trackBlock b).latestSupportedVersionSignals slot).lookup issuer =
      if b.slot = slot ∧ b.issuerID = issuer then
        match b.signal with
        | none => (m.latestSupportedVersionSignals slot).lookup issuer
        | some s => some (keepGreater compareSignals
            ((m.latestSupportedVersionSignals slot).lookup issuer) s)
      else (m.latestSupportedVersionSignals slot).lookup issuer := by
  unfold trackBlock Block.signal
  cases b.body with
  | basic workScore =>
    dsimp only
    split <;> rfl
  | validation version hash =>
    dsimp only
    by_cases hslot : b.slot = slot
    · subst hslot
      rw [update_self, lookup_insert_eq]
      by_cases hissuer : b.issuerID = issuer
      · subst hissuer
        rw [if_pos rfl, if_pos ⟨rfl, rfl⟩]
        unfold keepGreater
        cases (m.latestSupportedVersionSignals b.slot).lookup b.issuerID with
        | none => rfl
        | some current =>
          simp only [greater_iff]
      · rw [if_neg (Ne.symm hissuer), if_neg (fun h => hissuer h.2)]
    · rw [update_of_ne (Ne.symm hslot), if_neg (fun h => hslot h.1)]

variable {cache : BlockCache} {T T' : Nat → Prop}

theorem Tracked.trackBlock (h : Tracked cache slot T m) (id : Nat) :
    Tracked cache slot (fun j => T j ∨ j = id) (m.trackBlock (cache.block id)) := by
  have hblock : ∀ b, (cache.block b.id = b ∧ b.id = id) ↔ b = cache.block id := by
    intro b
    constructor
    · rintro ⟨hb, rfl⟩
      exact hb.symm
    · rintro rfl
      rw [cache.id_eq]
      exact ⟨rfl, rfl⟩
  constructor
  · rw [trackBlock_blockBurns]
    split
    · next hnew =>
      rw [nodup_append]
      refine ⟨h.nodup, nodup_singleton _, ?_⟩
      rintro b hb _ hb' rfl
      rw [mem_singleton] at hb'
      exact hnew.2 (hb' ▸ hb)
    · exact h.nodup
  · intro b
    have hb := hblock b
    have hmem : b ∈ (m.trackBlock (cache.block id)).blockBurns slot ↔
        b ∈ m.blockBurns slot ∨ (b = cache.block id ∧ b.slot = slot) := by
      rw [trackBlock_blockBurns]
      split
      · next hnew =>
        rw [mem_append, mem_singleton]
        refine or_congr_right ⟨fun hb => ⟨hb, hb ▸ hnew.1⟩, And.left⟩
      · next hold =>
        refine ⟨.inl, fun hb => hb.elim (fun hb => hb) ?_⟩
        rintro ⟨rfl, hslot⟩
        by_contra hb
        exact hold ⟨hslot, hb⟩
    rw [hmem, h.mem]
    tauto
  · intro issuer
    rw [trackBlock_signals]
    -- the signals of the account: those there were, and the one of the block
    have hsignals : ∀ s, cache.Signals slot (fun j => T j ∨ j = id) issuer s ↔
        cache.Signals slot T issuer s ∨ ((cache.block id).slot = slot ∧
          (cache.block id).issuerID = issuer ∧ (cache.block id).signal = some s) := by
      intro s
      unfold BlockCache.Signals
      constructor
      · rintro ⟨hT | rfl, hrest⟩
        · exact .inl ⟨hT, hrest⟩
        · exact .inr hrest
      · rintro (⟨hT, hrest⟩ | ⟨hslot, hissuer, hs⟩)
        · exact ⟨.inl hT, hrest⟩
        · have hid : s.id = id := by
            unfold Block.signal at hs
            split at hs
            · cases hs
            · obtain rfl := Option.some.inj hs
              exact cache.id_eq id
          rw [hid]
          exact ⟨.inr rfl, hslot, hissuer, hs⟩
    split
    · next hown =>
      cases hs : (cache.block id).signal with
      | none =>
        apply (h.signals issuer).congr
        intro s
        simp [hsignals, hs]
      | some s =>
        apply ((h.signals issuer).keep s).congr
        intro s'
        rw [hsignals, hs, Option.some.injEq]
        simp [hown, eq_comm]
    · next hother =>
      apply (h.signals issuer).congr
      intro s
      rw [hsignals]
      exact ⟨.inl, fun hs => hs.elim (fun hs => hs) (fun hs => absurd ⟨hs.1, hs.2.1⟩ hother)⟩

theorem Tracked.congr (h : Tracked cache slot T m)
    (hT : ∀ id, (cache.block id).slot = slot → (T id ↔ T' id)) : Tracked cache slot T' m where
  nodup := h.nodup
  mem := by
    intro b
    rw [h.mem]
    refine and_congr_right fun hslot => and_congr_left fun hb => hT b.id ?_
    rw [hb, hslot]
  signals := by
    intro issuer
    apply (h.signals issuer).congr
    intro s
    exact and_congr_left fun hs => hT s.id hs.1

/-- What has been tracked of a slot depends on the set of its blocks only. -/
theorem Tracked.same (h : Tracked cache slot T m) (h' : Tracked cache slot T n) :
    SameTracked slot m n where
  blockBurns := by
    rw [perm_ext_iff_of_nodup h.nodup h'.nodup]
    intro b
    rw [h.mem, h'.mem]
  signals := by
    intro issuer
    apply (h.signals issuer).unique (h'.signals issuer)
    intro s s' hs hs' heq
    -- two signals that compare as equal are of the same block
    have hid := id_eq_of_compareSignals heq
    have hsame := hs.2.2.2
    rw [hid, hs'.2.2.2] at hsame
    exact (Option.some.inj hsame).symm

theorem Tracked.foldl (ids : List Nat) :
    ∀ {m : Manager} {T : Nat → Prop}, Tracked cache slot T m →
      Tracked cache slot (fun j => T j ∨ j ∈ ids)
        (ids.foldl (fun m id => m.trackBlock (cache.block id)) m) := by
  induction ids with
  | nil => exact fun h => h.congr fun id _ => by simp
  | cons i ids ih =>
    intro m T h
    apply (ih (h.trackBlock i)).congr
    intro id _
    simp [or_assoc]

/-! ## Section 5: Two nodes -/

/-- What a node does until the next commitment: it tracks blocks of any slots, and then it
    applies the diff of the next slot, with the maps in some orders. -/
structure Round where
  tracked : List Nat
  rmc : UInt64
  diffs : AccountDiffs
  destroyedAccounts : List AccountID
  orders : MapOrders

/-- The manager after the round. -/
def commitRound (p : Params) (cache : BlockCache) (m : Manager) (r : Round) : Option Manager :=
  let m := r.tracked.foldl (fun m id => m.trackBlock (cache.block id)) m
  m.applyDiff p (m.latestCommittedSlot + 1) r.rmc r.diffs r.destroyedAccounts r.orders

/-- The same diff and the same destroyed accounts, in whatever order. -/
structure SameCommit (r r' : Round) : Prop where
  rmc : r.rmc = r'.rmc
  diffs : ∀ id, r.diffs.lookup id = r'.diffs.lookup id
  destroyedAccounts : ∀ id, id ∈ r.destroyedAccounts ↔ id ∈ r'.destroyedAccounts

/-- The blocks tracked in some rounds. -/
def trackedIn (rs : List Round) : List Nat := rs.flatMap Round.tracked

theorem Manager.foldl_trackBlock_ledger (cache : BlockCache) (ids : List Nat) (m : Manager) :
    SameLedger (ids.foldl (fun m id => m.trackBlock (cache.block id)) m) m := by
  induction ids generalizing m with
  | nil => exact ⟨fun _ => rfl, fun _ _ => rfl, rfl, rfl⟩
  | cons i ids ih =>
    obtain ⟨htree, hlatest, hdiffs, hpruned⟩ := m.trackBlock_frame (cache.block i)
    obtain ⟨htree', hdiffs', hlatest', hpruned'⟩ := ih (m.trackBlock (cache.block i))
    exact ⟨fun id => (htree' id).trans (by rw [htree]),
      fun slot id => (hdiffs' slot id).trans (by rw [hdiffs]), hlatest'.trans hlatest,
      hpruned'.trans hpruned⟩

theorem SameLedger.symm (h : SameLedger m n) : SameLedger n m :=
  ⟨fun id => (h.accountsTree id).symm, fun slot id => (h.slotDiffs slot id).symm,
    h.latestCommittedSlot.symm, h.prunedBelow.symm⟩

theorem SameLedger.trans {k : Manager} (h : SameLedger m n) (h' : SameLedger n k) :
    SameLedger m k :=
  ⟨fun id => (h.accountsTree id).trans (h'.accountsTree id),
    fun slot id => (h.slotDiffs slot id).trans (h'.slotDiffs slot id),
    h.latestCommittedSlot.trans h'.latestCommittedSlot, h.prunedBelow.trans h'.prunedBelow⟩

theorem Tracked.keeps {later : Nat} {m' : Manager} (h : Tracked cache later T m)
    (hlater : slot < later) (hkeeps : KeepsTracked slot m m') :
    Tracked cache later T m' := by
  obtain ⟨hnodup, hmem, hsignals⟩ := h
  rw [← hkeeps.blockBurns later hlater] at hnodup hmem
  rw [← hkeeps.signals later hlater] at hsignals
  exact ⟨hnodup, hmem, hsignals⟩

theorem commitRound_same {r r' : Round} (h : SameLedger m n) (hcommit : SameCommit r r')
    (hT : ∀ slot, m.latestCommittedSlot < slot → Tracked cache slot T m)
    (hT' : ∀ slot, m.latestCommittedSlot < slot → Tracked cache slot T' n)
    (hblocks : ∀ id, (cache.block id).slot = m.latestCommittedSlot + 1 →
      (T id ∨ id ∈ r.tracked ↔ T' id ∨ id ∈ r'.tracked)) :
    Option.Rel (fun m' n' => SameLedger m' n' ∧
        m'.latestCommittedSlot = m.latestCommittedSlot + 1 ∧
        (∀ slot, m'.latestCommittedSlot < slot →
          Tracked cache slot (fun id => T id ∨ id ∈ r.tracked) m') ∧
        ∀ slot, m'.latestCommittedSlot < slot →
          Tracked cache slot (fun id => T' id ∨ id ∈ r'.tracked) n')
      (commitRound p cache m r) (commitRound p cache n r') := by
  have hm := foldl_trackBlock_ledger cache r.tracked m
  have hn := foldl_trackBlock_ledger cache r'.tracked n
  unfold commitRound
  set m₁ := r.tracked.foldl (fun m id => m.trackBlock (cache.block id)) m with hm₁
  set n₁ := r'.tracked.foldl (fun m id => m.trackBlock (cache.block id)) n with hn₁
  have hledger : SameLedger m₁ n₁ := (hm.trans h).trans hn.symm
  have htracked : ∀ slot, m.latestCommittedSlot < slot →
      Tracked cache slot (fun id => T id ∨ id ∈ r.tracked) m₁ ∧
        Tracked cache slot (fun id => T' id ∨ id ∈ r'.tracked) n₁ :=
    fun slot hslot => ⟨(hT slot hslot).foldl r.tracked, (hT' slot hslot).foldl r'.tracked⟩
  have hnext : SameTracked (m₁.latestCommittedSlot + 1) m₁ n₁ := by
    rw [hm.latestCommittedSlot]
    obtain ⟨hleft, hright⟩ := htracked (m.latestCommittedSlot + 1) (Nat.lt_succ_self _)
    exact (hleft.congr hblocks).same hright
  rw [hcommit.rmc]
  apply rel_mono (applyDiff_same hledger hnext r.orders r'.orders r'.rmc hcommit.diffs
    hcommit.destroyedAccounts)
  rintro m' n' ⟨hsame, hlatest, hkeeps, hkeeps'⟩
  rw [hm.latestCommittedSlot] at hlatest hkeeps hkeeps'
  refine ⟨hsame, hlatest, fun slot hslot => ?_, fun slot hslot => ?_⟩
  · rw [hlatest] at hslot
    exact (htracked slot (by omega)).1.keeps hslot hkeeps
  · rw [hlatest] at hslot
    exact (htracked slot (by omega)).2.keeps hslot hkeeps'

theorem run_commitRound_same {rs rs' : List Round} (hcommits : List.Forall₂ SameCommit rs rs') :
    ∀ {m n : Manager} {T T' : Nat → Prop}, SameLedger m n →
      (∀ slot, m.latestCommittedSlot < slot → Tracked cache slot T m) →
      (∀ slot, m.latestCommittedSlot < slot → Tracked cache slot T' n) →
      (∀ k < rs.length, ∀ id, (cache.block id).slot = m.latestCommittedSlot + k + 1 →
        (T id ∨ id ∈ trackedIn (rs.take (k + 1)) ↔ T' id ∨ id ∈ trackedIn (rs'.take (k + 1)))) →
      Option.Rel SameLedger (run (commitRound p cache) m rs) (run (commitRound p cache) n rs') := by
  induction hcommits with
  | nil => exact fun h _ _ _ => .some h
  | @cons r r' rs rs' hcommit _ ih =>
    intro m n T T' h hT hT' hblocks
    have hfirst : ∀ id, (cache.block id).slot = m.latestCommittedSlot + 1 →
        (T id ∨ id ∈ r.tracked ↔ T' id ∨ id ∈ r'.tracked) := by
      intro id hid
      simpa [trackedIn] using hblocks 0 (by simp) id (by simpa using hid)
    apply rel_bind (commitRound_same h hcommit hT hT' hfirst)
    rintro m' n' ⟨hsame, hlatest, htracked, htracked'⟩
    apply ih hsame htracked htracked'
    intro k hk id hid
    rw [hlatest] at hid
    have hlater := hblocks (k + 1) (by simpa using hk) id (by omega)
    simpa [trackedIn, or_assoc] using hlater

/-- Two nodes start with the same ledger and no tracked blocks of later slots.  If each of
    them has tracked the same blocks of every slot when it commits it, their ledgers stay
    the same: whatever the order of the blocks, whatever blocks of other slots come in
    between, and whatever the orders of the maps. -/
theorem commitment_order_independent (p : Params) (cache : BlockCache) (m : Manager)
    (hfresh : ∀ slot, m.latestCommittedSlot < slot →
      m.blockBurns slot = [] ∧ m.latestSupportedVersionSignals slot = ∅)
    (rs rs' : List Round) (hcommits : List.Forall₂ SameCommit rs rs')
    (hblocks : ∀ k < rs.length, ∀ id, (cache.block id).slot = m.latestCommittedSlot + k + 1 →
      (id ∈ trackedIn (rs.take (k + 1)) ↔ id ∈ trackedIn (rs'.take (k + 1)))) :
    Option.Rel SameLedger (run (commitRound p cache) m rs) (run (commitRound p cache) m rs') := by
  have hnothing : ∀ slot, m.latestCommittedSlot < slot →
      Tracked cache slot (fun _ => False) m := by
    intro slot hslot
    obtain ⟨hburns, hsignals⟩ := hfresh slot hslot
    exact tracked_nothing cache hburns hsignals
  apply run_commitRound_same hcommits (foldl_trackBlock_ledger cache [] m) hnothing hnothing
  intro k hk id hid
  simpa using hblocks k hk id hid

/-- Account 1 issues a basic block and three validation blocks, the last one in slot 2. -/
def sampleCache : BlockCache where
  block := fun id =>
    ⟨id, if id = 4 then 2 else 1, 1, id % 2, if id = 1 then .basic 5 else .validation 1 id⟩
  id_eq := fun _ => rfl

/-- The reversed order of the entries. -/
def MapOrder.reversed : MapOrder := ⟨List.reverse, reverse_perm⟩

/-- Two slots, each with a diff for account 1. -/
def sampleRound (tracked : List Nat) (o : MapOrder) : Round :=
  ⟨tracked, 1, (∅ : AccountDiffs).insert 1 newAccountDiff, [], ⟨o, o, o, o, o, o⟩⟩

/-- One node tracks the block of slot 2 before it commits slot 1, the other one after. -/
theorem commitment_order_independent_two_slots :
    ∃ l m m', genesis 0 [(sampleOutput 10, 100)] = some l ∧
      run (commitRound sampleParams sampleCache) l.manager
        [sampleRound [1, 2, 4, 3] .entries, sampleRound [] .entries] = some m ∧
      run (commitRound sampleParams sampleCache) l.manager
        [sampleRound [3, 2, 1] .reversed, sampleRound [4] .reversed] = some m' ∧
      m'.accountsTree.lookup 1 ≠ l.manager.accountsTree.lookup 1 ∧ SameLedger m m' := by
  obtain ⟨l, hgenesis, hlatest, m', hm', hchanged⟩ :
      ∃ l, genesis 0 [(sampleOutput 10, 100)] = some l ∧ l.manager.latestCommittedSlot = 0 ∧
        ∃ m', run (commitRound sampleParams sampleCache) l.manager
            [sampleRound [3, 2, 1] .reversed, sampleRound [4] .reversed] = some m' ∧
          m'.accountsTree.lookup 1 ≠ l.manager.accountsTree.lookup 1 := by
    decide +kernel
  have hfresh : ∀ slot, l.manager.latestCommittedSlot < slot →
      l.manager.blockBurns slot = [] ∧ l.manager.latestSupportedVersionSignals slot = ∅ := by
    obtain rfl := Option.some.inj hgenesis
    exact fun _ _ => ⟨rfl, rfl⟩
  have hcommit : ∀ tracked tracked' o o',
      SameCommit (sampleRound tracked o) (sampleRound tracked' o') :=
    fun _ _ _ _ => ⟨rfl, fun _ => rfl, fun _ => Iff.rfl⟩
  have hrel := commitment_order_independent sampleParams sampleCache l.manager hfresh
    [sampleRound [1, 2, 4, 3] .entries, sampleRound [] .entries]
    [sampleRound [3, 2, 1] .reversed, sampleRound [4] .reversed]
    (.cons (hcommit _ _ _ _) (.cons (hcommit _ _ _ _) .nil)) (by
      intro k hk id hid
      rw [hlatest] at hid
      have hk : k = 0 ∨ k = 1 := by
        simp only [length_cons, length_nil] at hk
        omega
      obtain rfl | rfl := hk
      · -- the block of slot 2 does not count yet
        have hne : id ≠ 4 := by
          rintro rfl
          exact absurd hid (by decide)
        simp [trackedIn, sampleRound]
        omega
      · simp [trackedIn, sampleRound]
        omega)
  rw [hm'] at hrel
  obtain ⟨m, hm, hsame⟩ := exists_of_rel_some hrel
  exact ⟨l, m, m', hgenesis, hm, hm', hchanged, hsame⟩

end AxonCore.Accounts

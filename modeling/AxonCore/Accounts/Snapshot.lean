import AxonCore.Lib.Codec
import AxonCore.Accounts.Rollback

/-! # Snapshots of the accounts ledger

    `Export` writes the accounts tree of the latest committed slot and the diffs from
    there down to the window of the target slot.  `Import` reads both into an empty
    manager and rolls the tree back to the target slot.

    The streams of the primitive types are lossless codecs (`Codecs`).

    * `import_of_export`: reading gives a manager with the same tree and diffs, which is
      then rolled back.
    * `import_export_exact`: the imported tree is that of the target slot, as long as
      the slots after it are exact.  `import_keeps_allotted_account` is a run where an
      account appears that did not exist at the target slot. -/

namespace AxonCore.Accounts

open AxonCore.Lib Function List Option Manager

/-! ## Section 1: The encodings -/

/-- The streams of the primitive types. -/
structure Codecs (β : Type) where
  slotIndex : Codec β Nat
  /-- The length prefix of a collection. -/
  length : Codec β Nat
  accountID : Codec β AccountID
  bool : Codec β Bool
  int64 : Codec β Int64
  uint64 : Codec β UInt64
  epochIndex : Codec β UInt32
  outputID : Codec β OutputID
  blockIssuerKeys : Codec β (Finset BlockIssuerKey)
  versionAndHash : Codec β VersionAndHash

variable {β : Type} (c : Codecs β)

/-- `AccountData.Bytes`. -/
def AccountData.bytes (a : AccountData) : List β :=
  c.accountID.write a.id ++ c.int64.write a.credits.value ++
    c.slotIndex.write a.credits.updateSlot ++ c.slotIndex.write a.expirySlot ++
    c.outputID.write a.outputID ++ c.blockIssuerKeys.write a.blockIssuerKeys ++
    c.uint64.write a.validatorStake ++ c.uint64.write a.delegationStake ++
    c.uint64.write a.fixedCost ++ c.epochIndex.write a.stakeEndEpoch ++
    c.versionAndHash.write a.latestSupportedProtocolVersionAndHash

/-- `AccountDataFromReader`. -/
def accountDataFromReader : Reader β AccountData := fun bs =>
  (c.accountID.read bs).bind fun (id, bs) =>
  (c.int64.read bs).bind fun (value, bs) =>
  (c.slotIndex.read bs).bind fun (updateSlot, bs) =>
  (c.slotIndex.read bs).bind fun (expirySlot, bs) =>
  (c.outputID.read bs).bind fun (outputID, bs) =>
  (c.blockIssuerKeys.read bs).bind fun (blockIssuerKeys, bs) =>
  (c.uint64.read bs).bind fun (validatorStake, bs) =>
  (c.uint64.read bs).bind fun (delegationStake, bs) =>
  (c.uint64.read bs).bind fun (fixedCost, bs) =>
  (c.epochIndex.read bs).bind fun (stakeEndEpoch, bs) =>
  (c.versionAndHash.read bs).bind fun (versionAndHash, bs) =>
  some ({ id := id
          credits := ⟨value, updateSlot⟩
          expirySlot := expirySlot
          outputID := outputID
          blockIssuerKeys := blockIssuerKeys
          validatorStake := validatorStake
          delegationStake := delegationStake
          fixedCost := fixedCost
          stakeEndEpoch := stakeEndEpoch
          latestSupportedProtocolVersionAndHash := versionAndHash }, bs)

/-- The two are a lossless codec. -/
def accountDataCodec : Codec β AccountData where
  write := AccountData.bytes c
  read := accountDataFromReader c
  read_write a rest := by
    unfold AccountData.bytes
    simp only [append_assoc]
    unfold accountDataFromReader
    -- one round for each field
    iterate 11 refine (Codec.read_write_bind _ _ _ _).trans ?_
    rfl

/-- `AccountDiff.Bytes`. -/
def AccountDiff.bytes (d : AccountDiff) : List β :=
  c.int64.write d.bicChange ++ c.slotIndex.write d.previousUpdatedSlot ++
    c.slotIndex.write d.newExpirySlot ++ c.slotIndex.write d.previousExpirySlot ++
    c.outputID.write d.newOutputID ++ c.outputID.write d.previousOutputID ++
    c.blockIssuerKeys.write d.blockIssuerKeysAdded ++
    c.blockIssuerKeys.write d.blockIssuerKeysRemoved ++
    c.int64.write d.validatorStakeChange ++ c.int64.write d.delegationStakeChange ++
    c.int64.write d.fixedCostChange ++ c.int64.write d.stakeEndEpochChange ++
    c.versionAndHash.write d.newLatestSupportedVersionAndHash ++
    c.versionAndHash.write d.prevLatestSupportedVersionAndHash

/-- `AccountDiffFromReader`. -/
def accountDiffFromReader : Reader β AccountDiff := fun bs =>
  (c.int64.read bs).bind fun (bicChange, bs) =>
  (c.slotIndex.read bs).bind fun (previousUpdatedSlot, bs) =>
  (c.slotIndex.read bs).bind fun (newExpirySlot, bs) =>
  (c.slotIndex.read bs).bind fun (previousExpirySlot, bs) =>
  (c.outputID.read bs).bind fun (newOutputID, bs) =>
  (c.outputID.read bs).bind fun (previousOutputID, bs) =>
  (c.blockIssuerKeys.read bs).bind fun (blockIssuerKeysAdded, bs) =>
  (c.blockIssuerKeys.read bs).bind fun (blockIssuerKeysRemoved, bs) =>
  (c.int64.read bs).bind fun (validatorStakeChange, bs) =>
  (c.int64.read bs).bind fun (delegationStakeChange, bs) =>
  (c.int64.read bs).bind fun (fixedCostChange, bs) =>
  (c.int64.read bs).bind fun (stakeEndEpochChange, bs) =>
  (c.versionAndHash.read bs).bind fun (newVersionAndHash, bs) =>
  (c.versionAndHash.read bs).bind fun (prevVersionAndHash, bs) =>
  some ({ bicChange := bicChange
          previousUpdatedSlot := previousUpdatedSlot
          newExpirySlot := newExpirySlot
          previousExpirySlot := previousExpirySlot
          newOutputID := newOutputID
          previousOutputID := previousOutputID
          blockIssuerKeysAdded := blockIssuerKeysAdded
          blockIssuerKeysRemoved := blockIssuerKeysRemoved
          validatorStakeChange := validatorStakeChange
          delegationStakeChange := delegationStakeChange
          stakeEndEpochChange := stakeEndEpochChange
          fixedCostChange := fixedCostChange
          newLatestSupportedVersionAndHash := newVersionAndHash
          prevLatestSupportedVersionAndHash := prevVersionAndHash }, bs)

def accountDiffCodec : Codec β AccountDiff where
  write := AccountDiff.bytes c
  read := accountDiffFromReader c
  read_write d rest := by
    unfold AccountDiff.bytes
    simp only [append_assoc]
    unfold accountDiffFromReader
    iterate 14 refine (Codec.read_write_bind _ _ _ _).trans ?_
    rfl

/-! ## Section 2: Export and import -/

/-- One diff of a slot, as `writeSlotDiffs` writes it. -/
def writeAccountDiff (entry : Sigma fun _ : AccountID => AccountDiff × Bool) : List β :=
  c.accountID.write entry.1 ++ c.bool.write entry.2.2 ++ (accountDiffCodec c).write entry.2.1

/-- The loop of `writeSlotDiffs`, from a slot downwards: the bytes and the number of
    slots that it counts. -/
def writeSlotDiffsLoop (slotDiff : Nat → Option DiffStore) :
    (rounds slot : Nat) → List β × Nat
  | 0, _ => ([], 0)
  | rounds + 1, slot =>
    let rest := writeSlotDiffsLoop slotDiff rounds (slot - 1)
    match slotDiff slot with
    -- the number of a pruned slot is written, but it is not counted
    | none => (c.slotIndex.write slot ++ rest.1, rest.2)
    | some slotDiffs =>
      (c.slotIndex.write slot ++ writeCollection c.length slotDiffs.entries.length
        (slotDiffs.entries.flatMap (writeAccountDiff c)) ++ rest.1, rest.2 + 1)

/-- The lowest slot whose diffs are written. -/
def lowestSlot (p : Params) (targetSlot : Nat) : Nat :=
  if p.maxCommittableAge < targetSlot then targetSlot - p.maxCommittableAge else 1

/-- `writeSlotDiffs`, with the function that the manager gets for the diffs of a slot. -/
def writeSlotDiffs (p : Params) (slotDiff : Nat → Option DiffStore)
    (latestCommittedSlot targetSlot : Nat) : List β × Nat :=
  writeSlotDiffsLoop c slotDiff (latestCommittedSlot + 1 - lowestSlot p targetSlot)
    latestCommittedSlot

/-- `exportAccountTree`. -/
def Manager.exportAccountTree (m : Manager) : List β :=
  m.accountsTree.entries.flatMap fun entry => (accountDataCodec c).write entry.2

/-- `Export`. -/
def Manager.«export» (p : Params) (m : Manager) (targetSlot : Nat) : List β :=
  let slotDiffs := writeSlotDiffs c p m.slotDiff m.latestCommittedSlot targetSlot
  c.slotIndex.write targetSlot ++ c.slotIndex.write m.latestCommittedSlot ++
    writeCollection c.length m.accountsTree.entries.length (m.exportAccountTree c) ++
    writeCollection c.length slotDiffs.2 slotDiffs.1

/-- `AccountDiffs.Store`: a destroyed account stays marked. -/
def DiffStore.store (s : DiffStore) (id : AccountID) (d : AccountDiff) (destroyed : Bool) :
    DiffStore :=
  s.insert id (d, destroyed || ((s.lookup id).map Prod.snd).getD false)

/-- The diff of one account is stored in a slot. -/
def Manager.storeDiff (slot : Nat) (m : Manager)
    (entry : Sigma fun _ : AccountID => AccountDiff × Bool) : Manager :=
  { m with
    slotDiffs := update m.slotDiffs slot
      ((m.slotDiffs slot).store entry.1 entry.2.1 entry.2.2) }

/-- One account of the tree, as `Import` reads it. -/
def Manager.readAccount (m : Manager) : Reader β Manager := fun bs =>
  ((accountDataCodec c).read bs).map fun (a, bs) =>
    ({ m with accountsTree := m.accountsTree.insert a.id a }, bs)

/-- One diff of a slot, as `readSlotDiffs` reads it. -/
def Manager.readAccountDiff (slot : Nat) (m : Manager) : Reader β Manager := fun bs =>
  (m.slotDiff slot).bind fun _ =>
  (c.accountID.read bs).bind fun (accountID, bs) =>
  (c.bool.read bs).bind fun (destroyed, bs) =>
  ((accountDiffCodec c).read bs).map fun (accountDiff, bs) =>
    (m.storeDiff slot ⟨accountID, accountDiff, destroyed⟩, bs)

/-- One slot, as `readSlotDiffs` reads it. -/
def Manager.readSlotDiff (m : Manager) : Reader β Manager := fun bs =>
  (c.slotIndex.read bs).bind fun (slot, bs) =>
    readCollection c.length (readAccountDiff c slot) m bs

/-- `readSlotDiffs`. -/
def Manager.readSlotDiffs (m : Manager) : Reader β Manager :=
  readCollection c.length (readSlotDiff c) m

/-- `Import`. -/
def Manager.«import» (m : Manager) (bs : List β) : Option Manager :=
  (c.slotIndex.read bs).bind fun (targetSlot, bs) =>
  (c.slotIndex.read bs).bind fun (accountsTreeSlot, bs) =>
  (readCollection c.length (readAccount c) m bs).bind fun (m, bs) =>
  (m.readSlotDiffs c bs).bind fun (m, _) =>
  m.rollbackFromTo accountsTreeSlot targetSlot true

/-! ## Section 3: What is read -/

variable {p : Params} {l l' : Ledger} {m n : Manager}

/-- Where the number of a slot was written, a length that is read is not 0: both are little
    endian, and the length has the more bytes. -/
def SlotFillsLength : Prop :=
  ∀ slot bs count bs', 0 < slot →
    c.length.read (c.slotIndex.write slot ++ bs) = some (count, bs') → 0 < count

theorem readAccountDiff_eq {slot : Nat} {bs bs' : List β} {n' : Manager}
    (hread : readAccountDiff c slot n bs = some (n', bs')) :
    ∃ entry, n' = n.storeDiff slot entry := by
  obtain ⟨_, -, hread⟩ := Option.bind_eq_some_iff.mp hread
  obtain ⟨⟨accountID, _⟩, -, hread⟩ := Option.bind_eq_some_iff.mp hread
  obtain ⟨⟨destroyed, _⟩, -, hread⟩ := Option.bind_eq_some_iff.mp hread
  obtain ⟨⟨accountDiff, _⟩, -, hread⟩ := Option.map_eq_some_iff.mp hread
  exact ⟨_, (congrArg Prod.fst hread).symm⟩

theorem readAccounts_exportAccountTree (n : Manager)
    (hids : ∀ id a, m.accountsTree.lookup id = some a → a.id = id) (hempty : n.accountsTree = ∅)
    (rest : List β) :
    ∃ tree : Map AccountID AccountData,
      readTimes (readAccount c) m.accountsTree.entries.length n
          (m.exportAccountTree c ++ rest) = some ({ n with accountsTree := tree }, rest) ∧
        ∀ id, tree.lookup id = m.accountsTree.lookup id := by
  have hread := readTimes_flatMap (f := readAccount c)
    (w := fun entry : Sigma fun _ : AccountID => AccountData => (accountDataCodec c).write entry.2)
    (g := fun n entry =>
      { n with accountsTree := n.accountsTree.insert entry.2.id entry.2 })
    (I := fun _ => True) (l := m.accountsTree.entries)
    (by
      intro n _ entry _ rest
      unfold readAccount
      rw [Codec.read_write]
      rfl)
    (fun _ _ _ _ => trivial) (s := n) trivial rest
  -- the update only touches the tree, and every entry goes to its own ID
  have hfold : ∀ (entries : List (Sigma fun _ : AccountID => AccountData)) (n : Manager),
      (∀ entry ∈ entries, entry.2.id = entry.1) →
      entries.foldl (fun n entry =>
        { n with accountsTree := n.accountsTree.insert entry.2.id entry.2 }) n =
      { n with accountsTree :=
          entries.foldl (fun tree entry => tree.insert entry.1 entry.2) n.accountsTree } := by
    intro entries
    induction entries with
    | nil => exact fun _ _ => rfl
    | cons entry entries ih =>
      intro n hall
      rw [foldl_cons, ih _ (fun e he => hall e (mem_cons_of_mem entry he)),
        hall entry mem_cons_self]
      rfl
  rw [hfold _ n (fun entry hentry => hids entry.1 entry.2
    (AList.mem_lookup_iff.mpr hentry)), hempty] at hread
  refine ⟨_, hread, fun id => ?_⟩
  rw [lookup_foldl_insert (fun _ a => a) m.accountsTree.nodupKeys, AList.lookup_empty,
    or_none]
  exact map_id'

theorem foldl_storeDiff (slot : Nat)
    (entries : List (Sigma fun _ : AccountID => AccountDiff × Bool)) (n : Manager) :
    entries.foldl (storeDiff slot) n =
      { n with
        slotDiffs := update n.slotDiffs slot
          (entries.foldl (fun s e => DiffStore.store s e.1 e.2.1 e.2.2) (n.slotDiffs slot)) } := by
  induction entries generalizing n with
  | nil => rw [foldl_nil, foldl_nil, update_eq_self]
  | cons entry entries ih =>
    rw [foldl_cons, ih, foldl_cons]
    unfold storeDiff
    dsimp only
    rw [update_self, update_idem]

theorem readAccountDiffs (slot : Nat) (store : DiffStore) (hpruned : n.prunedBelow = 0)
    (hempty : n.slotDiffs slot = ∅) (rest : List β) :
    ∃ store' : DiffStore,
      readTimes (readAccountDiff c slot) store.entries.length n
          (store.entries.flatMap (writeAccountDiff c) ++ rest) =
        some ({ n with slotDiffs := update n.slotDiffs slot store' }, rest) ∧
      ∀ id, store'.lookup id = store.lookup id := by
  have hread := readTimes_flatMap (f := readAccountDiff c slot) (w := writeAccountDiff c)
    (g := storeDiff slot) (I := fun n => n.prunedBelow = 0) (l := store.entries)
    (by
      intro n hn entry _ rest
      have hslot : n.slotDiff slot = some (n.slotDiffs slot) := if_neg (by omega)
      unfold readAccountDiff writeAccountDiff
      rw [hslot, bind_some, append_assoc, append_assoc]
      refine (Codec.read_write_bind _ _ _ _).trans ((Codec.read_write_bind _ _ _ _).trans ?_)
      dsimp only
      rw [Codec.read_write]
      rfl)
    (fun _ hn _ _ => hn) hpruned rest
  rw [foldl_storeDiff, hempty] at hread
  refine ⟨_, hread, fun id => ?_⟩
  refine (lookup_foldl_insert
    (fun previous e => (e.1, e.2 || (previous.map Prod.snd).getD false))
    store.nodupKeys ∅ id).trans ?_
  rw [AList.lookup_empty, or_none]
  show (store.lookup id).map (fun e => (e.1, e.2 || false)) = store.lookup id
  cases store.lookup id with
  | none => rfl
  | some e => rw [map_some, Bool.or_false]

theorem readSlotDiff_write (slot : Nat) (store : DiffStore) (hpruned : n.prunedBelow = 0)
    (hempty : n.slotDiffs slot = ∅) (rest : List β) :
    ∃ store' : DiffStore,
      readSlotDiff c n (c.slotIndex.write slot ++ writeCollection c.length store.entries.length
          (store.entries.flatMap (writeAccountDiff c)) ++ rest) =
        some ({ n with slotDiffs := update n.slotDiffs slot store' }, rest) ∧
      ∀ id, store'.lookup id = store.lookup id := by
  obtain ⟨store', hread, hstore⟩ := readAccountDiffs c slot store hpruned hempty rest
  refine ⟨store', ?_, hstore⟩
  unfold readSlotDiff
  rw [append_assoc, Codec.read_write_bind]
  dsimp only
  rw [readCollection_writeCollection, hread]

variable {slotDiff : Nat → Option DiffStore} {slot rounds : Nat}

theorem writeSlotDiffsLoop_pruned
    (h : ∀ diffSlot, slot < diffSlot + rounds → diffSlot ≤ slot → slotDiff diffSlot = none)
    (hrounds : rounds ≤ slot) : (writeSlotDiffsLoop c slotDiff rounds slot).2 = 0 := by
  induction rounds generalizing slot with
  | zero => rfl
  | succ rounds ih =>
    unfold writeSlotDiffsLoop
    rw [h slot (by omega) (Nat.le_refl _)]
    exact ih (fun diffSlot hlt hle => h diffSlot (by omega) (by omega)) (by omega)

theorem writeSlotDiffsLoop_head (slotDiff : Nat → Option DiffStore) (rounds slot : Nat) :
    ∃ bs, (writeSlotDiffsLoop c slotDiff (rounds + 1) slot).1 = c.slotIndex.write slot ++ bs := by
  unfold writeSlotDiffsLoop
  split
  · exact ⟨_, rfl⟩
  · exact ⟨_, append_assoc _ _ _⟩

/-- The first round at a slot that is retained: it is read, and the reader goes on below it. -/
theorem readSlotDiffs_loop_retained {slotDiffs : DiffStore} (hslot : slotDiff slot = some slotDiffs)
    (hpos : 0 < slot) (hpruned : n.prunedBelow = 0)
    (hempty : ∀ diffSlot ≤ slot, n.slotDiffs diffSlot = ∅) (rest : List β) :
    ∃ store : DiffStore, (∀ id, store.lookup id = slotDiffs.lookup id) ∧
      (∀ diffSlot ≤ slot - 1, update n.slotDiffs slot store diffSlot = ∅) ∧
      readTimes (readSlotDiff c) (writeSlotDiffsLoop c slotDiff (rounds + 1) slot).2 n
          ((writeSlotDiffsLoop c slotDiff (rounds + 1) slot).1 ++ rest) =
        readTimes (readSlotDiff c) (writeSlotDiffsLoop c slotDiff rounds (slot - 1)).2
          { n with slotDiffs := update n.slotDiffs slot store }
          ((writeSlotDiffsLoop c slotDiff rounds (slot - 1)).1 ++ rest) := by
  obtain ⟨store, hread, hstore⟩ := readSlotDiff_write c slot slotDiffs hpruned
    (hempty slot (Nat.le_refl _)) ((writeSlotDiffsLoop c slotDiff rounds (slot - 1)).1 ++ rest)
  refine ⟨store, hstore, fun diffSlot hle => ?_, ?_⟩
  · rw [update_of_ne (by omega)]
    exact hempty diffSlot (by omega)
  · rw [writeSlotDiffsLoop, hslot]
    show (readSlotDiff c n _).bind _ = _
    rw [append_assoc, hread]
    rfl

/-- Reading the slots that `writeSlotDiffs` wrote, if those below the retained ones are all
    pruned: their numbers are left at the end of the stream. -/
theorem readSlotDiffs_loop {lowest : Nat} (rounds slot : Nat) (hrounds : rounds ≤ slot)
    (hlowest : ∀ diffSlot, slot < diffSlot + rounds → diffSlot ≤ slot →
      ((slotDiff diffSlot).isSome ↔ lowest ≤ diffSlot))
    (hpruned : n.prunedBelow = 0) (hempty : ∀ diffSlot ≤ slot, n.slotDiffs diffSlot = ∅)
    (rest : List β) :
    ∃ (diffs : Nat → DiffStore) (rest' : List β),
      readTimes (readSlotDiff c) (writeSlotDiffsLoop c slotDiff rounds slot).2 n
          ((writeSlotDiffsLoop c slotDiff rounds slot).1 ++ rest) =
        some ({ n with slotDiffs := diffs }, rest') ∧
      ((∀ diffSlot, slot < diffSlot + rounds → diffSlot ≤ slot → lowest ≤ diffSlot) →
        rest' = rest) ∧
      ∀ diffSlot id, (diffs diffSlot).lookup id =
        if slot < diffSlot + rounds ∧ diffSlot ≤ slot then
          (slotDiff diffSlot).bind (·.lookup id)
        else (n.slotDiffs diffSlot).lookup id := by
  induction rounds generalizing slot n with
  | zero =>
    refine ⟨n.slotDiffs, _, rfl, fun _ => rfl, fun diffSlot id => ?_⟩
    rw [if_neg (by omega)]
  | succ rounds ih =>
    have htop := hlowest slot (by omega) (Nat.le_refl _)
    cases hslot : slotDiff slot with
    | none =>
      rw [hslot, isSome_none, Bool.false_eq_true, false_iff] at htop
      have hnone : ∀ diffSlot, slot < diffSlot + (rounds + 1) → diffSlot ≤ slot →
          slotDiff diffSlot = none := by
        intro diffSlot hlt hle
        rw [← not_isSome_iff_eq_none, hlowest diffSlot hlt hle]
        omega
      refine ⟨n.slotDiffs, (writeSlotDiffsLoop c slotDiff (rounds + 1) slot).1 ++ rest, ?_, ?_, ?_⟩
      · rw [writeSlotDiffsLoop_pruned c hnone hrounds]
        rfl
      · exact fun hall => absurd (hall slot (by omega) (Nat.le_refl _)) htop
      · intro diffSlot id
        split_ifs with hrange
        · rw [hnone diffSlot hrange.1 hrange.2, hempty diffSlot hrange.2]
          rfl
        · rfl
    | some slotDiffs =>
      obtain ⟨store, hstore, hbelow, hfirst⟩ := readSlotDiffs_loop_retained c
        hslot (by omega) hpruned hempty rest
      obtain ⟨diffs, rest', hread, hall, hdiffs⟩ := ih (slot - 1) (by omega)
        (n := { n with slotDiffs := update n.slotDiffs slot store })
        (fun diffSlot hlt hle => hlowest diffSlot (by omega) (by omega)) hpruned hbelow
      refine ⟨diffs, rest', hfirst.trans hread, fun hretained => hall fun diffSlot hlt hle =>
        hretained diffSlot (by omega) (by omega), fun diffSlot id => ?_⟩
      · rw [hdiffs diffSlot id]
        by_cases heq : diffSlot = slot
        · subst heq
          rw [if_neg (by omega), if_pos (by omega), hslot]
          show (update n.slotDiffs diffSlot store diffSlot).lookup id = _
          rw [update_self, hstore]
          rfl
        · show (if _ then _ else (update n.slotDiffs slot store diffSlot).lookup id) = _
          rw [update_of_ne heq]
          exact if_congr (by omega) rfl rfl

theorem lowestSlot_mem (p : Params) (targetSlot : Nat) :
    1 ≤ lowestSlot p targetSlot ∧ lowestSlot p targetSlot ≤ targetSlot + 1 := by
  unfold lowestSlot
  split <;> omega

theorem readSlotDiffs_section {latestCommittedSlot lowest : Nat} (targetSlot : Nat)
    (hlowest : ∀ slot, lowestSlot p targetSlot ≤ slot → slot ≤ latestCommittedSlot →
      ((slotDiff slot).isSome ↔ lowest ≤ slot))
    (hpruned : n.prunedBelow = 0) (hempty : ∀ slot, n.slotDiffs slot = ∅) (rest : List β) :
    ∃ (diffs : Nat → DiffStore) (rest' : List β),
      n.readSlotDiffs c (writeCollection c.length
          (writeSlotDiffs c p slotDiff latestCommittedSlot targetSlot).2
          (writeSlotDiffs c p slotDiff latestCommittedSlot targetSlot).1 ++ rest) =
        some ({ n with slotDiffs := diffs }, rest') ∧
      (lowest ≤ lowestSlot p targetSlot → rest' = rest) ∧
      ∀ slot id, (diffs slot).lookup id =
        if lowestSlot p targetSlot ≤ slot ∧ slot ≤ latestCommittedSlot then
          (slotDiff slot).bind (·.lookup id)
        else none := by
  have hlow := (lowestSlot_mem p targetSlot).1
  obtain ⟨diffs, rest', hread, hall, hdiffs⟩ := readSlotDiffs_loop c
    (latestCommittedSlot + 1 - lowestSlot p targetSlot) latestCommittedSlot (by omega)
    (fun slot hlt hle => hlowest slot (by omega) hle) hpruned (fun slot _ => hempty slot) rest
  refine ⟨diffs, rest', ?_, fun hle => hall fun slot hlt _ => by omega, fun slot id => ?_⟩
  · unfold readSlotDiffs
    rw [readCollection_writeCollection]
    exact hread
  · rw [hdiffs slot id, hempty slot, AList.lookup_empty]
    exact if_congr (by omega) rfl rfl

theorem readAccountDiff_keeps {diffSlot : Nat} {id : AccountID} {bs bs' : List β} {n' : Manager}
    (hsome : ((n.slotDiffs diffSlot).lookup id).isSome)
    (hread : readAccountDiff c slot n bs = some (n', bs')) :
    ((n'.slotDiffs diffSlot).lookup id).isSome := by
  obtain ⟨entry, rfl⟩ := readAccountDiff_eq c hread
  show ((update n.slotDiffs slot _ diffSlot).lookup id).isSome
  by_cases hslot : diffSlot = slot
  · subst hslot
    rw [update_self]
    show ((AList.insert entry.1 _ _).lookup id).isSome
    rw [AList.lookup_isSome, AList.mem_insert]
    exact .inr (AList.lookup_isSome.mp hsome)
  · rw [update_of_ne hslot]
    exact hsome

theorem readSlotDiff_keeps {diffSlot : Nat} {id : AccountID} {bs bs' : List β} {n' : Manager}
    (hsome : ((n.slotDiffs diffSlot).lookup id).isSome)
    (hread : readSlotDiff c n bs = some (n', bs')) :
    ((n'.slotDiffs diffSlot).lookup id).isSome := by
  obtain ⟨⟨slot, bs₁⟩, -, hread⟩ := Option.bind_eq_some_iff.mp hread
  obtain ⟨⟨count, bs₂⟩, -, hread⟩ := Option.bind_eq_some_iff.mp hread
  exact readTimes_invariant (I := fun n => ((n.slotDiffs diffSlot).lookup id).isSome)
    (fun _ _ _ _ => readAccountDiff_keeps c) hsome hread

theorem readAccountDiffs_stores {count : Nat} (hcount : 0 < count) {bs bs' : List β} {n' : Manager}
    (hread : readTimes (readAccountDiff c slot) count n bs = some (n', bs')) :
    ∃ id, ((n'.slotDiffs slot).lookup id).isSome := by
  obtain ⟨count, rfl⟩ := Nat.exists_eq_succ_of_ne_zero hcount.ne'
  obtain ⟨⟨n₁, bs₁⟩, hfirst, hrest⟩ := Option.bind_eq_some_iff.mp hread
  obtain ⟨entry, rfl⟩ := readAccountDiff_eq c hfirst
  refine ⟨entry.1, readTimes_invariant
    (I := fun n => ((n.slotDiffs slot).lookup entry.1).isSome)
    (fun _ _ _ _ => readAccountDiff_keeps c) ?_ hrest⟩
  show ((update n.slotDiffs slot _ slot).lookup entry.1).isSome
  rw [update_self]
  show ((AList.insert entry.1 _ _).lookup entry.1).isSome
  rw [AList.lookup_insert]
  rfl

/-- The first round at a slot that is pruned: if the reader arrives at the end of what was
    written, it has read the number of the slot below as the length of this one. -/
theorem readSlotDiffs_loop_misread (hlength : SlotFillsLength c) {n' : Manager}
    (hrounds : rounds + 1 ≤ slot) (hslot : slotDiff slot = none) {rest : List β}
    (hread : readTimes (readSlotDiff c) (writeSlotDiffsLoop c slotDiff (rounds + 1) slot).2 n
      ((writeSlotDiffsLoop c slotDiff (rounds + 1) slot).1 ++ rest) = some (n', rest)) :
    ∃ id, ((n'.slotDiffs slot).lookup id).isSome := by
  unfold writeSlotDiffsLoop at hread
  rw [hslot] at hread
  dsimp only at hread
  cases hcount : (writeSlotDiffsLoop c slotDiff rounds (slot - 1)).2 with
  | zero =>
    -- the reader is done and the number of the slot is left
    rw [hcount, append_assoc] at hread
    have hrest : c.slotIndex.write slot ++ _ = rest := congrArg Prod.snd (Option.some.inj hread)
    have hlen := congrArg List.length hrest
    have hwrite := List.length_pos_iff.mpr (c.slotIndex.write_ne_nil (Nat.succ_ne_self slot).symm)
    simp only [length_append] at hlen
    omega
  | succ count =>
    rw [hcount, append_assoc] at hread
    obtain ⟨⟨n₁, bs₁⟩, hfirst, hlater⟩ := Option.bind_eq_some_iff.mp hread
    unfold readSlotDiff at hfirst
    rw [Codec.read_write_bind] at hfirst
    obtain ⟨⟨length, bs₂⟩, hlen, hdiffs⟩ := Option.bind_eq_some_iff.mp hfirst
    cases rounds with
    | zero => cases hcount
    | succ rounds =>
      obtain ⟨bs, hbs⟩ := writeSlotDiffsLoop_head c slotDiff rounds (slot - 1)
      rw [hbs, append_assoc] at hlen
      obtain ⟨id, hstored⟩ := readAccountDiffs_stores c
        (hlength (slot - 1) _ _ _ (by omega) hlen) hdiffs
      exact ⟨id, readTimes_invariant (I := fun n => ((n.slotDiffs slot).lookup id).isSome)
        (fun _ _ _ _ => readSlotDiff_keeps c) hstored hlater⟩

/-- A pruned slot makes the reader lose its place: if it reads up to the end of what was
    written, it has stored a diff under a pruned slot. -/
theorem readSlotDiffs_loop_pruned (hlength : SlotFillsLength c) {n' : Manager}
    (rounds slot : Nat) (hrounds : rounds ≤ slot)
    (hmissing : ∃ diffSlot, slot < diffSlot + rounds ∧ diffSlot ≤ slot ∧ slotDiff diffSlot = none)
    (hpruned : n.prunedBelow = 0) (hempty : ∀ diffSlot ≤ slot, n.slotDiffs diffSlot = ∅)
    {rest : List β}
    (hread : readTimes (readSlotDiff c) (writeSlotDiffsLoop c slotDiff rounds slot).2 n
      ((writeSlotDiffsLoop c slotDiff rounds slot).1 ++ rest) = some (n', rest)) :
    ∃ diffSlot id, slot < diffSlot + rounds ∧ diffSlot ≤ slot ∧ slotDiff diffSlot = none ∧
      ((n'.slotDiffs diffSlot).lookup id).isSome := by
  induction rounds generalizing slot n with
  | zero =>
    obtain ⟨diffSlot, hlt, hle, -⟩ := hmissing
    omega
  | succ rounds ih =>
    cases hslot : slotDiff slot with
    | some slotDiffs =>
      obtain ⟨store, -, hbelow, hfirst⟩ := readSlotDiffs_loop_retained c
        hslot (by omega) hpruned hempty rest
      rw [hfirst] at hread
      obtain ⟨diffSlot, hlt, hle, hnone⟩ := hmissing
      have hne : diffSlot ≠ slot := by
        rintro rfl
        rw [hslot] at hnone
        cases hnone
      obtain ⟨diffSlot, id, hlt, hle, hstored⟩ := ih (slot - 1) (by omega)
        ⟨diffSlot, by omega, by omega, hnone⟩
        (n := { n with slotDiffs := update n.slotDiffs slot store }) hpruned hbelow hread
      exact ⟨diffSlot, id, by omega, by omega, hstored⟩
    | none =>
      obtain ⟨id, hstored⟩ := readSlotDiffs_loop_misread c hlength hrounds hslot hread
      exact ⟨slot, id, by omega, Nat.le_refl _, hslot, hstored⟩

/-- The section of the slot diffs is read back exactly, if and only if no slot of it is
    pruned. -/
theorem readSlotDiffs_writeSlotDiffs_iff (hlength : SlotFillsLength c) (p : Params)
    (slotDiff : Nat → Option DiffStore) (latestCommittedSlot targetSlot : Nat) (n : Manager)
    (hpruned : n.prunedBelow = 0) (hempty : ∀ slot, n.slotDiffs slot = ∅) (rest : List β) :
    (∃ n', n.readSlotDiffs c (writeCollection c.length
          (writeSlotDiffs c p slotDiff latestCommittedSlot targetSlot).2
          (writeSlotDiffs c p slotDiff latestCommittedSlot targetSlot).1 ++ rest) =
        some (n', rest) ∧
      ∀ slot id, (n'.slotDiffs slot).lookup id =
        if lowestSlot p targetSlot ≤ slot ∧ slot ≤ latestCommittedSlot then
          (slotDiff slot).bind (·.lookup id)
        else none) ↔
      ∀ slot, lowestSlot p targetSlot ≤ slot → slot ≤ latestCommittedSlot →
        (slotDiff slot).isSome := by
  have hlow := (lowestSlot_mem p targetSlot).1
  constructor
  · rintro ⟨n', hread, hstored⟩ slot hle hlatest
    by_contra hsome
    unfold readSlotDiffs at hread
    rw [readCollection_writeCollection] at hread
    obtain ⟨diffSlot, id, hlt, hdiffSlot, hnone, hdiff⟩ := readSlotDiffs_loop_pruned c hlength
      (latestCommittedSlot + 1 - lowestSlot p targetSlot) latestCommittedSlot (by omega)
      ⟨slot, by omega, hlatest, Option.not_isSome_iff_eq_none.mp hsome⟩ hpruned
      (fun slot _ => hempty slot) hread
    rw [hstored diffSlot id, hnone, bind_none, ite_self] at hdiff
    cases hdiff
  · intro hretained
    obtain ⟨diffs, rest', hread, hall, hdiffs⟩ := readSlotDiffs_section (p := p) c targetSlot
      (fun slot hle hlatest => iff_of_true (hretained slot hle hlatest) hle) hpruned hempty rest
    rw [hall (Nat.le_refl _)] at hread
    exact ⟨_, hread, hdiffs⟩

/-- An import reads the tree and the diffs of the exporting manager, and rolls back. -/
theorem import_of_export (targetSlot slot₀ : Nat)
    (hids : ∀ id a, m.accountsTree.lookup id = some a → a.id = id) :
    ∃ n : Manager, n.prunedBelow = 0 ∧
      (emptyManager slot₀).«import» c (m.«export» c p targetSlot) =
        n.rollbackFromTo m.latestCommittedSlot targetSlot true ∧
      (∀ id, n.accountsTree.lookup id = m.accountsTree.lookup id) ∧
      ∀ diffSlot id, (n.slotDiffs diffSlot).lookup id =
        if lowestSlot p targetSlot ≤ diffSlot ∧ diffSlot ≤ m.latestCommittedSlot ∧
            m.prunedBelow ≤ diffSlot then
          (m.slotDiffs diffSlot).lookup id
        else none := by
  obtain ⟨tree, htree, hlookup⟩ := readAccounts_exportAccountTree c (emptyManager slot₀) hids rfl
    (writeCollection c.length (writeSlotDiffs c p m.slotDiff m.latestCommittedSlot targetSlot).2
      (writeSlotDiffs c p m.slotDiff m.latestCommittedSlot targetSlot).1)
  have hlowest : ∀ slot, (m.slotDiff slot).isSome ↔ m.prunedBelow ≤ slot := by
    intro slot
    unfold slotDiff
    split <;> simp <;> omega
  obtain ⟨diffs, rest, hread, -, hdiffs⟩ := readSlotDiffs_section (p := p) c targetSlot
    (fun slot _ _ => hlowest slot) (n := { emptyManager slot₀ with accountsTree := tree }) rfl
    (fun _ => rfl) []
  refine ⟨{ emptyManager slot₀ with accountsTree := tree, slotDiffs := diffs },
    rfl, ?_, hlookup, ?_⟩
  · unfold Manager.«import» Manager.«export»
    rw [append_assoc, append_assoc, Codec.read_write_bind]
    dsimp only
    rw [Codec.read_write_bind]
    rw [readCollection_writeCollection, htree, bind_some, ← append_nil (writeCollection _ _ _),
      hread]
    rfl
  · intro diffSlot id
    rw [hdiffs diffSlot id]
    by_cases hpruned : m.prunedBelow ≤ diffSlot
    · have hdiff : m.slotDiff diffSlot = some (m.slotDiffs diffSlot) := if_neg (by omega)
      simp only [hdiff, bind_some, hpruned, and_true]
    · have hdiff : m.slotDiff diffSlot = none := if_pos (by omega)
      simp only [hdiff, bind_none, hpruned, and_false, ite_self, if_false]

/-! ## Section 4: The round trip -/

/-- Importing what was exported for the slot of `l` gives the tree that `l` had, with the
    exported diffs of the slots up to it and none after it. -/
theorem import_export_exact {inputs : List Input} (hreach : Reachable p l)
    (hrun : run (step p) l inputs = some l')
    (hexact : AllSteps (step p) (OnCommit (ExactTree p)) l inputs)
    (hretained : l'.manager.prunedBelow ≤ l.manager.latestCommittedSlot + 1) (slot₀ : Nat) :
    ∃ n, (emptyManager slot₀).«import» c
        (l'.manager.«export» c p l.manager.latestCommittedSlot) = some n ∧
      (∀ id, n.accountsTree.lookup id = l.manager.accountsTree.lookup id) ∧
      ∀ diffSlot id, (n.slotDiffs diffSlot).lookup id =
        if lowestSlot p l.manager.latestCommittedSlot ≤ diffSlot ∧
            diffSlot ≤ l.manager.latestCommittedSlot ∧ l'.manager.prunedBelow ≤ diffSlot then
          (l'.manager.slotDiffs diffSlot).lookup id
        else none := by
  obtain ⟨hinv', hslot, hroll⟩ := rollsBackTo_run hreach.inv hexact hrun
  have hlow := (lowestSlot_mem p l.manager.latestCommittedSlot).2
  obtain ⟨n, hpruned, himport, htree, hdiffs⟩ :=
    import_of_export (p := p) c l.manager.latestCommittedSlot slot₀ hinv'.ids
  obtain ⟨m', hm', htree', hdiffs'⟩ := hroll n true (by omega) ⟨htree, by
    intro diffSlot habove hle id
    rw [hdiffs diffSlot id, if_pos (by omega)]⟩
  refine ⟨m', himport.trans hm', htree', fun diffSlot id => ?_⟩
  rw [hdiffs' diffSlot]
  by_cases habove : l.manager.latestCommittedSlot < diffSlot ∧
      diffSlot ≤ l'.manager.latestCommittedSlot
  · rw [if_pos ⟨rfl, habove⟩, if_neg (by omega)]
    rfl
  · rw [if_neg (fun h => habove h.2), hdiffs diffSlot id]
    exact if_congr (by omega) rfl rfl

/-- The accounts that are in the tree or that the next slot has something for. -/
def touchedAccounts (l : Ledger) (stateDiff : StateDiff) : List AccountID :=
  l.manager.accountsTree.keys ++ stateDiff.allotments.map Prod.fst ++
    (stateDiff.destroyedStates ++ stateDiff.createdStates).filterMap Output.delegate ++
    (l.manager.latestSupportedVersionSignals (l.manager.latestCommittedSlot + 1)).keys

/-- No other account needs to be looked at. -/
theorem exactTree_iff {rmc : UInt64} {stateDiff : StateDiff} :
    ExactTree p l rmc stateDiff ↔ ∀ id ∈ touchedAccounts l stateDiff,
      ExactSlot p id l rmc stateDiff ∧ RegularSlot p id l rmc stateDiff := by
  constructor
  · exact fun h id _ => h id
  · intro h id
    by_cases hid : id ∈ touchedAccounts l stateDiff
    · exact h id hid
    · simp only [touchedAccounts, mem_append, not_or, mem_keys_iff,
        not_isSome_iff_eq_none] at hid
      obtain ⟨⟨⟨hload, hallots⟩, hdelegates⟩, hsignal⟩ := hid
      have hpresent : PresentOk p l stateDiff id := by
        intro a ha
        rw [hload] at ha
        cases ha
      refine ⟨⟨hpresent, ?_⟩, hpresent, fun _ => ?_⟩
      · intro b _ _ _
        right
        intro a ha
        rw [hload] at ha
        cases ha
      · cases hcreated : stateDiff.created p id with
        | some o => exact .inr rfl
        | none =>
          refine .inl ⟨hallots, fun hdel => hdelegates ?_, hcreated, hsignal⟩
          obtain ⟨o, ho, hdelegate⟩ := mem_map.mp hdel
          exact mem_filterMap.mpr ⟨o, ho, hdelegate⟩

instance (rmc : UInt64) (stateDiff : StateDiff) : Decidable (ExactTree p l rmc stateDiff) :=
  decidable_of_iff _ exactTree_iff.symm

/-- Streams of typed symbols, for the runs below. -/
inductive Symbol where
  | nat (n : Nat)
  | bool (b : Bool)
  | int64 (x : Int64)
  | uint64 (x : UInt64)
  | epochIndex (x : UInt32)
  | keys (keys : Finset BlockIssuerKey)
  | versionAndHash (v : VersionAndHash)

def natCodec : Codec Symbol Nat :=
  .single .nat (fun | .nat n => some n | _ => none) (fun _ => rfl)

def sampleCodecs : Codecs Symbol where
  slotIndex := natCodec
  length := natCodec
  accountID := natCodec
  bool := .single .bool (fun | .bool b => some b | _ => none) (fun _ => rfl)
  int64 := .single .int64 (fun | .int64 x => some x | _ => none) (fun _ => rfl)
  uint64 := .single .uint64 (fun | .uint64 x => some x | _ => none) (fun _ => rfl)
  epochIndex := .single .epochIndex (fun | .epochIndex x => some x | _ => none) (fun _ => rfl)
  outputID := natCodec
  blockIssuerKeys := .single .keys (fun | .keys s => some s | _ => none) (fun _ => rfl)
  versionAndHash :=
    .single .versionAndHash (fun | .versionAndHash v => some v | _ => none) (fun _ => rfl)

theorem sampleCodecs_slotFillsLength : SlotFillsLength sampleCodecs := by
  intro slot bs count bs' hpos hread
  cases hread
  exact hpos

/-- The diffs of slots 1 and 2, of which the second may be pruned. -/
def sampleSlotDiff (second : Option DiffStore) : Nat → Option DiffStore
  | 1 => some ((∅ : DiffStore).insert 5 (newAccountDiff, true))
  | 2 => second
  | _ => none

/-- The diff of slot 1 is read back if slot 2 has an empty one, and not if it is pruned. -/
theorem readSlotDiffs_writeSlotDiffs_two :
    let section₂ := fun second =>
      writeSlotDiffs sampleCodecs sampleParams (sampleSlotDiff second) 2 2
    (∃ n', (emptyManager 0).readSlotDiffs sampleCodecs
        (writeCollection natCodec (section₂ (some ∅)).2 (section₂ (some ∅)).1 ++ []) =
          some (n', []) ∧
      (n'.slotDiffs 1).lookup 5 = some (newAccountDiff, true)) ∧
    ¬ ∃ n', (emptyManager 0).readSlotDiffs sampleCodecs
        (writeCollection natCodec (section₂ none).2 (section₂ none).1 ++ []) = some (n', []) ∧
      ∀ slot id, (n'.slotDiffs slot).lookup id =
        if lowestSlot sampleParams 2 ≤ slot ∧ slot ≤ 2 then
          (sampleSlotDiff none slot).bind (·.lookup id)
        else none := by
  have hiff := fun second => readSlotDiffs_writeSlotDiffs_iff sampleCodecs
    sampleCodecs_slotFillsLength sampleParams (sampleSlotDiff second) 2 2 (emptyManager 0) rfl
    (fun _ => rfl) []
  constructor
  · obtain ⟨n', hread, hdiffs⟩ := (hiff (some ∅)).mpr (by
      intro slot hle hlatest
      replace hle : 1 ≤ slot := hle
      obtain rfl | rfl : slot = 1 ∨ slot = 2 := by omega
      · rfl
      · rfl)
    exact ⟨n', hread, hdiffs 1 5⟩
  · exact fun hread => nomatch (hiff none).mp hread 2 (by decide) (by decide)

/-- If the first slot is pruned, its number is left in the stream. -/
theorem readSlotDiffs_leaves_pruned : ∃ n',
    let m := { emptyManager 0 with prunedBelow := 2 }
    lowestSlot sampleParams 2 = 1 ∧ m.slotDiff 1 = none ∧ m.slotDiff 2 = some ∅ ∧
    (emptyManager 0).readSlotDiffs sampleCodecs
      (writeCollection natCodec (writeSlotDiffs sampleCodecs sampleParams m.slotDiff 2 2).2
        (writeSlotDiffs sampleCodecs sampleParams m.slotDiff 2 2).1 ++ []) = some (n', [.nat 1]) :=
  ⟨_, rfl, rfl, rfl, rfl⟩

/-- A snapshot of slot 1, taken after the account was transitioned in slot 2. -/
theorem import_export_exact_transition :
    ∃ l l' n, Reachable sampleParams l ∧
      run (step sampleParams) l (sampleTransition [(1, 3)]) = some l' ∧
      l.manager.latestCommittedSlot = 1 ∧ (l.manager.accountsTree.lookup 1).isSome ∧
      (emptyManager 0).«import» sampleCodecs (l'.manager.«export» sampleCodecs sampleParams 1) =
        some n ∧
      ∀ id, n.accountsTree.lookup id = l.manager.accountsTree.lookup id := by
  obtain ⟨l₀, hgenesis, l, hl, hlatest, hsome, hexact, l', hl', hretained⟩ :
      ∃ l₀, genesis 0 [(sampleOutput 10, 100)] = some l₀ ∧
        ∃ l, run (step sampleParams) l₀ sampleSlot = some l ∧ l.manager.latestCommittedSlot = 1 ∧
          (l.manager.accountsTree.lookup 1).isSome ∧
          AllSteps (step sampleParams) (OnCommit (ExactTree sampleParams)) l
            (sampleTransition [(1, 3)]) ∧
          ∃ l', run (step sampleParams) l (sampleTransition [(1, 3)]) = some l' ∧
            l'.manager.prunedBelow ≤ 2 := by
    decide +kernel
  have hreach : Reachable sampleParams l := ⟨0, _, sampleSlot, l₀, hgenesis, hl⟩
  obtain ⟨n, himport, htree, _⟩ := import_export_exact sampleCodecs hreach hl' hexact
    (by rw [hlatest]; exact hretained) 0
  rw [hlatest] at himport
  exact ⟨l, l', n, hreach, hl', hlatest, hsome, himport, htree⟩

theorem rollback_undoes_sampleSlot :
    ∃ l l' m, run (step sampleParams) l sampleSlot = some l' ∧
      l'.manager.rollback l.manager.latestCommittedSlot = some m := by
  obtain ⟨l, hgenesis, hexact, l', hl', hretained⟩ :
      ∃ l, genesis 0 [(sampleOutput 10, 100)] = some l ∧
        AllSteps (step sampleParams) (OnCommit (ExactTree sampleParams)) l sampleSlot ∧
        ∃ l', run (step sampleParams) l sampleSlot = some l' ∧
          l'.manager.prunedBelow ≤ l.manager.latestCommittedSlot + 1 := by
    decide +kernel
  obtain ⟨m, hm, _⟩ := rollback_undoes ⟨0, _, [], l, hgenesis, rfl⟩ hl' hexact hretained
  exact ⟨l, l', m, hl', hm⟩

/-- Slot 1: an allotment to an account that does not exist. -/
def sampleAllotment : List Input := [.commitSlot 1 ⟨[(5, 3)], [], []⟩]

/-- The snapshot of slot 0 has an account that does not exist at slot 0. -/
theorem import_keeps_allotted_account :
    ∃ l l' n, genesis 0 [] = some l ∧ run (step sampleParams) l sampleAllotment = some l' ∧
      l.manager.latestCommittedSlot = 0 ∧ l'.manager.prunedBelow ≤ 1 ∧
      (emptyManager 0).«import» sampleCodecs (l'.manager.«export» sampleCodecs sampleParams 0) =
        some n ∧
      l.manager.accountsTree.lookup 5 = none ∧ (n.accountsTree.lookup 5).isSome := by
  simp only [exists_and_left]
  decide +kernel

end AxonCore.Accounts

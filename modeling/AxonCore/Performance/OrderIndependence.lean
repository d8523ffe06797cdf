import AxonCore.Performance.Emission

/-! # The order of the validation blocks

    Nodes accept the validation blocks of a slot in different orders.  The bits of the activity
    vector and the saturating count do not depend on the order, but the supported version is
    that of the block that was tracked last.  So all nodes store the same performances exactly
    if all counted blocks of a member support the same version. -/

namespace AxonCore.Performance

open AxonCore.Lib AxonCore.Committee List Option

variable {ID Hash : Type} [LinearOrder ID]

namespace Tracker

/-- A validation block of a slot.  It is issued in its slot, so that it has a subslot. -/
structure ValidationBlockOf (p : Params) (t : Tracker ID Hash) (slot : Nat)
    (block : Block ID Hash) : Prop where
  slot : block.slot = slot
  validation : block.validationBlock.isSome
  subslot : ∃ n : Nat, t.subslotIndex p block.slot block.issuingTime = some (n : Int)

/-- The performances of the accounts in a slot after some blocks. -/
def performancesAfter (p : Params) (t : Tracker ID Hash) (slot : Nat)
    (blocks : List (Block ID Hash)) (id : ID) : Option (ValidatorPerformance Hash) :=
  ((run (trackValidationBlock p) t blocks).bind fun t' => t'.validatorPerformances slot).bind
    fun performances => performances.lookup id

/-- All counted blocks of an account support the same version. -/
def SameVersions (p : Params) (t : Tracker ID Hash) (slot : Nat) (blocks : List (Block ID Hash)) :
    Prop :=
  (t.validatorPerformances slot).isSome → ∀ block ∈ blocks, ∀ block' ∈ blocks,
    block.issuerID = block'.issuerID → t.isCommitteeMember p slot block.issuerID = some true →
    block.validationBlock = block'.validationBlock

variable {p : Params} {t : Tracker ID Hash} {slot : Nat} {blocks order : List (Block ID Hash)}
  {id : ID}

/-- What a block does to the performance of its issuer. -/
def merge (p : Params) (t : Tracker ID Hash) (performance : Option (ValidatorPerformance Hash))
    (block : Block ID Hash) : Option (ValidatorPerformance Hash) :=
  block.validationBlock.bind fun versionAndHash =>
    (t.subslotIndex p block.slot block.issuingTime).map fun subslot =>
      countBlock (p.validationBlocksPerSlot (p.timeProvider.epochFromSlot block.slot))
        subslot.toNat versionAndHash (performance.getD ValidatorPerformance.new)

/-- The performance of a member is what its own blocks make of it, one after the other. -/
theorem performancesAfter_eq (hmember : t.isCommitteeMember p slot id = some true)
    (hblocks : ∀ block ∈ blocks, ValidationBlockOf p t slot block) :
    performancesAfter p t slot blocks id = (t.validatorPerformances slot).bind fun m =>
      (blocks.filter fun block => block.issuerID = id).foldl (merge p t) (m.lookup id) := by
  unfold performancesAfter
  induction blocks generalizing t with
  | nil => rfl
  | cons block blocks ih =>
    obtain ⟨hblock, hrest⟩ := forall_mem_cons.mp hblocks
    obtain ⟨rfl, hvalidation, n, hn⟩ := hblock
    obtain ⟨versionAndHash, hv⟩ := isSome_iff_exists.mp hvalidation
    rw [run]
    by_cases hcounts : ∃ m, Counts p t block versionAndHash m
    · obtain ⟨m, hcounts⟩ := hcounts
      rw [trackValidationBlock_of_counts hcounts, hn, bind_some,
        if_neg (Int.not_lt.mpr (Int.natCast_nonneg n)), bind_some, hcounts.2.2]
      refine (ih (t := t.storePerformance block.slot m block.issuerID _) hmember fun b hb =>
        ⟨(hrest b hb).slot, (hrest b hb).validation, (hrest b hb).subslot⟩).trans ?_
      simp only [storePerformance, Function.update_self, bind_some, lookup_insert_eq]
      by_cases hid : block.issuerID = id
      · subst hid
        rw [filter_cons_of_pos (by simp), foldl_cons, if_pos rfl, merge, hv,
          bind_some, hn]
        rfl
      · rw [filter_cons_of_neg (by simpa using hid), if_neg (Ne.symm hid)]
        rfl
    · push Not at hcounts
      have hnot : ∀ v m, ¬ Counts p t block v m := by
        intro v m hcounts'
        obtain rfl := some.inj (hv.symm.trans hcounts'.1)
        exact hcounts m hcounts'
      rw [trackValidationBlock_of_not hnot, bind_some, ih hmember hrest]
      cases hm : t.validatorPerformances block.slot with
      | none => rfl
      | some m =>
        rw [filter_cons_of_neg]
        simp only [decide_eq_true_eq]
        rintro rfl
        exact hcounts m ⟨hv, hmember, hm⟩

omit [LinearOrder ID] in
theorem merge_comm (performance : Option (ValidatorPerformance Hash)) {block block' : Block ID Hash}
    (hslot : block.slot = block'.slot) (hversion : block.validationBlock = block'.validationBlock)
    {n n' : Int} (hn : t.subslotIndex p block.slot block.issuingTime = some n)
    (hn' : t.subslotIndex p block'.slot block'.issuingTime = some n') :
    merge p t (merge p t performance block) block' =
      merge p t (merge p t performance block') block := by
  unfold merge
  rw [hn, hn', hversion, hslot]
  cases block'.validationBlock with
  | none => rfl
  | some versionAndHash =>
    simp only [bind_some, map_some, getD_some, some.injEq]
    unfold countBlock
    rw [BitVec.or_assoc, BitVec.or_comm (1#32 <<< n.toNat), ← BitVec.or_assoc]

theorem version_performancesAfter {block : Block ID Hash}
    (hmember : t.isCommitteeMember p slot block.issuerID = some true)
    (hblocks : ∀ b ∈ blocks ++ [block], ValidationBlockOf p t slot b)
    (hstore : (t.validatorPerformances slot).isSome) :
    (performancesAfter p t slot (blocks ++ [block]) block.issuerID).bind
      ValidatorPerformance.highestSupportedVersionAndHash = block.validationBlock := by
  obtain ⟨m, hm⟩ := isSome_iff_exists.mp hstore
  obtain ⟨_, hvalidation, n, hn⟩ := hblocks block (by simp)
  obtain ⟨versionAndHash, hv⟩ := isSome_iff_exists.mp hvalidation
  rw [performancesAfter_eq hmember hblocks, hm, bind_some, filter_append,
    filter_singleton, decide_eq_true rfl, cond_true, foldl_concat, merge, hv, hn]
  rfl

/-- The stored performances of the members do not depend on the order of the blocks exactly if
    all counted blocks of a member support the same version. -/
theorem performances_order_independent_iff
    (hblocks : ∀ block ∈ blocks, ValidationBlockOf p t slot block) :
    (∀ order order' : List (Block ID Hash), order.Perm blocks → order'.Perm blocks →
      ∀ id, t.isCommitteeMember p slot id = some true →
        performancesAfter p t slot order id = performancesAfter p t slot order' id) ↔
      SameVersions p t slot blocks := by
  have hall : ∀ {order : List (Block ID Hash)}, order.Perm blocks →
      ∀ block ∈ order, ValidationBlockOf p t slot block :=
    fun hperm block hblock => hblocks block (hperm.mem_iff.mp hblock)
  constructor
  · intro h hstore block hblock block' hblock' hissuer hmember
    -- in some order the block is the last one
    have hlast : ∀ b ∈ blocks, ∃ rest, (rest ++ [b]).Perm blocks := by
      intro b hb
      obtain ⟨l, r, rfl⟩ := append_of_mem hb
      exact ⟨l ++ r, (perm_append_singleton _ _).trans perm_middle.symm⟩
    obtain ⟨rest, hperm⟩ := hlast block hblock
    obtain ⟨rest', hperm'⟩ := hlast block' hblock'
    rw [← version_performancesAfter hmember (hall hperm) hstore,
      ← version_performancesAfter (hissuer ▸ hmember) (hall hperm') hstore, ← hissuer,
      h _ _ hperm hperm' _ hmember]
  · intro h order order' hperm hperm' id hmember
    rw [performancesAfter_eq hmember (hall hperm), performancesAfter_eq hmember (hall hperm')]
    cases hm : t.validatorPerformances slot with
    | none => rfl
    | some m =>
      apply ((hperm.trans hperm'.symm).filter _).foldl_eq'
      intro block hblock block' hblock' performance
      simp only [mem_filter, decide_eq_true_eq, hperm.mem_iff] at hblock hblock'
      obtain ⟨hslot, _, n, hn⟩ := hblocks block hblock.1
      obtain ⟨hslot', _, n', hn'⟩ := hblocks block' hblock'.1
      exact merge_comm performance (hslot.trans hslot'.symm)
        (h (by rw [hm]; rfl) block hblock.1 block' hblock'.1 (hblock.2.trans hblock'.2.symm)
          (hblock.2 ▸ hmember)) hn hn'

/-- Two blocks of account 1 in slot 2 that support different versions. -/
def twoVersions : List (Block Nat Unit) :=
  [validationBlockAt 1 2 0, { validationBlockAt 1 2 1 with validationBlock := some (2, ()) }]

theorem performances_order_independent_iff_sameVersion :
    SameVersions smallParams epochOne 2 [validationBlockAt 1 2 0, validationBlockAt 1 2 1] ∧
      ∀ id, epochOne.isCommitteeMember smallParams 2 id = some true →
        performancesAfter smallParams epochOne 2 [validationBlockAt 1 2 1, validationBlockAt 1 2 0]
          id = performancesAfter smallParams epochOne 2
            [validationBlockAt 1 2 0, validationBlockAt 1 2 1] id := by
  have hsame : SameVersions smallParams epochOne 2
      [validationBlockAt 1 2 0, validationBlockAt 1 2 1] := by
    unfold SameVersions
    simp [validationBlockAt]
  refine ⟨hsame, (performances_order_independent_iff ?_).mpr hsame _ _ (List.Perm.swap _ _ _)
    (List.Perm.refl _)⟩
  simp only [mem_cons, not_mem_nil, or_false, forall_eq_or_imp, forall_eq]
  exact ⟨⟨rfl, rfl, 0, by decide⟩, ⟨rfl, rfl, 1, by decide⟩⟩

/-- The version that is stored is that of the block that was tracked last. -/
theorem performances_depend_on_order :
    (performancesAfter smallParams epochOne 2 twoVersions 1).bind
        ValidatorPerformance.highestSupportedVersionAndHash = some (2, ()) ∧
      (performancesAfter smallParams epochOne 2 twoVersions.reverse 1).bind
        ValidatorPerformance.highestSupportedVersionAndHash = some (1, ()) := by
  decide +kernel

end Tracker

end AxonCore.Performance

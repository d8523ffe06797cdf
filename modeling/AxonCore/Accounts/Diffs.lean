import Mathlib.Data.Finset.Disjoint
import Mathlib.Data.Finset.Lattice.Lemmas
import AxonCore.Accounts.Ledger

/-! # One diff forward and backward

    When `rollbackSlotDiffOnAccount` undoes what `commitAccountTree` did to the data
    of one account: the fields of the diff have to satisfy `Reversible`, and the diff
    has to name the slot of the last update of the credits. -/

namespace AxonCore.Accounts

open AxonCore.Lib Option

/-! ## Section 1: Integers -/

variable {x : Int64}

theorem toInt_add_of_safeAdd {y z : Int64} (h : safeAdd x y = some z) :
    z = x + y ∧ z.toInt = x.toInt + y.toInt := by
  unfold safeAdd at h
  split_ifs at h with hrange
  obtain rfl := some.inj h
  refine ⟨rfl, ?_⟩
  rw [Int64.toInt_add]
  exact Int.bmod_eq_of_le (by omega) (by omega)

theorem safeSub_of_safeAdd {y z : Int64} (h : safeAdd x y = some z) : safeSub z y = some x := by
  obtain ⟨hz, hint⟩ := toInt_add_of_safeAdd h
  have hlow := Int64.le_toInt x
  have hhigh := Int64.toInt_lt x
  unfold safeSub
  rw [if_pos (by omega), hz, Int64.add_sub_cancel]

theorem safeSub_zero_neg (hx : x.toInt ≠ -9223372036854775808) : safeSub 0 (-x) = some x := by
  have hlow := Int64.le_toInt x
  have hhigh := Int64.toInt_lt x
  have hneg : (-x).toInt = -x.toInt := by
    rw [Int64.toInt_neg]
    exact Int.bmod_eq_of_le (by omega) (by omega)
  have hzero : (0 : Int64).toInt = 0 := rfl
  unfold safeSub
  rw [if_pos (by omega), Int64.zero_sub, Int64.neg_neg]

@[simp] theorem epochOfInt64_epochToInt64 (e : UInt32) : epochOfInt64 (epochToInt64 e) = e := by
  simp [epochOfInt64, epochToInt64]

theorem epochToInt64_toInt (e : UInt32) : (epochToInt64 e).toInt = e.toNat := by
  have hlt : e.toNat < 4294967296 := e.toNat_lt
  show e.toUInt64.toBitVec.toInt = e.toNat
  rw [BitVec.toInt_eq_toNat_of_lt]
  · simp
  · simp
    omega

/-! ## Section 2: Reversible diffs -/

/-- The previous values of a diff are those of the data it is applied to, and it
    changes the keys and the end epoch by a difference to that data. -/
structure Reversible (a : AccountData) (d : AccountDiff) : Prop where
  expirySlot : d.previousExpirySlot ≠ d.newExpirySlot → d.previousExpirySlot = a.expirySlot
  newOutputID : d.newOutputID ≠ emptyOutputID → d.previousOutputID ≠ emptyOutputID
  previousOutputID : d.previousOutputID ≠ emptyOutputID → d.previousOutputID = a.outputID
  keysAdded : Disjoint d.blockIssuerKeysAdded a.blockIssuerKeys
  keysRemoved : d.blockIssuerKeysRemoved ⊆ a.blockIssuerKeys
  stakeEndEpoch : ∃ e : UInt32,
    d.stakeEndEpochChange = epochToInt64 e - epochToInt64 a.stakeEndEpoch
  version : d.prevLatestSupportedVersionAndHash ≠ d.newLatestSupportedVersionAndHash →
    d.prevLatestSupportedVersionAndHash = a.latestSupportedProtocolVersionAndHash

variable {a a' : AccountData} {d : AccountDiff} {slot : Nat} {«exists» : Bool}

theorem Reversible.not_createsAccount (h : Reversible a d) : d.createsAccount = false := by
  by_contra hcreates
  rw [Bool.not_eq_false, AccountDiff.createsAccount, Bool.and_eq_true, beq_iff_eq,
    bne_iff_ne] at hcreates
  exact h.newOutputID hcreates.2 hcreates.1

theorem keys_rollback {keys added removed : Finset BlockIssuerKey} (hadded : Disjoint added keys)
    (hremoved : removed ⊆ keys) : (((keys ∪ added) \ removed) ∪ removed) \ added = keys := by
  ext k
  have hk : k ∈ added → k ∉ keys := fun hin => Finset.disjoint_left.mp hadded hin
  have hr : k ∈ removed → k ∈ keys := fun hin => hremoved hin
  simp only [Finset.mem_sdiff, Finset.mem_union]
  tauto

/-- The end epoch is restored although the code truncates it to 32 bits. -/
theorem stakeEndEpoch_rollback {e e' : UInt32} {change sum : Int64}
    (hchange : change = epochToInt64 e' - epochToInt64 e)
    (hsum : safeAdd (epochToInt64 e) change = some sum) :
    safeSub (epochToInt64 (epochOfInt64 sum)) change = some (epochToInt64 e) := by
  have heq : sum = epochToInt64 e' := by
    rw [(toInt_add_of_safeAdd hsum).1, hchange, Int64.add_comm, Int64.sub_add_cancel]
  have hround : epochToInt64 (epochOfInt64 sum) = sum := by
    rw [heq, epochOfInt64_epochToInt64]
  rw [hround]
  exact safeSub_of_safeAdd hsum

theorem ite_rollback {β : Type} {P Q : Prop} [Decidable P] [Decidable Q] {old new current : β}
    (hold : P → old = current) (hnew : Q → P) :
    (if P then old else if Q then new else current) = current := by
  split_ifs with hP hQ
  · exact hold hP
  · exact absurd (hnew hQ) hP
  · rfl

/-- A reversible diff is undone in every field but the credits. -/
theorem AccountDiff.rollback_apply (h : Reversible a d)
    (happly : d.apply slot «exists» a = some a') (c : Credits) :
    d.rollback false { a' with credits := c } =
      some ({ a with credits := d.rollbackCredits false c }, false, false) := by
  unfold AccountDiff.apply at happly
  simp only [bind_eq_some_iff, some.injEq] at happly
  obtain ⟨validatorStake, hvalidator, delegationStake, hdelegation, stakeEndEpoch, hepoch,
    fixedCost, hfixed, rfl⟩ := happly
  obtain ⟨e, he⟩ := h.stakeEndEpoch
  unfold AccountDiff.rollback
  simp only [h.not_createsAccount, Bool.false_eq_true, if_false, Int64.toInt64_toUInt64,
    bind_some, safeSub_of_safeAdd hvalidator, safeSub_of_safeAdd hdelegation,
    safeSub_of_safeAdd hfixed, stakeEndEpoch_rollback he hepoch,
    keys_rollback h.keysAdded h.keysRemoved, UInt64.toUInt64_toInt64, epochOfInt64_epochToInt64,
    ite_rollback h.expirySlot id, ite_rollback h.previousOutputID h.newOutputID,
    ite_rollback h.version And.left]

theorem AccountDiff.apply_credits (happly : d.apply slot true a = some a') :
    a'.credits = if d.bicChange ≠ 0 then a.credits.update d.bicChange slot else a.credits := by
  unfold AccountDiff.apply at happly
  simp only [bind_eq_some_iff, some.injEq] at happly
  obtain ⟨_, _, _, _, _, _, _, _, rfl⟩ := happly
  simp only [Bool.true_eq_false, or_false]

theorem AccountDiff.apply_fields (happly : d.apply slot «exists» a = some a') :
    a'.id = a.id ∧
    a'.expirySlot =
      (if d.previousExpirySlot ≠ d.newExpirySlot then d.newExpirySlot else a.expirySlot) ∧
    a'.outputID = (if d.newOutputID ≠ emptyOutputID then d.newOutputID else a.outputID) := by
  unfold AccountDiff.apply at happly
  simp only [bind_eq_some_iff, some.injEq] at happly
  obtain ⟨_, _, _, _, _, _, _, _, rfl⟩ := happly
  exact ⟨rfl, rfl, rfl⟩

/-- The credits are undone if the diff names the slot of their last update. -/
theorem AccountDiff.rollbackCredits_apply (happly : d.apply slot true a = some a')
    (hslot : d.bicChange ≠ 0 → d.previousUpdatedSlot = a.credits.updateSlot) :
    d.rollbackCredits false a'.credits = a.credits := by
  rw [apply_credits happly, rollbackCredits]
  by_cases hbic : d.bicChange = 0
  · simp [hbic]
  · have hvalue : a.credits.value + d.bicChange + -d.bicChange = a.credits.value := by
      rw [← Int64.sub_eq_add_neg, Int64.add_sub_cancel]
    rw [if_pos (.inl hbic), if_pos hbic, hslot hbic]
    show (⟨a.credits.value + d.bicChange + -d.bicChange, a.credits.updateSlot⟩ : Credits) =
      a.credits
    rw [hvalue]

/-! ## Section 3: Destroyed accounts -/

/-- No stake is the least `int64`, the only one that cannot be negated. -/
def AccountData.Negatable (a : AccountData) : Prop :=
  a.validatorStake.toInt64.toInt ≠ -9223372036854775808 ∧
    a.delegationStake.toInt64.toInt ≠ -9223372036854775808 ∧
    a.fixedCost.toInt64.toInt ≠ -9223372036854775808

instance (a : AccountData) : Decidable a.Negatable :=
  inferInstanceAs (Decidable (_ ∧ _ ∧ _))

theorem ite_ne_eq_left {β : Type} (x y : β) [Decidable (x ≠ y)] : (if x ≠ y then x else y) = x := by
  by_cases h : x = y
  · rw [if_neg (not_not.mpr h), h]
  · rw [if_pos h]

/-- The data of a destroyed account is restored from an empty account; its credits are
    added to those of the empty account. -/
theorem rollback_preserveDestroyed (ha : a.Negatable) (c : Credits) :
    (preserveDestroyedAccountData a).rollback true { newAccountData a.id with credits := c } =
      some ({ a with credits := c.update a.credits.value a.credits.updateSlot }, false, true) := by
  have hepoch : (epochToInt64 a.stakeEndEpoch).toInt ≠ -9223372036854775808 := by
    rw [epochToInt64_toInt]
    omega
  have hvalidator := safeSub_zero_neg ha.1
  have hdelegation := safeSub_zero_neg ha.2.1
  have hfixed := safeSub_zero_neg ha.2.2
  have hend := safeSub_zero_neg hepoch
  have hzero : (0 : UInt64).toInt64 = 0 := rfl
  have hepochZero : epochToInt64 0 = 0 := rfl
  have hcreates : (preserveDestroyedAccountData a).createsAccount = false := by
    simp [AccountDiff.createsAccount, preserveDestroyedAccountData]
  unfold AccountDiff.rollback
  simp only [hcreates, Bool.false_eq_true, if_false]
  simp only [preserveDestroyedAccountData, newAccountDiff, newAccountData, hzero, hepochZero,
    hvalidator, hdelegation, hfixed, hend, bind_some, AccountDiff.rollbackCredits,
    Credits.update, or_true, if_true, Int64.neg_neg, Finset.empty_union, Finset.sdiff_empty,
    UInt64.toUInt64_toInt64, epochOfInt64_epochToInt64]
  -- the three fields that are only set where they differ from the default remain
  apply congrArg fun data => some (data, false, true)
  apply AccountData.ext <;> first | rfl | exact ite_ne_eq_left _ _

end AxonCore.Accounts

import Mathlib.Data.List.Induction
import AxonCore.Lib.Total
import AxonCore.Committee.TopStakers

/-! # The totals of a committee

    `Accounts` keep the sums of the stakes beside the pools.  The sums are exact
    (`Accounts.Balanced`) as long as they are words; the first call after which they are not
    fails, and is not undone (`Accounts.totals_consistent_iff`).  A committee whose accounts are
    balanced can be copied: `Accounts` and `Reuse` of a seated committee do not fail. -/

namespace AxonCore.Committee

open AxonCore.Lib AxonCore.Stores List Option SeatedAccounts

/-! ## Section 1: Balanced accounts -/

variable {ID : Type} [LinearOrder ID] {a : Accounts ID} {id : ID} {pool : Pool}

/-- The totals are the sums over the pools. -/
structure Accounts.Balanced (a : Accounts ID) : Prop where
  totalStake : a.totalStake = total Pool.poolStake a.accountPools
  totalValidatorStake : a.totalValidatorStake = total Pool.validatorStake a.accountPools
  totalStake_lt : a.totalStake < wordSize
  totalValidatorStake_lt : a.totalValidatorStake < wordSize

omit [LinearOrder ID] in
theorem Accounts.balanced_new : (Accounts.new : Accounts ID).Balanced where
  totalStake := rfl
  totalValidatorStake := rfl
  totalStake_lt := Nat.two_pow_pos 64
  totalValidatorStake_lt := Nat.two_pow_pos 64

/-- The totals without the old pool, if there is one: with a new pool they are the new sums. -/
theorem Accounts.Balanced.subtract (h : a.Balanced) (id : ID) (pool : Pool) :
    ∃ t1 t2, a.subtract (a.get id) = .ok (t1, t2) ∧
      t1 + pool.poolStake = total Pool.poolStake (a.accountPools.insert id pool) ∧
      t2 + pool.validatorStake = total Pool.validatorStake (a.accountPools.insert id pool) := by
  have h1 := h.totalStake
  have h2 := h.totalValidatorStake
  cases hget : a.get id with
  | none =>
    rw [total_insert_of_none _ hget, total_insert_of_none _ hget, ← h1, ← h2]
    exact ⟨_, _, rfl, rfl, rfl⟩
  | some old =>
    have hins1 := total_insert_of_some Pool.poolStake hget
    have hins2 := total_insert_of_some Pool.validatorStake hget
    -- the old pool is part of the totals: without its stakes they are not negative
    have hle1 : _ = _ + 0 := hins1 ⟨0, 0, 0⟩
    have hle2 : _ = _ + 0 := hins2 ⟨0, 0, 0⟩
    have hsub1 : safeSub a.totalStake old.poolStake = .ok (a.totalStake - old.poolStake) :=
      safeSub_eq_ok.mpr ⟨by omega, rfl⟩
    have hsub2 : safeSub a.totalValidatorStake old.validatorStake =
        .ok (a.totalValidatorStake - old.validatorStake) := safeSub_eq_ok.mpr ⟨by omega, rfl⟩
    specialize hins1 pool
    specialize hins2 pool
    refine ⟨_, _, bind_eq_ok.mpr ⟨_, hsub1, bind_eq_ok.mpr ⟨_, hsub2, rfl⟩⟩, ?_, ?_⟩ <;> omega

theorem Accounts.Balanced.set_eq_ok {a' : Accounts ID} (h : a.Balanced) :
    a.set id pool = .ok a' ↔
      total Pool.poolStake (a.accountPools.insert id pool) < wordSize ∧
      total Pool.validatorStake (a.accountPools.insert id pool) < wordSize ∧
      a' = ⟨a.accountPools.insert id pool, total Pool.poolStake (a.accountPools.insert id pool),
        total Pool.validatorStake (a.accountPools.insert id pool)⟩ := by
  obtain ⟨t1, t2, hsub, ht1, ht2⟩ := h.subtract id pool
  unfold Accounts.set
  simp only [hsub, ← ht1, ← ht2, bind_eq_ok, safeAdd_eq_ok, Except.ok.injEq, exists_eq_left']
  constructor
  · rintro ⟨_, ⟨hstake, rfl⟩, _, ⟨hvalidator, rfl⟩, hset⟩
    exact ⟨hstake, hvalidator, hset.symm⟩
  · rintro ⟨hstake, hvalidator, rfl⟩
    exact ⟨_, ⟨hstake, rfl⟩, _, ⟨hvalidator, rfl⟩, rfl⟩

theorem Accounts.Balanced.set {a' : Accounts ID} (h : a.Balanced) (hset : a.set id pool = .ok a') :
    a'.Balanced := by
  obtain ⟨hstake, hvalidator, rfl⟩ := h.set_eq_ok.mp hset
  exact ⟨rfl, rfl, hstake, hvalidator⟩

/-! ## Section 2: Calls that fail

    A call that fails is not undone.  The pool is stored before the stakes are added, and the
    result of every checked operation is assigned to its total, with the error or without. -/

section Calls

variable (valueOnError : Nat)

/-- A checked operation whose result is assigned, and what follows if it did not fail.
    `valueOnError` is the value that `safemath` returns beside its error. -/
def Accounts.assign (result : Except ArithmeticError Nat) (store : Nat → Accounts ID)
    (next : Accounts ID → Accounts ID × Option ArithmeticError) :
    Accounts ID × Option ArithmeticError :=
  match result with
  | .ok value => next (store value)
  | .error e => (store valueOnError, some e)

/-- The second half of `setWithoutLocking`: the stakes of the new pool are added. -/
def Accounts.addStakes (pool : Pool) (a : Accounts ID) : Accounts ID × Option ArithmeticError :=
  assign valueOnError (safeAdd a.totalStake pool.poolStake) ({ a with totalStake := · }) fun a =>
    assign valueOnError (safeAdd a.totalValidatorStake pool.validatorStake)
      ({ a with totalValidatorStake := · }) fun a => (a, none)

/-- `setWithoutLocking`, with the accounts as it leaves them when it fails. -/
def Accounts.setWithoutLocking (id : ID) (pool : Pool) (a : Accounts ID) :
    Accounts ID × Option ArithmeticError :=
  match a.get id with
  | none => addStakes valueOnError pool { a with accountPools := a.accountPools.insert id pool }
  | some value =>
    assign valueOnError (safeSub a.totalStake value.poolStake) ({ a with totalStake := · }) fun a =>
      assign valueOnError (safeSub a.totalValidatorStake value.validatorStake)
        ({ a with totalValidatorStake := · }) fun a =>
          addStakes valueOnError pool { a with accountPools := a.accountPools.insert id pool }

variable {valueOnError}

omit [LinearOrder ID] in
theorem Accounts.assign_eq_none {result : Except ArithmeticError Nat} {store : Nat → Accounts ID}
    {next : Accounts ID → Accounts ID × Option ArithmeticError} {a' : Accounts ID} :
    assign valueOnError result store next = (a', none) ↔
      ∃ value, result = .ok value ∧ next (store value) = (a', none) := by
  cases result with
  | ok value => simp [assign]
  | error e => simp [assign]

theorem Accounts.setWithoutLocking_eq_none {a' : Accounts ID} :
    setWithoutLocking valueOnError id pool a = (a', none) ↔ a.set id pool = .ok a' := by
  unfold setWithoutLocking Accounts.set addStakes
  cases a.get id with
  | none => simp [assign_eq_none, bind_eq_ok, subtract]
  | some value => simp [assign_eq_none, bind_eq_ok, subtract]

/-- The pool is stored, whether the stakes can be added or not. -/
theorem Accounts.Balanced.setWithoutLocking_accountPools (h : a.Balanced) :
    (setWithoutLocking valueOnError id pool a).1.accountPools = a.accountPools.insert id pool := by
  have hadd : ∀ b : Accounts ID,
      (addStakes valueOnError pool b).1.accountPools = b.accountPools := by
    intro b
    unfold addStakes assign
    cases safeAdd b.totalStake pool.poolStake with
    | error e => rfl
    | ok totalStake => dsimp only; split <;> rfl
  obtain ⟨t1, t2, hsub, -⟩ := h.subtract id pool
  unfold setWithoutLocking
  cases hget : a.get id with
  | none => exact hadd _
  | some value =>
    rw [hget] at hsub
    obtain ⟨s1, hs1, hsub⟩ := bind_eq_ok.mp hsub
    obtain ⟨s2, hs2, -⟩ := bind_eq_ok.mp hsub
    simp only [assign, hs1, hs2, hadd]

theorem Accounts.Balanced.setWithoutLocking_none_iff (h : a.Balanced) :
    (setWithoutLocking valueOnError id pool a).2 = none ↔
      total Pool.poolStake (a.accountPools.insert id pool) < wordSize ∧
      total Pool.validatorStake (a.accountPools.insert id pool) < wordSize := by
  constructor
  · intro hnone
    have hset := setWithoutLocking_eq_none.mp (Prod.ext rfl hnone)
    obtain ⟨hstake, hvalidator, -⟩ := h.set_eq_ok.mp hset
    exact ⟨hstake, hvalidator⟩
  · rintro ⟨hstake, hvalidator⟩
    have hset := h.set_eq_ok.mpr ⟨hstake, hvalidator, rfl⟩
    rw [setWithoutLocking_eq_none.mpr hset]

/-- A call that fails changes the pools: with the same pools the sums would be the same. -/
theorem Accounts.Balanced.get_ne_of_failed (h : a.Balanced)
    (hfailed : (setWithoutLocking valueOnError id pool a).2 ≠ none) :
    ¬ ∀ j, (setWithoutLocking valueOnError id pool a).1.get j = a.get j := by
  intro hget
  have hpart : ∀ j v, (a.accountPools.insert id pool).lookup j = some v →
      a.accountPools.lookup j = some v := by
    intro j v hj
    show a.get j = some v
    rw [← hget j, Accounts.get, h.setWithoutLocking_accountPools]
    exact hj
  have hstake := total_mono Pool.poolStake hpart
  have hvalidator := total_mono Pool.validatorStake hpart
  rw [← h.totalStake] at hstake
  rw [← h.totalValidatorStake] at hvalidator
  exact hfailed (h.setWithoutLocking_none_iff.mpr
    ⟨Nat.lt_of_le_of_lt hstake h.totalStake_lt,
      Nat.lt_of_le_of_lt hvalidator h.totalValidatorStake_lt⟩)

/-- The accounts after some calls of `Set`, failed ones included. -/
def Accounts.afterCalls (valueOnError : Nat) (calls : List (ID × Pool)) : Accounts ID :=
  calls.foldl (fun a call => (setWithoutLocking valueOnError call.1 call.2 a).1) Accounts.new

/-- The pools that the calls name, the latest one for each account. -/
def latestPools (calls : List (ID × Pool)) : Map ID Pool :=
  calls.foldl (fun pools call => pools.insert call.1 call.2) ∅

/-- The sums over the pools are words. -/
def SumsFit (pools : Map ID Pool) : Prop :=
  total Pool.poolStake pools < wordSize ∧ total Pool.validatorStake pools < wordSize

theorem latestPools_concat (calls : List (ID × Pool)) (call : ID × Pool) :
    latestPools (calls ++ [call]) = (latestPools calls).insert call.1 call.2 :=
  foldl_concat _ _ _ _

theorem Accounts.afterCalls_of_sumsFit (valueOnError : Nat) {calls : List (ID × Pool)}
    (h : ∀ before, before <+: calls → SumsFit (latestPools before)) :
    (afterCalls valueOnError calls).Balanced ∧
      (afterCalls valueOnError calls).accountPools = latestPools calls := by
  induction calls using reverseRecOn with
  | nil => exact ⟨balanced_new, rfl⟩
  | append_singleton calls call ih =>
    obtain ⟨hbalanced, hpools⟩ := ih fun before hbefore =>
      h before (hbefore.trans (prefix_append calls [call]))
    have hfit := h _ (prefix_refl _)
    rw [latestPools_concat, ← hpools] at hfit
    rw [latestPools_concat, ← hpools, afterCalls, foldl_concat]
    refine ⟨hbalanced.set (setWithoutLocking_eq_none.mp (Prod.ext rfl ?_)),
      hbalanced.setWithoutLocking_accountPools⟩
    exact hbalanced.setWithoutLocking_none_iff.mpr hfit

/-- After each call the totals are the sums over the stored pools, and a failed call changes
    nothing: exactly if all sums on the way are words.  The first call after which one is not
    fails, and leaves its pool behind. -/
theorem Accounts.totals_consistent_iff (valueOnError : Nat) (calls : List (ID × Pool)) :
    (∀ before call, before ++ [call] <+: calls →
      let a := afterCalls valueOnError before
      let r := setWithoutLocking valueOnError call.1 call.2 a
      r.1.totalStake = total Pool.poolStake r.1.accountPools ∧
      r.1.totalValidatorStake = total Pool.validatorStake r.1.accountPools ∧
      (r.2 ≠ none → (∀ id, r.1.get id = a.get id) ∧ r.1.totalStake = a.totalStake ∧
        r.1.totalValidatorStake = a.totalValidatorStake)) ↔
    ∀ before, before <+: calls → SumsFit (latestPools before) := by
  constructor
  · intro h
    induction calls using reverseRecOn with
    | nil =>
      rintro before hbefore
      obtain rfl := prefix_nil.mp hbefore
      exact ⟨Nat.two_pow_pos 64, Nat.two_pow_pos 64⟩
    | append_singleton calls call ih =>
      have hfits := ih fun before last hlast =>
        h before last (hlast.trans (prefix_append calls [call]))
      obtain ⟨hbalanced, hpools⟩ := afterCalls_of_sumsFit valueOnError hfits
      intro before hbefore
      obtain rfl | hbefore := prefix_concat_iff.mp hbefore
      · obtain ⟨-, -, hunchanged⟩ := h calls call (prefix_refl _)
        rw [latestPools_concat, ← hpools]
        apply hbalanced.setWithoutLocking_none_iff.mp
        by_contra hfailed
        exact hbalanced.get_ne_of_failed hfailed (hunchanged hfailed).1
      · exact hfits before hbefore
  · intro h before call hcall
    obtain ⟨hbalanced, hpools⟩ := afterCalls_of_sumsFit valueOnError
      fun before' hbefore => h before' (hbefore.trans ((prefix_append before [call]).trans hcall))
    obtain ⟨hafter, -⟩ := afterCalls_of_sumsFit valueOnError
      fun before' hbefore => h before' (hbefore.trans hcall)
    unfold afterCalls at hafter
    rw [foldl_concat] at hafter
    refine ⟨hafter.totalStake, hafter.totalValidatorStake, fun hfailed => absurd ?_ hfailed⟩
    rw [hbalanced.setWithoutLocking_none_iff, hpools, ← latestPools_concat]
    exact h _ hcall

/-- The largest stake and one more: the call fails, but the pool stays, and the total
    is not the sum. -/
theorem Accounts.setWithoutLocking_overflow :
    let first := setWithoutLocking 0 1 ⟨wordSize - 1, 0, 0⟩ (Accounts.new : Accounts Nat)
    let second := setWithoutLocking 0 2 ⟨1, 0, 0⟩ first.1
    first.2 = none ∧ second.2 = some .overflow ∧
      first.1.get 2 = none ∧ second.1.get 2 = some ⟨1, 0, 0⟩ ∧
      second.1.totalStake ≠ total Pool.poolStake second.1.accountPools := by
  decide +kernel

end Calls

/-! ## Section 3: Copies -/

variable {c : SeatedAccounts ID}

/-- Accounts that are copied one by one from balanced accounts: the copies are balanced, and
    no copy fails. -/
theorem SeatedAccounts.foldlM_addAccount (hc : c.accounts.Balanced) :
    ∀ {todo : List ID} {a : Accounts ID}, todo.Nodup → a.Balanced →
      (∀ id ∈ todo, (c.accounts.get id).isSome ∧ a.get id = none) →
      (∀ id pool, a.get id = some pool → c.accounts.get id = some pool) →
      ∃ a', todo.foldlM c.addAccount a = .ok a' ∧ a'.Balanced ∧
        ∀ id, a'.get id = if id ∈ todo then c.accounts.get id else a.get id := by
  intro todo
  induction todo with
  | nil =>
    intro a _ ha _ _
    exact ⟨a, rfl, ha, fun id => by simp⟩
  | cons id todo ih =>
    intro a hnodup ha htodo hsub
    obtain ⟨hnotin, hnodup'⟩ := nodup_cons.mp hnodup
    obtain ⟨hsome, hnone⟩ := htodo id mem_cons_self
    obtain ⟨pool, hpool⟩ := isSome_iff_exists.mp hsome
    -- the copy with one more account is still a part of the source
    have hpart : ∀ j v, (a.accountPools.insert id pool).lookup j = some v →
        c.accounts.accountPools.lookup j = some v := by
      intro j v hj
      rw [lookup_insert_eq] at hj
      split at hj
      · rename_i hji
        rw [hji, ← hj]
        exact hpool
      · exact hsub j v hj
    have hle1 := total_mono Pool.poolStake hpart
    have hle2 := total_mono Pool.validatorStake hpart
    rw [← hc.totalStake] at hle1
    rw [← hc.totalValidatorStake] at hle2
    obtain ⟨b, hb⟩ : ∃ b, a.set id pool = .ok b :=
      ⟨_, ha.set_eq_ok.mpr ⟨Nat.lt_of_le_of_lt hle1 hc.totalStake_lt,
        Nat.lt_of_le_of_lt hle2 hc.totalValidatorStake_lt, rfl⟩⟩
    have hget : ∀ j, b.get j = if j = id then some pool else a.get j := by
      intro j
      unfold Accounts.get
      rw [a.set_accountPools hb, lookup_insert_eq]
    obtain ⟨a', ha', hbalanced, hget'⟩ := ih hnodup' (ha.set hb)
      (by
        intro j hj
        have hne : j ≠ id := fun h => hnotin (h ▸ hj)
        rw [hget, if_neg hne]
        exact htodo j (mem_cons_of_mem id hj))
      (by
        intro j v hj
        apply hpart j v
        rw [← a.set_accountPools hb]
        exact hj)
    refine ⟨a', ?_, hbalanced, ?_⟩
    · have hadd : c.addAccount a id = .ok b := by
        unfold addAccount
        rw [hpool]
        exact liftArithmetic_eq_ok.mpr hb
      rw [foldlM_cons]
      exact bind_eq_ok.mpr ⟨b, hadd, ha'⟩
    · intro j
      rw [hget' j, hget j]
      by_cases hj : j = id
      · simp [hj, hpool]
      · simp [hj]

/-- `Accounts` of any committee are balanced, and every one of them has a seat. -/
theorem SeatedAccounts.accountsOf_spec (ha : c.accountsOf = .ok a) :
    a.Balanced ∧ ∀ id, (a.get id).isSome = true → c.hasAccount id = true := by
  -- the accounts so far are balanced, and they and those still to be added have seats
  have hall := foldlM_ok (f := c.addAccount) (I := fun todo (b : Accounts ID) => b.Balanced ∧
      (∀ id, (b.get id).isSome = true → c.hasAccount id = true) ∧
      ∀ id ∈ todo, c.hasAccount id = true) (by
    intro id todo b b' hb hadd
    obtain ⟨hbalanced, hseats, htodo⟩ := hb
    unfold addAccount at hadd
    cases hpool : c.accounts.get id with
    | none =>
      rw [hpool] at hadd
      cases hadd
    | some pool =>
      rw [hpool] at hadd
      have hset := liftArithmetic_eq_ok.mp hadd
      refine ⟨hbalanced.set hset, fun j hj => ?_, fun j hj => htodo j (mem_cons_of_mem id hj)⟩
      unfold Accounts.get at hj
      rw [b.set_accountPools hset, lookup_insert_eq] at hj
      by_cases heq : j = id
      · exact heq ▸ htodo id mem_cons_self
      · rw [if_neg heq] at hj
        exact hseats j hj)
    ⟨Accounts.balanced_new, fun _ hid => absurd hid Bool.false_ne_true,
      fun id hid => (mem_keys_iff c.seatsByAccount id).mp hid⟩ ha
  exact ⟨hall.1, hall.2.1⟩

/-- `Accounts` of a committee whose accounts all have seats: the same pools, with the same
    totals. -/
theorem SeatedAccounts.accountsOf_isOk (h : ∀ id, (c.getSeat id).isSome = c.accounts.has id)
    (hc : c.accounts.Balanced) :
    ∃ a, c.accountsOf = .ok a ∧ a.Balanced ∧ ∀ id, a.get id = c.accounts.get id := by
  have hmember : ∀ id, id ∈ c.seatsByAccount.keys ↔ (c.accounts.get id).isSome = true := by
    intro id
    rw [mem_keys_iff]
    show (c.getSeat id).isSome = true ↔ _
    rw [h id]
    rfl
  obtain ⟨a, ha, hbalanced, hget⟩ := foldlM_addAccount hc c.seatsByAccount.keys_nodup
    Accounts.balanced_new (fun id hid => ⟨(hmember id).mp hid, rfl⟩)
    (fun id pool hid => nomatch hid)
  refine ⟨a, ha, hbalanced, ?_⟩
  intro id
  rw [hget id]
  split
  · rfl
  · rename_i hid
    rw [hmember, Bool.not_eq_true, isSome_eq_false_iff, isNone_iff_eq_none] at hid
    rw [hid]
    rfl

theorem Seated.accountsOf (h : Seated c) (hc : c.accounts.Balanced) :
    ∃ a, c.accountsOf = .ok a ∧ a.Balanced ∧ ∀ id, a.get id = c.accounts.get id :=
  accountsOf_isOk h.members hc

theorem Seated.reuse (h : Seated c) (hc : c.accounts.Balanced) :
    ∃ c', c.reuse = .ok c' ∧ Seated c' ∧ c'.accounts.Balanced ∧
      ∀ id, c'.accounts.get id = c.accounts.get id := by
  obtain ⟨a, ha, hbalanced, hget⟩ := h.accountsOf hc
  obtain ⟨c', hc'⟩ : ∃ c', c.reuse = .ok c' := ⟨_, bind_eq_ok.mpr ⟨a, ha, rfl⟩⟩
  obtain ⟨hseated, _, hof, _⟩ := reuse_spec h hc'
  have haccounts : c'.accounts = a := Except.ok.inj (hof.symm.trans ha)
  exact ⟨c', hc', hseated, haccounts ▸ hbalanced, haccounts ▸ hget⟩

end AxonCore.Committee

import Mathlib.Algebra.Group.Nat.Defs
import AxonCore.Lib.Keyed

/-! # The mana cache

    `GetManaOnAccount` keeps one entry per account: the mana at the time of the latest change
    of the account, from which the mana of a later slot is computed.  An entry is made by the
    first query, whatever slot it asks for, and it is used for every slot from its update
    time on.  That time is the one of the output or of the credits, not the slot of the
    commitment, and the entry is computed with the protocol parameters of the slot for which
    it was made.

    So the cache is transparent as long as it is only used for slots at which the account and
    the parameters are what they are at the latest commitment (`Current`), and no entry
    outlives a change of the parameters.  `none` stands for a returned error. -/

namespace AxonCore.ManaManager

open AxonCore.Lib Option

abbrev AccountID := Nat

/-! ## Section 1: The manager -/

/-- An account output; the rest of it is known by its ID. -/
structure Output where
  outputID : Nat
  slotCreated : Nat
  baseTokenAmount : Nat
  storedMana : Nat
  deriving DecidableEq

/-- The output and the block issuance credits of an account at a slot. -/
structure Account where
  output : Output
  credits : Int
  updateSlot : Nat
  deriving DecidableEq

/-- `accounts.Mana`. -/
structure Mana where
  value : Nat
  excessBaseTokens : Nat
  updateTime : Nat
  deriving DecidableEq

/-- The API provider, with what the manager asks the API of a slot: the minimal deposit of
    an output and the mana decay provider. -/
structure Params (API : Type) where
  apiForSlot : Nat → API
  minDeposit : API → Output → Nat
  decayManaBySlots : API → Nat → Nat → Nat → Option Nat
  generateManaAndDecayBySlots : API → Nat → Nat → Nat → Option Nat

/-- A `model.AccountDiff` as the accounts ledger leaves it, with burns and decay in the
    change, and the output of the account that the slot created. -/
structure AccountDiff where
  bicChange : Int
  output : Option Output

/-- Whether the diff changes the output or the credits of an account. -/
def AccountDiff.Affects (d : AccountDiff) : Prop := d.output.isSome ∨ d.bicChange ≠ 0

instance (d : AccountDiff) : Decidable d.Affects := inferInstanceAs (Decidable (_ ∨ _))

/-- The committed ledger and the cache. -/
structure State where
  committed : Nat
  /-- What `accountOutputResolveFunc` and `accountRetrieveFunc` give for a slot. -/
  accounts : Nat → AccountID → Option Account
  manaVectorCache : Map AccountID Mana

def safeAdd (a b : Nat) : Option Nat := if a + b < 2 ^ 64 then some (a + b) else none

/-- `getBIC`. -/
def getBIC (a : Account) : Nat × Nat :=
  if a.credits ≤ 0 then (0, 0) else (a.credits.toNat, a.updateSlot)

variable {API : Type} (p : Params API)

/-- `getMana` after its checks; truncated subtraction is the underflow to zero. -/
def collectMana (api : API) (a : Account) : Option Mana :=
  let (bic, bicUpdateTime) := getBIC a
  let o := a.output
  let excessBaseTokens := o.baseTokenAmount - p.minDeposit api o
  if o.slotCreated < bicUpdateTime then
    (p.generateManaAndDecayBySlots api excessBaseTokens o.slotCreated bicUpdateTime).bind
      fun potential =>
    (p.decayManaBySlots api o.storedMana o.slotCreated bicUpdateTime).bind fun stored =>
    (safeAdd stored potential).bind fun storedPotential =>
    (safeAdd bic storedPotential).map fun total => ⟨total, excessBaseTokens, bicUpdateTime⟩
  else if bicUpdateTime < o.slotCreated then
    (p.decayManaBySlots api bic bicUpdateTime o.slotCreated).bind fun bicWithDecay =>
    (safeAdd bicWithDecay o.storedMana).map fun total => ⟨total, excessBaseTokens, o.slotCreated⟩
  else (safeAdd bic o.storedMana).map fun total => ⟨total, excessBaseTokens, o.slotCreated⟩

/-- `getMana`. -/
def getMana (a : Account) (slot : Nat) : Option Mana :=
  if slot < a.output.slotCreated ∨ slot < (getBIC a).2 then none
  else collectMana p (p.apiForSlot slot) a

/-- The second half of `GetManaOnAccount`: the mana of an entry at a slot. -/
def manaAt (mana : Mana) (slot : Nat) : Option Nat :=
  if slot = mana.updateTime then some mana.value
  else
    let api := p.apiForSlot slot
    (p.decayManaBySlots api mana.value mana.updateTime slot).bind fun withDecay =>
    (p.generateManaAndDecayBySlots api mana.excessBaseTokens mana.updateTime slot).bind
      fun potential =>
    safeAdd withDecay potential

section

variable (s : State)

/-- The calculation from scratch. -/
def calculate (id : AccountID) (slot : Nat) : Option Mana :=
  (s.accounts slot id).bind fun a => getMana p a slot

/-- `GetManaOnAccount`: the state after the call and the result. -/
def getManaOnAccount (id : AccountID) (slot : Nat) : State × Option Nat :=
  match s.manaVectorCache.lookup id with
  | some mana =>
    -- an earlier slot is calculated, and not put in the cache
    if slot < mana.updateTime then (s, (calculate p s id slot).bind (manaAt p · slot))
    else (s, manaAt p mana slot)
  | none =>
    match calculate p s id slot with
    | none => (s, none)
    | some mana =>
      ({ s with manaVectorCache := s.manaVectorCache.insert id mana }, manaAt p mana slot)

/-- An account after a slot: the change of the credits, and the new output. -/
def commitAccount (slot : Nat) (d : AccountDiff) : Option Account → Option Account
  | some a => some {
      output := d.output.getD a.output
      credits := a.credits + d.bicChange
      updateSlot := if d.bicChange ≠ 0 then slot else a.updateSlot }
  | none => d.output.map fun o => ⟨o, d.bicChange, slot⟩

/-- What `ApplyDiff` makes of the entry of an account with a diff. -/
def refresh (slot : Nat) (d : AccountDiff) (account : Option Account) :
    Option Mana → Option (Option Mana)
  | none => some none
  | some mana =>
    if d.Affects then
      (account.bind fun a => getMana p a slot).map some
    else some (some mana)

/-- An account after the next slot. -/
def accountAfter (destroyed : List AccountID) (diffs : Map AccountID AccountDiff)
    (id : AccountID) : Option Account :=
  if id ∈ destroyed then none
  else match diffs.lookup id with
    | none => s.accounts s.committed id
    | some d => commitAccount (s.committed + 1) d (s.accounts s.committed id)

/-- The commitment of the next slot, with `ApplyDiff`.  The accounts ledger computes the
    accounts of earlier slots from its latest state, so they are `past` from now on. -/
def commitSlot (destroyed : List AccountID) (diffs : Map AccountID AccountDiff)
    (past : Nat → AccountID → Option Account) : Option State :=
  let slot := s.committed + 1
  let after := accountAfter s destroyed diffs
  (alterKeys (fun id mana => match diffs.lookup id with
      | none => some mana
      | some d => refresh p slot d (after id) mana)
    (destroyed.foldl (fun cache id => cache.erase id) s.manaVectorCache)
    diffs.keys).map fun cache =>
      ⟨slot, Function.update past slot after, cache⟩

inductive Operation where
  | commitSlot (destroyed : List AccountID) (diffs : Map AccountID AccountDiff)
      (past : Nat → AccountID → Option Account)
  | getManaOnAccount (id : AccountID) (slot : Nat)
  /-- The cache has a capacity and may lose an entry at any time. -/
  | loseEntry (id : AccountID)

def step : Operation → Option State
  | .commitSlot destroyed diffs past => commitSlot p s destroyed diffs past
  | .getManaOnAccount id slot =>
    if slot ≤ s.committed then some (getManaOnAccount p s id slot).1 else none
  | .loseEntry id => some { s with manaVectorCache := s.manaVectorCache.erase id }

/-! ## Section 2: Transparency -/

/-- If a query makes or uses an entry, the account and the parameters are at the slot what
    they are at the latest commitment. -/
def Current (id : AccountID) (slot : Nat) : Prop :=
  (∀ mana ∈ s.manaVectorCache.lookup id, mana.updateTime ≤ slot) →
    s.accounts slot id = s.accounts s.committed id ∧
      p.apiForSlot slot = p.apiForSlot s.committed

/-- What an operation needs: queries are current, and if the parameters of the next slot are
    other ones, that slot removes or affects every account with an entry. -/
def KeepsCurrent : Operation → Prop
  | .getManaOnAccount id slot => Current p s id slot
  | .commitSlot destroyed diffs _ =>
    p.apiForSlot (s.committed + 1) = p.apiForSlot s.committed ∨
      ∀ id ∈ s.manaVectorCache.keys,
        id ∈ destroyed ∨ ∃ d, diffs.lookup id = some d ∧ d.Affects
  | .loseEntry _ => True

section

variable [DecidableEq API]

instance (id : AccountID) (slot : Nat) : Decidable (Current p s id slot) :=
  inferInstanceAs (Decidable (_ → _))

instance : (op : Operation) → Decidable (KeepsCurrent p s op)
  | .getManaOnAccount id slot => inferInstanceAs (Decidable (Current p s id slot))
  | .commitSlot _ _ _ => inferInstanceAs (Decidable (_ ∨ _))
  | .loseEntry _ => .isTrue trivial

end

/-- Every entry is that of the account at the latest commitment, with the parameters of that
    slot. -/
def Inv : Prop :=
  ∀ id mana, s.manaVectorCache.lookup id = some mana →
    ∃ a, s.accounts s.committed id = some a ∧
      collectMana p (p.apiForSlot s.committed) a = some mana

end

variable {p} {a : Account} {mana : Mana} {s : State}

theorem getMana_eq_some {slot : Nat} (h : getMana p a slot = some mana) :
    collectMana p (p.apiForSlot slot) a = some mana := by
  unfold getMana at h
  split_ifs at h
  exact h

theorem collectMana_updateTime {api : API} (h : collectMana p api a = some mana) :
    mana.updateTime = max a.output.slotCreated (getBIC a).2 := by
  unfold collectMana at h
  dsimp only at h
  split at h
  · simp only [bind_eq_some_iff, map_eq_some_iff] at h
    obtain ⟨_, _, _, _, _, _, _, _, rfl⟩ := h
    dsimp only
    omega
  · split at h
    · simp only [bind_eq_some_iff, map_eq_some_iff] at h
      obtain ⟨_, _, _, _, rfl⟩ := h
      dsimp only
      omega
    · obtain ⟨_, _, rfl⟩ := map_eq_some_iff.mp h
      dsimp only
      omega

theorem Inv.commitSlot {s' : State} (h : Inv p s) {destroyed : List AccountID}
    {diffs : Map AccountID AccountDiff} {past : Nat → AccountID → Option Account}
    (hkeeps : KeepsCurrent p s (.commitSlot destroyed diffs past))
    (hstep : commitSlot p s destroyed diffs past = some s') : Inv p s' := by
  obtain ⟨cache, hcache, rfl⟩ := map_eq_some_iff.mp hstep
  intro id mana hmana
  dsimp only
  rw [Function.update_self, accountAfter]
  -- an entry that is left unchanged is also that of the new parameters
  have hsame : id ∉ destroyed → (∀ d, diffs.lookup id = some d → ¬ d.Affects) →
      s.manaVectorCache.lookup id = some mana → ∃ a, s.accounts s.committed id = some a ∧
        collectMana p (p.apiForSlot (s.committed + 1)) a = some mana := by
    intro hkept hunaffected hold
    obtain hapi | hall := hkeeps
    · rw [hapi]
      exact h id mana hold
    · obtain hdestroyed | ⟨d, hd, haffects⟩ :=
        hall id ((mem_keys_iff _ id).mpr (by rw [hold]; rfl))
      · exact absurd hdestroyed hkept
      · exact absurd haffects (hunaffected d hd)
  cases hd : diffs.lookup id with
  | none =>
    rw [alterKeys_keys_none hcache hd, lookup_foldl_erase_keys fun id => id, List.map_id'] at hmana
    split_ifs at hmana with hkept
    rw [if_neg hkept]
    exact hsame hkept (by simp [hd]) hmana
  | some d =>
    have hown := alterKeys_keys_some hcache hd
    rw [hd, hmana, lookup_foldl_erase_keys fun id => id, List.map_id'] at hown
    split_ifs at hown with hdestroyed
    · cases hown
    · rw [if_neg hdestroyed]
      dsimp only at hown ⊢
      cases hold : s.manaVectorCache.lookup id with
      | none =>
        rw [hold] at hown
        cases hown
      | some old =>
        rw [hold, refresh, accountAfter, if_neg hdestroyed, hd] at hown
        split at hown
        · obtain ⟨new, hnew, heq⟩ := map_eq_some_iff.mp hown
          obtain rfl := some.inj heq
          obtain ⟨a, ha, hget⟩ := bind_eq_some_iff.mp hnew
          exact ⟨a, ha, getMana_eq_some hget⟩
        · next hunaffected =>
          obtain rfl := some.inj (some.inj hown)
          obtain ⟨a, ha, hcollect⟩ := hsame hdestroyed (by simp [hd, hunaffected]) hold
          obtain ⟨houtput, hchange⟩ := not_or.mp hunaffected
          rw [not_isSome_iff_eq_none] at houtput
          rw [not_not] at hchange
          exact ⟨a, by simp [commitAccount, ha, houtput, hchange], hcollect⟩

theorem step_inv (s : State) (op : Operation) (s' : State) (h : Inv p s) (hop : KeepsCurrent p s op)
    (hstep : step p s op = some s') : Inv p s' := by
  cases op with
  | commitSlot destroyed diffs past => exact h.commitSlot hop hstep
  | loseEntry k =>
    obtain rfl := some.inj hstep
    intro id mana hmana
    exact h id mana (lookup_of_erase hmana).2
  | getManaOnAccount k slot =>
    obtain ⟨_, hs'⟩ := ite_none_right_eq_some.mp hstep
    obtain rfl := some.inj hs'
    unfold getManaOnAccount
    cases hentry : s.manaVectorCache.lookup k with
    | some mana =>
      dsimp only
      split <;> exact h
    | none =>
      cases hcalculate : calculate p s k slot with
      | none => exact h
      | some new =>
        intro id mana hmana
        rw [lookup_insert_eq] at hmana
        split at hmana
        · next hid =>
          obtain rfl := some.inj hmana
          obtain ⟨a, ha, hget⟩ := bind_eq_some_iff.mp hcalculate
          obtain ⟨haccount, hapi⟩ : s.accounts slot k = s.accounts s.committed k ∧
              p.apiForSlot slot = p.apiForSlot s.committed :=
            hop fun mana hmana => by simp [hentry] at hmana
          exact ⟨a, by rw [hid, ← haccount, ha], by rw [← hapi]; exact getMana_eq_some hget⟩
        · exact h id mana hmana

theorem getManaOnAccount_miss {id : AccountID} (h : s.manaVectorCache.lookup id = none)
    (slot : Nat) :
    (getManaOnAccount p s id slot).2 = (calculate p s id slot).bind (manaAt p · slot) := by
  unfold getManaOnAccount
  rw [h]
  cases calculate p s id slot <;> rfl

/-- In every run whose operations meet the condition, every query that meets it returns what
    a manager with an empty cache returns. -/
theorem cache_transparent {accounts : Nat → AccountID → Option Account} {ops : List Operation}
    {s : State} (hops : AllSteps (step p) (KeepsCurrent p) ⟨0, accounts, ∅⟩ ops)
    (hrun : run (step p) ⟨0, accounts, ∅⟩ ops = some s) {id : AccountID} {slot : Nat}
    (hcurrent : Current p s id slot) :
    (getManaOnAccount p s id slot).2 =
      (getManaOnAccount p { s with manaVectorCache := ∅ } id slot).2 := by
  have hinv : Inv p s :=
    run_invariant_of step_inv (fun id mana hmana => by simp at hmana) hops hrun
  have hscratch : (getManaOnAccount p { s with manaVectorCache := ∅ } id slot).2 =
      (calculate p s id slot).bind (manaAt p · slot) :=
    getManaOnAccount_miss (AList.lookup_empty id) slot
  rw [hscratch]
  cases hentry : s.manaVectorCache.lookup id with
  | none => exact getManaOnAccount_miss hentry slot
  | some mana =>
    unfold getManaOnAccount
    rw [hentry]
    dsimp only
    split
    · rfl
    · next hle =>
      obtain ⟨a, ha, hcollect⟩ := hinv id mana hentry
      have htime := collectMana_updateTime hcollect
      obtain ⟨haccount, hapi⟩ := hcurrent fun mana' hmana' => by
        obtain rfl := some.inj (hentry.symm.trans hmana')
        omega
      -- the entry is what the calculation for the slot gives
      have hcalculate : calculate p s id slot = some mana := by
        rw [calculate, haccount, ha, bind_some, getMana, if_neg (by omega), hapi, hcollect]
      rw [hcalculate, bind_some]

/-- Mana does not decay, every excess token generates one in each slot, and from slot 4 on
    there is a minimal deposit. -/
def sampleParams : Params Bool where
  apiForSlot slot := decide (3 < slot)
  minDeposit api _ := if api then 50 else 0
  decayManaBySlots _ mana _ _ := some mana
  generateManaAndDecayBySlots _ tokens since slot := some (tokens * (slot - since))

def sampleOutput (baseTokenAmount storedMana : Nat) : Output := ⟨1, 1, baseTokenAmount, storedMana⟩

/-- The account 7 has a hundred credits since slot 1. -/
def samplePast (slot : Nat) (id : AccountID) : Option Account :=
  if 0 < slot ∧ id = 7 then some ⟨sampleOutput 0 0, 100, 1⟩ else none

def sampleCommit (bicChange : Int) (output : Option Output) : Operation :=
  .commitSlot [] (AList.singleton 7 ⟨bicChange, output⟩) samplePast

/-- Slot 1 creates the account. -/
def sampleCreation : Operation := sampleCommit 100 (some (sampleOutput 0 0))

def sampleEmpty : Operation := .commitSlot [] ∅ samplePast

def sampleGenesis : State := ⟨0, fun _ _ => none, ∅⟩

/-- The entry of slot 1 is updated in slot 2 and, with the new parameters, in slot 4. -/
theorem cache_transparent_updated :
    ∃ s, run (step sampleParams) sampleGenesis
        [sampleCreation, .getManaOnAccount 7 1, sampleCommit (-40) none, .getManaOnAccount 7 2,
          sampleEmpty, sampleCommit (-10) none] = some s ∧
      sampleParams.apiForSlot 4 ≠ sampleParams.apiForSlot 2 ∧
      (s.manaVectorCache.lookup 7).isSome ∧
      (getManaOnAccount sampleParams s 7 4).2 = some 50 ∧
      (getManaOnAccount sampleParams s 7 4).2 =
        (getManaOnAccount sampleParams { s with manaVectorCache := ∅ } 7 4).2 := by
  refine exists_of_result (P := fun s => (s.manaVectorCache.lookup 7).isSome ∧
    (getManaOnAccount sampleParams s 7 4).2 = some 50 ∧ Current sampleParams s 7 4)
    (by decide +kernel) ?_
  rintro s hrun ⟨hentry, hresult, hcurrent⟩
  exact ⟨by decide, hentry, hresult, cache_transparent (by decide +kernel) hrun hcurrent⟩

/-- The mana of a slot after a run, with the cache and without. -/
def withAndWithoutCache (ops : List Operation) (slot : Nat) : Option (Option Nat × Option Nat) :=
  (run (step sampleParams) sampleGenesis ops).map fun s =>
    ((getManaOnAccount sampleParams s 7 slot).2,
      (getManaOnAccount sampleParams { s with manaVectorCache := ∅ } 7 slot).2)

/-- After a query for slot 1 that made the entry; after slot 3 has created an output with the
    creation slot of the first one; and for an account with 100 tokens that does not change,
    after slot 4 has brought the minimal deposit. -/
theorem cache_depends_on_queries :
    withAndWithoutCache [sampleCreation, sampleCommit (-40) none, .getManaOnAccount 7 1] 2 =
      some (some 100, some 60) ∧
    withAndWithoutCache [sampleCreation, .getManaOnAccount 7 1, sampleEmpty,
        sampleCommit 0 (some (sampleOutput 0 5))] 2 = some (some 105, some 100) ∧
    withAndWithoutCache [sampleCommit 0 (some (sampleOutput 100 0)), .getManaOnAccount 7 1,
        sampleEmpty, sampleEmpty, sampleEmpty] 4 = some (some 300, some 150) := by
  refine ⟨?_, ?_, ?_⟩ <;> decide +kernel

end AxonCore.ManaManager

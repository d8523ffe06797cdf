import AxonCore.Accounts.Invariant

/-! # Account data at an earlier slot

    `Account(id, t)` walks the stored diffs from the latest committed slot down to
    `t + 1`.  One round of the walk undoes one committed slot (`commit_round`), and by
    induction along the run the walk arrives at what the tree held right after slot
    `t` was committed.

    * `account_data_exact`: the data is that of the tree at slot `t`, as long as a burn
      never meets a diff without an allotment and the account is not created while it
      is in the tree; without this the data differs (`account_update_slot_lost`). -/

namespace AxonCore.Accounts

open AxonCore.Lib Option

variable {p : Params} {l l' : Ledger} {id : AccountID}

/-! ## Section 1: One round -/

/-- The burn of an account in the next slot. -/
def Ledger.burn (p : Params) (l : Ledger) (rmc : UInt64) (id : AccountID) : Option UInt64 :=
  (l.manager.computeBlockBurnsForSlot p (l.manager.latestCommittedSlot + 1) rmc).bind
    fun burns => burns.lookup id

/-- An account in the tree is not created in the slot, and if it is destroyed its stakes
    can be negated. -/
def PresentOk (p : Params) (l : Ledger) (stateDiff : StateDiff) (id : AccountID) : Prop :=
  ∀ a ∈ l.manager.accountsTree.lookup id,
    ((stateDiff.created p id).isSome → (stateDiff.consumed p id).isSome) ∧
      (id ∈ destroyedAccounts p stateDiff → a.Negatable)

/-- The diffs of a slot take the data of an account back from `after` to `before`, in
    every field but the credits; these too if the diff is `recorded`. -/
structure Undoes (store : DiffStore) (id : AccountID) (before after : Option AccountData)
    (recorded : Prop) : Prop where
  stays : before = none → after = none
  undo : ∃ f : Credits → Credits,
    (∀ c, rollbackSlotDiffOnAccount store { after.getD (newAccountData id) with credits := c } =
      some ({ before.getD (newAccountData id) with credits := f c }, false,
        before.isSome && after.isNone)) ∧
    (recorded → f (after.getD (newAccountData id)).credits =
      (before.getD (newAccountData id)).credits)

/-- The diffs of a slot show that the account was created in it. -/
structure Creates (store : DiffStore) (id : AccountID) (before after : Option AccountData) :
    Prop where
  before : before = none
  after : after.isSome
  found : ∀ x : AccountData, x.id = id →
    ∃ y, rollbackSlotDiffOnAccount store x = some (y, true, false)

/-- The diffs of the slot between two ledgers undo it for an account. -/
def UndoesSlot (l l' : Ledger) (id : AccountID) (recorded : Prop) : Prop :=
  Undoes (l'.manager.slotDiffs (l.manager.latestCommittedSlot + 1)) id
    (l.manager.accountsTree.lookup id) (l'.manager.accountsTree.lookup id) recorded

def CreatesSlot (l l' : Ledger) (id : AccountID) : Prop :=
  Creates (l'.manager.slotDiffs (l.manager.latestCommittedSlot + 1)) id
    (l.manager.accountsTree.lookup id) (l'.manager.accountsTree.lookup id)

variable {store : DiffStore} {a a' x : AccountData} {d : AccountDiff} {slot diffSlot : Nat}
  {rmc : UInt64} {stateDiff : StateDiff}

theorem rollbackSlotDiffOnAccount_none (h : store.lookup x.id = none) :
    rollbackSlotDiffOnAccount store x = some (x, false, false) := by
  unfold rollbackSlotDiffOnAccount
  rw [h]

theorem rollbackSlotDiffOnAccount_some {destroyed : Bool}
    (h : store.lookup x.id = some (d, destroyed)) :
    rollbackSlotDiffOnAccount store x = d.rollback destroyed x := by
  unfold rollbackSlotDiffOnAccount
  rw [h]

theorem undoes_of_none {loaded : Option AccountData} {recorded : Prop}
    (hid : (loaded.getD (newAccountData id)).id = id) (h : store.lookup id = none) :
    Undoes store id loaded loaded recorded where
  stays hn := hn
  undo := by
    refine ⟨fun c => c, fun c => ?_, fun _ => rfl⟩
    have hflag : (loaded.isSome && loaded.isNone) = false := by
      cases loaded <;> rfl
    rw [hflag]
    apply rollbackSlotDiffOnAccount_none
    rw [← hid] at h
    exact h

theorem undoes_of_reversible {recorded : Prop} (hid : a.id = id)
    (hstored : store.lookup id = some (d, false)) (hrev : Reversible a d)
    (happly : d.apply slot true a = some a')
    (hrecorded : recorded → d.bicChange ≠ 0 → d.previousUpdatedSlot = a.credits.updateSlot) :
    Undoes store id (some a) (some a') recorded where
  stays hn := nomatch hn
  undo := by
    refine ⟨d.rollbackCredits false, fun c => ?_, fun hrec => ?_⟩
    · have hid' : a'.id = id := (AccountDiff.apply_fields happly).1.trans hid
      rw [rollbackSlotDiffOnAccount_some (by rw [← hid'] at hstored; exact hstored)]
      exact AccountDiff.rollback_apply hrev happly c
    · exact AccountDiff.rollbackCredits_apply happly (hrecorded hrec)

theorem undoes_of_destroyed {recorded : Prop} (hid : a.id = id) (ha : a.Negatable)
    (hstored : store.lookup id = some (preserveDestroyedAccountData a, true)) :
    Undoes store id (some a) none recorded where
  stays hn := nomatch hn
  undo := by
    subst hid
    refine ⟨fun c => c.update a.credits.value a.credits.updateSlot, fun c => ?_, fun _ => ?_⟩
    · exact (rollbackSlotDiffOnAccount_some (x := { newAccountData a.id with credits := c })
        hstored).trans (rollback_preserveDestroyed ha c)
    · show (⟨0 + a.credits.value, a.credits.updateSlot⟩ : Credits) = a.credits
      rw [Int64.zero_add]

theorem commit_round (hinv : Inv l) (hvalid : ValidStateDiff p l.accountOutput stateDiff)
    (h : l.commitSlot p rmc stateDiff = some l') (hpresent : PresentOk p l stateDiff id)
    (habsent : l.manager.accountsTree.lookup id = none →
      l'.manager.accountsTree.lookup id = none ∨ (stateDiff.created p id).isSome) :
    UndoesSlot l l' id
      (BurnRecorded p stateDiff id (l.manager.accountsTree.lookup id) (l.burn p rmc id)) ∨
    (stateDiff.created p id).isSome ∧ CreatesSlot l l' id := by
  unfold UndoesSlot CreatesSlot
  have hspec := Ledger.commitSlot_spec h
  obtain ⟨burns, hburns, hstages⟩ := hspec.accounts (hinv.future _ (Nat.lt_succ_self _))
  have hmatch := hinv.outputsMatch hvalid id
  have hburn : l.burn p rmc id = burns.lookup id := by
    rw [Ledger.burn, hburns, bind_some]
  cases hload : l.manager.accountsTree.lookup id with
  | none =>
    obtain ⟨_, hnone, hcreate⟩ := (hstages id).absent hmatch hload
    rcases habsent hload with hload' | hcreated
    · left
      rw [hload']
      exact undoes_of_none rfl (hnone hload')
    · obtain ⟨hload', d, hstored, hcreates⟩ := hcreate hcreated
      refine .inr ⟨hcreated, rfl, hload', fun x hx => ?_⟩
      rw [rollbackSlotDiffOnAccount_some (by rw [hx]; exact hstored), AccountDiff.rollback,
        if_pos hcreates]
      exact ⟨_, rfl⟩
  | some a =>
    left
    have hid := hinv.ids id a hload
    obtain ⟨hnot, hnegatable⟩ := hpresent a hload
    obtain ⟨hdestroyed, hkept⟩ :=
      (hstages id).present hmatch hvalid.consumed_of_destroyed hload hnot
    by_cases hin : id ∈ destroyedAccounts p stateDiff
    · obtain ⟨hload', hstored⟩ := hdestroyed hin
      rw [hload']
      exact undoes_of_destroyed hid (hnegatable hin) hstored
    · rcases hkept hin with ⟨hload', hstored⟩ | ⟨d, a', hload', hstored, hrev, happly, hrecorded⟩
      · rw [hload']
        exact undoes_of_none hid hstored
      · rw [hload', hburn]
        exact undoes_of_reversible hid hstored hrev happly hrecorded

/-! ## Section 2: The walk over the stored diffs -/

/-- The loop of `rollbackAccountTo` over stores none of which is pruned. -/
def rollbackStores (stores : Nat → DiffStore) :
    (rounds diffSlot : Nat) → AccountData → Bool → Option (AccountData × Bool)
  | 0, _, x, wasDestroyed => some (x, wasDestroyed)
  | rounds + 1, diffSlot, x, wasDestroyed =>
    (rollbackSlotDiffOnAccount (stores diffSlot) x).bind fun (y, createdInTheDiff, destroyed) =>
    if createdInTheDiff then some (y, false)
    else rollbackStores stores rounds (diffSlot - 1) y (wasDestroyed || destroyed)

theorem Manager.rollbackAccountLoop_eq (m : Manager) {rounds : Nat}
    (hretained : m.prunedBelow + rounds ≤ diffSlot + 1) (x : AccountData) (w : Bool) :
    m.rollbackAccountLoop rounds diffSlot x w = rollbackStores m.slotDiffs rounds diffSlot x w := by
  induction rounds generalizing diffSlot x w with
  | zero => rfl
  | succ rounds ih =>
    have hslot : m.slotDiff diffSlot = some (m.slotDiffs diffSlot) :=
      if_neg (by omega)
    unfold Manager.rollbackAccountLoop rollbackStores
    rw [hslot, bind_some]
    congr 1
    funext ⟨y, created, destroyed⟩
    cases created with
    | true => rfl
    | false => exact ih (by omega) y (w || destroyed)

theorem rollbackStores_congr {stores stores' : Nat → DiffStore} {rounds : Nat}
    (h : ∀ slot ≤ diffSlot, stores' slot = stores slot) (x : AccountData) (w : Bool) :
    rollbackStores stores' rounds diffSlot x w = rollbackStores stores rounds diffSlot x w := by
  induction rounds generalizing diffSlot x w with
  | zero => rfl
  | succ rounds ih =>
    unfold rollbackStores
    rw [h diffSlot (Nat.le_refl _)]
    congr 1
    funext ⟨y, created, destroyed⟩
    cases created with
    | true => rfl
    | false => exact ih (fun slot hslot => h slot (by omega)) y (w || destroyed)

theorem rollbackStores_commit (hspec : Committed p l rmc stateDiff l')
    (hslot : slot ≤ l.manager.latestCommittedSlot) (x : AccountData) (w : Bool) :
    rollbackStores l'.manager.slotDiffs (l'.manager.latestCommittedSlot - slot)
        l'.manager.latestCommittedSlot x w =
      (rollbackSlotDiffOnAccount
        (l'.manager.slotDiffs (l.manager.latestCommittedSlot + 1)) x).bind
        fun (y, createdInTheDiff, destroyed) =>
          if createdInTheDiff then some (y, false)
          else rollbackStores l.manager.slotDiffs (l.manager.latestCommittedSlot - slot)
            l.manager.latestCommittedSlot y (w || destroyed) := by
  have hrounds : l'.manager.latestCommittedSlot - slot =
      (l.manager.latestCommittedSlot - slot) + 1 := by
    rw [hspec.latestCommittedSlot]
    omega
  rw [hrounds, hspec.latestCommittedSlot, rollbackStores]
  congr 1
  funext ⟨y, created, destroyed⟩
  cases created with
  | true => rfl
  | false =>
    rw [Nat.add_sub_cancel]
    apply rollbackStores_congr
    intro slot' h
    exact hspec.otherSlots slot' (by omega)

/-! ## Section 3: The data of an account -/

/-- The step commits a slot that meets `G`. -/
def OnCommit (G : Ledger → UInt64 → StateDiff → Prop) (l : Ledger) : Input → Prop
  | .commitSlot rmc stateDiff => G l rmc stateDiff
  | .trackBlock _ => True
  | .prune _ => True

/-- The diffs of the slot name the previous state of the account. -/
def ExactSlot (p : Params) (id : AccountID) (l : Ledger) (rmc : UInt64) (stateDiff : StateDiff) :
    Prop :=
  PresentOk p l stateDiff id ∧
    BurnRecorded p stateDiff id (l.manager.accountsTree.lookup id) (l.burn p rmc id)

/-- An account that is not in the tree stays out of it. -/
def NotPutBack (p : Params) (id : AccountID) (l : Ledger) (input : Input) : Prop :=
  l.manager.accountsTree.lookup id = none →
    ((step p l input).bind fun l' => l'.manager.accountsTree.lookup id) = none

/-- The walk from the state `s` arrives at the data the account had at slot `slot`, and
    collects whether it has left the tree. -/
def WalksTo (slot : Nat) (id : AccountID) (a : AccountData) (s : Ledger) : Prop :=
  slot ≤ s.manager.latestCommittedSlot ∧
    ∀ w, rollbackStores s.manager.slotDiffs (s.manager.latestCommittedSlot - slot)
      s.manager.latestCommittedSlot
      ((s.manager.accountsTree.lookup id).getD (newAccountData id)) w =
        some (a, w || (s.manager.accountsTree.lookup id).isNone)

theorem leavesTree_or {before after : Option AccountData} (hstay : before = none → after = none)
    (w : Bool) :
    ((w || (before.isSome && after.isNone)) || before.isNone) = (w || after.isNone) := by
  cases before with
  | none =>
    rw [hstay rfl]
    simp
  | some b => simp

theorem WalksTo.step {input : Input} (hinv : Inv l) (hwalk : WalksTo slot id a l)
    (hexact : OnCommit (ExactSlot p id) l input) (hnever : NotPutBack p id l input)
    (h : step p l input = some l') : WalksTo slot id a l' := by
  rcases step_cases h with
    ⟨rmc, stateDiff, rfl, hvalid, hcommit⟩ | ⟨_, _, htree, hlatest, hdiffs, _⟩
  · have hspec := Ledger.commitSlot_spec hcommit
    refine ⟨by have := hwalk.1; rw [hspec.latestCommittedSlot]; omega, fun w => ?_⟩
    have hstay : l.manager.accountsTree.lookup id = none →
        l'.manager.accountsTree.lookup id = none := by
      intro hnone
      have hbind := hnever hnone
      rwa [h, bind_some] at hbind
    rw [rollbackStores_commit hspec hwalk.1]
    rcases commit_round hinv hvalid hcommit hexact.1 (fun hnone => .inl (hstay hnone)) with
      hundo | ⟨_, hcreates⟩
    · obtain ⟨f, hf, hcredits⟩ := hundo.undo
      have hround := hf ((l'.manager.accountsTree.lookup id).getD (newAccountData id)).credits
      rw [hcredits hexact.2] at hround
      rw [hround]
      show rollbackStores _ _ _ ((l.manager.accountsTree.lookup id).getD (newAccountData id)) _ = _
      rw [hwalk.2, leavesTree_or hstay]
    · have hafter := hcreates.after
      rw [hstay hcreates.before] at hafter
      cases hafter
  · unfold WalksTo
    rw [htree, hlatest, hdiffs]
    exact hwalk

theorem Manager.account_of_rollbackStores {m : Manager} {w : Bool}
    (hslot : slot ≤ m.latestCommittedSlot) (hretained : m.prunedBelow ≤ slot + 1)
    (h : rollbackStores m.slotDiffs (m.latestCommittedSlot - slot) m.latestCommittedSlot
      ((m.accountsTree.lookup id).getD (newAccountData id)) false = some (x, w)) :
    m.account id slot =
      some (if (m.accountsTree.lookup id).isNone ∧ w = false then none else some x) := by
  unfold Manager.account Manager.rollbackAccountTo
  rw [if_neg (by omega)]
  dsimp only
  rw [m.rollbackAccountLoop_eq (by omega), h, map_some]

/-- `Account` returns the data that was in the tree right after the slot `t` of `l` was
    committed, for an account that was in the tree then and was not put back into it
    after it left. -/
theorem account_data_exact {inputs : List Input} (hreach : Reachable p l)
    (hrun : run (step p) l inputs = some l')
    (hexact : AllSteps (step p) (OnCommit (ExactSlot p id)) l inputs)
    (hload : l.manager.accountsTree.lookup id = some a)
    (hnever : AllSteps (step p) (NotPutBack p id) l inputs)
    (hretained : l'.manager.prunedBelow ≤ l.manager.latestCommittedSlot + 1) :
    l'.manager.account id l.manager.latestCommittedSlot = some (some a) := by
  have hstart : WalksTo l.manager.latestCommittedSlot id a l := by
    refine ⟨Nat.le_refl _, fun w => ?_⟩
    rw [Nat.sub_self, hload]
    show some (a, w) = some (a, w || false)
    rw [Bool.or_false]
  obtain ⟨_, hslot, hwalk⟩ := run_invariant_of
    (I := fun s => Inv s ∧ WalksTo l.manager.latestCommittedSlot id a s)
    (fun s i s' hI hG hstep => ⟨step_inv hI.1 hstep, hI.2.step hI.1 hG.1 hG.2 hstep⟩)
    ⟨hreach.inv, hstart⟩ (hexact.and hnever) hrun
  rw [Manager.account_of_rollbackStores hslot hretained (hwalk false)]
  -- an account that has left the tree was destroyed on the way
  cases l'.manager.accountsTree.lookup id with
  | none => rfl
  | some b => rfl

instance (stateDiff : StateDiff) (loaded : Option AccountData) (burn : Option UInt64) :
    Decidable (BurnRecorded p stateDiff id loaded burn) :=
  -- by name: a search may find the instance for the finitely many values of `UInt64`
  decidableForallMem burn

instance (stateDiff : StateDiff) : Decidable (PresentOk p l stateDiff id) :=
  decidableForallMem (l.manager.accountsTree.lookup id)

instance (rmc : UInt64) (stateDiff : StateDiff) : Decidable (ExactSlot p id l rmc stateDiff) :=
  inferInstanceAs (Decidable (_ ∧ _))

instance (G : Ledger → UInt64 → StateDiff → Prop) [∀ l rmc stateDiff, Decidable (G l rmc stateDiff)]
    (input : Input) : Decidable (OnCommit G l input) :=
  match input with
  | .commitSlot rmc stateDiff => inferInstanceAs (Decidable (G l rmc stateDiff))
  | .trackBlock _ => isTrue trivial
  | .prune _ => isTrue trivial

instance (input : Input) : Decidable (NotPutBack p id l input) :=
  inferInstanceAs (Decidable (_ → _))

/-- Parameters for the runs below: mana does not decay. -/
def sampleParams : Params where
  maxCommittableAge := 10
  validationBlocksPerSlot := 10
  epochDurationSlots := 10
  punishmentEpochs := 1
  accountIDFromOutputID := fun outputID => outputID + 1000
  decayManaBySlots := fun mana _ _ => some mana
  generateManaAndDecayBySlots := fun _ _ _ => some 0

/-- An account output with the block issuer feature. -/
def sampleOutput (outputID : OutputID) : Output :=
  .account outputID (some 1) (some ⟨100, {7}⟩) none

/-- Slot 1: the account issues a block. -/
def sampleSlot : List Input :=
  [.trackBlock ⟨1, 1, 1, 0, .basic 5⟩, .commitSlot 1 ⟨[], [], []⟩]

/-- Slot 2: the account issues a block again and is transitioned. -/
def sampleTransition (allotments : List (AccountID × UInt64)) : List Input :=
  [.trackBlock ⟨2, 2, 1, 0, .basic 5⟩,
    .commitSlot 1 ⟨allotments, [sampleOutput 11], [sampleOutput 10]⟩]

/-- A transition and a burn in one slot, with an allotment. -/
theorem account_data_exact_transition :
    ∃ l l' a, Reachable sampleParams l ∧
      run (step sampleParams) l (sampleTransition [(1, 3)]) = some l' ∧
      l.manager.latestCommittedSlot = 1 ∧ l'.manager.latestCommittedSlot = 2 ∧
      l.manager.accountsTree.lookup 1 = some a ∧ l'.manager.account 1 1 = some (some a) := by
  obtain ⟨l₀, hgenesis, l, hl, hlatest, hsome, hexact, hnever, l', hl', hlatest', hretained⟩ :
      ∃ l₀, genesis 0 [(sampleOutput 10, 100)] = some l₀ ∧
        ∃ l, run (step sampleParams) l₀ sampleSlot = some l ∧ l.manager.latestCommittedSlot = 1 ∧
          (l.manager.accountsTree.lookup 1).isSome ∧
          AllSteps (step sampleParams) (OnCommit (ExactSlot sampleParams 1)) l
            (sampleTransition [(1, 3)]) ∧
          AllSteps (step sampleParams) (NotPutBack sampleParams 1) l (sampleTransition [(1, 3)]) ∧
          ∃ l', run (step sampleParams) l (sampleTransition [(1, 3)]) = some l' ∧
            l'.manager.latestCommittedSlot = 2 ∧ l'.manager.prunedBelow ≤ 2 := by
    decide +kernel
  obtain ⟨a, ha⟩ := isSome_iff_exists.mp hsome
  have hreach : Reachable sampleParams l := ⟨0, _, sampleSlot, l₀, hgenesis, hl⟩
  have haccount := account_data_exact hreach hl' hexact ha hnever (by rw [hlatest]; exact hretained)
  rw [hlatest] at haccount
  exact ⟨l, l', a, hreach, hl', hlatest, hlatest', ha, haccount⟩

/-- Without the allotment the diff does not name the slot of the last update, and the
    historic data has lost it. -/
theorem account_update_slot_lost :
    ∃ l l' a, Reachable sampleParams l ∧
      run (step sampleParams) l (sampleTransition []) = some l' ∧
      l.manager.accountsTree.lookup 1 = some a ∧
      AllSteps (step sampleParams) (NotPutBack sampleParams 1) l (sampleTransition []) ∧
      l'.manager.prunedBelow ≤ l.manager.latestCommittedSlot + 1 ∧
      a.credits = ⟨95, 1⟩ ∧
      l'.manager.account 1 l.manager.latestCommittedSlot =
        some (some { a with credits := ⟨95, 0⟩ }) := by
  obtain ⟨l₀, hgenesis, l, hl, a, ha, hnever, hcredits, l', hl', hretained, haccount⟩ :
      ∃ l₀, genesis 0 [(sampleOutput 10, 100)] = some l₀ ∧
        ∃ l, run (step sampleParams) l₀ sampleSlot = some l ∧
          ∃ a, l.manager.accountsTree.lookup 1 = some a ∧
            AllSteps (step sampleParams) (NotPutBack sampleParams 1) l (sampleTransition []) ∧
            a.credits = ⟨95, 1⟩ ∧
            ∃ l', run (step sampleParams) l (sampleTransition []) = some l' ∧
              l'.manager.prunedBelow ≤ l.manager.latestCommittedSlot + 1 ∧
              l'.manager.account 1 l.manager.latestCommittedSlot =
                some (some { a with credits := ⟨95, 0⟩ }) := by
    decide +kernel
  exact ⟨l, l', a, ⟨0, _, sampleSlot, l₀, hgenesis, hl⟩, hl', ha, hnever, hretained, hcredits,
    haccount⟩

end AxonCore.Accounts

import AxonCore.Accounts.Existence

/-! # Rolling the accounts tree back

    `rollbackFromTo` takes the whole tree back from one slot to an earlier one.  For
    every slot on the way it goes over the stored diffs, and for each diff it restores
    the account, deletes it or fails, by whether the account is in the tree and what
    the diff says about its creation and destruction.

    The tree and the stores enter through their lookups only, so that the same result
    holds for a tree that was read from a snapshot.

    * `entry_round`: one diff of a committed slot brings the entry back.
    * `RollsBackTo`: the rollback arrives at the tree of an earlier state.
    * `rollsBackTo_run`: it does so along every run whose slots are exact.
    * `rollback_undoes`: so `Rollback` undoes all slots after its target. -/

namespace AxonCore.Accounts

open AxonCore.Lib Function Manager

/-! ## Section 1: The rollback -/

/-- The body of the loop over the diffs of a slot: the entry of an account in the tree
    before and after it. -/
def rollbackTreeEntry (store : DiffStore) (id : AccountID) (loaded : Option AccountData) :
    Option (Option AccountData) :=
  (rollbackSlotDiffOnAccount store (loaded.getD (newAccountData id))).bind
    fun (accountData, wasCreatedAfterTargetSlot, wasDestroyed) =>
      -- "incorrect account state"
      if (loaded.isNone && !wasDestroyed) || (loaded.isSome && wasDestroyed) then none
      else if wasCreatedAfterTargetSlot && loaded.isSome then some none
      else some (some accountData)

/-- The loop of `rollbackFromTo` over the slots. -/
def Manager.rollbackFromToLoop (deleteRevertedDiffs : Bool) :
    (rounds slot : Nat) → Manager → Option Manager
  | 0, _, m => some m
  | rounds + 1, slot, m =>
    (m.slotDiff slot).bind fun slotDiff =>
    (alterKeys (rollbackTreeEntry slotDiff) m.accountsTree slotDiff.keys).bind fun tree =>
    rollbackFromToLoop deleteRevertedDiffs rounds (slot - 1)
      { m with
        accountsTree := tree
        slotDiffs :=
          if deleteRevertedDiffs then update m.slotDiffs slot ∅ else m.slotDiffs }

/-- `rollbackFromTo`. -/
def Manager.rollbackFromTo (m : Manager) (fromSlot toSlot : Nat) (deleteRevertedDiffs : Bool) :
    Option Manager :=
  rollbackFromToLoop deleteRevertedDiffs (fromSlot - toSlot) fromSlot m

/-- `Rollback`. -/
def Manager.rollback (m : Manager) (targetSlot : Nat) : Option Manager :=
  m.rollbackFromTo m.latestCommittedSlot targetSlot false

variable {p : Params} {l l' : Ledger} {id : AccountID} {slot : Nat} {m : Manager} {rmc : UInt64}
  {stateDiff : StateDiff}

theorem Manager.rollbackFromTo_succ {slot toSlot : Nat} {del : Bool} (htarget : toSlot ≤ slot)
    (hretained : m.prunedBelow ≤ slot + 1) :
    m.rollbackFromTo (slot + 1) toSlot del =
      (alterKeys (rollbackTreeEntry (m.slotDiffs (slot + 1))) m.accountsTree
        (m.slotDiffs (slot + 1)).keys).bind fun tree =>
      rollbackFromTo
        { m with
          accountsTree := tree
          slotDiffs := if del then update m.slotDiffs (slot + 1) ∅ else m.slotDiffs }
        slot toSlot del := by
  have hrounds : slot + 1 - toSlot = (slot - toSlot) + 1 := by omega
  have hslot : m.slotDiff (slot + 1) = some (m.slotDiffs (slot + 1)) := if_neg (by omega)
  unfold rollbackFromTo
  rw [hrounds]
  show (m.slotDiff (slot + 1)).bind _ = _
  rw [hslot]
  rfl

/-! ## Section 2: One diff -/

theorem rollbackTreeEntry_congr {store store' : DiffStore} {loaded : Option AccountData}
    (hid : (loaded.getD (newAccountData id)).id = id)
    (h : store.lookup id = store'.lookup id) :
    rollbackTreeEntry store id loaded = rollbackTreeEntry store' id loaded := by
  unfold rollbackTreeEntry rollbackSlotDiffOnAccount
  rw [hid, h]

/-- The diffs of the slot name the previous state of every account, and the slot has
    nothing for an account that is neither in the tree nor created. -/
def ExactTree (p : Params) (l : Ledger) (rmc : UInt64) (stateDiff : StateDiff) : Prop :=
  ∀ id, ExactSlot p id l rmc stateDiff ∧ RegularSlot p id l rmc stateDiff

theorem entry_round (hinv : Inv l) (hvalid : ValidStateDiff p l.accountOutput stateDiff)
    (hcommit : l.commitSlot p rmc stateDiff = some l') (hexact : ExactTree p l rmc stateDiff)
    (id : AccountID) {store : DiffStore}
    (hstore : store.lookup id =
      (l'.manager.slotDiffs (l.manager.latestCommittedSlot + 1)).lookup id) :
    (store.lookup id = none →
      l'.manager.accountsTree.lookup id = l.manager.accountsTree.lookup id) ∧
    ((store.lookup id).isSome →
      rollbackTreeEntry store id (l'.manager.accountsTree.lookup id) =
        some (l.manager.accountsTree.lookup id)) := by
  have hinv' := commitSlot_inv hinv hvalid hcommit
  have hid := hinv'.getD_id id
  rw [rollbackTreeEntry_congr hid hstore, hstore]
  -- the diffs of the slot are undone, or show that the account was created
  have hround := regular_round hinv hvalid hcommit (hexact id).2
  unfold UndoesSlot CreatesSlot at hround
  have habsent : l.manager.accountsTree.lookup id = none →
      l'.manager.accountsTree.lookup id = none →
      (l'.manager.slotDiffs (l.manager.latestCommittedSlot + 1)).lookup id = none := by
    intro hnone hnone'
    obtain ⟨burns, _, hstages⟩ :=
      (Ledger.commitSlot_spec hcommit).accounts (hinv.future _ (Nat.lt_succ_self _))
    exact ((hstages id).absent (hinv.outputsMatch hvalid id) hnone).2.1 hnone'
  generalize hbefore : l.manager.accountsTree.lookup id = before at hround habsent
  generalize hafter : l'.manager.accountsTree.lookup id = after at hround habsent hid
  generalize l'.manager.slotDiffs (l.manager.latestCommittedSlot + 1) = store' at hround habsent
  rcases hround with hundo | ⟨_, hcreates⟩
  · obtain ⟨f, hf, hcredits⟩ := hundo.undo
    have hroll := hf (after.getD (newAccountData id)).credits
    have hrecorded := (hexact id).1.2
    rw [hbefore] at hrecorded
    rw [hcredits hrecorded] at hroll
    change rollbackSlotDiffOnAccount store' (after.getD (newAccountData id)) =
      some (before.getD (newAccountData id), false, before.isSome && after.isNone) at hroll
    constructor
    · intro hnone
      rw [rollbackSlotDiffOnAccount_none (by rw [hid]; exact hnone)] at hroll
      cases before with
      | none => exact hundo.stays rfl
      | some b =>
        cases after with
        | none => simp at hroll
        | some a => simpa using hroll
    · intro hsome
      unfold rollbackTreeEntry
      rw [hroll]
      cases before with
      | none =>
        rw [habsent rfl (hundo.stays rfl)] at hsome
        cases hsome
      | some b => cases after <;> rfl
  · obtain ⟨y, hy⟩ := hcreates.found _ hid
    obtain ⟨a, rfl⟩ := Option.isSome_iff_exists.mp hcreates.after
    constructor
    · intro hnone
      rw [rollbackSlotDiffOnAccount_none (by rw [hid]; exact hnone)] at hy
      simp at hy
    · intro _
      unfold rollbackTreeEntry
      rw [hy, hcreates.before]
      rfl

/-! ## Section 3: Along a run -/

/-- A manager has the tree of a ledger, and its diffs after a slot. -/
structure Agrees (slot : Nat) (m : Manager) (s : Ledger) : Prop where
  tree : ∀ id, m.accountsTree.lookup id = s.manager.accountsTree.lookup id
  diffs : ∀ diffSlot, slot < diffSlot → diffSlot ≤ s.manager.latestCommittedSlot →
    ∀ id, (m.slotDiffs diffSlot).lookup id = (s.manager.slotDiffs diffSlot).lookup id

/-- The rollback of a manager that agrees with `s` arrives at the tree of `l`. -/
def RollsBackTo (slot : Nat) (l s : Ledger) : Prop :=
  slot ≤ s.manager.latestCommittedSlot ∧
    ∀ m : Manager, ∀ del, m.prunedBelow ≤ slot + 1 → Agrees slot m s →
      ∃ m', m.rollbackFromTo s.manager.latestCommittedSlot slot del = some m' ∧
        (∀ id, m'.accountsTree.lookup id = l.manager.accountsTree.lookup id) ∧
        ∀ diffSlot, m'.slotDiffs diffSlot =
          if del = true ∧ slot < diffSlot ∧ diffSlot ≤ s.manager.latestCommittedSlot then ∅
          else m.slotDiffs diffSlot

theorem tree_round (hinv : Inv l) (hvalid : ValidStateDiff p l.accountOutput stateDiff)
    (hcommit : l.commitSlot p rmc stateDiff = some l') (hexact : ExactTree p l rmc stateDiff)
    (hslot : slot ≤ l.manager.latestCommittedSlot) (hagrees : Agrees slot m l') :
    ∃ tree, alterKeys (rollbackTreeEntry (m.slotDiffs (l.manager.latestCommittedSlot + 1)))
        m.accountsTree (m.slotDiffs (l.manager.latestCommittedSlot + 1)).keys = some tree ∧
      ∀ id, tree.lookup id = l.manager.accountsTree.lookup id := by
  have hlatest := (Ledger.commitSlot_spec hcommit).latestCommittedSlot
  have hround := fun id => entry_round hinv hvalid hcommit hexact id
    (hagrees.diffs (l.manager.latestCommittedSlot + 1) (by omega) (by omega) id)
  obtain ⟨tree, htree⟩ := Option.isSome_iff_exists.mp (alterKeys_isSome
    (f := rollbackTreeEntry (m.slotDiffs (l.manager.latestCommittedSlot + 1)))
    (m.slotDiffs (l.manager.latestCommittedSlot + 1)).keys_nodup (m := m.accountsTree) (by
      intro id hid
      rw [mem_keys_iff] at hid
      rw [hagrees.tree, (hround id).2 hid]
      rfl))
  refine ⟨tree, htree, fun id => ?_⟩
  cases hdiff : (m.slotDiffs (l.manager.latestCommittedSlot + 1)).lookup id with
  | none => rw [alterKeys_keys_none htree hdiff, hagrees.tree, (hround id).1 hdiff]
  | some d =>
    have hentry := alterKeys_keys_some htree hdiff
    rw [hagrees.tree, (hround id).2 (by rw [hdiff]; rfl)] at hentry
    exact (Option.some.inj hentry).symm

theorem RollsBackTo.step {l₀ : Ledger} {input : Input} (hinv : Inv l)
    (hroll : RollsBackTo slot l₀ l) (hexact : OnCommit (ExactTree p) l input)
    (h : step p l input = some l') : RollsBackTo slot l₀ l' := by
  rcases step_cases h with
    ⟨rmc, stateDiff, rfl, hvalid, hcommit⟩ | ⟨_, _, htree, hlatest, hdiffs, _⟩
  · have hspec := Ledger.commitSlot_spec hcommit
    have hslot := hroll.1
    constructor
    · rw [hspec.latestCommittedSlot]
      omega
    · intro m del hretained hagrees
      obtain ⟨tree, htree, hlookup⟩ := tree_round hinv hvalid hcommit hexact hslot hagrees
      rw [hspec.latestCommittedSlot, rollbackFromTo_succ hslot (by omega), htree,
        Option.bind_some]
      obtain ⟨m', hm', htree', hdiffs'⟩ := hroll.2
        { m with
          accountsTree := tree
          slotDiffs :=
            if del then update m.slotDiffs (l.manager.latestCommittedSlot + 1) ∅
            else m.slotDiffs } del hretained
        (by
          -- the slots before the one that was taken back are as they were
          refine ⟨hlookup, fun diffSlot hlow hhigh id => ?_⟩
          have hne : diffSlot ≠ l.manager.latestCommittedSlot + 1 := by omega
          rw [← hspec.otherSlots diffSlot hne,
            ← hagrees.diffs diffSlot hlow (by rw [hspec.latestCommittedSlot]; omega) id]
          cases del with
          | false => rfl
          | true =>
            show (update m.slotDiffs _ ∅ diffSlot).lookup id = _
            rw [update_of_ne hne])
      refine ⟨m', hm', htree', fun diffSlot => ?_⟩
      rw [hdiffs' diffSlot]
      cases del with
      | false => simp
      | true =>
        by_cases hlast : diffSlot = l.manager.latestCommittedSlot + 1
        · subst hlast
          have : slot < l.manager.latestCommittedSlot + 1 := by omega
          simp [this]
        · have : diffSlot ≤ l.manager.latestCommittedSlot + 1 ↔
              diffSlot ≤ l.manager.latestCommittedSlot := by omega
          simp [hlast, this]
  · unfold RollsBackTo at hroll ⊢
    rw [hlatest]
    refine ⟨hroll.1, fun m del hretained hagrees => hroll.2 m del hretained ⟨?_, ?_⟩⟩
    · rw [← htree]
      exact hagrees.tree
    · rw [← hlatest, ← hdiffs]
      exact hagrees.diffs

/-- Along a run whose slots are exact, the rollback arrives at the tree it started with. -/
theorem rollsBackTo_run {inputs : List Input} (hinv : Inv l)
    (hexact : AllSteps (step p) (OnCommit (ExactTree p)) l inputs)
    (hrun : run (step p) l inputs = some l') :
    Inv l' ∧ RollsBackTo l.manager.latestCommittedSlot l l' := by
  apply run_invariant_of
    (I := fun s => Inv s ∧ RollsBackTo l.manager.latestCommittedSlot l s) _ _ hexact hrun
  · intro s i s' hI hG hstep
    exact ⟨step_inv hI.1 hstep, hI.2.step hI.1 hG hstep⟩
  · refine ⟨hinv, Nat.le_refl _, fun m del _ hagrees => ⟨m, ?_, ?_, ?_⟩⟩
    · unfold Manager.rollbackFromTo
      rw [Nat.sub_self]
      rfl
    · exact hagrees.tree
    · intro diffSlot
      rw [if_neg (by omega)]

/-- `Rollback` to the slot of `l` gives the tree that `l` had, and keeps all diffs. -/
theorem rollback_undoes {inputs : List Input} (hreach : Reachable p l)
    (hrun : run (step p) l inputs = some l')
    (hexact : AllSteps (step p) (OnCommit (ExactTree p)) l inputs)
    (hretained : l'.manager.prunedBelow ≤ l.manager.latestCommittedSlot + 1) :
    ∃ m, l'.manager.rollback l.manager.latestCommittedSlot = some m ∧
      (∀ id, m.accountsTree.lookup id = l.manager.accountsTree.lookup id) ∧
      m.slotDiffs = l'.manager.slotDiffs := by
  obtain ⟨_, _, hroll⟩ := rollsBackTo_run hreach.inv hexact hrun
  obtain ⟨m, hm, htree, hdiffs⟩ := hroll l'.manager false hretained
    ⟨fun _ => rfl, fun _ _ _ _ => rfl⟩
  exact ⟨m, hm, htree, funext fun slot => by simpa using hdiffs slot⟩

end AxonCore.Accounts

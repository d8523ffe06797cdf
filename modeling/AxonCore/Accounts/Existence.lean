import AxonCore.Accounts.History

/-! # The existence of an account at an earlier slot

    `Account` and `PastAccounts` report an account at slot `t` if it is in the tree now
    or if the walk over the diffs met its destruction.  A walk that meets the creation
    of the account ends there and drops what it has met before.

    * `Kept`: the walk comes back to the data of slot `t`; it does so as long as the
      account is not created after `t`.
    * `CreatedSince`: the walk ends at a creation.
    * `account_exists_exact`: the account is reported exactly if it was in the tree at
      slot `t`, as long as it was not created since, or is in the tree now exactly if it
      was then.  `account_exists_before_creation` is a run where it is reported although
      it did not exist. -/

namespace AxonCore.Accounts

open AxonCore.Lib Manager

variable {p : Params} {l l' : Ledger} {id : AccountID} {slot : Nat} {before : Option AccountData}

/-! ## Section 1: The walk of an account -/

/-- The slot creates the account or has nothing for it, if it is not in the tree. -/
def RegularSlot (p : Params) (id : AccountID) (l : Ledger) (_ : UInt64) (stateDiff : StateDiff) :
    Prop :=
  PresentOk p l stateDiff id ∧
    (l.manager.accountsTree.lookup id = none →
      Untouched p l.manager stateDiff id ∨ (stateDiff.created p id).isSome)

/-- The slot does not create the account. -/
def NotCreated (p : Params) (id : AccountID) (l : Ledger) (_ : UInt64) (stateDiff : StateDiff) :
    Prop :=
  l.manager.accountsTree.lookup id = none → stateDiff.created p id = none

/-- The walk from the state `s` down to slot `slot`, with the credits `c`. -/
def Ledger.walk (s : Ledger) (slot : Nat) (id : AccountID) (c : Credits) (w : Bool) :
    Option (AccountData × Bool) :=
  rollbackStores s.manager.slotDiffs (s.manager.latestCommittedSlot - slot)
    s.manager.latestCommittedSlot
    { (s.manager.accountsTree.lookup id).getD (newAccountData id) with credits := c } w

/-- The walk comes back to `before` in all fields but the credits, and collects whether
    the account has left the tree. -/
def Kept (slot : Nat) (id : AccountID) (before : Option AccountData) (s : Ledger) : Prop :=
  (before = none → s.manager.accountsTree.lookup id = none) ∧
    ∀ c w, ∃ c', s.walk slot id c w =
      some ({ before.getD (newAccountData id) with credits := c' },
        w || (before.isSome && (s.manager.accountsTree.lookup id).isNone))

/-- The walk ends at the creation of the account. -/
def CreatedSince (slot : Nat) (id : AccountID) (s : Ledger) : Prop :=
  ∀ c w, ∃ y, s.walk slot id c w = some (y, false)

variable {rmc : UInt64} {stateDiff : StateDiff} {input : Input}

theorem Kept.undo {recorded : Prop} (hkept : Kept slot id before l)
    (hspec : Committed p l rmc stateDiff l') (hslot : slot ≤ l.manager.latestCommittedSlot)
    (hundo : UndoesSlot l l' id recorded) :
    Kept slot id before l' := by
  refine ⟨fun hnone => hundo.stays (hkept.1 hnone), fun c w => ?_⟩
  obtain ⟨f, hf, _⟩ := hundo.undo
  obtain ⟨c', hc'⟩ := hkept.2 (f c) (w || ((l.manager.accountsTree.lookup id).isSome &&
    (l'.manager.accountsTree.lookup id).isNone))
  refine ⟨c', ?_⟩
  rw [Ledger.walk, rollbackStores_commit hspec hslot, hf c]
  refine hc'.trans (congrArg (fun flag => some (_, flag)) ?_)
  cases before with
  | none =>
    rw [hkept.1 rfl]
    simp
  | some b =>
    simp only [Option.isSome_some, Bool.true_and]
    exact leavesTree_or hundo.stays w

theorem CreatedSince.undo {recorded : Prop} (hcreated : CreatedSince slot id l)
    (hspec : Committed p l rmc stateDiff l') (hslot : slot ≤ l.manager.latestCommittedSlot)
    (hundo : UndoesSlot l l' id recorded) :
    CreatedSince slot id l' := by
  intro c w
  obtain ⟨f, hf, _⟩ := hundo.undo
  obtain ⟨y, hy⟩ := hcreated (f c) (w || ((l.manager.accountsTree.lookup id).isSome &&
    (l'.manager.accountsTree.lookup id).isNone))
  refine ⟨y, ?_⟩
  rw [Ledger.walk, rollbackStores_commit hspec hslot, hf c]
  exact hy

theorem createdSince_of_creates (hinv : Inv l') (hspec : Committed p l rmc stateDiff l')
    (hslot : slot ≤ l.manager.latestCommittedSlot) (hcreates : CreatesSlot l l' id) :
    CreatedSince slot id l' := by
  intro c w
  obtain ⟨y, hy⟩ := hcreates.found
    { (l'.manager.accountsTree.lookup id).getD (newAccountData id) with credits := c }
    (hinv.getD_id id)
  exact ⟨y, by rw [Ledger.walk, rollbackStores_commit hspec hslot, hy]; rfl⟩

/-! ## Section 2: Along a run -/

/-- A step that does not commit a slot leaves the walks alone. -/
theorem walk_congr (htree : l'.manager.accountsTree = l.manager.accountsTree)
    (hlatest : l'.manager.latestCommittedSlot = l.manager.latestCommittedSlot)
    (hdiffs : l'.manager.slotDiffs = l.manager.slotDiffs) (c : Credits) (w : Bool) :
    l'.walk slot id c w = l.walk slot id c w := by
  unfold Ledger.walk
  rw [htree, hlatest, hdiffs]

theorem Kept.congr (hkept : Kept slot id before l)
    (htree : l'.manager.accountsTree = l.manager.accountsTree)
    (hlatest : l'.manager.latestCommittedSlot = l.manager.latestCommittedSlot)
    (hdiffs : l'.manager.slotDiffs = l.manager.slotDiffs) : Kept slot id before l' := by
  constructor
  · rw [htree]
    exact hkept.1
  · intro c w
    rw [walk_congr htree hlatest hdiffs, htree]
    exact hkept.2 c w

theorem regular_round (hinv : Inv l) (hvalid : ValidStateDiff p l.accountOutput stateDiff)
    (hcommit : l.commitSlot p rmc stateDiff = some l')
    (hregular : RegularSlot p id l rmc stateDiff) :
    UndoesSlot l l' id
      (BurnRecorded p stateDiff id (l.manager.accountsTree.lookup id) (l.burn p rmc id)) ∨
    (stateDiff.created p id).isSome ∧ CreatesSlot l l' id := by
  apply commit_round hinv hvalid hcommit hregular.1
  intro hnone
  apply (hregular.2 hnone).imp_left
  intro huntouched
  have hspec := Ledger.commitSlot_spec hcommit
  obtain ⟨burns, _, hstages⟩ := hspec.accounts (hinv.future _ (Nat.lt_succ_self _))
  exact ((hstages id).absent (hinv.outputsMatch hvalid id) hnone).1 huntouched

/-- One step; the walk ends at a creation only where the account may be created. -/
theorem kept_or_created_step {creates : Prop} (hinv : Inv l)
    (hslot : slot ≤ l.manager.latestCommittedSlot)
    (hor : Kept slot id before l ∨ CreatedSince slot id l ∧ creates)
    (hregular : OnCommit (RegularSlot p id) l input)
    (hnot : OnCommit (NotCreated p id) l input ∨ creates) (h : step p l input = some l') :
    Kept slot id before l' ∨ CreatedSince slot id l' ∧ creates := by
  rcases step_cases h with
    ⟨rmc, stateDiff, rfl, hvalid, hcommit⟩ | ⟨_, _, htree, hlatest, hdiffs, _⟩
  · have hspec := Ledger.commitSlot_spec hcommit
    rcases regular_round hinv hvalid hcommit hregular with hundo | ⟨hnew, hcreates⟩
    · exact hor.imp (fun hkept => hkept.undo hspec hslot hundo)
        (And.imp_left fun hcreated => hcreated.undo hspec hslot hundo)
    · refine .inr ⟨createdSince_of_creates (step_inv hinv h) hspec hslot hcreates,
        hnot.resolve_left fun hnot => ?_⟩
      rw [hnot hcreates.before] at hnew
      cases hnew
  · apply hor.imp
    · exact fun hkept => hkept.congr htree hlatest hdiffs
    · rintro ⟨hcreated, hcreates⟩
      refine ⟨fun c w => ?_, hcreates⟩
      rw [walk_congr htree hlatest hdiffs]
      exact hcreated c w

theorem step_latest (h : step p l input = some l') :
    l.manager.latestCommittedSlot ≤ l'.manager.latestCommittedSlot := by
  rcases step_cases h with ⟨rmc, stateDiff, _, _, hcommit⟩ | ⟨_, _, _, hlatest, _, _⟩
  · rw [(Ledger.commitSlot_spec hcommit).latestCommittedSlot]
    omega
  · omega

theorem kept_start (l : Ledger) (id : AccountID) :
    Kept l.manager.latestCommittedSlot id (l.manager.accountsTree.lookup id) l := by
  refine ⟨fun hnone => hnone, fun c w => ⟨c, ?_⟩⟩
  unfold Ledger.walk
  rw [Nat.sub_self]
  have hflag : ((l.manager.accountsTree.lookup id).isSome &&
      (l.manager.accountsTree.lookup id).isNone) = false := by
    cases l.manager.accountsTree.lookup id <;> rfl
  rw [hflag, Bool.or_false]
  rfl

/-- What the walks report, along a run of regular slots. -/
theorem walk_reports {inputs : List Input} (hinv : Inv l)
    (hrun : run (step p) l inputs = some l')
    (hregular : AllSteps (step p) (OnCommit (RegularSlot p id)) l inputs)
    (hcreated : AllSteps (step p) (OnCommit (NotCreated p id)) l inputs ∨
      (l'.manager.accountsTree.lookup id).isSome = (l.manager.accountsTree.lookup id).isSome)
    (c : Credits) :
    l.manager.latestCommittedSlot ≤ l'.manager.latestCommittedSlot ∧
    ∃ y w, l'.walk l.manager.latestCommittedSlot id c false = some (y, w) ∧
      ((l'.manager.accountsTree.lookup id).isSome || w) =
        (l.manager.accountsTree.lookup id).isSome := by
  have hlatest : l.manager.latestCommittedSlot ≤ l'.manager.latestCommittedSlot :=
    run_invariant (I := fun s => l.manager.latestCommittedSlot ≤ s.manager.latestCommittedSlot)
      (fun _ _ _ hle hstep => Nat.le_trans hle (step_latest hstep)) (Nat.le_refl _) hrun
  refine ⟨hlatest, ?_⟩
  have hwalk : Kept l.manager.latestCommittedSlot id (l.manager.accountsTree.lookup id) l' ∨
      CreatedSince l.manager.latestCommittedSlot id l' ∧
        (l'.manager.accountsTree.lookup id).isSome =
          (l.manager.accountsTree.lookup id).isSome := by
    have hnot : AllSteps (step p) (fun s i => OnCommit (NotCreated p id) s i ∨ _) l inputs :=
      hcreated.elim (AllSteps.mono fun _ _ => .inl)
        fun hsame => allSteps_of_forall (fun _ _ _ => .inr hsame) l
    have hI := run_invariant_of (I := fun s =>
      Inv s ∧ l.manager.latestCommittedSlot ≤ s.manager.latestCommittedSlot ∧
        (Kept l.manager.latestCommittedSlot id (l.manager.accountsTree.lookup id) s ∨
          CreatedSince l.manager.latestCommittedSlot id s ∧ _))
      (fun s i s' hI hG hstep => ⟨step_inv hI.1 hstep, Nat.le_trans hI.2.1 (step_latest hstep),
        kept_or_created_step hI.1 hI.2.1 hI.2.2 hG.1 hG.2 hstep⟩)
      ⟨hinv, Nat.le_refl _, .inl (kept_start l id)⟩ (hregular.and hnot) hrun
    exact hI.2.2
  rcases hwalk with hkept | ⟨hcreated, hsame⟩
  · obtain ⟨c', hc'⟩ := hkept.2 c false
    refine ⟨_, _, hc', ?_⟩
    cases hbefore : l.manager.accountsTree.lookup id with
    | none =>
      rw [hkept.1 hbefore]
      rfl
    | some b => cases l'.manager.accountsTree.lookup id <;> rfl
  · obtain ⟨y, hy⟩ := hcreated c false
    exact ⟨y, false, hy, by rw [Bool.or_false, hsame]⟩

/-! ## Section 3: The reports -/

theorem Manager.pastAccount_insert (m : Manager) (slot : Nat) (result : Map AccountID AccountData)
    (k id : AccountID)
    (hresult : result.lookup id = none ∨ result.lookup id = m.pastAccount id slot) :
    (match m.pastAccount k slot with
      | none => result
      | some a => result.insert k a).lookup id =
      if id = k then m.pastAccount id slot else result.lookup id := by
  by_cases hid : id = k
  · subst hid
    rw [if_pos rfl]
    cases hpast : m.pastAccount id slot with
    | none => exact hresult.elim (fun h => h) fun h => h.trans hpast
    | some a => exact AList.lookup_insert result
  · rw [if_neg hid]
    cases m.pastAccount k slot with
    | none => rfl
    | some a => exact AList.lookup_insert_ne hid

theorem Manager.pastAccounts_lookup (m : Manager) (ids : List AccountID) (slot : Nat)
    (id : AccountID) :
    (m.pastAccounts ids slot).lookup id = if id ∈ ids then m.pastAccount id slot else none := by
  have hfold : ∀ (result : Map AccountID AccountData),
      result.lookup id = none ∨ result.lookup id = m.pastAccount id slot →
      (ids.foldl (fun result id =>
        match m.pastAccount id slot with
        | none => result
        | some a => result.insert id a) result).lookup id =
        if id ∈ ids then m.pastAccount id slot else result.lookup id := by
    induction ids with
    | nil => exact fun result _ => rfl
    | cons k ids ih =>
      intro result hresult
      have hround := m.pastAccount_insert slot result k id hresult
      rw [List.foldl_cons, ih, hround]
      · by_cases hmem : id ∈ ids
        · rw [if_pos hmem, if_pos (List.mem_cons_of_mem k hmem)]
        · rw [if_neg hmem]
          exact if_congr (by simp [hmem]) rfl rfl
      · rw [hround]
        split
        · exact .inr rfl
        · exact hresult
  exact hfold ∅ (.inl rfl)

theorem Ledger.pastAccount_of_walk (id : AccountID)
    (hslot : slot ≤ l.manager.latestCommittedSlot) (hretained : l.manager.prunedBelow ≤ slot + 1) :
    ∃ c, ∀ y w, l.walk slot id c false = some (y, w) →
      l.manager.pastAccount id slot =
        if (l.manager.accountsTree.lookup id).isNone ∧ w = false then none else some y := by
  -- the data starts with credits updated in the target slot if the account is not in the tree
  have hstart : ∃ c, (l.manager.accountsTree.lookup id).getD
      { newAccountData id with credits := ⟨0, slot⟩ } =
      { (l.manager.accountsTree.lookup id).getD (newAccountData id) with credits := c } := by
    cases l.manager.accountsTree.lookup id with
    | none => exact ⟨⟨0, slot⟩, rfl⟩
    | some a => exact ⟨a.credits, rfl⟩
  obtain ⟨c, hc⟩ := hstart
  refine ⟨c, fun y w hwalk => ?_⟩
  unfold pastAccount rollbackAccountTo
  dsimp only
  rw [rollbackAccountLoop_eq _ (by omega), hc]
  unfold Ledger.walk at hwalk
  rw [hwalk]

/-- `Account` and `PastAccounts` report the account at the slot `t` of `l` exactly if it
    was in the tree right after `t` was committed. -/
theorem account_exists_exact {inputs : List Input} (hreach : Reachable p l)
    (hrun : run (step p) l inputs = some l')
    (hregular : AllSteps (step p) (OnCommit (RegularSlot p id)) l inputs)
    (hcreated : AllSteps (step p) (OnCommit (NotCreated p id)) l inputs ∨
      (l'.manager.accountsTree.lookup id).isSome = (l.manager.accountsTree.lookup id).isSome)
    (hretained : l'.manager.prunedBelow ≤ l.manager.latestCommittedSlot + 1) :
    (∃ r, l'.manager.account id l.manager.latestCommittedSlot = some r ∧
      (r.isSome ↔ (l.manager.accountsTree.lookup id).isSome)) ∧
    ∀ ids, ((l'.manager.pastAccounts ids l.manager.latestCommittedSlot).lookup id).isSome ↔
      id ∈ ids ∧ (l.manager.accountsTree.lookup id).isSome := by
  have hreports := walk_reports hreach.inv hrun hregular hcreated
  constructor
  · obtain ⟨hlatest, y, w, hwalk, hflag⟩ := hreports
      ((l'.manager.accountsTree.lookup id).getD (newAccountData id)).credits
    refine ⟨_, account_of_rollbackStores hlatest hretained hwalk, ?_⟩
    rw [← hflag]
    cases l'.manager.accountsTree.lookup id <;> cases w <;> simp
  · intro ids
    obtain ⟨c, hpast⟩ := Ledger.pastAccount_of_walk id (hreports ⟨0, 0⟩).1 hretained
    obtain ⟨_, y, w, hwalk, hflag⟩ := hreports c
    rw [pastAccounts_lookup, hpast y w hwalk, ← hflag]
    by_cases hmem : id ∈ ids
    · rw [if_pos hmem]
      cases l'.manager.accountsTree.lookup id <;> cases w <;> simp [hmem]
    · simp [hmem]

instance (m : Manager) (stateDiff : StateDiff) : Decidable (Untouched p m stateDiff id) :=
  inferInstanceAs (Decidable (_ ∧ _ ∧ _ ∧ _))

instance (rmc : UInt64) (stateDiff : StateDiff) : Decidable (RegularSlot p id l rmc stateDiff) :=
  inferInstanceAs (Decidable (_ ∧ (_ → _)))

instance (rmc : UInt64) (stateDiff : StateDiff) : Decidable (NotCreated p id l rmc stateDiff) :=
  inferInstanceAs (Decidable (_ → _))

/-- Slot 1: the account is destroyed. -/
def sampleDestruction : List Input := [.commitSlot 1 ⟨[], [], [sampleOutput 10]⟩]

/-- A destroyed account, asked for at a slot at which it existed. -/
theorem account_exists_exact_destruction :
    ∃ l l', genesis 0 [(sampleOutput 10, 100)] = some l ∧
      run (step sampleParams) l sampleDestruction = some l' ∧
      l'.manager.accountsTree.lookup 1 = none ∧
      (∃ r, l'.manager.account 1 0 = some r ∧ r.isSome) ∧
      ((l'.manager.pastAccounts [1] 0).lookup 1).isSome := by
  obtain ⟨l, hgenesis, hlatest, hsome, hregular, hnot, l', hl', hnone, hretained⟩ :
      ∃ l, genesis 0 [(sampleOutput 10, 100)] = some l ∧
        l.manager.latestCommittedSlot = 0 ∧ (l.manager.accountsTree.lookup 1).isSome ∧
        AllSteps (step sampleParams) (OnCommit (RegularSlot sampleParams 1)) l sampleDestruction ∧
        AllSteps (step sampleParams) (OnCommit (NotCreated sampleParams 1)) l sampleDestruction ∧
        ∃ l', run (step sampleParams) l sampleDestruction = some l' ∧
          l'.manager.accountsTree.lookup 1 = none ∧ l'.manager.prunedBelow ≤ 1 := by
    decide +kernel
  have hreach : Reachable sampleParams l := ⟨0, _, [], l, hgenesis, rfl⟩
  have hexact := account_exists_exact hreach hl' hregular (.inl hnot)
    (by rw [hlatest]; exact hretained)
  rw [hlatest] at hexact
  obtain ⟨⟨r, hr, hiff⟩, hpast⟩ := hexact
  exact ⟨l, l', hgenesis, hl', hnone, ⟨r, hr, hiff.mpr hsome⟩,
    (hpast [1]).mpr ⟨List.mem_singleton.mpr rfl, hsome⟩⟩

/-- Slot 1: an account is created.  Its ID is that of the output. -/
def sampleCreation : List Input :=
  [.commitSlot 1 ⟨[], [.account 10 none (some ⟨100, {7}⟩) none], []⟩]

/-- An account that is created in slot 1 is reported to exist at slot 0. -/
theorem account_exists_before_creation :
    ∃ l l', genesis 0 [] = some l ∧ run (step sampleParams) l sampleCreation = some l' ∧
      l.manager.latestCommittedSlot = 0 ∧ l'.manager.prunedBelow ≤ 1 ∧
      l.manager.accountsTree.lookup 1010 = none ∧
      (∃ a, l'.manager.account 1010 0 = some (some a)) ∧
      ((l'.manager.pastAccounts [1010] 0).lookup 1010).isSome := by
  obtain ⟨l, hgenesis, hlatest, hnone, l', hl', hretained, ⟨r, hr, hsome⟩, hpast⟩ :
      ∃ l, genesis 0 [] = some l ∧ l.manager.latestCommittedSlot = 0 ∧
        l.manager.accountsTree.lookup 1010 = none ∧
        ∃ l', run (step sampleParams) l sampleCreation = some l' ∧ l'.manager.prunedBelow ≤ 1 ∧
          (∃ r, l'.manager.account 1010 0 = some r ∧ r.isSome) ∧
          ((l'.manager.pastAccounts [1010] 0).lookup 1010).isSome := by
    decide +kernel
  obtain ⟨a, rfl⟩ := Option.isSome_iff_exists.mp hsome
  exact ⟨l, l', hgenesis, hl', hlatest, hretained, hnone, ⟨a, hr⟩, hpast⟩

end AxonCore.Accounts

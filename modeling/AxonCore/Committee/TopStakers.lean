import AxonCore.Storage.Model
import AxonCore.Committee.SeatAssignment

/-! # The seat manager

    The committee of an epoch is either elected from the candidates with the most stake
    (`RotateCommittee`) or taken over from the epoch before (`ReuseCommittee`).  Both store
    it for the epoch.

    In every epoch the seats are an injective assignment of one seat to every member, and
    an account that is in the committees of two consecutive epochs has the same seat in
    both. -/

namespace AxonCore.Committee

open AxonCore.Lib AxonCore.Stores List Option

variable {ID α : Type} [LinearOrder ID]

/-! ## Section 1: The model -/

/-- `accounts.AccountData`, as far as the election reads it. -/
structure AccountData (ID : Type) where
  id : ID
  validatorStake : Nat
  delegationStake : Nat
  stakeEndEpoch : Nat
  fixedCost : Nat
  deriving DecidableEq, Repr

/-- `ValidatorStake() + DelegationStake()`, a sum of 64-bit words. -/
def AccountData.poolStake (c : AccountData ID) : Nat :=
  (c.validatorStake + c.delegationStake) % wordSize

/-- The order of the candidates: larger pool stake, larger validator stake, longer staking
    period, smaller fixed cost, larger account ID. -/
def AccountData.before (c d : AccountData ID) : Bool :=
  if c.poolStake ≠ d.poolStake then c.poolStake > d.poolStake
  else if c.validatorStake ≠ d.validatorStake then c.validatorStake > d.validatorStake
  else if c.stakeEndEpoch ≠ d.stakeEndEpoch then c.stakeEndEpoch > d.stakeEndEpoch
  else if c.fixedCost ≠ d.fixedCost then c.fixedCost < d.fixedCost
  else c.id > d.id

/-- The pool of a candidate. -/
def AccountData.pool (c : AccountData ID) : Pool :=
  ⟨c.poolStake, c.validatorStake, c.fixedCost⟩

/-- `SeatManager`, as far as it stores committees. -/
structure SeatManager (ID : Type) where
  committeeStore : EpochStore (SeatedAccounts ID)

/-- `ProtocolParameters().TargetCommitteeSize()` of the epochs. -/
abbrev TargetCommitteeSize := Nat → UInt8

namespace SeatManager

variable (targetCommitteeSize : TargetCommitteeSize)

/-- `selectNewCommitteeAccounts`. -/
def selectNewCommitteeAccounts (epoch : Nat) (candidates : List (AccountData ID)) :
    Except Failure (Accounts ID) :=
  let sorted := candidates.insertionSort fun c d => c.before d = true
  let committeeSize := min candidates.length (targetCommitteeSize epoch).toNat
  (sorted.take committeeSize).foldlM
    (fun newCommitteeAccounts c => liftArithmetic (newCommitteeAccounts.set c.id c.pool))
    Accounts.new

variable (s : SeatManager ID)

/-- The committee of the epoch before, if there is one; else a committee without accounts. -/
def prevCommittee (epoch : Nat) : SeatedAccounts ID :=
  if epoch > 0 then (s.committeeStore.load (epoch - 1)).getD (.new .new) else .new .new

/-- The selected accounts get their seats and are stored. -/
def storeSeated (epoch : Nat) (committeeAccounts : Accounts ID) : Except Failure (SeatManager ID) :=
  match committeeAccounts.seatedAccounts (s.prevCommittee epoch) with
  | none => .error .diverges
  | some newCommittee => .ok ⟨s.committeeStore.store epoch newCommittee⟩

/-- `RotateCommittee`. -/
def rotateCommittee (epoch : Nat) (candidates : List (AccountData ID)) :
    Except Failure (SeatManager ID) :=
  if candidates = [] then .error .noCandidates
  else (selectNewCommitteeAccounts targetCommitteeSize epoch candidates).bind
    (s.storeSeated epoch)

/-- `ReuseCommittee`. -/
def reuseCommittee (currentEpoch targetEpoch : Nat) : Except Failure (SeatManager ID) :=
  match s.committeeStore.load currentEpoch with
  | none => .error .notFound
  | some currentCommittee =>
    if currentCommittee.seatCount = 0 then .error .emptyCommittee
    else currentCommittee.reuse.bind fun newCommittee =>
      .ok ⟨s.committeeStore.store targetEpoch newCommittee⟩

end SeatManager

/-- The selection of a committee. -/
inductive Selection (ID : Type) where
  | rotate (candidates : List (AccountData ID))
  | reuse

/-- A seat manager that selects the committees of one epoch after the other. -/
structure Elections (ID : Type) where
  seatManager : SeatManager ID
  /-- The epoch whose committee is selected next. -/
  epoch : Nat

namespace Elections

variable (targetCommitteeSize : TargetCommitteeSize)

/-- The seat manager after a selection for the next epoch.  There is no epoch before the
    first one whose committee could be reused. -/
def select (s : Elections ID) : Selection ID → Except Failure (SeatManager ID)
  | .rotate candidates => s.seatManager.rotateCommittee targetCommitteeSize s.epoch candidates
  | .reuse =>
    if s.epoch = 0 then .error .notFound
    else s.seatManager.reuseCommittee (s.epoch - 1) s.epoch

/-- One selection.  After an error nothing is stored, and another selection may follow for
    the same epoch or, with `advance`, for the next one.  `none` is a panic or a loop that
    never ends. -/
def step (s : Elections ID) (i : Selection ID × Bool) : Option (Elections ID) :=
  match s.select targetCommitteeSize i.1 with
  | .ok seatManager => some ⟨seatManager, if i.2 then s.epoch + 1 else s.epoch⟩
  | .error .notFound => none
  | .error .diverges => none
  | .error _ => some ⟨s.seatManager, if i.2 then s.epoch + 1 else s.epoch⟩

/-- No committee is stored yet. -/
def init (epoch : Nat) : Elections ID := ⟨⟨EpochStore.empty⟩, epoch⟩

end Elections

/-! ## Section 2: What an election stores -/

theorem liftArithmetic_eq_ok {x : Except ArithmeticError α} {r : α} :
    liftArithmetic x = .ok r ↔ x = .ok r := by
  cases x <;> simp [liftArithmetic]

variable {a a' : Accounts ID} {id : ID} {pool : Pool}

theorem Accounts.set_accountPools (h : a.set id pool = .ok a') :
    a'.accountPools = a.accountPools.insert id pool := by
  obtain ⟨_, _, h⟩ := bind_eq_ok.mp h
  obtain ⟨_, _, h⟩ := bind_eq_ok.mp h
  obtain ⟨_, _, h⟩ := bind_eq_ok.mp h
  exact (congrArg Accounts.accountPools (Except.ok.inj h)).symm

theorem Accounts.has_set (h : a.set id pool = .ok a') (j : ID) :
    a'.has j = (decide (j = id) || a.has j) := by
  unfold Accounts.has
  rw [a.set_accountPools h, lookup_insert_eq]
  by_cases hj : j = id <;> simp [hj]

theorem Accounts.length_ids_set (h : a.set id pool = .ok a') :
    a'.ids.length ≤ a.ids.length + 1 := by
  unfold Accounts.ids
  rw [a.set_accountPools h, AList.keys_insert, length_cons]
  exact Nat.succ_le_succ length_erase_le

variable {targetCommitteeSize : TargetCommitteeSize} {c : SeatedAccounts ID}

/-- At most `TargetCommitteeSize` accounts are selected, a number of eight bits. -/
theorem SeatManager.selectNewCommitteeAccounts_size {epoch : Nat}
    {candidates : List (AccountData ID)}
    (h : selectNewCommitteeAccounts targetCommitteeSize epoch candidates = .ok a) :
    a.ids.length ≤ 255 := by
  have hinv := foldlM_ok (I := fun todo (b : Accounts ID) => b.ids.length + todo.length ≤ 255)
    ?_ ?_ h
  · exact hinv
  · intro c todo b b' hI hset
    have hle := b.length_ids_set (liftArithmetic_eq_ok.mp hset)
    rw [length_cons] at hI
    omega
  · -- the loop starts with the candidates that are taken from the sorted list
    have htake := length_take_le (min candidates.length (targetCommitteeSize epoch).toNat)
      (candidates.insertionSort fun c d => c.before d = true)
    have hword := (targetCommitteeSize epoch).toNat_lt
    show 0 + _ ≤ 255
    omega

theorem liftArithmetic_ne_diverges (x : Except ArithmeticError α) :
    liftArithmetic x ≠ .error .diverges := by
  cases x <;> simp [liftArithmetic]

/-! ## Section 3: What a reuse stores -/

theorem SeatedAccounts.has_accountsOf {s : SeatedAccounts ID} (h : s.accountsOf = .ok a) (id : ID) :
    a.has id = (s.getSeat id).isSome := by
  -- the accounts collected so far and those still to come are the accounts with a seat
  have hinv := foldlM_ok
    (I := fun todo (b : Accounts ID) => ∀ j, (b.has j = true ∨ j ∈ todo) ↔ (s.getSeat j).isSome)
    ?_ ?_ h
  · rw [Bool.eq_iff_iff, ← hinv id]
    simp
  · intro j todo b b' hI hadd k
    unfold addAccount at hadd
    split at hadd
    · cases hadd
    · rw [b.has_set (liftArithmetic_eq_ok.mp hadd), ← hI k]
      simp only [Bool.or_eq_true, decide_eq_true_eq, mem_cons]
      tauto
  · intro j
    rw [mem_keys_iff]
    simp [Accounts.new, Accounts.has, getSeat]

theorem SeatedAccounts.reuse_ne_diverges (s : SeatedAccounts ID) : s.reuse ≠ .error .diverges := by
  unfold reuse
  cases h : s.accountsOf with
  | ok a => exact fun h => nomatch h
  | error e =>
    intro hdiverges
    have he : e = .diverges := Except.error.inj hdiverges
    refine foldlM_ne_error (fun b id => ?_) _ _ (he ▸ h)
    unfold addAccount
    split
    · simp
    · exact liftArithmetic_ne_diverges _

theorem SeatedAccounts.reuse_spec {s : SeatedAccounts ID} (hs : Seated s) (h : s.reuse = .ok c) :
    Seated c ∧ c.reused = true ∧ s.accountsOf = .ok c.accounts ∧
      ∀ id, c.getSeat id = s.getSeat id := by
  obtain ⟨a, ha, hc⟩ := bind_eq_ok.mp h
  have hc := (Except.ok.inj hc).symm
  -- the loop over the entries is the first pass of a new committee
  have hloop : c = s.seatsByAccount.keys.foldl (keepSeat s) { new a with reused := true } := by
    rw [hc, AList.keys, keys, foldl_map]
    apply foldl_ext
    intro new e he
    have hseat : s.getSeat e.1 = some e.2 := AList.mem_lookup_iff.mpr he
    unfold keepSeat
    rw [hseat]
  have hinit : ∀ id ∈ s.seatsByAccount.keys,
      ({ new a with reused := true } : SeatedAccounts ID).accounts.has id = true ∧
      ({ new a with reused := true } : SeatedAccounts ID).getSeat id = none := by
    intro id hid
    constructor
    · show a.has id = true
      rw [has_accountsOf ha]
      exact (mem_keys_iff s.seatsByAccount id).mp hid
    · rfl
  obtain ⟨haccounts, hreused, hseats⟩ := foldl_keepSeat s _ s.seatsByAccount.keys_nodup hinit
  rw [← hloop] at haccounts hreused hseats
  have hsame : ∀ id, c.getSeat id = s.getSeat id := by
    intro id
    rw [hseats id]
    split
    · rfl
    · rename_i hid
      rw [mem_keys_iff, Bool.not_eq_true, isSome_eq_false_iff, isNone_iff_eq_none] at hid
      exact hid.symm
  constructor
  · exact {
      members := by
        intro id
        rw [hsame, haccounts]
        exact (has_accountsOf ha id).symm
      distinct := by
        intro id id' seat hid hid'
        rw [hsame] at hid hid'
        exact hs.distinct hid hid' }
  · exact ⟨hreused, haccounts ▸ ha, hsame⟩

/-! ## Section 4: Every epoch is seated -/

/-- The committee that a selection stores. -/
structure Selected (s : Elections ID) (m : SeatManager ID) (c : SeatedAccounts ID) : Prop where
  stored : m.committeeStore = s.seatManager.committeeStore.store s.epoch c
  seated : Seated c
  /-- Members of the epoch before have their old seats. -/
  kept : ∀ prev id, 0 < s.epoch →
    s.seatManager.committeeStore.load (s.epoch - 1) = some prev →
    prev.accounts.has id = true → c.accounts.has id = true → c.getSeat id = prev.getSeat id

/-- The invariant of the elections. -/
structure Elections.Inv (s : Elections ID) : Prop where
  seated : ∀ {epoch : Nat} {c : SeatedAccounts ID},
    s.seatManager.committeeStore.load epoch = some c → Seated c
  kept : ∀ {epoch : Nat} {c c' : SeatedAccounts ID} {id : ID},
    s.seatManager.committeeStore.load epoch = some c →
    s.seatManager.committeeStore.load (epoch + 1) = some c' →
    c.accounts.has id = true → c'.accounts.has id = true → c'.getSeat id = c.getSeat id
  /-- Nothing is stored for later epochs. -/
  future : ∀ {epoch : Nat}, s.epoch < epoch → s.seatManager.committeeStore.load epoch = none

variable {s : Elections ID}

theorem SeatManager.seated_prevCommittee {m : SeatManager ID}
    (h : ∀ {epoch : Nat} {c : SeatedAccounts ID}, m.committeeStore.load epoch = some c → Seated c)
    (epoch : Nat) : Seated (m.prevCommittee epoch) := by
  unfold prevCommittee
  split
  · cases hload : m.committeeStore.load (epoch - 1) with
    | none => exact seated_new
    | some c => exact h hload
  · exact seated_new

/-- A rotation never runs forever, and what it stores is seated. -/
theorem Elections.Inv.rotate (h : s.Inv) (candidates : List (AccountData ID)) :
    s.seatManager.rotateCommittee targetCommitteeSize s.epoch candidates ≠ .error .diverges ∧
    ∀ m, s.seatManager.rotateCommittee targetCommitteeSize s.epoch candidates = .ok m →
      ∃ c, Selected s m c := by
  unfold SeatManager.rotateCommittee
  by_cases hempty : candidates = []
  · simp [hempty]
  rw [if_neg hempty]
  cases haccounts :
      SeatManager.selectNewCommitteeAccounts targetCommitteeSize s.epoch candidates with
  | error e =>
    constructor
    · intro hdiverges
      have he : e = .diverges := Except.error.inj hdiverges
      exact foldlM_ne_error (fun _ _ => liftArithmetic_ne_diverges _) _ _ (he ▸ haccounts)
    · exact fun m hm => nomatch hm
  | ok a =>
    obtain ⟨c, hc, hac, _, hseated, hkept⟩ :=
      a.seatedAccounts_spec (SeatManager.selectNewCommitteeAccounts_size haccounts)
        (SeatManager.seated_prevCommittee h.seated _)
    have hstore : s.seatManager.storeSeated s.epoch a =
        .ok ⟨s.seatManager.committeeStore.store s.epoch c⟩ := by
      unfold SeatManager.storeSeated
      rw [hc]
    show s.seatManager.storeSeated s.epoch a ≠ .error .diverges ∧
      ∀ m, s.seatManager.storeSeated s.epoch a = .ok m → ∃ c, Selected s m c
    rw [hstore]
    constructor
    · exact fun h => nomatch h
    intro m hm
    have hm := Except.ok.inj hm
    refine ⟨c, by rw [← hm], hseated, ?_⟩
    intro prev id hpos hload hprev hid
    have hprevCommittee : s.seatManager.prevCommittee s.epoch = prev := by
      unfold SeatManager.prevCommittee
      rw [if_pos hpos, hload]
      rfl
    rw [hprevCommittee] at hkept
    apply hkept id (hac ▸ hid)
    rw [← isSome_iff_ne_none, (h.seated hload).members]
    exact hprev

theorem Elections.Inv.reuse (h : s.Inv) :
    s.seatManager.reuseCommittee (s.epoch - 1) s.epoch ≠ .error .diverges ∧
    ∀ m, s.seatManager.reuseCommittee (s.epoch - 1) s.epoch = .ok m → ∃ c, Selected s m c := by
  unfold SeatManager.reuseCommittee
  cases hload : s.seatManager.committeeStore.load (s.epoch - 1) with
  | none => simp
  | some current =>
    by_cases hempty : current.seatCount = 0
    · simp [hempty]
    simp only [if_neg hempty]
    cases hreuse : current.reuse with
    | error e =>
      constructor
      · intro hdiverges
        have he : e = .diverges := Except.error.inj hdiverges
        exact SeatedAccounts.reuse_ne_diverges current (he ▸ hreuse)
      · exact fun m hm => nomatch hm
    | ok c =>
      obtain ⟨hseated, _, _, hsame⟩ := SeatedAccounts.reuse_spec (h.seated hload) hreuse
      constructor
      · exact fun h => nomatch h
      intro m hm
      have hm : ⟨s.seatManager.committeeStore.store s.epoch c⟩ = m := Except.ok.inj hm
      refine ⟨c, by rw [← hm], hseated, ?_⟩
      intro prev id _ hload' _ _
      rw [hload, some.injEq] at hload'
      rw [hsame, hload']

theorem Elections.Inv.select (h : s.Inv) (selection : Selection ID) :
    s.select targetCommitteeSize selection ≠ .error .diverges ∧
    ∀ m, s.select targetCommitteeSize selection = .ok m → ∃ c, Selected s m c := by
  cases selection with
  | rotate candidates => exact h.rotate candidates
  | reuse =>
    unfold Elections.select
    by_cases hzero : s.epoch = 0
    · simp [hzero]
    · simp only [if_neg hzero]
      exact h.reuse

theorem Elections.Inv.stored {m : SeatManager ID} (h : s.Inv) (hc : Selected s m c) :
    Elections.Inv ⟨m, s.epoch⟩ := by
  have hload : ∀ e, m.committeeStore.load e =
      if e = s.epoch then some c else s.seatManager.committeeStore.load e := by
    intro e
    rw [hc.stored, EpochStore.load_store]
  constructor
  case seated =>
    intro e d hd
    rw [hload] at hd
    split at hd
    · exact some.inj hd ▸ hc.seated
    · exact h.seated hd
  case kept =>
    intro e d d' id hd hd' hid hid'
    rw [hload] at hd hd'
    by_cases hnext : e + 1 = s.epoch
    · -- the new committee and the one before it
      have hne : e ≠ s.epoch := by omega
      have hprev : s.epoch - 1 = e := by omega
      rw [if_neg hne] at hd
      rw [if_pos hnext, some.injEq] at hd'
      subst hd'
      exact hc.kept d id (by omega) (hprev ▸ hd) hid hid'
    · rw [if_neg hnext] at hd'
      by_cases he : e = s.epoch
      · -- no committee is stored after the new one
        rw [h.future (by omega)] at hd'
        cases hd'
      · rw [if_neg he] at hd
        exact h.kept hd hd' hid hid'
  case future =>
    intro e he
    have he : s.epoch < e := he
    have hne : e ≠ s.epoch := by omega
    rw [hload, if_neg hne]
    exact h.future he

theorem Elections.Inv.advance (h : s.Inv) (next : Bool) :
    Elections.Inv ⟨s.seatManager, if next then s.epoch + 1 else s.epoch⟩ where
  seated := h.seated
  kept := h.kept
  future := by
    intro e he
    apply h.future
    change (if next then s.epoch + 1 else s.epoch) < e at he
    split at he <;> omega

theorem Elections.Inv.step {s' : Elections ID} {i : Selection ID × Bool} (h : s.Inv)
    (hstep : Elections.step targetCommitteeSize s i = some s') : s'.Inv := by
  unfold Elections.step at hstep
  split at hstep
  · rename_i m hm
    obtain ⟨c, hc⟩ := (h.select i.1).2 m hm
    have hs' := some.inj hstep
    exact hs' ▸ (h.stored hc).advance i.2
  · cases hstep
  · cases hstep
  · have hs' := some.inj hstep
    exact hs' ▸ h.advance i.2

theorem Elections.inv_init (epoch : Nat) : (Elections.init epoch : Elections ID).Inv where
  seated h := nomatch h
  kept h := nomatch h
  future _ := rfl

/-- In every epoch, each member of the committee has exactly one seat and no two members
    share a seat; a member of two consecutive committees keeps its seat; and the next
    selection never runs forever. -/
theorem seats_assigned (targetCommitteeSize : TargetCommitteeSize) {first : Nat}
    {selections : List (Selection ID × Bool)} {s : Elections ID}
    (hrun : run (Elections.step targetCommitteeSize) (Elections.init first) selections = some s) :
    (∀ epoch c, s.seatManager.committeeStore.load epoch = some c →
      (∀ id, id ∈ c.ids ↔ ∃! seat, c.getSeat id = some seat) ∧
      ∀ id id' seat, c.getSeat id = some seat → c.getSeat id' = some seat → id = id') ∧
    (∀ epoch c c' id, s.seatManager.committeeStore.load epoch = some c →
      s.seatManager.committeeStore.load (epoch + 1) = some c' → id ∈ c.ids → id ∈ c'.ids →
      c'.getSeat id = c.getSeat id) ∧
    ∀ selection, s.select targetCommitteeSize selection ≠ .error .diverges := by
  have h : s.Inv := run_invariant (fun _ _ _ hs hstep => hs.step hstep)
    (Elections.inv_init first) hrun
  constructor
  · intro epoch c hc
    have hseated := h.seated hc
    constructor
    · intro id
      rw [SeatedAccounts.ids, Accounts.mem_ids, ← hseated.members, isSome_iff_exists]
      constructor
      · rintro ⟨seat, hseat⟩
        exact ⟨seat, hseat, fun seat' hseat' => some.inj (hseat'.symm.trans hseat)⟩
      · rintro ⟨seat, hseat, _⟩
        exact ⟨seat, hseat⟩
    · exact fun id id' seat => hseated.distinct
  constructor
  · intro epoch c c' id hc hc' hid hid'
    exact h.kept hc hc' ((c.accounts.mem_ids id).mp hid) ((c'.accounts.mem_ids id).mp hid')
  · exact fun selection => (h.select selection).1

/-- Three elections: 7 and 9 are elected, the committee is reused, then 7 is replaced by 5
    and 8. -/
def threeElections : List (Selection Nat × Bool) :=
  [(.rotate [⟨7, 3, 0, 9, 1⟩, ⟨9, 2, 1, 9, 1⟩], true), (.reuse, true),
    (.rotate [⟨5, 4, 0, 9, 1⟩, ⟨8, 3, 0, 9, 1⟩, ⟨9, 2, 1, 9, 1⟩], true)]

theorem seats_assigned_threeElections :
    ∃ s, run (Elections.step fun _ => 3) (Elections.init 0) threeElections = some s ∧
      (∃ c, s.seatManager.committeeStore.load 2 = some c ∧ c.getSeat 5 = some 0 ∧
        c.getSeat 9 = some 1 ∧ c.getSeat 8 = some 2) ∧
      ∀ epoch c c' id, s.seatManager.committeeStore.load epoch = some c →
        s.seatManager.committeeStore.load (epoch + 1) = some c' → id ∈ c.ids → id ∈ c'.ids →
        c'.getSeat id = c.getSeat id := by
  refine exists_result (by decide +kernel) fun s hrun _ => ?_
  exact (seats_assigned (fun _ => 3) hrun).2.1

end AxonCore.Committee

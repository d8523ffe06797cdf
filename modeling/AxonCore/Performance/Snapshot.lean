import AxonCore.Performance.Claiming

/-! # Snapshots of the tracker

    `Export` writes four collections for a target slot: the performances in the slots of the epoch
    in progress, the rewards of the retention period, the statistics, and the committees.  Each is
    cut off by a rule of its own.  `Import` reads them into the stores of an empty tracker.

    The codec is lossless: a snapshot is the data that is written.  An epoch store has no entry
    after `lastAccessedEpoch`, so streaming it visits the epochs up to that one.  An epoch is longer
    than `MaxCommittableAge`, so the point of no return is a slot of the epoch. -/

namespace AxonCore.Performance

open AxonCore.Lib AxonCore.Committee AxonCore.Stores Function List Option SeatedAccounts
  EpochStore AList

variable {ID Hash : Type} [LinearOrder ID] {a : Accounts ID}

/-! ## Section 1: Export -/

/-- The collections of a snapshot, by slot or epoch. -/
structure Snapshot (ID Hash : Type) where
  performanceFactors : List (Nat × List (Sigma fun _ : ID => ValidatorPerformance Hash))
  poolRewards : List (Nat × List (Sigma fun _ : ID => PoolRewards))
  poolsStats : List (Nat × PoolsStats)
  /-- The accounts and the reused flag. -/
  committees : List (Nat × List (Sigma fun _ : ID => Pool) × Bool)

namespace Node

variable (p : Params) (n : Node ID Hash)

/-- `exportPerformanceFactor`; a slot that was pruned is an error. -/
def exportPerformanceFactor (startSlot targetSlot : Nat) :
    Option (List (Nat × List (Sigma fun _ : ID => ValidatorPerformance Hash))) :=
  let slots := upTo startSlot targetSlot
  if slots.all fun slot => (n.tracker.validatorPerformances slot).isSome then
    some (collection slots fun slot =>
      (n.tracker.validatorPerformances slot).map entries)
  else none

/-- The first epoch whose rewards are exported. -/
def exportedRewardEpoch (targetEpoch : Nat) : Nat :=
  if targetEpoch > p.retentionPeriod targetEpoch then targetEpoch - p.retentionPeriod targetEpoch
  else 0

/-- `exportPoolRewards`: from the target epoch back to the first one; an epoch that was pruned is
    an error. -/
def exportPoolRewards (targetEpoch : Nat) :
    Option (List (Nat × List (Sigma fun _ : ID => PoolRewards))) :=
  let epochs := (upTo (exportedRewardEpoch p targetEpoch) targetEpoch).reverse
  if epochs.all fun epoch => decide (n.firstRetainedEpoch ≤ epoch) then
    some (collection epochs fun epoch => (n.tracker.rewards.load epoch).map entries)
  else none

/-- `exportPoolsStats`. -/
def exportPoolsStats (targetEpoch : Nat) : List (Nat × PoolsStats) :=
  collection (upTo 0 n.tracker.poolStatsStore.lastAccessedEpoch) fun epoch =>
    if epoch > targetEpoch then none else n.tracker.poolStatsStore.load epoch

/-- The committee of an epoch, if it is not skipped. -/
def exportedCommittee (targetSlot epoch : Nat) : Option (SeatedAccounts ID) :=
  let epochFromTargetSlot := p.timeProvider.epochFromSlot targetSlot
  let pointOfNoReturn := p.timeProvider.epochEnd epochFromTargetSlot - p.maxCommittableAge
  (n.tracker.committeeStore.load epoch).filter fun committee =>
    !(decide (epoch > epochFromTargetSlot) && decide (targetSlot < pointOfNoReturn) &&
      committee.reused)

/-- `exportCommittees`; a seat without an account is an error. -/
def exportCommittees (targetSlot : Nat) :
    Option (List (Nat × List (Sigma fun _ : ID => Pool) × Bool)) :=
  let epochs := upTo 0 n.tracker.committeeStore.lastAccessedEpoch
  if epochs.all fun epoch => (n.exportedCommittee p targetSlot epoch).all fun committee =>
      committee.accountsOf.toOption.isSome then
    some (collection epochs fun epoch =>
      (n.exportedCommittee p targetSlot epoch).bind fun committee =>
      committee.accountsOf.toOption.map fun accounts =>
        (accounts.accountPools.entries, committee.reused))
  else none

variable (targetSlotIndex : Nat)

/-- The target epoch of `Export`: the last epoch that was committed, or epoch 0. -/
def exportTargetEpoch : Nat :=
  let targetEpoch := p.timeProvider.epochFromSlot targetSlotIndex
  if p.timeProvider.epochEnd targetEpoch ≠ targetSlotIndex ∧ targetEpoch > 0 then targetEpoch - 1
  else targetEpoch

/-- The first slot whose performances are exported. -/
def exportStartSlot : Nat :=
  let targetEpoch := exportTargetEpoch p targetSlotIndex
  p.timeProvider.epochStart (targetEpoch + if targetEpoch = 0 then 0 else 1)

/-- `Export`. -/
def exportSnapshot : Option (Snapshot ID Hash) :=
  let targetEpoch := exportTargetEpoch p targetSlotIndex
  (n.exportPerformanceFactor (exportStartSlot p targetSlotIndex) targetSlotIndex).bind
    fun performanceFactors =>
      (n.exportPoolRewards p targetEpoch).bind fun poolRewards =>
        (n.exportCommittees p targetSlotIndex).map fun committees =>
          ⟨performanceFactors, poolRewards, n.exportPoolsStats targetEpoch, committees⟩

end Node

/-! ## Section 2: Import -/

namespace Tracker

/-- Entries that are set one by one. -/
def setAll {ν : Type} (m : Map ID ν) (entries : List (Sigma fun _ : ID => ν)) : Map ID ν :=
  entries.foldl (fun m e => m.insert e.1 e.2) m

/-- One slot of `importPerformanceFactor`. -/
def importSlot (performances : Nat → Option (Map ID (ValidatorPerformance Hash)))
    (e : Nat × List (Sigma fun _ : ID => ValidatorPerformance Hash)) :
    Option (Nat → Option (Map ID (ValidatorPerformance Hash))) :=
  (performances e.1).map fun m => update performances e.1 (some (setAll m e.2))

/-- One epoch of `importPoolRewards`. -/
def importEpochRewards (rewards : EpochStore (Map ID PoolRewards))
    (e : Nat × List (Sigma fun _ : ID => PoolRewards)) : Option (EpochStore (Map ID PoolRewards)) :=
  some (rewards.store e.1 (setAll ((rewards.load e.1).getD ∅) e.2))

/-- One epoch of `importPoolsStats`. -/
def importEpochStats (poolStatsStore : EpochStore PoolsStats) (e : Nat × PoolsStats) :
    Option (EpochStore PoolsStats) :=
  some (poolStatsStore.store e.1 e.2)

/-- `AccountsFromReader`. -/
def accountsFromReader (entries : List (Sigma fun _ : ID => Pool)) :
    Except ArithmeticError (Accounts ID) :=
  entries.foldlM (fun accounts e => accounts.set e.1 e.2) Accounts.new

/-- One epoch of `importCommittees`: the seats are assigned anew. -/
def importCommittee (committeeStore : EpochStore (SeatedAccounts ID))
    (e : Nat × List (Sigma fun _ : ID => Pool) × Bool) : Option (EpochStore (SeatedAccounts ID)) :=
  (accountsFromReader e.2.1).toOption.bind fun committeeAccounts =>
    (committeeAccounts.seatedAccounts (new Accounts.new)).map fun committee =>
      committeeStore.store e.1 (if e.2.2 then { committee with reused := true } else committee)

/-- `Import`. -/
def importSnapshot (t : Tracker ID Hash) (snapshot : Snapshot ID Hash) : Option (Tracker ID Hash) :=
  (run importSlot t.validatorPerformances snapshot.performanceFactors).bind
    fun validatorPerformances =>
      (run importEpochRewards t.rewards snapshot.poolRewards).bind fun rewards =>
        (run importEpochStats t.poolStatsStore snapshot.poolsStats).bind fun poolStatsStore =>
          (run importCommittee t.committeeStore snapshot.committees).map fun committeeStore =>
            { t with validatorPerformances, rewards, poolStatsStore, committeeStore }

/-- A tracker without data. -/
def empty (latestAppliedEpoch : Nat) : Tracker ID Hash where
  rewards := EpochStore.empty
  poolStatsStore := EpochStore.empty
  committeeStore := EpochStore.empty
  committeeCandidates _ := ∅
  nextEpochCommitteeCandidates := ∅
  validatorPerformances _ := some ∅
  latestAppliedEpoch := latestAppliedEpoch

end Tracker

/-! ## Section 3: Maps and committees that are read back -/

theorem sameEntries_setAll {ν : Type} (m : Map ID ν) :
    SameEntries (Tracker.setAll ∅ m.entries) m := by
  intro id
  have hput := get_foldl_put (fun (m : Map ID ν) k => m.lookup k) (fun m e => m.insert e.1 e.2)
    (fun s e k => lookup_insert_eq s k e.1 e.2) m ∅ id
  exact hput.trans or_none

/-- Two committees with the same accounts, members and reused flag; the seats may differ. -/
structure SameCommittee (c c' : SeatedAccounts ID) : Prop where
  accounts : ∀ id, c.accounts.get id = c'.accounts.get id
  members : ∀ id, c.hasAccount id = c'.hasAccount id
  reused : c.reused = c'.reused
  balanced : c.accounts.Balanced

/-- The committees that the seat manager stores. -/
structure WellFormed (c : SeatedAccounts ID) : Prop where
  seated : Seated c
  balanced : c.accounts.Balanced

/-- The members that have had their turn have seats. -/
structure Seating (a : Accounts ID) (todo : List ID) (s : SeatedAccounts ID × SeatIndex) : Prop where
  nodup : todo.Nodup
  has : ∀ id ∈ todo, a.has id = true
  accounts : s.1.accounts = a
  reused : s.1.reused = false
  seats : ∀ id, s.1.hasAccount id = (a.has id && decide (id ∉ todo))

theorem Seating.step {id : ID} {todo : List ID} {s : SeatedAccounts ID × SeatIndex}
    (h : Seating a (id :: todo) s) :
    ∃ s', assignSeat (new Accounts.new) [] s id = some s' ∧ Seating a todo s' := by
  obtain ⟨hnodup, hhas, haccounts, hreused, hseats⟩ := h
  obtain ⟨hnotin, hnodup⟩ := nodup_cons.mp hnodup
  have hid : s.1.accounts.has id = true := haccounts ▸ hhas id mem_cons_self
  have hfree : s.1.getSeat id = none := by
    have hnone := hseats id
    simp only [mem_cons, true_or, not_true, decide_false, Bool.and_false] at hnone
    exact isSome_eq_false_iff.mp hnone |> isNone_iff_eq_none.mp
  have hset : s.1.set s.2 id =
      { s.1 with seatsByAccount := s.1.seatsByAccount.insert id s.2 } := by
    unfold SeatedAccounts.set
    rw [if_pos hid, hfree]
  refine ⟨(s.1.set s.2 id, s.2 + 1), rfl, hnodup, fun j hj => hhas j (mem_cons_of_mem id hj),
    by rw [hset]; exact haccounts, by rw [hset]; exact hreused, fun j => ?_⟩
  show ((s.1.set s.2 id).getSeat j).isSome = _
  rw [getSeat_set hid hfree]
  by_cases hj : j = id
  · subst hj
    simp [hhas j mem_cons_self, hnotin]
  · rw [if_neg hj]
    have hold := hseats j
    simp only [mem_cons, hj, false_or] at hold
    exact hold

theorem seatedAccounts_new (a : Accounts ID) :
    ∃ c, a.seatedAccounts (new Accounts.new) = some c ∧ c.accounts = a ∧
      c.reused = false ∧ ∀ id, c.hasAccount id = a.has id := by
  have hkeep : ∀ (ids : List ID) (c : SeatedAccounts ID),
      ids.foldl (keepSeat (new Accounts.new)) c = c := by
    intro ids
    induction ids with
    | nil => exact fun _ => rfl
    | cons id ids ih => exact fun c => ih c
  have htaken : takenSeats a (new Accounts.new) = [] :=
    filterMap_eq_nil_iff.mpr fun _ _ => rfl
  have hperm : (a.ids.insertionSort (· ≤ ·)).Perm a.ids := perm_insertionSort (· ≤ ·) a.ids
  have hinit : Seating a (a.ids.insertionSort (· ≤ ·)) (new a, 0) := by
    refine ⟨hperm.nodup_iff.mpr a.accountPools.keys_nodup,
      fun id hid => (a.mem_ids id).mp (hperm.mem_iff.mp hid), rfl, rfl, fun id => ?_⟩
    have hmem : id ∈ a.ids.insertionSort (· ≤ ·) ↔ a.has id = true :=
      hperm.mem_iff.trans (a.mem_ids id)
    show false = _
    cases hhas : a.has id with
    | true => simp [hmem, hhas]
    | false => rfl
  obtain ⟨s', hrun, -, -, haccounts, hreused, hseats⟩ := run_loop_total (fun _ _ _ h => h.step) hinit
  refine ⟨s'.1, ?_, haccounts, hreused, fun id => by simpa using hseats id⟩
  unfold Accounts.seatedAccounts
  simp only [hkeep, htaken, hrun, map_some]

theorem foldlM_set_eq :
    ∀ {l : List (Sigma fun _ : ID => Pool)} (b : Accounts ID),
      (∀ e ∈ l, a.get e.1 = some e.2) →
      (l.map fun e => e.1).foldlM (new a).addAccount b =
        liftArithmetic (l.foldlM (fun accounts e => accounts.set e.1 e.2) b) := by
  intro l
  induction l with
  | nil => exact fun b _ => rfl
  | cons e l ih =>
    intro b hl
    have hadd : (new a).addAccount b e.1 = liftArithmetic (b.set e.1 e.2) := by
      have hget : (new a).accounts.get e.1 = some e.2 := hl e mem_cons_self
      rw [addAccount, hget]
    rw [map_cons, foldlM_cons, foldlM_cons, hadd]
    cases b.set e.1 e.2 with
    | error err => rfl
    | ok b' => exact ih b' fun e' he' => hl e' (mem_cons_of_mem e he')

theorem accountsFromReader_spec (h : a.Balanced) :
    ∃ b, Tracker.accountsFromReader a.accountPools.entries = .ok b ∧ b.Balanced ∧
      ∀ id, b.get id = a.get id := by
  have hentries : ∀ e ∈ a.accountPools.entries, a.get e.1 = some e.2 :=
    fun e he => mem_lookup_iff.mpr he
  obtain ⟨b, hb, hbalanced, hget⟩ := foldlM_addAccount
    (c := new a) h a.accountPools.keys_nodup Accounts.balanced_new
    (fun id hid => ⟨(a.mem_ids id).mp hid, rfl⟩) (fun id pool hid => nomatch hid)
  have hread := (foldlM_set_eq Accounts.new hentries).symm.trans hb
  refine ⟨b, liftArithmetic_eq_ok.mp hread, hbalanced, fun id => ?_⟩
  rw [hget id]
  split_ifs with hid
  · rfl
  · exact (lookup_eq_none.mpr hid).symm

theorem WellFormed.importCommittee {c : SeatedAccounts ID} (h : WellFormed c) :
    ∃ a, c.accountsOf = .ok a ∧
      ∀ (committeeStore : EpochStore (SeatedAccounts ID)) (epoch : Nat),
        ∃ c', Tracker.importCommittee committeeStore (epoch, a.accountPools.entries, c.reused) =
            some (committeeStore.store epoch c') ∧ SameCommittee c' c := by
  obtain ⟨a, ha, hbalanced, hget⟩ := h.seated.accountsOf h.balanced
  obtain ⟨b, hb, hbalanced', hget'⟩ := accountsFromReader_spec hbalanced
  obtain ⟨c', hc', haccounts, hreused, hmembers⟩ := seatedAccounts_new b
  refine ⟨a, ha, fun committeeStore epoch => ?_⟩
  have hsame : ∀ id, c'.accounts.get id = c.accounts.get id := by
    intro id
    rw [haccounts, hget', hget]
  have hseats : ∀ id, c'.hasAccount id = c.hasAccount id := by
    intro id
    rw [hmembers]
    show (b.get id).isSome = (c.getSeat id).isSome
    rw [h.seated.members, hget', hget]
    rfl
  refine ⟨if c.reused then { c' with reused := true } else c', ?_, ?_⟩
  · unfold Tracker.importCommittee
    rw [toOption_eq_some.mpr hb, bind_some, hc', map_some]
  · cases hflag : c.reused with
    | true => exact ⟨hsame, hseats, hflag.symm, haccounts ▸ hbalanced'⟩
    | false => exact ⟨hsame, hseats, hreused.trans hflag.symm, haccounts ▸ hbalanced'⟩

/-! ## Section 4: Collections that are imported -/

section Collections

open Tracker

variable {keys : List Nat}

theorem import_performances (hkeys : keys.Nodup)
    (get : Nat → Option (Map ID (ValidatorPerformance Hash))) :
    ∃ performances, run importSlot (fun _ => some ∅)
        (collection keys fun slot => (get slot).map entries) = some performances ∧
      (∀ slot m, slot ∈ keys → get slot = some m →
        ∃ m', performances slot = some m' ∧ SameEntries m' m) ∧
      ∀ slot, slot ∉ keys ∨ get slot = none → performances slot = some ∅ := by
  obtain ⟨performances, hrun, hin, hout⟩ := run_collection (fun s slot => s slot) importSlot
    (fun _ => some ∅) (fun slot => (get slot).map entries)
    (R := fun slot v => Option.Rel SameEntries v (get slot)) (by
      intro slot entries s hwritten hs
      obtain ⟨m, hm, rfl⟩ := map_eq_some_iff.mp hwritten
      refine ⟨update s slot (some (setAll ∅ m.entries)), by rw [importSlot, hs]; rfl, ?_,
        fun j hj => update_of_ne hj _ _⟩
      rw [update_self, hm]
      exact .some (sameEntries_setAll m)) hkeys
  refine ⟨performances, hrun, fun slot m hslot hm => ?_, fun slot hslot => ?_⟩
  · have hrel := hin slot hslot (by rw [hm]; rfl)
    rw [hm] at hrel
    exact exists_of_rel_some hrel
  · exact hout slot (hslot.imp_right fun hnone => by rw [hnone]; rfl)

omit [LinearOrder ID] in
/-- A store of epochs that is read back: the epochs that were exported are there, others are
    missing. -/
theorem import_epochs {α β : Type} {R : α → α → Prop}
    {body : EpochStore α → Nat × β → Option (EpochStore α)} {get : Nat → Option α}
    {written : Nat → Option β} (hnone : ∀ epoch, get epoch = none → written epoch = none)
    (hread : ∀ epoch a, get epoch = some a → ∃ b, written epoch = some b ∧
      ∀ s, s.load epoch = none → ∃ a', body s (epoch, b) = some (s.store epoch a') ∧ R a' a)
    (hkeys : keys.Nodup) :
    ∃ s, run body empty (collection keys written) = some s ∧
      ∀ epoch, Option.Rel R (s.load epoch) (if epoch ∈ keys then get epoch else none) := by
  obtain ⟨s, hrun, hin, hout⟩ := run_collection (fun (s : EpochStore α) epoch => s.load epoch)
    body empty written (R := fun epoch v => Option.Rel R v (get epoch)) (by
      intro epoch b s hb hs
      cases hget : get epoch with
      | none =>
        rw [hnone epoch hget] at hb
        cases hb
      | some a =>
        obtain ⟨b', hb', hbody⟩ := hread epoch a hget
        obtain rfl := some.inj (hb.symm.trans hb')
        obtain ⟨a', ha', hR⟩ := hbody s hs
        refine ⟨_, ha', ?_, fun j hj => by rw [load_store, if_neg hj]⟩
        rw [load_store, if_pos rfl]
        exact .some hR) hkeys
  refine ⟨s, hrun, fun epoch => ?_⟩
  split_ifs with hepoch
  · cases hget : get epoch with
    | none =>
      rw [hout epoch (.inr (hnone epoch hget))]
      exact .none
    | some a =>
      obtain ⟨b, hb, -⟩ := hread epoch a hget
      exact hget ▸ hin epoch hepoch (by rw [hb]; rfl)
  · rw [hout epoch (.inl hepoch)]
    exact .none

theorem import_rewards (hkeys : keys.Nodup) (get : Nat → Option (Map ID PoolRewards)) :
    ∃ rewards, run importEpochRewards empty
        (collection keys fun epoch => (get epoch).map entries) = some rewards ∧
      ∀ epoch, Option.Rel SameEntries (rewards.load epoch)
        (if epoch ∈ keys then get epoch else none) := by
  refine import_epochs (fun epoch hnone => by rw [hnone]; rfl) (fun epoch m hm => ?_) hkeys
  refine ⟨m.entries, by rw [hm]; rfl, fun s hs => ⟨_, ?_, sameEntries_setAll m⟩⟩
  rw [importEpochRewards, hs]
  rfl

theorem import_stats (hkeys : keys.Nodup) (get : Nat → Option PoolsStats) :
    ∃ stats, run importEpochStats empty (collection keys get) = some stats ∧
      ∀ epoch, stats.load epoch = if epoch ∈ keys then get epoch else none := by
  obtain ⟨stats, hrun, hload⟩ := import_epochs (R := Eq) (fun _ hnone => hnone)
    (fun epoch a ha => ⟨a, ha, fun s _ => ⟨a, show importEpochStats s (epoch, a) = _ from rfl,
      rfl⟩⟩) hkeys
  exact ⟨stats, hrun, fun epoch => eq_of_rel (hload epoch)⟩

theorem import_committees (hkeys : keys.Nodup) {get : Nat → Option (SeatedAccounts ID)}
    (hwell : ∀ epoch c, get epoch = some c → WellFormed c) :
    ∃ committees, run importCommittee empty
        (collection keys fun epoch => (get epoch).bind fun c =>
          c.accountsOf.toOption.map fun a => (a.accountPools.entries, c.reused)) =
        some committees ∧
      ∀ epoch, Option.Rel SameCommittee (committees.load epoch)
        (if epoch ∈ keys then get epoch else none) := by
  refine import_epochs (fun epoch hnone => by rw [hnone]; rfl) (fun epoch c hc => ?_) hkeys
  obtain ⟨a, ha, himport⟩ := (hwell epoch c hc).importCommittee
  refine ⟨(a.accountPools.entries, c.reused), ?_, fun s _ => himport s epoch⟩
  rw [hc, bind_some, toOption_eq_some.mpr ha]
  rfl

end Collections

end AxonCore.Performance

import Mathlib.Data.Finset.Basic
import Mathlib.Tactic.Ring

/-! # The state diff of a slot

    The mempool keeps one state diff for each slot that is not committed.  Transactions
    are added to it and rolled back in any order, a consumer before its producer too, and
    the created and destroyed states are kept compacted: a usage counter per state goes up
    when the state is created and down when it is consumed, and its sign decides in which
    of the two maps the state is.

    * `Executed`: a transaction is executed if the last call that names it adds it.
    * `Compacted`: the maps follow the signs, and the counters the executed transactions.
    * `stateDiff_exact`: what is created and destroyed is what the executed transactions
      create and do not consume, or consume and do not create.

    A transaction ID is the hash of the transaction, and a state ID that of its output, so
    the metadata behind an ID are always the same and the maps are modelled by their keys.
    The store of the mutations does not fail. -/

namespace AxonCore.MemPool

open List Function

abbrev TransactionID := Nat
abbrev StateID := Nat

/-! ## Section 1: The state diff -/

/-- What is behind the IDs.  A transaction does not name an input or an output twice. -/
structure Transactions where
  inputs : TransactionID → List StateID
  outputs : TransactionID → List StateID
  isReadOnly : StateID → Bool
  nodup_inputs : ∀ tx, (inputs tx).Nodup
  nodup_outputs : ∀ tx, (outputs tx).Nodup

/-- `StateDiff`.  The executed transactions are an ordered map. -/
structure StateDiff where
  spentOutputs : Finset StateID
  createdOutputs : Finset StateID
  executedTransactions : List TransactionID
  stateUsageCounters : StateID → Int
  mutations : Finset TransactionID

/-- `NewStateDiff`. -/
def newStateDiff : StateDiff := ⟨∅, ∅, [], fun _ => 0, ∅⟩

namespace StateDiff

variable (p : Transactions)

section

variable (s : StateDiff)

/-- `compactStateChanges`. -/
def compactStateChanges (state : StateID) (usageCounter : Int) : StateDiff :=
  if 0 < usageCounter then { s with createdOutputs := insert state s.createdOutputs }
  else if usageCounter < 0 then
    if p.isReadOnly state then s else { s with spentOutputs := insert state s.spentOutputs }
  else
    { s with
      createdOutputs := s.createdOutputs.erase state
      spentOutputs := s.spentOutputs.erase state }

/-- The counter of a state is changed, and the state goes where the sign says. -/
def useState (change : Int) (s : StateDiff) (state : StateID) : StateDiff :=
  let usageCounter := s.stateUsageCounters state + change
  compactStateChanges p
    { s with stateUsageCounters := update s.stateUsageCounters state usageCounter }
    state usageCounter

/-- `updateCompactedStateChanges`. -/
def updateCompactedStateChanges (tx : TransactionID) (direction : Int) : StateDiff :=
  (p.outputs tx).foldl (useState p direction) ((p.inputs tx).foldl (useState p (-direction)) s)

/-- `AddTransaction`. -/
def addTransaction (tx : TransactionID) : StateDiff :=
  if tx ∈ s.executedTransactions then s
  else
    updateCompactedStateChanges p
      { s with
        executedTransactions := s.executedTransactions ++ [tx]
        mutations := insert tx s.mutations } tx 1

/-- `RollbackTransaction`. -/
def rollbackTransaction (tx : TransactionID) : StateDiff :=
  if tx ∈ s.executedTransactions then
    updateCompactedStateChanges p
      { s with
        executedTransactions := s.executedTransactions.erase tx
        mutations := s.mutations.erase tx } tx (-1)
  else s

/-- A call on the state diff. -/
inductive Call where
  | addTransaction (tx : TransactionID)
  | rollbackTransaction (tx : TransactionID)
  deriving DecidableEq

/-- The transaction that a call names. -/
def Call.transaction : Call → TransactionID
  | .addTransaction tx => tx
  | .rollbackTransaction tx => tx

def step : Call → StateDiff
  | .addTransaction tx => s.addTransaction p tx
  | .rollbackTransaction tx => s.rollbackTransaction p tx

end

/-- The state diff after some calls. -/
def after (calls : List Call) : StateDiff := calls.foldl (step p) newStateDiff

/-- The last call that names the transaction adds it. -/
def Executed (calls : List Call) (tx : TransactionID) : Prop :=
  calls.reverse.find? (fun call => call.transaction = tx) = some (.addTransaction tx)

theorem executed_concat (calls : List Call) (call : Call) (tx : TransactionID) :
    Executed (calls ++ [call]) tx ↔
      if call.transaction = tx then call = .addTransaction tx else Executed calls tx := by
  unfold Executed
  rw [reverse_concat, find?_cons]
  split <;> simp_all

/-! ## Section 2: The counters -/

variable {p} {s : StateDiff} {change : Int}

/-- Each state is where the sign of its counter says. -/
structure Signed (p : Transactions) (s : StateDiff) : Prop where
  created : ∀ st, st ∈ s.createdOutputs ↔ 0 < s.stateUsageCounters st
  spent : ∀ st, st ∈ s.spentOutputs ↔ s.stateUsageCounters st < 0 ∧ p.isReadOnly st = false

/-- A counter moves by one, so that it does not jump over zero. -/
theorem Signed.useState (h : Signed p s) (hchange : change = 1 ∨ change = -1) (state : StateID) :
    Signed p (useState p change s state) := by
  constructor <;> intro st
  all_goals
    have hcreated := h.created st
    have hspent := h.spent st
    simp only [StateDiff.useState, compactStateChanges]
    split_ifs <;> simp only [Finset.mem_insert, Finset.mem_erase, update_apply] <;> grind

theorem Signed.foldl (h : Signed p s) (hchange : change = 1 ∨ change = -1) (states : List StateID) :
    let s' := states.foldl (StateDiff.useState p change) s
    Signed p s' ∧ s'.executedTransactions = s.executedTransactions ∧ s'.mutations = s.mutations ∧
      ∀ st, s'.stateUsageCounters st = s.stateUsageCounters st + change * states.count st := by
  induction states generalizing s with
  | nil => exact ⟨h, rfl, rfl, by simp⟩
  | cons state states ih =>
    obtain ⟨hsigned, hexecuted, hmutations, hcounters⟩ := ih (h.useState hchange state)
    have hframe : (StateDiff.useState p change s state).executedTransactions =
          s.executedTransactions ∧
        (StateDiff.useState p change s state).mutations = s.mutations ∧
        (StateDiff.useState p change s state).stateUsageCounters =
          update s.stateUsageCounters state (s.stateUsageCounters state + change) := by
      simp only [StateDiff.useState, compactStateChanges]
      split_ifs <;> exact ⟨rfl, rfl, rfl⟩
    refine ⟨hsigned, hexecuted.trans hframe.1, hmutations.trans hframe.2.1, fun st => ?_⟩
    rw [foldl_cons, hcounters, hframe.2.2, update_apply, count_cons]
    by_cases hst : st = state
    · subst hst
      simp
      ring
    · simp [hst, Ne.symm hst]

/-- The state diff belongs to its executed transactions. -/
structure Compacted (p : Transactions) (s : StateDiff) : Prop extends Signed p s where
  nodup : s.executedTransactions.Nodup
  mutations : ∀ tx, tx ∈ s.mutations ↔ tx ∈ s.executedTransactions
  counters : ∀ st, s.stateUsageCounters st = (s.executedTransactions.flatMap p.outputs).count st -
    (s.executedTransactions.flatMap p.inputs).count st

theorem compacted_new (p : Transactions) : Compacted p newStateDiff := by
  constructor
  · constructor <;> simp [newStateDiff]
  all_goals simp [newStateDiff]

theorem Signed.update {direction : Int} (h : Signed p s)
    (hdirection : direction = 1 ∨ direction = -1) (tx : TransactionID) :
    let s' := updateCompactedStateChanges p s tx direction
    Signed p s' ∧ s'.executedTransactions = s.executedTransactions ∧ s'.mutations = s.mutations ∧
      ∀ st, s'.stateUsageCounters st = s.stateUsageCounters st +
        direction * ((p.outputs tx).count st - (p.inputs tx).count st) := by
  have hinputs : -direction = 1 ∨ -direction = -1 := by omega
  obtain ⟨hsigned, hexecuted, hmutations, hcounters⟩ := h.foldl hinputs (p.inputs tx)
  obtain ⟨hsigned', hexecuted', hmutations', hcounters'⟩ := hsigned.foldl hdirection (p.outputs tx)
  refine ⟨hsigned', hexecuted'.trans hexecuted, hmutations'.trans hmutations, fun st => ?_⟩
  rw [updateCompactedStateChanges, hcounters', hcounters]
  ring

theorem Compacted.add (h : Compacted p s) (tx : TransactionID) :
    Compacted p (s.addTransaction p tx) ∧
      ∀ tx', tx' ∈ (s.addTransaction p tx).executedTransactions ↔
        tx' = tx ∨ tx' ∈ s.executedTransactions := by
  unfold addTransaction
  split
  next htx => exact ⟨h, by grind⟩
  next htx =>
    obtain ⟨hsigned, hexecuted, hmutations, hcounters⟩ := Signed.update (p := p) (s := { s with
      executedTransactions := s.executedTransactions ++ [tx]
      mutations := insert tx s.mutations }) ⟨h.created, h.spent⟩ (.inl rfl) tx
    refine ⟨⟨hsigned, ?_, fun tx' => ?_, fun st => ?_⟩, by simp [hexecuted, or_comm]⟩
    · rw [hexecuted]
      exact nodup_append.mpr ⟨h.nodup, nodup_singleton tx, by grind⟩
    · rw [hexecuted, hmutations]
      have := h.mutations tx'
      grind
    · rw [hexecuted, hcounters, h.counters]
      simp
      ring

theorem Compacted.rollback (h : Compacted p s) (tx : TransactionID) :
    Compacted p (s.rollbackTransaction p tx) ∧
      ∀ tx', tx' ∈ (s.rollbackTransaction p tx).executedTransactions ↔
        tx' ≠ tx ∧ tx' ∈ s.executedTransactions := by
  unfold rollbackTransaction
  split
  next htx =>
    obtain ⟨hsigned, hexecuted, hmutations, hcounters⟩ := Signed.update (p := p) (s := { s with
      executedTransactions := s.executedTransactions.erase tx
      mutations := s.mutations.erase tx }) ⟨h.created, h.spent⟩ (.inr rfl) tx
    refine ⟨⟨hsigned, ?_, fun tx' => ?_, fun st => ?_⟩,
      by simp [hexecuted, h.nodup.mem_erase_iff]⟩
    · rw [hexecuted]
      exact h.nodup.erase tx
    · rw [hexecuted, hmutations, Finset.mem_erase, h.mutations, h.nodup.mem_erase_iff]
    · have hperm := perm_cons_erase htx
      rw [hexecuted, hcounters, h.counters, (hperm.flatMap_right p.outputs).count_eq,
        (hperm.flatMap_right p.inputs).count_eq]
      simp
      ring
  next htx => exact ⟨h, by grind⟩

theorem compacted_after (p : Transactions) (calls : List Call) :
    Compacted p (after p calls) ∧
      ∀ tx, tx ∈ (after p calls).executedTransactions ↔ Executed calls tx := by
  induction calls using reverseRecOn with
  | nil => exact ⟨compacted_new p, by simp [after, newStateDiff, Executed]⟩
  | append_singleton calls call ih =>
    obtain ⟨hs, hexecuted⟩ := ih
    have hafter : after p (calls ++ [call]) = step p (after p calls) call := foldl_concat _ _ _ _
    simp only [hafter, executed_concat, ← hexecuted]
    cases call with
    | addTransaction tx =>
      refine ⟨(hs.add tx).1, fun tx' => ((hs.add tx).2 tx').trans ?_⟩
      grind [Call.transaction]
    | rollbackTransaction tx =>
      refine ⟨(hs.rollback tx).1, fun tx' => ((hs.rollback tx).2 tx').trans ?_⟩
      grind [Call.transaction]

/-! ## Section 3: The executed transactions -/

theorem count_flatMap_le_one {l : List TransactionID} (hl : l.Nodup)
    {f : TransactionID → List StateID} (hf : ∀ tx, (f tx).Nodup) {st : StateID}
    (huniq : ∀ tx ∈ l, ∀ tx' ∈ l, st ∈ f tx → st ∈ f tx' → tx = tx') :
    (l.flatMap f).count st ≤ 1 := by
  induction l with
  | nil => simp
  | cons tx l ih =>
    have hcount := nodup_iff_count_le_one.mp (hf tx) st
    have hrest : st ∈ f tx → st ∉ l.flatMap f := by grind
    have := ih (by grind) (by grind)
    grind

/-- Each state is created by one executed transaction at most, and consumed by one at most if it
    is not read-only. -/
def Exclusive (p : Transactions) (executed : TransactionID → Prop) : Prop :=
  ∀ tx, executed tx → ∀ tx', executed tx' → ∀ st,
    (st ∈ p.outputs tx → st ∈ p.outputs tx' → tx = tx') ∧
    (st ∈ p.inputs tx → st ∈ p.inputs tx' → p.isReadOnly st = false → tx = tx')

/-- After any calls the executed transactions are those that were added last, the created states
    are the outputs of executed transactions that none of them consumes, and the destroyed ones
    the inputs that none of them creates; and calls after which the same transactions are
    executed give the same state diff, in whatever order. -/
theorem stateDiff_exact (p : Transactions) (calls : List Call) (h : Exclusive p (Executed calls)) :
    let s := after p calls
    (∀ tx, tx ∈ s.executedTransactions ↔ Executed calls tx) ∧
    (∀ st, st ∈ s.createdOutputs ↔ (∃ tx, Executed calls tx ∧ st ∈ p.outputs tx) ∧
      ∀ tx, Executed calls tx → st ∉ p.inputs tx) ∧
    (∀ st, st ∈ s.spentOutputs ↔ p.isReadOnly st = false ∧
      (∃ tx, Executed calls tx ∧ st ∈ p.inputs tx) ∧
        ∀ tx, Executed calls tx → st ∉ p.outputs tx) ∧
    (∀ tx, tx ∈ s.mutations ↔ Executed calls tx) ∧
    ∀ calls', (∀ tx, Executed calls' tx ↔ Executed calls tx) →
      (after p calls').createdOutputs = s.createdOutputs ∧
      (after p calls').spentOutputs = s.spentOutputs ∧
      (after p calls').mutations = s.mutations := by
  obtain ⟨hs, hexecuted⟩ := compacted_after p calls
  intro s
  simp only [Exclusive, ← hexecuted] at h ⊢
  have hcount : ∀ (f : TransactionID → List StateID) (st : StateID),
      0 < (s.executedTransactions.flatMap f).count st ↔
        ∃ tx ∈ s.executedTransactions, st ∈ f tx := by
    intro f st
    rw [count_pos_iff, mem_flatMap]
  refine ⟨fun _ => Iff.rfl, fun st => ?_, fun st => ?_, hs.mutations, fun calls' hsame => ?_⟩
  · have hone := count_flatMap_le_one hs.nodup p.nodup_outputs
      fun tx htx tx' htx' => (h tx htx tx' htx' st).1
    have hin := hcount p.inputs st
    rw [hs.created, hs.counters, ← hcount]
    grind
  · have hone : p.isReadOnly st = false →
        (s.executedTransactions.flatMap p.inputs).count st ≤ 1 := fun hro =>
      count_flatMap_le_one hs.nodup p.nodup_inputs
        fun tx htx tx' htx' hin hin' => (h tx htx tx' htx' st).2 hin hin' hro
    have hout := hcount p.outputs st
    rw [hs.spent, hs.counters, ← hcount]
    grind
  · obtain ⟨hs', hexecuted'⟩ := compacted_after p calls'
    simp only [← hexecuted'] at hsame
    have hperm := (perm_ext_iff_of_nodup hs'.nodup hs.nodup).mpr hsame
    have heq : ∀ st, (after p calls').stateUsageCounters st = s.stateUsageCounters st := by
      intro st
      rw [hs'.counters, hs.counters, (hperm.flatMap_right p.outputs).count_eq,
        (hperm.flatMap_right p.inputs).count_eq]
    refine ⟨Finset.ext fun st => ?_, Finset.ext fun st => ?_, Finset.ext fun tx => ?_⟩
    · rw [hs'.created, hs.created, heq]
    · rw [hs'.spent, hs.spent, heq]
    · rw [hs'.mutations, hs.mutations, hsame]

/-- Transaction 1 creates state 10, which transaction 2 consumes; both and transaction 3 read
    state 0. -/
def chained : Transactions where
  inputs tx := if tx = 2 then [10, 0] else [0]
  outputs tx := [10 * tx]
  isReadOnly st := st = 0
  nodup_inputs tx := by split <;> simp
  nodup_outputs tx := by simp

/-- The consumer comes first, and transaction 3 is rolled back: state 20 is left. -/
theorem stateDiff_exact_chained :
    let calls := [.addTransaction 2, .addTransaction 3, .addTransaction 1, .rollbackTransaction 3]
    let s := after chained calls
    s.executedTransactions = [2, 1] ∧ s.mutations = {1, 2} ∧ s.createdOutputs = {20} ∧
      s.spentOutputs = ∅ ∧ (∀ tx, tx = 1 ∨ tx = 2 ↔ Executed calls tx) ∧
      ∀ calls', (∀ tx, Executed calls' tx ↔ Executed calls tx) →
        (after chained calls').createdOutputs = {20} := by
  intro calls s
  have hvalues : s.executedTransactions = [2, 1] ∧ s.mutations = {1, 2} ∧
      s.createdOutputs = {20} ∧ s.spentOutputs = ∅ := by decide
  have hexecuted : ∀ tx, Executed calls tx ↔ tx = 1 ∨ tx = 2 := by
    intro tx
    rw [← (compacted_after chained calls).2, hvalues.1]
    simp [or_comm]
  have hexact := stateDiff_exact chained calls (by
    simp only [Exclusive, hexecuted, chained]
    grind)
  obtain ⟨hexecutedTransactions, hmutations, hcreated, hspent⟩ := hvalues
  refine ⟨hexecutedTransactions, hmutations, hcreated, hspent, fun tx => (hexecuted tx).symm, ?_⟩
  exact fun calls' hsame => (hexact.2.2.2.2 calls' hsame).1.trans hcreated

end StateDiff

end AxonCore.MemPool

import Mathlib.Data.List.Sort
import AxonCore.Lib.Keyed

/-! # The UTXO ledger

    The manager keeps the outputs in a key-value store: every stored output under its ID, a
    record for every spent output, a lookup key for every unspent one, one diff per slot,
    and the index of the ledger.  The unspent outputs are in the state tree as well, with
    the slot in which they were created.

    All changes of the store are mutations of one batch that is committed at the end of an
    operation; if a batch has several mutations of one key, the last one wins.  The state
    tree is changed after the batch has been committed, in loops of its own.

    Errors of the storage are left out: `none` stands for a key that is not found. -/

namespace AxonCore.UtxoLedger

open AxonCore.Lib

/-! ## Section 1: Outputs and diffs -/

/-- `iotago.OutputID`, which has the slot in which the transaction was created. -/
structure OutputID where
  transactionID : Nat
  creationSlot : Nat
  index : Nat
  deriving DecidableEq

/-- The parameters of the manager. -/
structure Params where
  genesisSlot : Nat
  /-- The order of the bytes of two IDs. -/
  lexicalLE : OutputID → OutputID → Bool

/-- `Output.KVStorableValue`: the stored part of an output. -/
structure OutputValue where
  blockID : Nat
  slotBooked : Nat
  encodedOutput : List UInt8
  encodedProof : List UInt8
  deriving DecidableEq

/-- `utxoledger.Output`. -/
structure Output where
  outputID : OutputID
  value : OutputValue
  deriving DecidableEq

section

variable (o : Output)

/-- `SlotCreated`. -/
def Output.slotCreated : Nat := o.outputID.creationSlot

/-- `Spent.KVStorableValue`. -/
structure SpentValue where
  transactionIDSpent : Nat
  slotSpent : Nat
  deriving DecidableEq

/-- `utxoledger.Spent`. -/
structure Spent where
  output : Output
  value : SpentValue
  deriving DecidableEq

def Spent.outputID (s : Spent) : OutputID := s.output.outputID

/-- `SlotDiff`. -/
structure SlotDiff where
  slot : Nat
  outputs : List Output
  spents : List Spent

/-- The stored diff of a slot: the sorted IDs of its outputs and spents. -/
abbrev DiffValue := List OutputID × List OutputID

/-- The IDs in the order of their bytes. -/
def sortIDs (p : Params) (ids : List OutputID) : List OutputID :=
  ids.insertionSort fun a b => p.lexicalLE a b = true

/-- `SlotDiff.KVStorableValue`. -/
def SlotDiff.kvStorableValue (p : Params) (d : SlotDiff) : DiffValue :=
  (sortIDs p (d.outputs.map Output.outputID), sortIDs p (d.spents.map Spent.outputID))

/-! ## Section 2: The store and its batches -/

/-- The store, one map for each of its key prefixes. -/
structure Store where
  ledgerIndex : Option Nat
  outputs : Map OutputID OutputValue
  spents : Map OutputID SpentValue
  unspent : Map OutputID Unit
  slotDiffs : Map Nat DiffValue

/-- One mutation of a batch. -/
inductive Mutation where
  | setLedgerIndex (slot : Nat)
  | setOutput (id : OutputID) (value : OutputValue)
  | deleteOutput (id : OutputID)
  | setSpent (id : OutputID) (value : SpentValue)
  | deleteSpent (id : OutputID)
  | setUnspent (id : OutputID)
  | deleteUnspent (id : OutputID)
  | setDiff (slot : Nat) (value : DiffValue)
  | deleteDiff (slot : Nat)

def Store.mutate (s : Store) : Mutation → Store
  | .setLedgerIndex slot => { s with ledgerIndex := some slot }
  | .setOutput id value => { s with outputs := s.outputs.insert id value }
  | .deleteOutput id => { s with outputs := s.outputs.erase id }
  | .setSpent id value => { s with spents := s.spents.insert id value }
  | .deleteSpent id => { s with spents := s.spents.erase id }
  | .setUnspent id => { s with unspent := s.unspent.insert id () }
  | .deleteUnspent id => { s with unspent := s.unspent.erase id }
  | .setDiff slot value => { s with slotDiffs := s.slotDiffs.insert slot value }
  | .deleteDiff slot => { s with slotDiffs := s.slotDiffs.erase slot }

/-- `mutations.Commit`. -/
def Store.commit (s : Store) (mutations : List Mutation) : Store :=
  mutations.foldl Store.mutate s

def storeOutput : Mutation := .setOutput o.outputID o.value
def deleteOutput : Mutation := .deleteOutput o.outputID
def storeSpent (s : Spent) : Mutation := .setSpent s.outputID s.value
def deleteSpent (s : Spent) : Mutation := .deleteSpent s.outputID
def markAsUnspent : Mutation := .setUnspent o.outputID
def deleteOutputLookups : Mutation := .deleteUnspent o.outputID
def markAsSpent : Mutation := deleteOutputLookups o

end

def storeDiff (p : Params) (d : SlotDiff) : Mutation := .setDiff d.slot (d.kvStorableValue p)
def storeLedgerIndex (slot : Nat) : Mutation := .setLedgerIndex slot

def storeSpentAndMarkOutputAsSpent (s : Spent) : List Mutation :=
  [storeSpent s, markAsSpent s.output]

def deleteSpentAndMarkOutputAsUnspent (s : Spent) : List Mutation :=
  [deleteSpent s, markAsUnspent s.output]

/-! ## Section 3: The manager -/

/-- `utxoledger.Manager`; the values of the state tree are the slots of `stateTreeMetadata`. -/
structure Manager where
  store : Store
  stateTree : Map OutputID Nat

/-- `New` on an empty store. -/
def emptyManager : Manager where
  store := ⟨none, ∅, ∅, ∅, ∅⟩
  stateTree := ∅

variable (p : Params) (m : Manager)

/-- `ReadLedgerIndexWithoutLocking`. -/
def Manager.readLedgerIndex : Nat := m.store.ledgerIndex.getD p.genesisSlot

/-- `ReadOutputByOutputIDWithoutLocking`. -/
def Manager.readOutputByOutputID (id : OutputID) : Option Output :=
  (m.store.outputs.lookup id).map fun value => ⟨id, value⟩

/-- `ReadSpentForOutputIDWithoutLocking`. -/
def Manager.readSpentForOutputID (id : OutputID) : Option Spent :=
  (m.readOutputByOutputID id).bind fun output =>
    (m.store.spents.lookup id).map fun value => ⟨output, value⟩

/-- `SlotDiffWithoutLocking`, which loads the outputs and spents of the stored IDs. -/
def Manager.slotDiff (slot : Nat) : Option SlotDiff :=
  (m.store.slotDiffs.lookup slot).bind fun value =>
    (value.1.mapM m.readOutputByOutputID).bind fun outputs =>
      (value.2.mapM m.readSpentForOutputID).map fun spents => ⟨slot, outputs, spents⟩

/-- `ApplyDiffWithoutLocking`. -/
def Manager.applyDiff (slot : Nat) (newOutputs : List Output) (newSpents : List Spent) :
    Manager where
  store := m.store.commit (
    newOutputs.flatMap (fun o => [storeOutput o, markAsUnspent o]) ++
    newSpents.flatMap storeSpentAndMarkOutputAsSpent ++
    [storeDiff p ⟨slot, newOutputs, newSpents⟩, storeLedgerIndex slot])
  stateTree := newSpents.foldl (fun tree s => tree.erase s.outputID)
    (newOutputs.foldl (fun tree o => tree.insert o.outputID o.slotCreated) m.stateTree)

/-- `RollbackDiffWithoutLocking`. -/
def Manager.rollbackDiff (slot : Nat) (newOutputs : List Output) (newSpents : List Spent) :
    Manager where
  store := m.store.commit (
    newSpents.flatMap (fun s => storeOutput s.output :: deleteSpentAndMarkOutputAsUnspent s) ++
    newOutputs.flatMap (fun o => [deleteOutput o, deleteOutputLookups o]) ++
    [.deleteDiff slot, storeLedgerIndex (slot - 1)])
  stateTree := newOutputs.foldl (fun tree o => tree.erase o.outputID)
    (newSpents.foldl (fun tree s => tree.insert s.outputID s.output.slotCreated) m.stateTree)

/-- `PruneSlotIndexWithoutLocking`; a diff that is not found needs no pruning. -/
def Manager.pruneSlotIndex (slot : Nat) : Manager :=
  match m.slotDiff slot with
  | none => m
  | some diff => { m with
      store := m.store.commit (
        diff.spents.flatMap (fun s => [deleteOutput s.output, deleteSpent s]) ++
        [.deleteDiff slot]) }

/-- `importUnspentOutputWithoutLocking`, and `AddGenesisUnspentOutput` as well. -/
def Manager.importUnspentOutput (unspentOutput : Output) : Manager where
  store := m.store.commit [storeOutput unspentOutput, markAsUnspent unspentOutput]
  stateTree := m.stateTree.insert unspentOutput.outputID unspentOutput.slotCreated

/-- The loop of `Rollback`, for the slots `targetSlot + n` down to `targetSlot + 1`: the
    manager and the number of slots that are left when a diff could not be loaded. -/
def Manager.rollbackLoop (targetSlot : Nat) : Nat → Manager → Manager × Nat
  | 0, m => (m, 0)
  | n + 1, m =>
    match m.slotDiff (targetSlot + n + 1) with
    | none => (m, n + 1)
    | some d => Manager.rollbackLoop targetSlot n (m.rollbackDiff d.slot d.outputs d.spents)

/-- `Rollback`; what has been rolled back before an error stays so. -/
def Manager.rollback (targetSlot : Nat) : Manager × Nat :=
  Manager.rollbackLoop targetSlot (m.readLedgerIndex p - targetSlot) m

/-! ## Section 4: Snapshots -/

/-- A diff in a snapshot, which does not have the slot of the spents. -/
structure SnapshotDiff where
  slot : Nat
  outputs : List Output
  spents : List (Output × Nat)

/-- What `Export` writes. -/
structure Snapshot where
  ledgerIndex : Nat
  outputs : List Output
  slotDiffs : List SnapshotDiff

/-- `UnspentOutputsIDs` and `RemoveDupsAndSort`. -/
def Manager.unspentOutputsIDs : List OutputID := sortIDs p m.store.unspent.keys.dedup

/-- `WriteSlotDiffToSnapshotWriter`. -/
def SlotDiff.toSnapshot (d : SlotDiff) : SnapshotDiff where
  slot := d.slot
  outputs := d.outputs
  spents := d.spents.map fun s => (s.output, s.value.transactionIDSpent)

/-- The diffs of the slots `targetIndex + n` down to `targetIndex + 1`. -/
def Manager.exportDiffs (targetIndex : Nat) : Nat → Option (List SnapshotDiff)
  | 0 => some []
  | n + 1 =>
    (m.slotDiff (targetIndex + n + 1)).bind fun d =>
      (Manager.exportDiffs targetIndex n).map fun rest => d.toSnapshot :: rest

/-- `Export`. -/
def Manager.exportSnapshot (targetIndex : Nat) : Option Snapshot :=
  ((m.unspentOutputsIDs p).mapM m.readOutputByOutputID).bind fun outputs =>
    (m.exportDiffs targetIndex (m.readLedgerIndex p - targetIndex)).map fun slotDiffs =>
      ⟨m.readLedgerIndex p, outputs, slotDiffs⟩

/-- `ReadSlotDiffToSnapshotReader`. -/
def SnapshotDiff.read (d : SnapshotDiff) : SlotDiff where
  slot := d.slot
  outputs := d.outputs
  spents := d.spents.map fun s => ⟨s.1, ⟨s.2, d.slot⟩⟩

/-- The loop of `Import` over the diffs, which are those of the slots `slot` downwards. -/
def Manager.importDiffs : Nat → List SnapshotDiff → Manager → Option Manager
  | _, [], m => some m
  | slot, d :: rest, m =>
    if d.slot ≠ slot then none
    else Manager.importDiffs (slot - 1) rest
      (m.rollbackDiff d.slot d.read.outputs d.read.spents)

/-- `Import`. -/
def Manager.importSnapshot (s : Snapshot) : Option Manager :=
  let m := { m with store := { m.store with ledgerIndex := some s.ledgerIndex } }
  let m := s.outputs.foldl Manager.importUnspentOutput m
  Manager.importDiffs s.ledgerIndex s.slotDiffs m

/-! ## Section 5: Runs -/

/-- The IDs that an applied diff created and spent. -/
structure Change where
  slot : Nat
  outputs : List OutputID
  spents : List OutputID

/-- The manager with its history: the slot it started with, and the diffs that have been
    applied since and not been rolled back, the latest one first. -/
structure Ledger where
  manager : Manager
  start : Nat
  applied : List Change

/-- The slot of the last diff, or the slot the ledger started with. -/
def lastApplied (start : Nat) : List Change → Nat
  | [] => start
  | c :: _ => c.slot

/-- What the applied diffs look like: they create new outputs, and spend outputs that are
    unspent before the slot or created in it. -/
structure ValidDiff (m : Manager) (newOutputs : List Output) (newSpents : List Spent) : Prop where
  fresh : ∀ o ∈ newOutputs,
    m.store.outputs.lookup o.outputID = none ∧ m.store.spents.lookup o.outputID = none
  spendable : ∀ s ∈ newSpents, (m.store.unspent.lookup s.outputID).isSome ∨
    s.outputID ∈ newOutputs.map Output.outputID

instance (newOutputs : List Output) (newSpents : List Spent) :
    Decidable (ValidDiff m newOutputs newSpents) :=
  decidable_of_iff
    ((∀ o ∈ newOutputs, m.store.outputs.lookup o.outputID = none ∧
        m.store.spents.lookup o.outputID = none) ∧
      ∀ s ∈ newSpents, (m.store.unspent.lookup s.outputID).isSome ∨
        s.outputID ∈ newOutputs.map Output.outputID)
    ⟨fun h => ⟨h.1, h.2⟩, fun h => ⟨h.1, h.2⟩⟩

/-- The operations of the ledger. -/
inductive Operation where
  /-- An output that has not been spent. -/
  | addGenesisUnspentOutput (unspentOutput : Output)
  /-- The diff of the next slot. -/
  | applyDiff (slot : Nat) (newOutputs : List Output) (newSpents : List Spent)
  /-- With the outputs and spents of the latest slot. -/
  | rollbackDiff (newOutputs : List Output) (newSpents : List Spent)
  | rollback (targetSlot : Nat)
  | pruneSlotIndex (slot : Nat)
  /-- A new manager imports the snapshot that the present one exports. -/
  | importExported (targetSlot : Nat)

def step (l : Ledger) : Operation → Option Ledger
  | .addGenesisUnspentOutput o =>
    if l.manager.store.spents.lookup o.outputID = none then
      some { l with manager := l.manager.importUnspentOutput o }
    else none
  | .applyDiff slot newOutputs newSpents =>
    -- `CommitSlot` panics if there is a gap
    if slot = l.manager.readLedgerIndex p + 1 ∧ ValidDiff l.manager newOutputs newSpents then
      some { l with
        manager := l.manager.applyDiff p slot newOutputs newSpents
        applied := ⟨slot, newOutputs.map Output.outputID, newSpents.map Spent.outputID⟩ ::
          l.applied }
    else none
  | .rollbackDiff newOutputs newSpents =>
    match l.applied with
    | [] => none
    | c :: rest =>
      if (newOutputs.map Output.outputID).Perm c.outputs ∧
          (newSpents.map Spent.outputID).Perm c.spents then
        some { l with
          manager := l.manager.rollbackDiff c.slot newOutputs newSpents, applied := rest }
      else none
  | .rollback targetSlot =>
    let (m, left) := l.manager.rollback p targetSlot
    some { l with
      manager := m
      applied := l.applied.drop (lastApplied l.start l.applied - targetSlot - left) }
  | .pruneSlotIndex slot => some { l with manager := l.manager.pruneSlotIndex slot }
  | .importExported targetSlot =>
    (l.manager.exportSnapshot p targetSlot).bind fun snapshot =>
      (emptyManager.importSnapshot snapshot).map fun m =>
        { manager := m
          start := min targetSlot (lastApplied l.start l.applied)
          applied := [] }

/-- An empty ledger. -/
def genesis : Ledger := ⟨emptyManager, p.genesisSlot, []⟩

end AxonCore.UtxoLedger

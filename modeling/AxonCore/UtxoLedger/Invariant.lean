import AxonCore.UtxoLedger.Model

/-! # The representation of the ledger

    The unspent outputs are represented three times: by their lookup keys, by the state
    tree, and by the stored outputs that have no spent record.  Each operation changes the
    three in separate loops.  What it does to one output is described by the `Status` of
    the output in the store and by its entry in the tree, so that the invariant (`Ok`) is a
    statement about one output at a time. -/

namespace AxonCore.UtxoLedger

open AxonCore.Lib List Option Manager Store

variable {p : Params} {m : Manager} {id : OutputID} {ι : Type} {o : Output}

/-! ## Section 1: The status of an output -/

/-- Which of the three key spaces have an output. -/
structure Status where
  stored : Bool
  spent : Bool
  unspent : Bool

def Store.status (s : Store) (id : OutputID) : Status :=
  ⟨(s.outputs.lookup id).isSome, (s.spents.lookup id).isSome, (s.unspent.lookup id).isSome⟩

/-- A mutation of one of the three key spaces. -/
def Mutation.ofOutput : Mutation → Bool
  | .setLedgerIndex _ | .setDiff _ _ | .deleteDiff _ => false
  | _ => true

section Commit

variable (s : Store)

@[simp] theorem Store.commit_nil : s.commit [] = s := rfl

@[simp] theorem Store.commit_cons (x : Mutation) (ms : List Mutation) :
    s.commit (x :: ms) = (s.mutate x).commit ms := rfl

theorem Store.commit_append (ms ms' : List Mutation) :
    s.commit (ms ++ ms') = (s.commit ms).commit ms' :=
  foldl_append

theorem Store.commit_flatMap (f : ι → List Mutation) (is : List ι) :
    s.commit (is.flatMap f) = is.foldl (fun s i => s.commit (f i)) s := by
  induction is generalizing s with
  | nil => rfl
  | cons i is ih => rw [flatMap_cons, commit_append, ih, foldl_cons]

theorem Store.commit_frame (ms : List Mutation) (h : ∀ x ∈ ms, x.ofOutput = true) :
    (s.commit ms).ledgerIndex = s.ledgerIndex ∧ (s.commit ms).slotDiffs = s.slotDiffs := by
  induction ms generalizing s with
  | nil => exact ⟨rfl, rfl⟩
  | cons x ms ih =>
    obtain ⟨hindex, hdiffs⟩ := ih (s.mutate x) fun y hy => h y (mem_cons_of_mem x hy)
    have hx := h x mem_cons_self
    rw [commit_cons, hindex, hdiffs]
    cases x <;> first | exact ⟨rfl, rfl⟩ | cases hx

theorem Store.commit_flatMap_frame {f : ι → List Mutation}
    (hf : ∀ i, (f i).all Mutation.ofOutput = true) (is : List ι) :
    (s.commit (is.flatMap f)).ledgerIndex = s.ledgerIndex ∧
      (s.commit (is.flatMap f)).slotDiffs = s.slotDiffs := by
  apply s.commit_frame
  intro x hx
  obtain ⟨i, _, hi⟩ := mem_flatMap.mp hx
  exact all_eq_true.mp (hf i) x hi

theorem Store.status_commit_flatMap (key : ι → OutputID) (f : ι → List Mutation)
    (F : Status → Status) (hF : ∀ st, F (F st) = F st)
    (hf : ∀ (s : Store) i id,
      (s.commit (f i)).status id = if id = key i then F (s.status id) else s.status id)
    (is : List ι) (id : OutputID) :
    (s.commit (is.flatMap f)).status id =
      if id ∈ is.map key then F (s.status id) else s.status id := by
  rw [commit_flatMap]
  exact foldl_idempotent status key _ (fun _ => F) (fun _ => hF) hf is s id

end Commit

/-! ## Section 2: What the operations do -/

theorem lookup_foldl_insert_slot (key : ι → OutputID) (is : List ι) (tree : Map OutputID Nat)
    (id : OutputID) :
    (is.foldl (fun tree i => tree.insert (key i) (key i).creationSlot) tree).lookup id =
      if id ∈ is.map key then some id.creationSlot else tree.lookup id := by
  apply foldl_idempotent (fun (tree : Map OutputID Nat) id => tree.lookup id) key _
    (fun id _ => some id.creationSlot) (fun _ _ => rfl)
  intro tree i id
  rw [lookup_insert_eq]
  split
  · next hid => rw [hid]
  · rfl

section Diffs

variable (slot : Nat) (newOutputs : List Output) (newSpents : List Spent) (id : OutputID)

theorem Manager.applyDiff_status :
    let st := m.store.status id
    let st := if id ∈ newOutputs.map Output.outputID then ⟨true, st.spent, true⟩ else st
    (m.applyDiff p slot newOutputs newSpents).store.status id =
      if id ∈ newSpents.map Spent.outputID then ⟨st.stored, true, false⟩ else st := by
  unfold applyDiff
  rw [commit_append, commit_append]
  -- the last two mutations are of no output
  change (commit _ (newSpents.flatMap _)).status id = _
  rw [status_commit_flatMap _ Spent.outputID _ (fun st => ⟨st.stored, true, false⟩)
      (fun _ => rfl),
    status_commit_flatMap _ Output.outputID _ (fun st => ⟨true, st.spent, true⟩)
      (fun _ => rfl)]
  · intro s o id
    simp only [storeOutput, markAsUnspent, commit_cons, commit_nil, mutate,
      status, isSome_insert]
    by_cases hid : id = o.outputID <;> simp only [hid, ↓reduceIte]
  · intro s o id
    simp only [storeSpentAndMarkOutputAsSpent, storeSpent, markAsSpent, deleteOutputLookups,
      Spent.outputID, commit_cons, commit_nil, mutate, status,
      isSome_insert, isSome_erase]
    by_cases hid : id = o.output.outputID <;> simp only [hid, ↓reduceIte]

theorem Manager.applyDiff_stateTree :
    (m.applyDiff p slot newOutputs newSpents).stateTree.lookup id =
      if id ∈ newSpents.map Spent.outputID then none
      else if id ∈ newOutputs.map Output.outputID then some id.creationSlot
      else m.stateTree.lookup id := by
  unfold applyDiff
  rw [lookup_foldl_erase_keys Spent.outputID]
  congr 1
  exact lookup_foldl_insert_slot Output.outputID newOutputs m.stateTree id

theorem Manager.rollbackDiff_status :
    let st := m.store.status id
    let st := if id ∈ newSpents.map Spent.outputID then ⟨true, false, true⟩ else st
    (m.rollbackDiff slot newOutputs newSpents).store.status id =
      if id ∈ newOutputs.map Output.outputID then ⟨false, st.spent, false⟩ else st := by
  unfold rollbackDiff
  rw [commit_append, commit_append]
  change (commit _ (newOutputs.flatMap _)).status id = _
  rw [status_commit_flatMap _ Output.outputID _ (fun st => ⟨false, st.spent, false⟩)
      (fun _ => rfl),
    status_commit_flatMap _ Spent.outputID _ (fun _ => ⟨true, false, true⟩) (fun _ => rfl)]
  · intro s o id
    simp only [storeOutput, deleteSpentAndMarkOutputAsUnspent, deleteSpent, markAsUnspent,
      Spent.outputID, commit_cons, commit_nil, mutate, status,
      isSome_insert, isSome_erase]
    by_cases hid : id = o.output.outputID <;> simp only [hid, ↓reduceIte]
  · intro s o id
    simp only [deleteOutput, deleteOutputLookups, commit_cons, commit_nil,
      mutate, status, isSome_erase]
    by_cases hid : id = o.outputID <;> simp only [hid, ↓reduceIte]

theorem Manager.rollbackDiff_stateTree :
    (m.rollbackDiff slot newOutputs newSpents).stateTree.lookup id =
      if id ∈ newOutputs.map Output.outputID then none
      else if id ∈ newSpents.map Spent.outputID then some id.creationSlot
      else m.stateTree.lookup id := by
  unfold rollbackDiff
  rw [lookup_foldl_erase_keys Output.outputID]
  congr 1
  exact lookup_foldl_insert_slot Spent.outputID newSpents m.stateTree id

theorem Manager.applyDiff_index :
    (m.applyDiff p slot newOutputs newSpents).store.ledgerIndex = some slot ∧
      (m.applyDiff p slot newOutputs newSpents).store.slotDiffs =
        m.store.slotDiffs.insert slot
          (SlotDiff.kvStorableValue p ⟨slot, newOutputs, newSpents⟩) := by
  unfold applyDiff
  rw [commit_append, commit_append]
  refine ⟨rfl, ?_⟩
  change (commit _ (newSpents.flatMap _)).slotDiffs.insert slot _ = _
  rw [(commit_flatMap_frame _ (fun _ => rfl) newSpents).2,
    (m.store.commit_flatMap_frame (fun _ => rfl) newOutputs).2]

theorem Manager.rollbackDiff_index :
    (m.rollbackDiff slot newOutputs newSpents).store.ledgerIndex = some (slot - 1) ∧
      (m.rollbackDiff slot newOutputs newSpents).store.slotDiffs =
        m.store.slotDiffs.erase slot := by
  unfold rollbackDiff
  rw [commit_append, commit_append]
  refine ⟨rfl, ?_⟩
  change (commit _ (newOutputs.flatMap _)).slotDiffs.erase slot = _
  rw [(commit_flatMap_frame _ (fun _ => rfl) newOutputs).2,
    (m.store.commit_flatMap_frame (fun _ => rfl) newSpents).2]

end Diffs

theorem Manager.importUnspentOutput_status (o : Output) (id : OutputID) :
    (m.importUnspentOutput o).store.status id =
      if id = o.outputID then ⟨true, (m.store.status id).spent, true⟩ else m.store.status id := by
  simp only [importUnspentOutput, storeOutput, markAsUnspent, commit_cons,
    commit_nil, mutate, status, isSome_insert]
  by_cases hid : id = o.outputID <;> simp only [hid, ↓reduceIte]

theorem map_outputID_of_mapM {α : Type} {read : OutputID → Option α} {key : α → OutputID}
    (hread : ∀ id x, read id = some x → key x = id) {ids : List OutputID} {xs : List α}
    (h : ids.mapM read = some xs) : xs.map key = ids := by
  have hmap := mapM_eq_some_iff_map.mp h
  clear h
  induction ids generalizing xs with
  | nil => rw [map_eq_nil_iff.mp hmap.symm, map_nil]
  | cons id ids ih =>
    obtain ⟨x, xs, rfl, hx, hrest⟩ := map_eq_cons_iff.mp hmap.symm
    rw [map_cons, hread id x hx.symm, ih hrest.symm]

theorem Manager.readOutputByOutputID_outputID (h : m.readOutputByOutputID id = some o) :
    o.outputID = id := by
  obtain ⟨value, _, rfl⟩ := map_eq_some_iff.mp h
  rfl

theorem Manager.readSpentForOutputID_eq_some {s : Spent}
    (h : m.readSpentForOutputID id = some s) :
    s.outputID = id ∧ (m.store.status id).spent = true := by
  obtain ⟨o, ho, hmap⟩ := bind_eq_some_iff.mp h
  obtain ⟨value, hvalue, rfl⟩ := map_eq_some_iff.mp hmap
  refine ⟨readOutputByOutputID_outputID ho, ?_⟩
  simp only [status, hvalue, isSome_some]

theorem Manager.slotDiff_eq_some {slot : Nat} {d : SlotDiff} (h : m.slotDiff slot = some d) :
    d.slot = slot ∧
      m.store.slotDiffs.lookup slot =
        some (d.outputs.map Output.outputID, d.spents.map Spent.outputID) ∧
      ∀ id ∈ d.spents.map Spent.outputID, (m.store.status id).spent = true := by
  obtain ⟨value, hvalue, hrest⟩ := bind_eq_some_iff.mp h
  obtain ⟨outputs, houtputs, hmap⟩ := bind_eq_some_iff.mp hrest
  obtain ⟨spents, hspents, rfl⟩ := map_eq_some_iff.mp hmap
  have hids := map_outputID_of_mapM
    (fun id s hs => (readSpentForOutputID_eq_some hs).1) hspents
  refine ⟨rfl, ?_, ?_⟩
  · rw [hvalue, hids, map_outputID_of_mapM (fun _ _ => readOutputByOutputID_outputID)
      houtputs]
  · intro id hid
    rw [hids] at hid
    have hload : m.readSpentForOutputID id ∈ spents.map some := by
      rw [← mapM_eq_some_iff_map.mp hspents]
      exact mem_map_of_mem hid
    obtain ⟨s, _, hs⟩ := mem_map.mp hload
    exact (readSpentForOutputID_eq_some hs.symm).2

theorem Manager.pruneSlotIndex_status (slot : Nat) (id : OutputID) :
    (m.pruneSlotIndex slot).store.status id = m.store.status id ∨
      ((m.store.status id).spent = true ∧
        (m.pruneSlotIndex slot).store.status id = ⟨false, false, (m.store.status id).unspent⟩) := by
  unfold pruneSlotIndex
  cases hd : m.slotDiff slot with
  | none => exact .inl rfl
  | some d =>
    have hstatus : (m.store.commit (d.spents.flatMap
          (fun s => [deleteOutput s.output, deleteSpent s]) ++ [.deleteDiff slot])).status id =
        if id ∈ d.spents.map Spent.outputID then ⟨false, false, (m.store.status id).unspent⟩
        else m.store.status id := by
      rw [commit_append]
      change (commit _ (d.spents.flatMap _)).status id = _
      rw [status_commit_flatMap _ Spent.outputID _ (fun st => ⟨false, false, st.unspent⟩)
        (fun _ => rfl)]
      intro s o id
      simp only [deleteOutput, deleteSpent, Spent.outputID, commit_cons, commit_nil,
        mutate, status, isSome_erase]
      by_cases hid : id = o.output.outputID <;> simp only [hid, ↓reduceIte]
    rw [hstatus]
    split
    · next hid => exact .inr ⟨(slotDiff_eq_some hd).2.2 id hid, rfl⟩
    · exact .inl rfl

/-! ## Section 3: The invariant of an output -/

/-- The representations of one output agree. -/
structure Ok (m : Manager) (id : OutputID) : Prop where
  unspent : (m.store.status id).unspent =
    ((m.store.status id).stored && !(m.store.status id).spent)
  stateTree : m.stateTree.lookup id =
    if (m.store.status id).unspent then some id.creationSlot else none

theorem ok_emptyManager (id : OutputID) : Ok emptyManager id := ⟨rfl, rfl⟩

theorem Ok.congr {m' : Manager} (h : Ok m id) (hstatus : m'.store.status id = m.store.status id)
    (htree : m'.stateTree.lookup id = m.stateTree.lookup id) : Ok m' id :=
  ⟨by rw [hstatus, h.unspent], by rw [hstatus, htree, h.stateTree]⟩

theorem Ok.applyDiff (h : Ok m id) (slot : Nat) {newOutputs : List Output} {newSpents : List Spent}
    (hvalid : ValidDiff m newOutputs newSpents) :
    Ok (m.applyDiff p slot newOutputs newSpents) id := by
  have hstatus := m.applyDiff_status (p := p) slot newOutputs newSpents id
  have htree := m.applyDiff_stateTree (p := p) slot newOutputs newSpents id
  by_cases hspent : id ∈ newSpents.map Spent.outputID
  · constructor <;> simp [hstatus, htree, hspent]
  · by_cases hnew : id ∈ newOutputs.map Output.outputID
    · have hfresh : (m.store.status id).spent = false := by
        obtain ⟨o, ho, rfl⟩ := mem_map.mp hnew
        simp only [status, (hvalid.fresh o ho).2, isSome_none]
      constructor <;> simp [hstatus, htree, hspent, hnew, hfresh]
    · simp only [hspent, hnew, ↓reduceIte] at hstatus htree
      exact h.congr hstatus htree

/-- A rollback leaves the outputs it touches in order, whatever they were before. -/
theorem Ok.rollbackDiff (h : Ok m id) (slot : Nat) (newOutputs : List Output)
    (newSpents : List Spent) : Ok (m.rollbackDiff slot newOutputs newSpents) id := by
  have hstatus := m.rollbackDiff_status slot newOutputs newSpents id
  have htree := m.rollbackDiff_stateTree slot newOutputs newSpents id
  by_cases hnew : id ∈ newOutputs.map Output.outputID
  · constructor <;> simp [hstatus, htree, hnew]
  · by_cases hspent : id ∈ newSpents.map Spent.outputID
    · constructor <;> simp [hstatus, htree, hnew, hspent]
    · simp only [hspent, hnew, ↓reduceIte] at hstatus htree
      exact h.congr hstatus htree

/-- Only spent outputs are pruned, and they are not unspent. -/
theorem Ok.pruneSlotIndex (h : Ok m id) (slot : Nat) : Ok (m.pruneSlotIndex slot) id := by
  have htree : (m.pruneSlotIndex slot).stateTree = m.stateTree := by
    unfold Manager.pruneSlotIndex
    split <;> rfl
  rcases m.pruneSlotIndex_status slot id with hsame | ⟨hspent, hpruned⟩
  · exact h.congr hsame (by rw [htree])
  · have hnot : (m.store.status id).unspent = false := by simp [h.unspent, hspent]
    exact ⟨by simp [hpruned, hnot], by rw [hpruned, htree, h.stateTree]⟩

theorem Ok.importUnspentOutput (h : Ok m id) (ho : m.store.spents.lookup o.outputID = none) :
    Ok (m.importUnspentOutput o) id := by
  have hstatus := m.importUnspentOutput_status o id
  have htree : (m.importUnspentOutput o).stateTree.lookup id = _ := lookup_insert_eq ..
  by_cases hid : id = o.outputID
  · have hspent : (m.store.status id).spent = false := by
      rw [hid]
      simp only [status, ho, isSome_none]
    rw [if_pos hid] at hstatus htree
    rw [hspent] at hstatus
    exact ⟨by rw [hstatus]; rfl, by rw [hstatus, htree, hid]; rfl⟩
  · rw [if_neg hid] at hstatus htree
    exact h.congr hstatus htree

/-! ## Section 4: The index and the stored diffs -/

theorem Manager.pruneSlotIndex_index (slot : Nat) :
    (m.pruneSlotIndex slot).store.ledgerIndex = m.store.ledgerIndex ∧
      ∀ k v, (m.pruneSlotIndex slot).store.slotDiffs.lookup k = some v →
        m.store.slotDiffs.lookup k = some v := by
  unfold pruneSlotIndex
  cases m.slotDiff slot with
  | none => exact ⟨rfl, fun _ _ h => h⟩
  | some d =>
    have hframe := m.store.commit_flatMap_frame
      (f := fun s => [deleteOutput s.output, deleteSpent s]) (fun _ => rfl) d.spents
    dsimp only
    rw [commit_append]
    refine ⟨hframe.1, fun k v hk => ?_⟩
    change ((commit _ _).slotDiffs.erase slot).lookup k = some v at hk
    rw [hframe.2] at hk
    exact (lookup_of_erase hk).2

/-- The diffs are of consecutive slots. -/
def Consecutive (start : Nat) : List Change → Prop
  | [] => True
  | c :: rest => c.slot = lastApplied start rest + 1 ∧ Consecutive start rest

variable {start targetSlot n : Nat} {applied : List Change}

theorem Consecutive.lastApplied_eq (h : Consecutive start applied) :
    lastApplied start applied = start + applied.length := by
  induction applied with
  | nil => rfl
  | cons c rest ih =>
    have hc : c.slot = lastApplied start rest + 1 := h.1
    rw [ih h.2] at hc
    exact hc

/-- The history fits the manager: the index is the slot of the last diff, the diffs are of
    consecutive slots, and no others are stored. -/
structure Indexed (p : Params) (m : Manager) (start : Nat) (applied : List Change) : Prop where
  index : m.readLedgerIndex p = lastApplied start applied
  consecutive : Consecutive start applied
  stored : ∀ slot, (m.store.slotDiffs.lookup slot).isSome →
    start < slot ∧ slot ≤ lastApplied start applied

theorem Indexed.applyDiff (h : Indexed p m start applied) {slot : Nat}
    (hslot : slot = m.readLedgerIndex p + 1) (newOutputs : List Output) (newSpents : List Spent)
    (outputs spents : List OutputID) :
    Indexed p (m.applyDiff p slot newOutputs newSpents) start
      (⟨slot, outputs, spents⟩ :: applied) := by
  obtain ⟨hindex, hdiffs⟩ := m.applyDiff_index (p := p) slot newOutputs newSpents
  have hlast := h.consecutive.lastApplied_eq
  rw [h.index] at hslot
  refine ⟨by rw [readLedgerIndex, hindex]; rfl, ⟨hslot, h.consecutive⟩, ?_⟩
  intro k hk
  change start < k ∧ k ≤ slot
  rw [hdiffs, lookup_insert_eq] at hk
  by_cases hk' : k = slot
  · omega
  · rw [if_neg hk'] at hk
    have hstored := h.stored k hk
    omega

theorem Indexed.rollbackDiff {c : Change} {rest : List Change}
    (h : Indexed p m start (c :: rest)) (newOutputs : List Output) (newSpents : List Spent) :
    Indexed p (m.rollbackDiff c.slot newOutputs newSpents) start rest := by
  obtain ⟨hindex, hdiffs⟩ := m.rollbackDiff_index c.slot newOutputs newSpents
  have hslot : c.slot = lastApplied start rest + 1 := h.consecutive.1
  refine ⟨by rw [readLedgerIndex, hindex, hslot]; rfl, h.consecutive.2, ?_⟩
  intro k hk
  rw [hdiffs] at hk
  obtain ⟨hne, hk⟩ := isSome_of_erase hk
  obtain ⟨hlow, hhigh⟩ := h.stored k hk
  change k ≤ c.slot at hhigh
  omega

theorem Indexed.pruneSlotIndex (h : Indexed p m start applied) (slot : Nat) :
    Indexed p (m.pruneSlotIndex slot) start applied := by
  obtain ⟨hindex, hdiffs⟩ := m.pruneSlotIndex_index slot
  refine ⟨by rw [readLedgerIndex, hindex]; exact h.index, h.consecutive, ?_⟩
  intro k hk
  obtain ⟨v, hv⟩ := isSome_iff_exists.mp hk
  exact h.stored k (by rw [hdiffs k v hv]; rfl)

/-! ## Section 5: Rollbacks and snapshots -/

theorem Manager.rollbackLoop_le (targetSlot n : Nat) (m : Manager) :
    (m.rollbackLoop targetSlot n).2 ≤ n := by
  induction n generalizing m with
  | zero => exact Nat.le_refl 0
  | succ n ih =>
    unfold rollbackLoop
    split
    · exact Nat.le_refl _
    · exact Nat.le_succ_of_le (ih _)

section Rollback

-- any property of the manager and the history that holds after every round
variable {I : Manager → List Change → Prop}
  (hindexed : ∀ m applied, I m applied → Indexed p m start applied)
  (hround : ∀ m c rest d, I m (c :: rest) → m.slotDiff c.slot = some d →
    I (m.rollbackDiff d.slot d.outputs d.spents) rest)
include hindexed hround

theorem Manager.rollbackLoop_invariant (h : I m applied)
    (hn : lastApplied start applied ≤ targetSlot + n ∧
      (0 < n → lastApplied start applied = targetSlot + n)) :
    I (m.rollbackLoop targetSlot n).1 (applied.drop (n - (m.rollbackLoop targetSlot n).2)) := by
  induction n generalizing m applied with
  | zero => exact h
  | succ n ih =>
    have hlast := hn.2 (Nat.succ_pos n)
    unfold rollbackLoop
    cases hd : m.slotDiff (targetSlot + n + 1) with
    | none =>
      rw [Nat.sub_self]
      exact h
    | some d =>
      -- a diff that is stored has been applied
      obtain ⟨hslot, hlookup, _⟩ := slotDiff_eq_some hd
      have hstored := (hindexed m applied h).stored _ (by rw [hlookup]; rfl)
      cases applied with
      | nil =>
        change start = targetSlot + (n + 1) at hlast
        omega
      | cons c rest =>
        change c.slot = targetSlot + (n + 1) at hlast
        have hnext : c.slot = lastApplied start rest + 1 := (hindexed m _ h).consecutive.1
        have hrest := hround m c rest d h (by rw [hlast]; exact hd)
        have hrec := ih hrest ⟨by omega, fun _ => by omega⟩
        have hleft := rollbackLoop_le targetSlot n
          (m.rollbackDiff d.slot d.outputs d.spents)
        rw [Nat.succ_sub hleft, drop_succ_cons]
        exact hrec

theorem Manager.rollback_invariant (h : I m applied) (targetSlot : Nat) :
    I (m.rollback p targetSlot).1 (applied.drop
      (lastApplied start applied - targetSlot - (m.rollback p targetSlot).2)) := by
  unfold rollback
  rw [(hindexed m applied h).index]
  exact rollbackLoop_invariant hindexed hround h ⟨by omega, fun _ => by omega⟩

end Rollback

variable {ds : List SnapshotDiff} {m' : Manager} {snapshot : Snapshot}

theorem Manager.importDiffs_invariant {I : Manager → List SnapshotDiff → Prop}
    (hround : ∀ m d rest, I m (d :: rest) →
      I (m.rollbackDiff d.slot d.read.outputs d.read.spents) rest) {slot : Nat} (h : I m ds)
    (himport : importDiffs slot ds m = some m') : I m' [] := by
  induction ds generalizing slot m with
  | nil =>
    obtain rfl := some.inj himport
    exact h
  | cons d rest ih =>
    unfold importDiffs at himport
    split_ifs at himport
    exact ih (hround m d rest h) himport

theorem Manager.importDiffs_index {slot : Nat} (h : m.store.ledgerIndex = some slot)
    (himport : importDiffs slot ds m = some m') :
    m'.store.ledgerIndex = some (slot - ds.length) := by
  induction ds generalizing slot m with
  | nil =>
    obtain rfl := some.inj himport
    exact h
  | cons d rest ih =>
    unfold importDiffs at himport
    split_ifs at himport with hslot
    rw [not_not] at hslot
    have hrest := ih (by rw [(m.rollbackDiff_index d.slot _ _).1, hslot]) himport
    rw [hrest, length_cons, Nat.sub_sub, Nat.add_comm]

theorem Manager.exportDiffs_length {targetIndex : Nat} (h : m.exportDiffs targetIndex n = some ds) :
    ds.length = n := by
  induction n generalizing ds with
  | zero =>
    obtain rfl := some.inj h
    rfl
  | succ n ih =>
    obtain ⟨d, _, hmap⟩ := bind_eq_some_iff.mp h
    obtain ⟨rest, hrest, rfl⟩ := map_eq_some_iff.mp hmap
    rw [length_cons, ih hrest]

/-- The manager in `Import` before the diffs are rolled back. -/
def importOutputs (s : Snapshot) : Manager :=
  s.outputs.foldl importUnspentOutput
    { emptyManager with store := { emptyManager.store with ledgerIndex := some s.ledgerIndex } }

theorem importOutputs_invariant {I : Manager → Prop} (s : Snapshot)
    (hstart : I ⟨⟨some s.ledgerIndex, ∅, ∅, ∅, ∅⟩, ∅⟩)
    (hstep : ∀ m o, I m → I (m.importUnspentOutput o)) : I (importOutputs s) :=
  foldlRecOn s.outputs _ hstart fun m hm o _ => hstep m o hm

theorem importOutputs_store (s : Snapshot) :
    (importOutputs s).store.ledgerIndex = some s.ledgerIndex ∧
      (importOutputs s).store.slotDiffs = ∅ ∧ (importOutputs s).store.spents = ∅ :=
  importOutputs_invariant (I := fun m => m.store.ledgerIndex = some s.ledgerIndex ∧
    m.store.slotDiffs = ∅ ∧ m.store.spents = ∅) s ⟨rfl, rfl, rfl⟩ (fun _ _ hm => hm)

theorem ok_importOutputs (s : Snapshot) (id : OutputID) : Ok (importOutputs s) id := by
  refine (importOutputs_invariant (I := fun m => Ok m id ∧ m.store.spents = ∅) s
    ⟨⟨rfl, rfl⟩, rfl⟩ ?_).1
  rintro m o ⟨hok, hspents⟩
  refine ⟨hok.importUnspentOutput ?_, hspents⟩
  rw [hspents]
  exact AList.lookup_empty _

theorem Indexed.importSnapshot (h : Indexed p m start applied)
    (hexport : m.exportSnapshot p targetSlot = some snapshot)
    (himport : emptyManager.importSnapshot snapshot = some m') :
    Indexed p m' (min targetSlot (lastApplied start applied)) [] := by
  obtain ⟨outputs, _, hmap⟩ := bind_eq_some_iff.mp hexport
  obtain ⟨ds, hds, rfl⟩ := map_eq_some_iff.mp hmap
  obtain ⟨hindex, hdiffs, _⟩ := importOutputs_store ⟨m.readLedgerIndex p, outputs, ds⟩
  refine ⟨?_, trivial, ?_⟩
  · have hlast := importDiffs_index hindex himport
    rw [readLedgerIndex, hlast, exportDiffs_length hds, h.index]
    change lastApplied start applied - (lastApplied start applied - targetSlot) =
      min targetSlot (lastApplied start applied)
    omega
  · intro k hk
    have hnone : ∀ k, m'.store.slotDiffs.lookup k = none := by
      apply importDiffs_invariant (I := fun m _ => ∀ k, m.store.slotDiffs.lookup k = none)
        _ _ himport
      · intro m d rest hm k
        rw [(m.rollbackDiff_index _ _ _).2, lookup_erase_eq, hm k, ite_self]
      · intro k
        change (importOutputs _).store.slotDiffs.lookup k = none
        rw [hdiffs]
        exact AList.lookup_empty k
    rw [hnone k] at hk
    cases hk

theorem ok_importSnapshot (himport : emptyManager.importSnapshot snapshot = some m')
    (id : OutputID) : Ok m' id :=
  importDiffs_invariant (I := fun m _ => Ok m id)
    (fun _ _ _ hm => hm.rollbackDiff _ _ _) (ok_importOutputs snapshot id) himport

/-! ## Section 6: Runs -/

/-- The representation and the history of a ledger are in order. -/
structure Inv (p : Params) (l : Ledger) : Prop where
  ok : ∀ id, Ok l.manager id
  indexed : Indexed p l.manager l.start l.applied

theorem inv_genesis (p : Params) : Inv p (genesis p) := by
  refine ⟨ok_emptyManager, rfl, trivial, fun slot hslot => ?_⟩
  cases hslot

theorem step_inv (l : Ledger) (op : Operation) (l' : Ledger) (h : Inv p l)
    (hstep : step p l op = some l') : Inv p l' := by
  cases op with
  | addGenesisUnspentOutput o =>
    obtain ⟨hspent, hl'⟩ := ite_none_right_eq_some.mp hstep
    obtain rfl := some.inj hl'
    exact ⟨fun id => (h.ok id).importUnspentOutput hspent, h.indexed.1, h.indexed.2, h.indexed.3⟩
  | applyDiff slot newOutputs newSpents =>
    obtain ⟨⟨hslot, hvalid⟩, hl'⟩ := ite_none_right_eq_some.mp hstep
    obtain rfl := some.inj hl'
    exact ⟨fun id => (h.ok id).applyDiff slot hvalid, h.indexed.applyDiff hslot _ _ _ _⟩
  | rollbackDiff newOutputs newSpents =>
    cases happlied : l.applied with
    | nil =>
      rw [step, happlied] at hstep
      cases hstep
    | cons c rest =>
      rw [step, happlied] at hstep
      obtain ⟨_, hl'⟩ := ite_none_right_eq_some.mp hstep
      obtain rfl := some.inj hl'
      have hindexed := h.indexed
      rw [happlied] at hindexed
      exact ⟨fun id => (h.ok id).rollbackDiff c.slot _ _, hindexed.rollbackDiff _ _⟩
  | rollback targetSlot =>
    obtain rfl := some.inj hstep
    have hall := rollback_invariant
      (I := fun m applied => (∀ id, Ok m id) ∧ Indexed p m l.start applied)
      (fun _ _ h => h.2) (fun m c rest d hm hd => by
        rw [(slotDiff_eq_some hd).1]
        exact ⟨fun id => (hm.1 id).rollbackDiff _ _ _, hm.2.rollbackDiff _ _⟩)
      ⟨h.ok, h.indexed⟩ targetSlot
    exact ⟨hall.1, hall.2⟩
  | pruneSlotIndex slot =>
    obtain rfl := some.inj hstep
    exact ⟨fun id => (h.ok id).pruneSlotIndex slot, h.indexed.pruneSlotIndex slot⟩
  | importExported targetSlot =>
    obtain ⟨snapshot, hexport, hmap⟩ := bind_eq_some_iff.mp hstep
    obtain ⟨m', himport, rfl⟩ := map_eq_some_iff.mp hmap
    exact ⟨ok_importSnapshot himport, h.indexed.importSnapshot hexport himport⟩

/-- In every reachable state the unspent lookup keys, the keys of the state tree and the
    stored outputs without a spent record are the same, no output is both unspent and
    spent, the tree has the creation slot of each, and the ledger index is the last applied
    slot. -/
theorem representation_invariant (p : Params) {ops : List Operation} {l : Ledger}
    (hrun : run (step p) (genesis p) ops = some l) :
    (∀ id, (l.manager.store.unspent.lookup id).isSome ↔ (l.manager.stateTree.lookup id).isSome) ∧
    (∀ id, (l.manager.store.unspent.lookup id).isSome ↔
      (l.manager.store.outputs.lookup id).isSome ∧ l.manager.store.spents.lookup id = none) ∧
    (∀ id, ¬ ((l.manager.store.unspent.lookup id).isSome ∧
      (l.manager.store.spents.lookup id).isSome)) ∧
    (∀ id slot, l.manager.stateTree.lookup id = some slot → slot = id.creationSlot) ∧
    l.manager.readLedgerIndex p = lastApplied l.start l.applied := by
  have hinv : Inv p l := run_invariant step_inv (inv_genesis p) hrun
  have hstatus : ∀ id, (l.manager.store.unspent.lookup id).isSome =
      ((l.manager.store.outputs.lookup id).isSome && !(l.manager.store.spents.lookup id).isSome) :=
    fun id => (hinv.ok id).unspent
  have htree : ∀ id, l.manager.stateTree.lookup id =
      if (l.manager.store.unspent.lookup id).isSome then some id.creationSlot else none :=
    fun id => (hinv.ok id).stateTree
  refine ⟨fun id => ?_, fun id => ?_, fun id => ?_, fun id slot hslot => ?_, hinv.indexed.index⟩
  · rw [htree id]
    cases (l.manager.store.unspent.lookup id).isSome <;> simp
  · simp [hstatus id]
  · simp [hstatus id]
  · rw [htree id] at hslot
    split_ifs at hslot
    exact (some.inj hslot).symm

/-- IDs are sorted by the transaction. -/
def sampleParams : Params where
  genesisSlot := 0
  lexicalLE := fun a b => decide (a.transactionID ≤ b.transactionID)

/-- The output of a transaction of a slot. -/
def sampleOutput (transactionID creationSlot : Nat) : Output :=
  ⟨⟨transactionID, creationSlot, 0⟩, ⟨transactionID, creationSlot, [1], []⟩⟩

def sampleSpent (transactionID creationSlot slotSpent : Nat) : Spent :=
  ⟨sampleOutput transactionID creationSlot, ⟨transactionID + 1, slotSpent⟩⟩

/-- Output 2 is created and spent in slot 1; slot 2 is taken back in the snapshot, applied
    again and rolled back. -/
def sampleOperations : List Operation :=
  [.addGenesisUnspentOutput (sampleOutput 1 0),
    .applyDiff 1 [sampleOutput 2 1, sampleOutput 3 1] [sampleSpent 1 0 1, sampleSpent 2 1 1],
    .applyDiff 2 [sampleOutput 4 2] [sampleSpent 3 1 2],
    .pruneSlotIndex 1,
    .importExported 1,
    .applyDiff 2 [sampleOutput 4 2] [sampleSpent 3 1 2],
    .rollbackDiff [sampleOutput 4 2] [sampleSpent 3 1 2],
    .applyDiff 2 [sampleOutput 4 2] [],
    .applyDiff 3 [sampleOutput 5 3] [sampleSpent 4 2 3],
    .rollback 2]

/-- At the end outputs 3 and 4 are unspent, and the index is 2. -/
theorem representation_invariant_sample :
    ∃ l, run (step sampleParams) (genesis sampleParams) sampleOperations = some l ∧
      (l.manager.stateTree.lookup ⟨3, 1, 0⟩).isSome ∧
      (l.manager.stateTree.lookup ⟨4, 2, 0⟩).isSome ∧
      l.manager.store.spents.lookup ⟨4, 2, 0⟩ = none ∧
      l.manager.readLedgerIndex sampleParams = 2 := by
  refine exists_of_result (P := fun l => (l.manager.store.unspent.lookup ⟨3, 1, 0⟩).isSome ∧
    (l.manager.store.unspent.lookup ⟨4, 2, 0⟩).isSome ∧
    lastApplied l.start l.applied = 2) (by decide +kernel) ?_
  rintro l hrun ⟨hthree, hfour, hlast⟩
  obtain ⟨htree, hstored, _, _, hindex⟩ := representation_invariant sampleParams hrun
  exact ⟨(htree _).mp hthree, (htree _).mp hfour, ((hstored _).mp hfour).2, hindex.trans hlast⟩

end AxonCore.UtxoLedger

import AxonCore.Lib.Run

/-! # The block retainer

    The retainer answers in which state a block is.  The states of blocks of uncommitted slots
    are kept in a cache; `CommitSlot` moves them to a store that survives a restart.  The latest
    committed slot and the finalized slot turn what is kept into what is reported.

    A reported acceptance is not taken back (`blockMetadata_monotone`), unless

    * a confirmed block is dropped before its slot is committed: `setBlockMetadata` protects an
      accepted block, but tests the new state for confirmation where the previous one is meant;
    * the retainer is created anew while the store holds blocks of committed slots: its latest
      committed slot is 0 then, so that they are not found. -/

namespace AxonCore.BlockRetainer

open AxonCore.Lib Function

/-! ## Section 1: The retainer -/

structure BlockID where
  identifier : Nat
  slot : Nat
  deriving DecidableEq

/-- `api.BlockState`. -/
inductive BlockState where
  | pending | accepted | confirmed | finalized | dropped | orphaned
  deriving DecidableEq

inductive RetainerError where
  | notFound (blockID : BlockID)
  | alreadyCommitted (blockID : BlockID) (state : BlockState)
  deriving DecidableEq

/-- `BlockRetainer`.  An ID contains its slot, so the maps of all slots are one map here, in the
    cache and in the store. -/
structure Retainer where
  cache : BlockID → Option BlockState
  store : BlockID → Option BlockState
  latestCommittedSlot : Nat
  /-- What `finalizedSlotFunc` returns. -/
  finalizedSlot : Nat

/-- `New`, over what is stored already. -/
def new (store : BlockID → Option BlockState) (finalizedSlot : Nat) : Retainer :=
  ⟨fun _ => none, store, 0, finalizedSlot⟩

namespace Retainer

variable (r : Retainer) (blockID : BlockID) (state : BlockState)

/-- `setBlockMetadata`. -/
def setBlockMetadata : Retainer :=
  match r.cache blockID with
  | some prevState =>
    if state = .dropped ∧ (prevState = .accepted ∨ state = .confirmed) then r
    else { r with cache := update r.cache blockID (some state) }
  | none => { r with cache := update r.cache blockID (some state) }

/-- `UpdateBlockMetadata`. -/
def updateBlockMetadata : Except RetainerError Retainer :=
  if r.latestCommittedSlot < blockID.slot then .ok (r.setBlockMetadata blockID state)
  else if state ≠ .confirmed then .error (.alreadyCommitted blockID state)
  else .ok { r with store := update r.store blockID (some state) }

/-- `CommitSlot`: the cached blocks up to the slot are stored and leave the cache. -/
def commitSlot (committedSlot : Nat) : Retainer :=
  { r with
    store := fun id => if id.slot ≤ committedSlot then (r.cache id).or (r.store id) else r.store id
    cache := fun id => if id.slot ≤ committedSlot then none else r.cache id
    latestCommittedSlot := committedSlot }

/-- The state that is kept of a block: `blockState` looks into the cache, and into the store for
    blocks of committed slots. -/
def kept : Option BlockState :=
  (r.cache blockID).or (if r.latestCommittedSlot < blockID.slot then none else r.store blockID)

/-- What `blockState` makes of it. -/
def report : BlockState :=
  match state with
  | .pending | .dropped => if blockID.slot ≤ r.latestCommittedSlot then .orphaned else state
  | .accepted | .confirmed => if blockID.slot ≤ r.finalizedSlot then .finalized else state
  | _ => state

/-- `BlockMetadata`. -/
def blockMetadata : Except RetainerError BlockState :=
  match r.kept blockID with
  | some state => .ok (r.report blockID state)
  | none => .error (.notFound blockID)

end Retainer

/-- What happens to the retainer. -/
inductive Op where
  /-- `OnBlockBooked`, `OnBlockAccepted`, `OnBlockConfirmed` and `OnBlockDropped` update the state
      of a block to pending, accepted, confirmed and dropped. -/
  | update (blockID : BlockID) (state : BlockState)
  | commitSlot (slot : Nat)
  | finalize (slot : Nat)
  /-- The node is restarted, at the latest committed slot. -/
  | recreate (slot : Nat)

/-- An update that fails changes nothing. -/
def step (r : Retainer) : Op → Option Retainer
  | .update blockID state => some ((r.updateBlockMetadata blockID state).toOption.getD r)
  | .commitSlot slot => some (r.commitSlot slot)
  | .finalize slot => some { r with finalizedSlot := slot }
  | .recreate _ => some (new r.store r.finalizedSlot)

/-! ## Section 2: The order of the events -/

/-- The order in which a block gets its states; 0 before it is accepted. -/
def BlockState.rank : BlockState → Nat
  | .accepted => 1
  | .confirmed => 2
  | .finalized => 3
  | _ => 0

/-- The order that the engine allows: a block is booked, accepted and confirmed in this order and
    dropped at any time, so that no other event is behind what is kept of the block; slots are
    committed and finalized one after the other. -/
def InOrder (r : Retainer) : Op → Prop
  | .update blockID state => ∀ old ∈ r.kept blockID, old.rank ≤ state.rank ∨ state = .dropped
  | .commitSlot slot => r.latestCommittedSlot < slot
  | .finalize slot => r.finalizedSlot ≤ slot
  | .recreate slot => r.latestCommittedSlot ≤ slot

/-- No confirmed block of an uncommitted slot is dropped, and nothing is kept of committed slots
    when the node is restarted. -/
def Protected (r : Retainer) : Op → Prop
  | .update blockID state => state = .dropped → r.latestCommittedSlot < blockID.slot →
    ∀ old ∈ r.kept blockID, old.rank ≤ 1
  | .recreate slot => ∀ blockID, blockID.slot ≤ slot → r.kept blockID = none
  | _ => True

/-- The node is restarted in a run while the slot of the block is not committed. -/
def RestartedBefore (blockID : BlockID) (ops : List Op) : Prop :=
  ∃ slot < blockID.slot, .recreate slot ∈ ops

/-! ## Section 3: One step -/

namespace Retainer

/-- No acceptance is taken back. -/
structure Grows (r r' : Retainer) : Prop where
  kept : ∀ id, ∀ old ∈ r.kept id, ∃ state ∈ r'.kept id, old.rank ≤ state.rank
  finalizedSlot : r.finalizedSlot ≤ r'.finalizedSlot

theorem Grows.refl (r : Retainer) : Grows r r :=
  ⟨fun _ old hold => ⟨old, hold, Nat.le_refl _⟩, Nat.le_refl _⟩

variable {r r' : Retainer}

theorem grows_commitSlot {slot : Nat} (hslot : r.latestCommittedSlot < slot) :
    Grows r (r.commitSlot slot) := by
  refine ⟨fun id old hold => ⟨old, ?_, Nat.le_refl _⟩, Nat.le_refl _⟩
  unfold kept at hold
  by_cases hid : id.slot ≤ slot
  · -- the block is in the store now, wherever it was kept before
    show old ∈ Option.or (if id.slot ≤ slot then none else _) (if slot < id.slot then none else
      if id.slot ≤ slot then _ else _)
    rw [if_pos hid, if_pos hid, if_neg (by omega), Option.none_or]
    cases hcache : r.cache id <;> rw [hcache] at hold
    · split_ifs at hold
      · cases hold
      · exact hold
    · exact hold
  · rw [if_pos (by omega)] at hold
    simp_all [kept, commitSlot]

variable {id : BlockID} {state : BlockState}

theorem Grows.replace (id : BlockID) (hle : ∀ old ∈ r.kept id, old.rank ≤ state.rank)
    (hkept : ∀ j, r'.kept j = r.kept j ∨ j = id ∧ r'.kept j = some state)
    (hfinalized : r'.finalizedSlot = r.finalizedSlot) : Grows r r' := by
  refine ⟨fun j old hold => ?_, Nat.le_of_eq hfinalized.symm⟩
  rcases hkept j with hsame | ⟨rfl, hnew⟩
  · exact ⟨old, hsame ▸ hold, Nat.le_refl _⟩
  · exact ⟨state, hnew, hle old hold⟩

theorem grows_updateBlockMetadata (horder : InOrder r (.update id state))
    (hprotected : Protected r (.update id state)) :
    Grows r ((r.updateBlockMetadata id state).toOption.getD r) := by
  unfold updateBlockMetadata
  split_ifs with hslot hstate
  · have hinsert : (state = .dropped → r.kept id ≠ some .accepted) →
        Grows r { r with cache := update r.cache id (some state) } := by
      intro hdropped
      have hle : ∀ old ∈ r.kept id, old.rank ≤ state.rank := by
        intro old hold
        rcases horder old hold with hle | rfl
        · exact hle
        · -- what is dropped was neither accepted nor confirmed
          have hle := hprotected rfl hslot old hold
          have hne : old ≠ .accepted := fun heq => hdropped rfl (heq ▸ hold)
          cases old <;> simp_all [BlockState.rank]
      refine .replace id hle (fun j => ?_) rfl
      by_cases hj : j = id <;> simp [kept, hj]
    show Grows r (r.setBlockMetadata id state)
    unfold setBlockMetadata
    cases hcache : r.cache id with
    | none => exact hinsert fun _ => by simp [kept, hcache, hslot]
    | some prevState =>
      dsimp only
      split_ifs with hkeep
      · exact .refl r
      · exact hinsert fun hdropped => by simp_all [kept]
  · exact .refl r
  · -- a block of a committed slot is confirmed
    obtain rfl := not_not.mp hstate
    show Grows r { r with store := update r.store id (some .confirmed) }
    refine .replace id (fun old hold => (horder old hold).resolve_right (by simp)) (fun j => ?_) rfl
    by_cases hj : j = id
    · subst hj
      cases hcache : r.cache j <;> simp [kept, hcache, hslot]
    · simp [kept, hj]

theorem grows_step {op : Op} (horder : InOrder r op) (hprotected : Protected r op)
    (hrestart : ∀ slot, op ≠ .recreate slot) (hstep : step r op = some r') : Grows r r' := by
  cases op <;> obtain rfl := Option.some.inj hstep
  case update => exact grows_updateBlockMetadata horder hprotected
  case commitSlot => exact grows_commitSlot horder
  case finalize => exact ⟨(Grows.refl r).kept, horder⟩
  case recreate slot => exact absurd rfl (hrestart slot)

theorem kept_run (id : BlockID) {ops : List Op} (horder : AllSteps step InOrder r ops)
    (hprotected : AllSteps step Protected r ops) (hrun : run step r ops = some r') :
    (∀ old ∈ r.kept id, ∃ state ∈ r'.kept id, old.rank ≤ state.rank) ∧
        r.finalizedSlot ≤ r'.finalizedSlot ∨ RestartedBefore id ops := by
  induction ops generalizing r with
  | nil =>
    obtain rfl := Option.some.inj hrun
    exact .inl ⟨(Grows.refl _).kept id, Nat.le_refl _⟩
  | cons op ops ih =>
    obtain ⟨s, hstep, hrest⟩ := run_cons.mp hrun
    rcases ih (horder.2 s hstep) (hprotected.2 s hstep) hrest with
      ⟨hkept, hfinalized⟩ | ⟨slot, hslot, hmem⟩
    · by_cases hrestart : ∃ slot, op = .recreate slot
      · obtain ⟨slot, rfl⟩ := hrestart
        obtain rfl := Option.some.inj hstep
        by_cases hslot : slot < id.slot
        · exact .inr ⟨slot, hslot, List.mem_cons_self⟩
        · -- there is nothing to take back
          rw [hprotected.1 id (Nat.le_of_not_lt hslot)]
          exact .inl ⟨fun old hold => (nomatch hold), hfinalized⟩
      · have hgrows := grows_step horder.1 hprotected.1 (not_exists.mp hrestart) hstep
        refine .inl ⟨fun old hold => ?_, Nat.le_trans hgrows.finalizedSlot hfinalized⟩
        obtain ⟨state, hstate, hle⟩ := hgrows.kept id old hold
        obtain ⟨state', hstate', hle'⟩ := hkept state hstate
        exact ⟨state', hstate', Nat.le_trans hle hle'⟩
    · exact .inr ⟨slot, hslot, List.mem_cons_of_mem op hmem⟩

/-- The store holds blocks of committed slots only. -/
def StoresCommitted (r : Retainer) : Prop :=
  ∀ id, (r.store id).isSome → id.slot ≤ r.latestCommittedSlot

theorem storesCommitted_step {op : Op} (h : StoresCommitted r) (horder : InOrder r op)
    (hprotected : Protected r op) (hstep : step r op = some r') : StoresCommitted r' := by
  cases op <;> obtain rfl := Option.some.inj hstep
  case update id state =>
    unfold updateBlockMetadata
    split_ifs with hslot hstate
    · show StoresCommitted (r.setBlockMetadata id state)
      unfold setBlockMetadata
      repeat' split
      all_goals exact h
    · exact h
    · intro j hj
      replace hj : (update r.store id (some state) j).isSome := hj
      by_cases heq : j = id
      · subst heq
        exact Nat.le_of_not_lt hslot
      · rw [update_of_ne heq] at hj
        exact h j hj
  case commitSlot slot =>
    intro id hid
    show id.slot ≤ slot
    by_contra hslot
    have hold := h id (by simpa [commitSlot, hslot] using hid)
    exact hslot (Nat.le_trans hold (Nat.le_of_lt horder))
  case finalize => exact h
  case recreate =>
    -- what is stored is of a committed slot, and of those nothing is kept
    intro id hid
    have hkept := hprotected id (Nat.le_trans (h id hid) horder)
    rw [kept, if_neg (Nat.not_lt.mpr (h id hid)), Option.or_eq_none_iff] at hkept
    replace hid : (r.store id).isSome := hid
    rw [hkept.2] at hid
    cases hid

/-! ## Section 4: What is reported -/

theorem rank_report_le {id : BlockID} {old state : BlockState}
    (hfinalized : r.finalizedSlot ≤ r'.finalizedSlot) (hle : old.rank ≤ state.rank)
    (hpos : 0 < (r.report id old).rank) :
    (r.report id old).rank ≤ (r'.report id state).rank := by
  cases old <;> cases state <;> simp_all [report, BlockState.rank] <;> split_ifs <;> simp_all <;>
    omega

/-- Once a block is reported as accepted, confirmed or finalized, every later answer is one of
    these states, and not an earlier one in this order, unless the node was restarted before
    the slot of the block was committed.  The store holds blocks of committed slots. -/
theorem blockMetadata_monotone {ops : List Op} (horder : AllSteps step InOrder r ops)
    (hprotected : AllSteps step Protected r ops) (hrun : run step r ops = some r') :
    (∀ id state, r.blockMetadata id = .ok state → 0 < state.rank →
      (∃ state', r'.blockMetadata id = .ok state' ∧ state.rank ≤ state'.rank) ∨
        RestartedBefore id ops) ∧
    (StoresCommitted r → StoresCommitted r') := by
  constructor
  · intro id state hreported haccepted
    refine (kept_run id horder hprotected hrun).imp_left fun ⟨hgrows, hfinalized⟩ => ?_
    unfold blockMetadata at hreported ⊢
    cases hkept : r.kept id with
    | none =>
      rw [hkept] at hreported
      cases hreported
    | some old =>
      rw [hkept] at hreported
      obtain rfl := Except.ok.inj hreported
      obtain ⟨new, hnew, hle⟩ := hgrows old hkept
      rw [hnew]
      exact ⟨_, rfl, rank_report_le hfinalized hle haccepted⟩
  · exact fun h => run_invariant_of (fun s op s' hs hop hstep =>
      storesCommitted_step hs hop.1 hop.2 hstep) h (horder.and hprotected) hrun

def acceptedBlock : Retainer := (new (fun _ => none) 0).setBlockMetadata ⟨0, 1⟩ .accepted

/-- An accepted block is dropped, committed, confirmed and finalized. -/
theorem blockMetadata_monotone_finalized :
    ∃ r', run step acceptedBlock [.update ⟨0, 1⟩ .dropped, .commitSlot 1,
        .update ⟨0, 1⟩ .confirmed, .finalize 1] = some r' ∧
      ∃ state, r'.blockMetadata ⟨0, 1⟩ = .ok state ∧ BlockState.accepted.rank ≤ state.rank := by
  refine exists_of_result (P := fun _ => True) ⟨_, rfl, trivial⟩ fun r' hrun _ => ?_
  obtain ⟨hmonotone, _⟩ := blockMetadata_monotone (by
    simp [AllSteps, step, InOrder, kept, updateBlockMetadata, setBlockMetadata,
      commitSlot, new, BlockState.rank, Except.toOption, acceptedBlock]) (by
    simp [AllSteps, step, Protected, kept, updateBlockMetadata, setBlockMetadata,
      commitSlot, new, BlockState.rank, Except.toOption, acceptedBlock]) hrun
  refine (hmonotone ⟨0, 1⟩ .accepted rfl Nat.one_pos).resolve_right ?_
  simp [RestartedBefore]

/-- A confirmed block is dropped, and an accepted block of a committed slot is not found after a
    restart. -/
theorem blockMetadata_lost :
    ((run step (new (fun _ => none) 0) [.update ⟨0, 1⟩ .pending, .update ⟨0, 1⟩ .accepted,
        .update ⟨0, 1⟩ .confirmed, .update ⟨0, 1⟩ .dropped]).map (·.blockMetadata ⟨0, 1⟩)) =
      some (.ok .dropped) ∧
    ((run step (new (fun _ => none) 0) [.update ⟨0, 1⟩ .pending, .update ⟨0, 1⟩ .accepted,
        .commitSlot 1, .recreate 1]).map (·.blockMetadata ⟨0, 1⟩)) =
      some (.error (.notFound ⟨0, 1⟩)) := by
  constructor <;> rfl

end Retainer

end AxonCore.BlockRetainer

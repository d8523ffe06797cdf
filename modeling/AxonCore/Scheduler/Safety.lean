import AxonCore.Scheduler.Refinement

/-! # Deficits are safe

    Queues and deficits are kept in two maps.  A queue is created when a block arrives or an
    account is created; it is removed when the account is destroyed, when the issuer has the
    greatest deficit and nothing to send, and on a reset.  The deficit of an issuer is created
    with the queue but removed only with the account.

    `Safe` says that every queue has a deficit and that all deficits are in range.  An operation
    keeps it, and does not panic, if

    * an issuer is created only once,
    * the ring stays intact (see `Rep.not_intact_removeIssuerQueue`), and
    * no block is skipped in a selection, or skipping one leaves the first blocks of the other
      queues where they are (`Steady`).

    The last one is needed: a committed block that is skipped makes its children ready, and one of
    them may become the first block of a queue for which the rounds were counted before. -/

namespace AxonCore.Drr

open AxonCore.Lib Function List Option BasicBuffer

variable {ID : Type} [DecidableEq ID]

/-! ## Section 1: Operations -/

/-- The content of a queue after blocks were submitted, dropped or made ready. -/
structure QueueChange (ID : Type) where
  issuerID : ID
  nonReady : Nat
  ready : List (Block ID)

/-- The operations of the scheduler. -/
inductive SchedulerOp (ID : Type) where
  /-- `enqueueBasicBlock`: `Submit` and `tryReady` change some queues. -/
  | enqueueBasicBlock (issuerID : ID) (changes : List (QueueChange ID))
  /-- `updateChildrenWithLocking`. -/
  | updateChildren (changes : List (QueueChange ID))
  /-- `selectBasicBlockWithoutLocking`. -/
  | select (p : Params ID)
  /-- `scheduleBasicBlock`: the selected block leaves the channel. -/
  | schedule
  /-- `createIssuer`, when an account is created. -/
  | createIssuer (accountID : ID)
  /-- `removeIssuer`, when an account is destroyed. -/
  | removeIssuer (issuerID : ID)
  /-- `Reset`, with the order in which the map of active issuers is iterated. -/
  | reset (order : List ID)

namespace Scheduler

/-- `New`. -/
def new : Scheduler ID := ⟨BasicBuffer.new, ∅, none⟩

variable (s : Scheduler ID)

/-- `getOrCreateIssuer`. -/
def getOrCreateIssuer (accountID : ID) : Option (Scheduler ID) :=
  (s.basicBuffer.getOrCreateIssuerQueue accountID).map fun b =>
    match s.deficits.lookup accountID with
    | none => { s.setDeficit accountID 0 with basicBuffer := b }
    | some _ => { s with basicBuffer := b }

/-- `createIssuer`: it panics if there is a queue or a deficit. -/
def createIssuer (accountID : ID) : Option (Scheduler ID) :=
  (s.basicBuffer.createIssuerQueue accountID).bind fun b =>
    match s.deficits.lookup accountID with
    | some _ => none
    | none => some { s.setDeficit accountID 0 with basicBuffer := b }

/-- `removeIssuer`. -/
def removeIssuer (issuerID : ID) : Option (Scheduler ID) :=
  (s.basicBuffer.removeIssuerQueue issuerID).map fun b =>
    { s with basicBuffer := b, deficits := s.deficits.erase issuerID }

/-- `Reset`: the channel and the buffer are cleared, the deficits stay. -/
def reset (order : List ID) : Option (Scheduler ID) :=
  (s.basicBuffer.clear order).map fun b => { s with basicBuffer := b, blockChan := none }

/-- Queues get another content. -/
def updateQueues (changes : List (QueueChange ID)) : Option (Scheduler ID) :=
  (run (fun (b : BasicBuffer ID) (e : QueueChange ID) => b.update e.issuerID e.nonReady e.ready)
    s.basicBuffer changes).map fun b => { s with basicBuffer := b }

/-- One operation; `none` if it panics. -/
def step : SchedulerOp ID → Option (Scheduler ID)
  | .enqueueBasicBlock issuerID changes =>
    (s.getOrCreateIssuer issuerID).bind fun s => s.updateQueues changes
  | .updateChildren changes => s.updateQueues changes
  | .select p => s.selectBasicBlockWithoutLocking p
  | .schedule => some { s with blockChan := none }
  | .createIssuer accountID => s.createIssuer accountID
  | .removeIssuer issuerID => s.removeIssuer issuerID
  | .reset order => s.reset order

end Scheduler

/-! ## Section 2: Legal blocks -/

/-- All ready blocks are in the queues of their issuers and do not exceed the maximum work. -/
def LegalBlocks (maxBlockWork : Nat) (b : BasicBuffer ID) : Prop :=
  ∀ c q, b.value c = some q → ∀ block ∈ q.ready,
    block.issuerID = q.issuerID ∧ block.workScore ≤ maxBlockWork

variable {b : BasicBuffer ID} {c : Nat} {q : IssuerQueue ID}

omit [DecidableEq ID] in
theorem LegalBlocks.setValue {maxBlockWork : Nat} (h : LegalBlocks maxBlockWork b)
    (hq : ∀ block ∈ q.ready,
      block.issuerID = q.issuerID ∧ block.workScore ≤ maxBlockWork) :
    LegalBlocks maxBlockWork (b.setValue c q) := by
  intro d r hr
  have hr : update b.value c (some q) d = some r := hr
  rw [update_apply] at hr
  split at hr
  · obtain rfl := some.inj hr
    exact hq
  · exact h d r hr

/-- What `updateChildrenWithoutLocking` does to the buffer: blocks that are in the queues become
    ready. -/
structure MoreReady (maxBlockWork : Nat) (b b' : BasicBuffer ID) : Prop where
  same : SameQueues b b'
  legal : LegalBlocks maxBlockWork b → LegalBlocks maxBlockWork b'
  queues : ∀ c q q', b.value c = some q → b'.value c = some q' →
    q'.size ≤ q.size ∧ ∀ block ∈ q.ready, block ∈ q'.ready

omit [DecidableEq ID] in
theorem MoreReady.refl (maxBlockWork : Nat) (b : BasicBuffer ID) : MoreReady maxBlockWork b b := by
  refine ⟨SameQueues.refl b, fun h => h, fun c q q' hq hq' => ?_⟩
  obtain rfl : q = q' := some.inj (hq.symm.trans hq')
  exact ⟨Nat.le_refl _, fun _ h => h⟩

/-- Parameters of a selection in the domain of the scheduler. -/
structure Params.Proper (maxBlockWork : Nat) (p : Params ID) : Prop where
  work : p.maxBlockWork = maxBlockWork
  quantum : ∀ id, 1 ≤ p.quantum id ∧ p.quantum id ≤ maxDeficit
  updateChildren : ∀ b block, MoreReady maxBlockWork b (p.updateChildren b block)

namespace Scheduler

/-! ## Section 3: Safe states -/

/-- The ring is intact, every issuer with a queue has a deficit, all deficits are in range, and
    all blocks are legal. -/
structure Safe (maxBlockWork : Nat) (s : Scheduler ID) : Prop where
  ring : ∃ cells, Rep s.basicBuffer cells
  entry : ∀ id, (s.basicBuffer.activeIssuers.lookup id).isSome → (s.deficits.lookup id).isSome
  range : ∀ id d, s.deficits.lookup id = some d → 0 ≤ d ∧ d ≤ maxDeficit
  blocks : LegalBlocks maxBlockWork s.basicBuffer

variable {maxBlockWork : Nat} {s : Scheduler ID}

theorem safe_new : Safe maxBlockWork (new : Scheduler ID) where
  ring := ⟨[], Rep.new⟩
  entry _ h := absurd h Bool.false_ne_true
  range _ _ h := nomatch h
  blocks _ _ h := nomatch h

theorem Safe.exists_deficit (h : Safe maxBlockWork s) {id : ID}
    (hc : s.basicBuffer.activeIssuers.lookup id = some c) :
    ∃ d, s.deficits.lookup id = some d ∧ 0 ≤ d ∧ d ≤ maxDeficit := by
  obtain ⟨d, hd⟩ := isSome_iff_exists.mp (h.entry id (by rw [hc]; rfl))
  exact ⟨d, hd, h.range id d hd⟩

theorem Safe.sameQueues (h : Safe maxBlockWork s) (hsame : SameQueues s.basicBuffer b)
    (hlegal : LegalBlocks maxBlockWork b) :
    Safe maxBlockWork { s with basicBuffer := b } where
  ring := by
    obtain ⟨cells, hrep⟩ := h.ring
    exact ⟨cells, hsame.rep hrep⟩
  entry := by
    rw [hsame.activeIssuers]
    exact h.entry
  range := h.range
  blocks := hlegal

theorem range_setDeficit (h : ∀ id d, s.deficits.lookup id = some d → 0 ≤ d ∧ d ≤ maxDeficit)
    (accountID : ID) {deficit : Int} (hdeficit : 0 ≤ deficit ∧ deficit ≤ maxDeficit) (id : ID)
    (d : Int) (hd : (s.setDeficit accountID deficit).deficits.lookup id = some d) :
    0 ≤ d ∧ d ≤ maxDeficit := by
  have hd : (s.deficits.insert accountID deficit).lookup id = some d := hd
  rw [lookup_insert_eq] at hd
  split at hd
  · rw [← some.inj hd]
    exact hdeficit
  · exact h id d hd

theorem zero_inRange : (0 : Int) ≤ 0 ∧ (0 : Int) ≤ maxDeficit := by decide

variable {id : ID} {b' : BasicBuffer ID}

theorem legalBlocks_create (h : LegalBlocks maxBlockWork b)
    (hcreate : b.createIssuerQueue id = some b') : LegalBlocks maxBlockWork b' := by
  intro c q hq
  rw [(createIssuerQueue_frame hcreate).2.1, update_apply] at hq
  split at hq
  · obtain rfl := some.inj hq
    exact fun block hblock => absurd hblock not_mem_nil
  · exact h c q hq

theorem activeIssuers_create (hcreate : b.createIssuerQueue id = some b') (j : ID) :
    (b'.activeIssuers.lookup j).isSome → j = id ∨ (b.activeIssuers.lookup j).isSome := by
  rw [(createIssuerQueue_frame hcreate).1, isSome_insert]
  split
  next hj => exact fun _ => .inl hj
  next => exact .inr

theorem Safe.create (h : Safe maxBlockWork s) (hid : s.basicBuffer.activeIssuers.lookup id = none) :
    ∃ b, s.basicBuffer.createIssuerQueue id = some b ∧
      Safe maxBlockWork { s.setDeficit id 0 with basicBuffer := b } ∧
      ((s.deficits.lookup id).isSome → Safe maxBlockWork { s with basicBuffer := b }) := by
  obtain ⟨cells, hrep⟩ := h.ring
  obtain ⟨b, hb, hrep'⟩ := hrep.create hid
  have hactive := activeIssuers_create hb
  refine ⟨b, hb, ⟨⟨_, hrep'⟩, ?_, range_setDeficit h.range id zero_inRange,
    legalBlocks_create h.blocks hb⟩, fun hsome => ⟨⟨_, hrep'⟩, ?_, h.range,
    legalBlocks_create h.blocks hb⟩⟩
  · intro j hj
    exact isSome_insert_of fun hne => h.entry j ((hactive j hj).resolve_left hne)
  · intro j hj
    rcases hactive j hj with rfl | hj
    · exact hsome
    · exact h.entry j hj

theorem Safe.getOrCreateIssuer (h : Safe maxBlockWork s) (id : ID) :
    ∃ s', s.getOrCreateIssuer id = some s' ∧ Safe maxBlockWork s' := by
  unfold Scheduler.getOrCreateIssuer getOrCreateIssuerQueue
  cases hid : s.basicBuffer.activeIssuers.lookup id with
  | none =>
    obtain ⟨b, hb, hnew, hold⟩ := h.create hid
    simp only [hb, map_some]
    cases hd : s.deficits.lookup id with
    | none => exact ⟨_, rfl, hnew⟩
    | some d => exact ⟨_, rfl, hold (by rw [hd]; rfl)⟩
  | some c =>
    obtain ⟨cells, hrep⟩ := h.ring
    obtain ⟨_, q, hq, _⟩ := hrep.active hid
    simp only [hq, map_some]
    obtain ⟨d, hd, _⟩ := h.exists_deficit hid
    rw [hd]
    exact ⟨s, rfl, h⟩

theorem Safe.createIssuer (h : Safe maxBlockWork s)
    (hid : s.basicBuffer.activeIssuers.lookup id = none) (hd : s.deficits.lookup id = none) :
    ∃ s', s.createIssuer id = some s' ∧ Safe maxBlockWork s' := by
  obtain ⟨b, hb, hsafe, _⟩ := h.create hid
  unfold Scheduler.createIssuer
  rw [hb, bind_some, hd]
  exact ⟨_, rfl, hsafe⟩

theorem legalBlocks_remove (h : LegalBlocks maxBlockWork b)
    (hremove : b.removeIssuerQueue id = some b') :
    LegalBlocks maxBlockWork b' ∧ b'.activeIssuers = b.activeIssuers.erase id := by
  unfold removeIssuerQueue at hremove
  cases hid : b.activeIssuers.lookup id with
  | none =>
    rw [hid] at hremove
    obtain rfl := some.inj hremove
    have herase : b.activeIssuers.erase id = b.activeIssuers := by
      apply AList.ext
      exact kerase_of_notMem_keys (AList.lookup_eq_none.mp hid)
    exact ⟨h, herase.symm⟩
  | some c =>
    rw [hid] at hremove
    obtain ⟨q, hq, hremove⟩ := bind_eq_some_iff.mp hremove
    obtain ⟨b₁, hb₁, rfl⟩ := map_eq_some_iff.mp hremove
    constructor
    · intro d r hr
      have hr : b₁.value d = some r := hr
      rw [(ringRemove_frame hb₁).2] at hr
      exact h.setValue (q := q.clear) (fun block hblock => absurd hblock not_mem_nil) d r hr
    · show b₁.activeIssuers.erase id = _
      rw [(ringRemove_frame hb₁).1]
      rfl

theorem Safe.removeIssuer (h : Safe maxBlockWork s) (hid : Removable s.basicBuffer id) :
    ∃ s', s.removeIssuer id = some s' ∧ Safe maxBlockWork s' := by
  obtain ⟨cells, hrep⟩ := h.ring
  obtain ⟨b, hb, hrep'⟩ := hrep.step (show Orderly s.basicBuffer (.removeIssuerQueue id) from hid)
  have hb : s.basicBuffer.removeIssuerQueue id = some b := hb
  obtain ⟨hlegal, hactive⟩ := legalBlocks_remove h.blocks hb
  unfold Scheduler.removeIssuer
  rw [hb, map_some]
  refine ⟨_, rfl, ⟨hrep', ?_, ?_, hlegal⟩⟩
  · intro j hj
    rw [hactive] at hj
    obtain ⟨hne, hj⟩ := isSome_of_erase hj
    refine (isSome_erase s.deficits j id).trans ?_
    rw [if_neg hne]
    exact h.entry j hj
  · intro j d hd
    exact h.range j d (lookup_of_erase hd).2

theorem Safe.reset (h : Safe maxBlockWork s) {order : List ID}
    (horder : s.basicBuffer.issuerIDs = some order) :
    ∃ s', s.reset order = some s' ∧ Safe maxBlockWork s' := by
  obtain ⟨cells, hrep⟩ := h.ring
  obtain ⟨b, hb, hrep'⟩ := hrep.step (show Orderly s.basicBuffer (.clear order) from horder)
  have hb : s.basicBuffer.clear order = some b := hb
  -- no queue is added, and the blocks of a removed queue are dropped
  have hkept : LegalBlocks maxBlockWork b ∧ ∀ id, (b.activeIssuers.lookup id).isSome →
      (s.basicBuffer.activeIssuers.lookup id).isSome := by
    apply run_invariant (I := fun b : BasicBuffer ID => LegalBlocks maxBlockWork b ∧
      ∀ id, (b.activeIssuers.lookup id).isSome → (s.basicBuffer.activeIssuers.lookup id).isSome)
      _ ⟨h.blocks, fun _ hid => hid⟩ hb
    intro b₁ id b₂ hI hremove
    obtain ⟨hlegal, hactive⟩ := legalBlocks_remove hI.1 hremove
    refine ⟨hlegal, fun j hj => ?_⟩
    rw [hactive] at hj
    exact hI.2 j (isSome_of_erase hj).2
  unfold Scheduler.reset
  rw [hb, map_some]
  exact ⟨_, rfl, hrep', fun id hid => h.entry id (hkept.2 id hid), h.range, hkept.1⟩

theorem Safe.updateQueues (h : Safe maxBlockWork s) {changes : List (QueueChange ID)}
    (hlegal : ∀ e ∈ changes, ∀ block ∈ e.ready,
      block.issuerID = e.issuerID ∧ block.workScore ≤ maxBlockWork) :
    ∃ s', s.updateQueues changes = some s' ∧ Safe maxBlockWork s' := by
  have hstep : ∀ (b : BasicBuffer ID) (e : QueueChange ID),
      Safe maxBlockWork { s with basicBuffer := b } →
      (∀ block ∈ e.ready, block.issuerID = e.issuerID ∧ block.workScore ≤ maxBlockWork) →
      ∃ b', b.update e.issuerID e.nonReady e.ready = some b' ∧
        Safe maxBlockWork { s with basicBuffer := b' } := by
    intro b e hb hlegal
    unfold BasicBuffer.update
    cases hid : b.activeIssuers.lookup e.issuerID with
    | none => exact ⟨b, rfl, hb⟩
    | some c =>
      obtain ⟨cells, hrep⟩ := hb.ring
      obtain ⟨_, q, hq, hissuer⟩ := hrep.active hid
      have hq : b.value c = some q := hq
      simp only [hq, map_some]
      refine ⟨_, rfl, hb.sameQueues (SameQueues.setValue hq rfl) (hb.blocks.setValue ?_)⟩
      intro block hblock
      rw [hissuer]
      exact hlegal block hblock
  obtain ⟨b, hb, hsafe⟩ := run_total_of hstep h
    (allSteps_of_forall (fun e he _ => hlegal e he) s.basicBuffer)
  unfold Scheduler.updateQueues
  rw [hb, map_some]
  exact ⟨_, rfl, hsafe⟩

/-! ## Section 4: The choice of an issuer -/

variable {p : Params ID} {s' s'' : Scheduler ID} {cell : Nat} {d : Int} {k : ID}

/-- No ready block of a queue whose issuing time has passed is committed, so that none is
    skipped. -/
def NoneSkipped (p : Params ID) (s : Scheduler ID) : Prop :=
  ∀ id c q, s.basicBuffer.activeIssuers.lookup id = some c → s.basicBuffer.value c = some q →
    ∀ block ∈ q.ready, block.issuingTime < p.now → block.isCommitted = false

/-- A queue that has a first block keeps it when the children of a committed block become
    ready. -/
def KeepsFronts (p : Params ID) : Prop :=
  ∀ b committed c q q' block, committed.isCommitted = true → b.value c = some q →
    (p.updateChildren b committed).value c = some q' → q.front = some block →
    q'.front = some block

/-- The first blocks of the queues are not exchanged while the queues are looked at. -/
def Steady (p : Params ID) (s : Scheduler ID) : Prop := NoneSkipped p s ∨ KeepsFronts p

/-- What a look at the front of the queue in a cell changes: the queue may lose committed blocks,
    other queues may get more ready blocks. -/
structure Looked (p : Params ID) (maxBlockWork : Nat) (cell : Nat) (s s' : Scheduler ID) :
    Prop where
  same : SameQueues s.basicBuffer s'.basicBuffer
  legal : LegalBlocks maxBlockWork s'.basicBuffer
  deficits : s'.deficits = s.deficits
  blockChan : s'.blockChan = s.blockChan
  steady : Steady p s'
  others : ∀ c, c ≠ cell → ∀ q q' block, s.basicBuffer.value c = some q →
    s'.basicBuffer.value c = some q' → q.front = some block → q'.front = some block

theorem Looked.refl (h : LegalBlocks maxBlockWork s.basicBuffer) (hsteady : Steady p s)
    (cell : Nat) : Looked p maxBlockWork cell s s where
  same := SameQueues.refl _
  legal := h
  deficits := rfl
  blockChan := rfl
  steady := hsteady
  others := by
    intro c _ q q' block hq hq' hblock
    rw [hq] at hq'
    exact some.inj hq' ▸ hblock

theorem Looked.trans (h : Looked p maxBlockWork cell s s')
    (h' : Looked p maxBlockWork cell s' s'') : Looked p maxBlockWork cell s s'' where
  same := h.same.trans h'.same
  legal := h'.legal
  deficits := h'.deficits.trans h.deficits
  blockChan := h'.blockChan.trans h.blockChan
  steady := h'.steady
  others := by
    intro c hc q q'' block hq hq'' hblock
    obtain ⟨q', hq', _⟩ := h.same.exists_queue hq
    exact h'.others c hc q' q'' block hq' hq'' (h.others c hc q q' block hq hq' hblock)

theorem looked_skip (hp : p.Proper maxBlockWork) (hlegal : LegalBlocks maxBlockWork s.basicBuffer)
    (hkeeps : KeepsFronts p) (hq : s.basicBuffer.value cell = some q) {block : Block ID}
    (hblock : q.front = some block) (hcommitted : block.isCommitted = true) :
    Looked p maxBlockWork cell s (s.skip p cell block) ∧
      ∃ q', (s.skip p cell block).basicBuffer.value cell = some q' ∧ q'.size < q.size := by
  have hmore := hp.updateChildren s.basicBuffer block
  obtain ⟨r, hr, hissuer⟩ := hmore.same.exists_queue hq
  obtain ⟨hsize, hready⟩ := hmore.queues cell q r hq hr
  have hskip : (s.skip p cell block).basicBuffer =
      (p.updateChildren s.basicBuffer block).setValue cell r.popFront := by
    unfold skip
    dsimp only
    rw [hr]
    rfl
  have hmem : block ∈ r.ready := hready block (mem_of_mem_head? hblock)
  have hlegal' := hmore.legal hlegal
  constructor
  · refine ⟨?_, ?_, rfl, rfl, .inr hkeeps, ?_⟩
    · rw [hskip]
      exact hmore.same.trans (SameQueues.setValue hr rfl)
    · rw [hskip]
      apply hlegal'.setValue
      intro b hb
      exact hlegal' cell r hr b (mem_of_mem_tail hb)
    · intro c hc q₁ q₂ first hq₁ hq₂ hfirst
      rw [hskip] at hq₂
      have hq₂ : update (p.updateChildren s.basicBuffer block).value cell
        (some r.popFront) c = some q₂ := hq₂
      rw [update_of_ne hc] at hq₂
      exact hkeeps s.basicBuffer block c q₁ q₂ first hcommitted hq₁ hq₂ hfirst
  · refine ⟨r.popFront, ?_, ?_⟩
    · rw [hskip]
      exact update_self _ _ _
    · have hlength : r.popFront.ready.length + 1 = r.ready.length := by
        have hpos : 0 < r.ready.length := length_pos_of_mem hmem
        show r.ready.tail.length + 1 = r.ready.length
        rw [length_tail]
        omega
      have hsize' : r.popFront.size + 1 = r.size := by
        show r.nonReady + r.popFront.ready.length + 1 = r.nonReady + r.ready.length
        omega
      omega

/-- The loop over the blocks at the front of the queue of an issuer ends, and finds a block that is
    at the front afterwards. -/
theorem frontBlock_spec (hp : p.Proper maxBlockWork) :
    ∀ {fuel : Nat} {s : Scheduler ID}, LegalBlocks maxBlockWork s.basicBuffer → Steady p s →
      s.basicBuffer.activeIssuers.lookup id = some cell →
      ((s.basicBuffer.value cell).map IssuerQueue.size).getD 0 < fuel →
      ∃ s' o, frontBlock p fuel s cell = some (s', o) ∧ Looked p maxBlockWork cell s s' ∧
        ∀ block ∈ o, ∃ q, s'.basicBuffer.value cell = some q ∧ q.front = some block := by
  intro fuel
  induction fuel with
  | zero => exact fun _ _ _ h => absurd h (Nat.not_lt_zero _)
  | succ fuel ih =>
    intro s hlegal hsteady hactive hsize
    have hlooked := Looked.refl hlegal hsteady cell
    have hstop : ∃ s' o, some (s, (none : Option (Block ID))) = some (s', o) ∧
        Looked p maxBlockWork cell s s' ∧
        ∀ block ∈ o, ∃ q, s'.basicBuffer.value cell = some q ∧ q.front = some block :=
      ⟨s, none, rfl, hlooked, fun _ h => nomatch h⟩
    rw [frontBlock]
    cases hfront : (s.basicBuffer.value cell).bind IssuerQueue.front with
    | none => exact hstop
    | some block =>
      obtain ⟨q, hq, hblock⟩ := bind_eq_some_iff.mp hfront
      dsimp only
      by_cases htime : block.issuingTime < p.now
      · rw [if_pos htime]
        by_cases hcommitted : block.isCommitted = true
        · -- the block is skipped, and the loop goes on with a shorter queue
          rw [if_pos hcommitted]
          obtain hnone | hkeeps := hsteady
          · have hnot := hnone id cell q hactive hq block (mem_of_mem_head? hblock) htime
            cases hnot.symm.trans hcommitted
          obtain ⟨hskipped, q', hq', hlt⟩ := looked_skip hp hlegal hkeeps hq hblock hcommitted
          rw [hq] at hsize
          have hsize : q.size < fuel + 1 := hsize
          obtain ⟨s', o, hs', hlooked', hfound⟩ := ih hskipped.legal hskipped.steady
            (by rw [hskipped.same.activeIssuers]; exact hactive) (by
            rw [hq']
            show q'.size < fuel
            omega)
          exact ⟨s', o, hs', hskipped.trans hlooked', hfound⟩
        · rw [if_neg hcommitted]
          refine ⟨s, some block, rfl, hlooked, ?_⟩
          intro block' hblock'
          obtain rfl := some.inj hblock'
          exact ⟨q, hq, hblock⟩
      · rw [if_neg htime]
        exact hstop

/-- The best issuer so far, with the cells still to be looked at: a chosen queue has been looked
    at, is that of an active issuer, and its first block is covered by the deficit of the issuer
    and the quanta of the rounds. -/
structure Considered (p : Params ID) (maxBlockWork : Nat) (s : Scheduler ID) (todo : List Nat)
    (best : Best ID) : Prop where
  same : SameQueues s.basicBuffer best.scheduler.basicBuffer
  legal : LegalBlocks maxBlockWork best.scheduler.basicBuffer
  deficits : best.scheduler.deficits = s.deficits
  blockChan : best.scheduler.blockChan = s.blockChan
  steady : Steady p best.scheduler
  chosen : ∀ c ∈ best.schedulingIssuer, c ∉ todo ∧
    ∃ q block, best.scheduler.basicBuffer.value c = some q ∧ q.front = some block ∧
      s.basicBuffer.activeIssuers.lookup q.issuerID = some c ∧
      p.deficitFromWork block.workScore ≤
        s.deficit q.issuerID + max 0 best.minRounds * p.quantum q.issuerID

theorem Considered.step (hsafe : Safe maxBlockWork s) (hp : p.Proper maxBlockWork)
    {todo : List Nat} {best : Best ID} (hnodup : cell ∉ todo) {q₀ : IssuerQueue ID}
    (hq₀ : s.basicBuffer.value cell = some q₀)
    (hactive : s.basicBuffer.activeIssuers.lookup q₀.issuerID = some cell)
    (h : Considered p maxBlockWork s (cell :: todo) best) :
    ∃ best', consider p best cell = some best' ∧ Considered p maxBlockWork s todo best' := by
  have hfuel : ((best.scheduler.basicBuffer.value cell).map IssuerQueue.size).getD 0 <
      ((best.scheduler.basicBuffer.value cell).map IssuerQueue.size).getD 0 + 1 :=
    Nat.lt_succ_self _
  obtain ⟨s', o, hs', hlooked, hfound⟩ := frontBlock_spec hp h.legal h.steady
    (by rw [h.same.activeIssuers]; exact hactive) hfuel
  -- a queue that was chosen before still has the block that was counted
  have hchosen : ∀ c ∈ best.schedulingIssuer, c ∉ todo ∧
      ∃ q block, s'.basicBuffer.value c = some q ∧ q.front = some block ∧
        s.basicBuffer.activeIssuers.lookup q.issuerID = some c ∧
        p.deficitFromWork block.workScore ≤
          s.deficit q.issuerID + max 0 best.minRounds * p.quantum q.issuerID := by
    intro c hc
    obtain ⟨hnotin, q, block, hq, hblock, hown, hcovers⟩ := h.chosen c hc
    rw [mem_cons, not_or] at hnotin
    obtain ⟨q', hq', hissuer⟩ := hlooked.same.exists_queue hq
    refine ⟨hnotin.2, q', block, hq', hlooked.others c hnotin.1 q q' block hq hq' hblock, ?_⟩
    rw [hissuer]
    exact ⟨hown, hcovers⟩
  unfold consider
  dsimp only
  rw [hs', bind_some]
  cases o with
  | none =>
    exact ⟨_, rfl, h.same.trans hlooked.same, hlooked.legal, hlooked.deficits.trans h.deficits,
      hlooked.blockChan.trans h.blockChan, hlooked.steady, hchosen⟩
  | some block =>
    obtain ⟨q, hq, hblock⟩ := hfound block rfl
    obtain ⟨hissuer, hwork⟩ := hlooked.legal cell q hq block (mem_of_mem_head? hblock)
    -- the issuer of the queue is active, so that it has a deficit
    have hsame := (h.same.trans hlooked.same).issuer cell
    rw [hq, hq₀, map_some, map_some, some.injEq] at hsame
    rw [← hsame] at hactive
    obtain ⟨d, hd, hrange⟩ := hsafe.exists_deficit (hissuer ▸ hactive)
    have hcost := p.deficitFromWork_le (hp.work.symm ▸ hwork)
    obtain ⟨hpos, hmax⟩ := hp.quantum block.issuerID
    obtain ⟨n, hn, hspec, _⟩ := rounds_spec hpos (Int.le_trans hmax (by decide)) hrange hcost
    dsimp only
    rw [hlooked.deficits, h.deficits, hd, bind_some, hn, map_some]
    split
    · refine ⟨_, rfl, h.same.trans hlooked.same, hlooked.legal, hlooked.deficits.trans h.deficits,
        hlooked.blockChan.trans h.blockChan, hlooked.steady, ?_⟩
      intro c hc
      obtain rfl := some.inj hc
      have hcovers := (hspec n.toNat).mp (Int.self_le_toNat n)
      rw [Int.toNat_eq_max, Int.max_comm, hissuer] at hcovers
      rw [hissuer] at hd
      exact ⟨hnodup, q, block, hq, hblock, hactive, by rw [deficit_eq hd]; exact hcovers⟩
    · exact ⟨_, rfl, h.same.trans hlooked.same, hlooked.legal, hlooked.deficits.trans h.deficits,
        hlooked.blockChan.trans h.blockChan, hlooked.steady, hchosen⟩

theorem Safe.selectIssuer (h : Safe maxBlockWork s) (hp : p.Proper maxBlockWork)
    (hsteady : Steady p s) :
    ∃ best, s.selectIssuer p = some best ∧ Considered p maxBlockWork s [] best := by
  obtain ⟨cells, hrep⟩ := h.ring
  have hinit : ∀ todo, Considered p maxBlockWork s todo ⟨s, maxInt64, none⟩ := fun _ =>
    ⟨SameQueues.refl _, h.blocks, rfl, rfl, hsteady, fun _ hc => nomatch hc⟩
  unfold Scheduler.selectIssuer
  rw [hrep.cells, bind_some]
  refine exists_of_result (run_loop_total (I := fun todo best => todo.Nodup ∧
      (∀ c ∈ todo, c ∈ cells) ∧ Considered p maxBlockWork s todo best) ?_
    ⟨hrep.isRing.nodup.filter _, fun c hc => mem_of_mem_filter hc, hinit _⟩) fun _ _ h => h.2.2
  rintro c todo best ⟨hnodup, hcells, hbest⟩
  obtain ⟨hnotin, hnodup⟩ := nodup_cons.mp hnodup
  obtain ⟨q, hq, hown⟩ := hrep.owner (hcells c mem_cons_self)
  obtain ⟨best', hbest', hconsidered⟩ := hbest.step h hp hnotin hq hown
  exact ⟨best', hbest', hnodup, fun d hd => hcells d (mem_cons_of_mem c hd), hconsidered⟩

/-! ## Section 5: The walk to the scheduling issuer -/

/-- What a walk leaves as it is. -/
structure Walked (s s' : Scheduler ID) (k : ID) : Prop where
  active : ∀ id, (s'.basicBuffer.activeIssuers.lookup id).isSome →
    (s.basicBuffer.activeIssuers.lookup id).isSome
  entry : ∀ id, (s.deficits.lookup id).isSome → (s'.deficits.lookup id).isSome
  range : ∀ id d, s'.deficits.lookup id = some d → 0 ≤ d ∧ d ≤ maxDeficit
  /-- The scheduling issuer gets nothing. -/
  target : s'.deficits.lookup k = s.deficits.lookup k

theorem walked_of_insert {a : ID}
    (hrange : ∀ id d, s.deficits.lookup id = some d → 0 ≤ d ∧ d ≤ maxDeficit)
    (hd : 0 ≤ d ∧ d ≤ maxDeficit) (hne : k ≠ a) (hdeficits : s'.deficits = s.deficits.insert a d)
    (hactive : ∀ id, (s'.basicBuffer.activeIssuers.lookup id).isSome →
      (s.basicBuffer.activeIssuers.lookup id).isSome) :
    Walked s s' k where
  active := hactive
  entry := by
    intro id hid
    rw [hdeficits]
    exact isSome_insert_of fun _ => hid
  range := by
    intro id d' hd'
    rw [hdeficits] at hd'
    exact range_setDeficit hrange a hd id d' hd'
  target := by rw [hdeficits, lookup_insert_eq, if_neg hne]

theorem Walked.trans (h : Walked s s' k) (h' : Walked s' s'' k) : Walked s s'' k where
  active id hid := h.active id (h'.active id hid)
  entry id hid := h'.entry id (h.entry id hid)
  range := h'.range
  target := h'.target.trans h.target

/-- The walk reaches the scheduling issuer.  It goes around the ring again only if it removed a
    queue, so that the ring has become smaller. -/
theorem walk_returns {queue : ID → IssuerQueue ID} {target : Nat}
    (hquantum : ∀ id, 1 ≤ p.quantum id) :
    ∀ {fuel : Nat} {s : Scheduler ID} {cells : List Nat} {before after : List ID},
      before.length + (before ++ k :: after).length * (before ++ k :: after).length < fuel →
      Holds s.basicBuffer queue cells (before ++ k :: after) →
      s.basicBuffer.activeIssuers.lookup k = some target →
      (∀ id, (s.basicBuffer.activeIssuers.lookup id).isSome → (s.deficits.lookup id).isSome) →
      (∀ id d, s.deficits.lookup id = some d → 0 ≤ d ∧ d ≤ maxDeficit) →
      ∃ s' cells' rest, s.walk p target fuel = some s' ∧
        Holds s'.basicBuffer queue cells' (k :: rest) ∧ Walked s s' k := by
  intro fuel
  induction fuel with
  | zero => exact fun h => absurd h (Nat.not_lt_zero _)
  | succ fuel ih =>
    intro s cells before after hfuel hholds htarget hentry hrange
    rw [walk]
    cases before with
    | nil =>
      rw [if_pos ((hholds.ring_eq_iff htarget).mpr rfl)]
      exact ⟨s, cells, after, rfl, hholds, fun _ h => h, fun _ h => h, hrange, rfl⟩
    | cons a before =>
      have hnodup := hholds.nodup
      have hak : k ≠ a := by
        rintro rfl
        exact (nodup_cons.mp hnodup).1 (by simp)
      rw [if_neg (fun hring => hak ((hholds.ring_eq_iff htarget).mp hring).symm)]
      obtain ⟨c, hc⟩ := hholds.exists_cell (mem_cons_self (a := a))
      obtain ⟨d, hd⟩ := isSome_iff_exists.mp (hentry a (by rw [hc]; rfl))
      have hd' := hrange a d hd
      have hlength : (a :: before ++ k :: after).length = before.length + after.length + 2 := by
        simp
        omega
      rw [hlength] at hfuel
      -- the rest of the walk, from the state after one round
      have hrest : ∀ {s₁ : Scheduler ID} {cells₁ : List Nat} {before₁ after₁ : List ID},
          s.advance p = some s₁ → Walked s s₁ k →
          Holds s₁.basicBuffer queue cells₁ (before₁ ++ k :: after₁) →
          s₁.basicBuffer.activeIssuers.lookup k = some target →
          before₁.length + (before₁ ++ k :: after₁).length *
            (before₁ ++ k :: after₁).length < fuel →
          ∃ s' cells' rest, (s.advance p).bind (fun s => s.walk p target fuel) = some s' ∧
            Holds s'.basicBuffer queue cells' (k :: rest) ∧ Walked s s' k := by
        intro s₁ cells₁ before₁ after₁ hadvance hwalked hholds₁ htarget₁ hfuel₁
        obtain ⟨s', cells', rest, hwalk, hholds', hwalked'⟩ := ih hfuel₁ hholds₁ htarget₁
          (fun id hid => hwalked.entry id (hentry id (hwalked.active id hid))) hwalked.range
        rw [hadvance]
        exact ⟨s', cells', rest, hwalk, hholds', hwalked.trans hwalked'⟩
      by_cases hremove : (queue a).size = 0 ∧ maxDeficit ≤ d + p.quantum a
      · -- the issuer after `a` is passed over, which may be `k` itself
        obtain ⟨b, ids, before₁, after₁, hids, hids₁, hbefore₁⟩ : ∃ b ids before₁ after₁,
            before ++ k :: after = b :: ids ∧ ids ++ [b] = before₁ ++ k :: after₁ ∧
              before₁.length ≤ before.length + after.length := by
          cases before with
          | nil => exact ⟨k, after, after, [], rfl, rfl, by simp⟩
          | cons b before =>
            exact ⟨b, before ++ k :: after, before, after ++ [b], rfl, by simp, by simp; omega⟩
        rw [cons_append, hids] at hholds
        obtain ⟨s₁, cells₁, hadvance, hholds₁, hactive, hdeficits⟩ := advance_remove hholds
          (hquantum a) hd hd'.1 hremove.1 hremove.2
        rw [hids₁] at hholds₁
        have hsub : ∀ id, (s₁.basicBuffer.activeIssuers.lookup id).isSome →
            (s.basicBuffer.activeIssuers.lookup id).isSome := by
          intro id hid
          rw [hactive] at hid
          exact (isSome_of_erase hid).2
        apply hrest hadvance (walked_of_insert hrange (by decide) hak hdeficits hsub) hholds₁
          (by rw [hactive, AList.lookup_erase_ne hak]; exact htarget)
        -- the ring is smaller by one
        have hlength₁ : (before₁ ++ k :: after₁).length = before.length + after.length + 1 := by
          have := congrArg List.length hids
          simp only [length_append, length_cons] at this
          rw [← hids₁, length_append, length_singleton]
          omega
        have hsquare : (before.length + after.length + 2) * (before.length + after.length + 2) =
          (before.length + after.length + 1) * (before.length + after.length + 1) +
            2 * (before.length + after.length) + 3 := by ring
        rw [hsquare] at hfuel
        rw [hlength₁]
        omega
      · obtain ⟨s₁, cells₁, hadvance, hholds₁, hactive, hdeficits⟩ := advance_keep hholds
          (hquantum a) hd hd'.1 hremove
        have happend : before ++ k :: after ++ [a] = before ++ k :: (after ++ [a]) := by simp
        change Holds _ _ _ (before ++ k :: after ++ [a]) at hholds₁
        rw [happend] at hholds₁
        have hq := hquantum a
        have hmax : (0 : Int) ≤ maxDeficit := by decide
        apply hrest hadvance (walked_of_insert hrange (by omega) hak hdeficits (by
          intro id hid
          rwa [hactive] at hid)) hholds₁ (by rw [hactive]; exact htarget)
        have hlength₁ : (before ++ k :: (after ++ [a])).length =
            before.length + after.length + 2 := by
          simp
          omega
        rw [hlength₁]
        simp only [length_cons] at hfuel
        omega

/-! ## Section 6: The selection -/

theorem mem_issuers {cells : List Nat} (hrep : Rep s.basicBuffer cells)
    (hc : s.basicBuffer.activeIssuers.lookup id = some c) : id ∈ s.issuers := by
  have hcell : some c ∈ cells.map some := mem_map_of_mem (hrep.active hc).1
  rw [← (holds_of_rep hrep).lookup] at hcell
  obtain ⟨j, hj, hjc⟩ := mem_map.mp hcell
  exact hrep.active_inj hjc hc ▸ hj

theorem Safe.raise (h : Safe maxBlockWork s) (hp : p.Proper maxBlockWork) (n : Int) :
    ∃ s', (if 0 < n then s.incrementAll p n else some s) = some s' ∧ Safe maxBlockWork s' ∧
      s'.basicBuffer = s.basicBuffer ∧ ∀ id d, (s.basicBuffer.activeIssuers.lookup id).isSome →
        s.deficits.lookup id = some d →
        s'.deficits.lookup id = some (min maxDeficit (d + max 0 n * p.quantum id)) := by
  obtain ⟨cells, hrep⟩ := h.ring
  have hholds := holds_of_rep hrep
  have hlookup : ∀ id ∈ s.issuers, s.deficits.lookup id = some (s.deficit id) ∧
      0 ≤ s.deficit id := by
    intro id hid
    obtain ⟨c, hc⟩ := hholds.exists_cell hid
    obtain ⟨d, hd, hrange⟩ := h.exists_deficit hc
    rw [deficit_eq hd]
    exact ⟨hd, hrange.1⟩
  split_ifs with hpos
  · rw [Int.max_eq_right (Int.le_of_lt hpos)]
    obtain ⟨s', hrun, hbuffer, hd'⟩ := run_incrementDeficit (Int.le_of_lt hpos)
      (fun id => (hp.quantum id).1) hholds.nodup (fun id hid => hholds.issuerID hid) hlookup
    have hrange : ∀ id d, s'.deficits.lookup id = some d → 0 ≤ d ∧ d ≤ maxDeficit := by
      intro id d hd
      rw [hd' id] at hd
      split at hd
      · rename_i hid
        have hnonneg := (hlookup id hid).2
        have hprod : 0 ≤ n * p.quantum id := by
          have hq := (hp.quantum id).1
          exact Int.mul_nonneg (Int.le_of_lt hpos) (by omega)
        have hmax : 0 ≤ maxDeficit := by decide
        have hd := some.inj hd
        omega
      · exact h.range id d hd
    refine ⟨s', ?_, ⟨⟨cells, hbuffer ▸ hrep⟩, ?_, hrange, hbuffer ▸ h.blocks⟩, hbuffer, ?_⟩
    · unfold incrementAll
      rw [hholds.forEach, bind_some]
      exact hrun
    · intro id hid
      rw [hbuffer] at hid
      rw [hd' id]
      split
      · rfl
      · exact h.entry id hid
    · intro id d hid hd
      obtain ⟨c, hc⟩ := isSome_iff_exists.mp hid
      have hmem := mem_issuers hrep hc
      have hdeficit := (hlookup id hmem).1
      rw [hd] at hdeficit
      rw [hd' id, if_pos hmem, some.inj hdeficit]
  · rw [Int.max_eq_left (Int.not_lt.mp hpos)]
    refine ⟨s, rfl, h, rfl, fun id d _ hd => ?_⟩
    have hle := (h.range id d hd).2
    rw [hd, Int.zero_mul, Int.add_zero, Int.min_eq_right hle]

theorem Safe.scheduleFront (h : Safe maxBlockWork s) (hp : p.Proper maxBlockWork)
    {queue : ID → IssuerQueue ID} {cells : List Nat} {rest : List ID}
    (hholds : Holds s.basicBuffer queue cells (k :: rest)) {block : Block ID}
    (hfront : (queue k).front = some block) (hd : s.deficits.lookup k = some d)
    (hcovers : p.deficitFromWork block.workScore ≤ d) :
    ∃ s', s.scheduleFront p = some s' ∧ Safe maxBlockWork s' := by
  obtain ⟨c, cells', rfl, hring, hc, _⟩ := hholds.head
  have hq := hholds.value mem_cons_self hc
  have hmem : block ∈ (queue k).ready := mem_of_mem_head? hfront
  obtain ⟨hissuer, hwork⟩ := h.blocks c _ hq block hmem
  rw [hholds.issuerID mem_cons_self] at hissuer
  have hcost := p.deficitFromWork_le (hp.work.symm ▸ hwork)
  have hrange := h.range k d hd
  have hpop : s.basicBuffer.popFront =
      some (block, s.basicBuffer.setValue c (queue k).popFront) := by
    unfold popFront
    rw [hring, bind_some, hq, bind_some, hfront]
    rfl
  have hsame : SameQueues s.basicBuffer (s.basicBuffer.setValue c (queue k).popFront) :=
    SameQueues.setValue hq rfl
  have hsafe := h.sameQueues hsame
    (h.blocks.setValue fun b hb => h.blocks c _ hq b (mem_of_mem_tail hb))
  have hpay := updateDeficit_sub (s := { s with
    basicBuffer := s.basicBuffer.setValue c (queue k).popFront }) hd hrange.2 hcost.1 hcovers
  unfold Scheduler.scheduleFront
  rw [hpop, bind_some]
  dsimp only
  rw [hissuer, hpay, map_some]
  refine ⟨_, rfl, hsafe.ring, ?_, range_setDeficit h.range k ⟨by omega, by omega⟩, hsafe.blocks⟩
  exact fun id hid => isSome_insert_of fun _ => h.entry id hid

theorem Safe.select (h : Safe maxBlockWork s) (hp : p.Proper maxBlockWork)
    (hsteady : s.blockChan = none → Steady p s) :
    ∃ s', s.selectBasicBlockWithoutLocking p = some s' ∧ Safe maxBlockWork s' := by
  unfold selectBasicBlockWithoutLocking
  cases hchan : s.blockChan with
  | some block => exact ⟨s, rfl, h⟩
  | none =>
    obtain ⟨best, hbest, hconsidered⟩ := h.selectIssuer hp (hsteady hchan)
    have hsafe : Safe maxBlockWork best.scheduler := by
      have hsame := h.sameQueues hconsidered.same hconsidered.legal
      refine ⟨hsame.ring, ?_, ?_, hsame.blocks⟩
      · rw [hconsidered.deficits]
        exact hsame.entry
      · rw [hconsidered.deficits]
        exact h.range
    rw [hbest]
    simp only [isSome_none, Bool.false_eq_true, if_false, bind_some]
    cases hissuer : best.schedulingIssuer with
    | none => exact ⟨best.scheduler, rfl, hsafe⟩
    | some c =>
      obtain ⟨_, q, block, hq, hblock, hactive, hcost⟩ := hconsidered.chosen c hissuer
      obtain ⟨s₁, hs₁, hsafe₁, hbuffer, hraised⟩ := hsafe.raise hp best.minRounds
      dsimp only
      rw [hs₁, bind_some]
      split
      · exact ⟨s₁, rfl, hsafe₁⟩
      · -- the walk goes to the chosen queue, whose issuer is in the ring
        obtain ⟨cells, hrep⟩ := hsafe₁.ring
        have hholds := holds_of_rep hrep
        have hactive₁ : s₁.basicBuffer.activeIssuers.lookup q.issuerID = some c := by
          rw [hbuffer, hconsidered.same.activeIssuers]
          exact hactive
        have hmem := mem_issuers hrep hactive₁
        obtain ⟨before, after, hissuers⟩ := append_of_mem hmem
        have hlength := hholds.length_le
        have hbefore : before.length < s₁.issuers.length := by
          rw [hissuers]
          simp
        have hfuel : before.length + s₁.issuers.length * s₁.issuers.length <
            (s₁.basicBuffer.created + 1) * (s₁.basicBuffer.created + 1) := by
          have hmono := Nat.mul_le_mul hlength hlength
          have hsquare : (s₁.basicBuffer.created + 1) * (s₁.basicBuffer.created + 1) =
            s₁.basicBuffer.created * s₁.basicBuffer.created +
              2 * s₁.basicBuffer.created + 1 := by ring
          omega
        have hqueue : s₁.queue q.issuerID = q := by
          have hvalue := hholds.value hmem hactive₁
          rw [hbuffer, hq] at hvalue
          exact (some.inj hvalue).symm
        rw [hissuers] at hholds hfuel
        obtain ⟨s₂, cells', rest, hwalk, hholds', hwalked⟩ :=
          walk_returns (fun id => (hp.quantum id).1) hfuel hholds hactive₁ hsafe₁.entry hsafe₁.range
        rw [hwalk, bind_some]
        have hsafe₂ : Safe maxBlockWork s₂ := by
          refine ⟨⟨cells', hholds'.rep⟩,
            fun id hid => hwalked.entry id (hsafe₁.entry id (hwalked.active id hid)),
            hwalked.range, ?_⟩
          rw [LegalBlocks, (value_walk hwalk).2]
          exact hsafe₁.blocks
        -- the deficit after the rounds covers the block
        obtain ⟨d, hd, _⟩ := h.exists_deficit hactive
        have hd₁ := hraised q.issuerID d
          (by rw [hconsidered.same.activeIssuers, hactive]; rfl) (by rw [hconsidered.deficits, hd])
        rw [← hwalked.target] at hd₁
        rw [deficit_eq hd] at hcost
        obtain ⟨_, hwork⟩ := hconsidered.legal c q hq block (mem_of_mem_head? hblock)
        have hbound := (p.deficitFromWork_le (hp.work.symm ▸ hwork)).2
        exact hsafe₂.scheduleFront hp hholds' (by rw [hqueue]; exact hblock) hd₁ (by omega)

/-! ## Section 7: Runs -/

/-- The operations in the domain of the scheduler: blocks are in the queues of their issuers and
    do not exceed the maximum work, quanta are positive. -/
def Legal (maxBlockWork : Nat) : SchedulerOp ID → Prop
  | .enqueueBasicBlock _ changes => ∀ e ∈ changes, ∀ block ∈ e.ready,
      block.issuerID = e.issuerID ∧ block.workScore ≤ maxBlockWork
  | .updateChildren changes => ∀ e ∈ changes, ∀ block ∈ e.ready,
      block.issuerID = e.issuerID ∧ block.workScore ≤ maxBlockWork
  | .select p => p.Proper maxBlockWork
  | _ => True

/-- The operation creates no issuer a second time, removes at most the current queue, clears the
    buffer in the order of the ring, and does not skip a block whose children come before the
    first blocks of other queues. -/
def Guarded (s : Scheduler ID) : SchedulerOp ID → Prop
  | .createIssuer accountID =>
    s.basicBuffer.activeIssuers.lookup accountID = none ∧ s.deficits.lookup accountID = none
  | .removeIssuer issuerID => Removable s.basicBuffer issuerID
  | .reset order => s.basicBuffer.issuerIDs = some order
  | .select p => s.blockChan = none → Steady p s
  | _ => True

/-- A guarded operation does not panic, and keeps the state safe. -/
theorem Safe.step (h : Safe maxBlockWork s) {op : SchedulerOp ID} (hlegal : Legal maxBlockWork op)
    (hguarded : Guarded s op) : ∃ s', s.step op = some s' ∧ Safe maxBlockWork s' := by
  cases op with
  | enqueueBasicBlock issuerID changes =>
    obtain ⟨s₁, hs₁, hsafe⟩ := h.getOrCreateIssuer issuerID
    obtain ⟨s', hs', hsafe'⟩ := hsafe.updateQueues hlegal
    exact ⟨s', bind_eq_some_iff.mpr ⟨s₁, hs₁, hs'⟩, hsafe'⟩
  | updateChildren changes => exact h.updateQueues hlegal
  | select p => exact h.select hlegal hguarded
  | schedule => exact ⟨_, rfl, h.ring, h.entry, h.range, h.blocks⟩
  | createIssuer accountID => exact h.createIssuer hguarded.1 hguarded.2
  | removeIssuer issuerID => exact h.removeIssuer hguarded
  | reset order => exact h.reset hguarded

/-- In a run of guarded operations nothing panics, every issuer with a queue has a deficit, and all
    deficits are in range; no guarded operation panics next. -/
theorem deficits_safe {ops : List (SchedulerOp ID)} (hlegal : ∀ op ∈ ops, Legal maxBlockWork op)
    (hguarded : AllSteps step Guarded new ops) :
    ∃ s, run step new ops = some s ∧
      (∀ id, (s.basicBuffer.activeIssuers.lookup id).isSome → (s.deficits.lookup id).isSome) ∧
      (∀ id d, s.deficits.lookup id = some d → 0 ≤ d ∧ d ≤ maxDeficit) ∧
      ∀ op, Legal maxBlockWork op → Guarded s op → (s.step op).isSome := by
  have hsteps := (allSteps_of_forall (fun op hop _ => hlegal op hop) new).and hguarded
  obtain ⟨s, hrun, hsafe⟩ := run_total_of (I := Safe maxBlockWork)
    (fun s op hs hop => hs.step hop.1 hop.2) safe_new hsteps
  refine ⟨s, hrun, hsafe.entry, hsafe.range, fun op hop hguard => ?_⟩
  obtain ⟨s', hs', _⟩ := hsafe.step hop hguard
  rw [hs']
  rfl

theorem proper_unitQuanta : unitQuanta.Proper 2 where
  work := rfl
  quantum _ := show (1 : Int) ≤ 1 ∧ (1 : Int) ≤ maxDeficit by decide
  updateChildren b _ := MoreReady.refl 2 b

theorem keepsFronts_unitQuanta : KeepsFronts unitQuanta := by
  intro b committed c q q' block _ hq hq' hblock
  obtain rfl := some.inj (hq.symm.trans hq')
  exact hblock

/-- An account is created, a block of another issuer is selected and scheduled, and the other
    issuer is removed in its turn. -/
def issuerComesAndGoes : List (SchedulerOp Nat) :=
  [.createIssuer 1, .enqueueBasicBlock 2 [⟨2, 0, [block 2]⟩], .select unitQuanta, .schedule,
    .removeIssuer 2]

theorem deficits_safe_issuerComesAndGoes :
    ∃ s, run step new issuerComesAndGoes = some s ∧
      (∀ id, (s.basicBuffer.activeIssuers.lookup id).isSome → (s.deficits.lookup id).isSome) ∧
      ∀ id d, s.deficits.lookup id = some d → 0 ≤ d ∧ d ≤ maxDeficit := by
  have hlegal : ∀ op ∈ issuerComesAndGoes, Legal 2 op := by
    simp only [issuerComesAndGoes, forall_mem_cons, Legal]
    simp [proper_unitQuanta, block]
  -- before the last step the issuer to be removed is the current one
  have hremovable : ∀ s ∈ run step new (issuerComesAndGoes.take 4), Removable s.basicBuffer 2 := by
    decide +kernel
  have hguarded : AllSteps step Guarded new issuerComesAndGoes := by
    refine ⟨⟨rfl, rfl⟩, fun s₁ h₁ => ⟨trivial, fun s₂ h₂ => ⟨fun _ => .inr keepsFronts_unitQuanta,
      fun s₃ h₃ => ⟨trivial, fun s₄ h₄ => ⟨hremovable s₄ ?_, fun _ _ => trivial⟩⟩⟩⟩⟩
    exact run_cons.mpr ⟨s₁, h₁, run_cons.mpr ⟨s₂, h₂, run_cons.mpr ⟨s₃, h₃,
      run_cons.mpr ⟨s₄, h₄, rfl⟩⟩⟩⟩
  obtain ⟨s, hrun, hentry, hrange, _⟩ := deficits_safe hlegal hguarded
  exact ⟨s, hrun, hentry, hrange⟩

/-- A block of issuer 1 that is ready, and one of greater work and earlier issuing time that waits
    for its parent. -/
def smallBlock : Block Nat := ⟨10, 1, 1, 5, false⟩

def waitingChild : Block Nat := ⟨11, 1, 2, 3, false⟩

/-- The parent, which is committed. -/
def committedParent : Block Nat := ⟨20, 2, 1, 1, true⟩

/-- The child becomes ready: it is issued before the other block. -/
def readyChild (b : BasicBuffer Nat) : BasicBuffer Nat :=
  ((b.activeIssuers.lookup 1).bind fun c => (b.value c).bind fun q =>
    if q.nonReady = 1 ∧ q.ready = [smallBlock] then
      some (b.setValue c { q with nonReady := 0, ready := [waitingChild, smallBlock] })
    else none).getD b

theorem moreReady_readyChild (b : BasicBuffer Nat) : MoreReady 2 b (readyChild b) := by
  have hrefl := MoreReady.refl 2 b
  unfold readyChild
  cases hc : b.activeIssuers.lookup 1 with
  | none => exact hrefl
  | some c =>
    cases hq : b.value c with
    | none => simpa [hq] using hrefl
    | some q =>
      simp only [bind_some, hq]
      split
      · rename_i hcond
        rw [getD_some]
        refine ⟨SameQueues.setValue hq rfl, fun h => h.setValue ?_, fun d r r' hr hr' => ?_⟩
        · -- the child has the issuer of the block that was ready
          have hsmall := h c q hq smallBlock (by rw [hcond.2]; exact mem_singleton_self _)
          intro block hblock
          simp only [mem_cons, not_mem_nil, or_false] at hblock
          rcases hblock with rfl | rfl
          · exact ⟨hsmall.1, by decide⟩
          · exact hsmall
        · have hr' : update b.value c _ d = some r' := hr'
          rw [update_apply] at hr'
          split at hr'
          · rename_i hd
            rw [hd, hq] at hr
            obtain rfl := some.inj hr
            obtain rfl := some.inj hr'
            constructor
            · show 0 + 2 ≤ q.nonReady + q.ready.length
              rw [hcond.1, hcond.2]
              decide
            · intro block hblock
              rw [hcond.2] at hblock
              exact mem_cons_of_mem _ hblock
          · obtain rfl : r = r' := some.inj (hr.symm.trans hr')
            exact ⟨Nat.le_refl _, fun _ h => h⟩
      · exact hrefl

/-- Skipping the parent makes the child ready. -/
def skippingParams : Params Nat :=
  ⟨fun _ => 1, 2, Nat.two_pos, 10, fun b block => if block.blockID = 20 then readyChild b else b⟩

theorem proper_skippingParams : skippingParams.Proper 2 where
  work := rfl
  quantum _ := show (1 : Int) ≤ 1 ∧ (1 : Int) ≤ maxDeficit by decide
  updateChildren b block := by
    show MoreReady 2 b (if block.blockID = 20 then readyChild b else b)
    split
    · exact moreReady_readyChild b
    · exact proper_unitQuanta.updateChildren b block

/-- Issuer 1 has the small block, and its child waits; issuer 2 has the committed parent. -/
def parentCommitted : List (SchedulerOp Nat) :=
  [.enqueueBasicBlock 1 [⟨1, 1, [smallBlock]⟩], .enqueueBasicBlock 2 [⟨2, 0, [committedParent]⟩]]

/-- Three panics.  An issuer whose queue is removed out of turn stays in the ring without a
    deficit, and the next increment does not find it.  A child that becomes ready while the
    queues are looked at is popped without being covered, so that the deficit would fall below
    zero.  And an account that is created after a block of its issuer arrived finds its queue. -/
theorem deficit_panics :
    (∃ s : Scheduler Nat, run step new [.createIssuer 1, .createIssuer 2, .removeIssuer 2,
        .enqueueBasicBlock 1 [⟨1, 0, [block 1]⟩]] = some s ∧
      s.basicBuffer.issuerIDs = some [1, 2] ∧ s.deficits.lookup 2 = none ∧
      (∃ best, s.selectIssuer unitQuanta = some best ∧ 0 < best.minRounds ∧
        best.scheduler.incrementDeficit unitQuanta 2 best.minRounds = none) ∧
      s.step (.select unitQuanta) = none) ∧
    (∃ s : Scheduler Nat, run step new parentCommitted = some s ∧ skippingParams.Proper 2 ∧
      (∃ best s', s.selectIssuer skippingParams = some best ∧
        best.scheduler.incrementAll skippingParams best.minRounds = some s' ∧
        s'.basicBuffer.popFront.map Prod.fst = some waitingChild ∧
        (s'.deficit 1 < skippingParams.deficitFromWork waitingChild.workScore) ∧
        s'.scheduleFront skippingParams = none) ∧
      s.step (.select skippingParams) = none) ∧
    ∃ s : Scheduler Nat, run step new [.enqueueBasicBlock 1 []] = some s ∧
      s.step (.createIssuer 1) = none := by
  refine ⟨by decide +kernel, ?_, by decide +kernel⟩
  simp only [proper_skippingParams, true_and, exists_and_left]
  decide +kernel

end Scheduler

end AxonCore.Drr

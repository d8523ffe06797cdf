import AxonCore.Scheduler.BasicBuffer

/-! # The ring of the buffer

    `Rep b l` says that the cells `l` are the ring of the buffer, from the current cell on,
    and that they are exactly the cells of the active issuers.

    `ringRemove` links the cell before the removed one to the cell after the current one.
    That takes the current cell out of the ring.  Any other cell stays in the ring, and the
    cells between the current one and it are lost.  So the ring is intact in runs in which
    only the current queue is removed. -/

namespace AxonCore.Drr

open AxonCore.Lib Function List Option BasicBuffer AList

variable {ID : Type} [DecidableEq ID]

/-! ## Section 1: The ring and the active issuers -/

/-- The ring of the buffer has the cells `l`, and these are the cells of the active
    issuers. -/
structure Rep (b : BasicBuffer ID) (l : List Nat) : Prop where
  ring : b.ring = l.head?
  isRing : IsRing b.links l
  created : ∀ c ∈ l, c < b.created
  /-- An active issuer has its cell in the ring. -/
  active : ∀ {id : ID} {c : Nat}, b.activeIssuers.lookup id = some c →
    c ∈ l ∧ ∃ q, b.value c = some q ∧ q.issuerID = id
  /-- A cell of the ring has the queue of an active issuer. -/
  owner : ∀ {c : Nat}, c ∈ l → ∃ q, b.value c = some q ∧
    b.activeIssuers.lookup q.issuerID = some c

variable {id : ID}

namespace Rep

variable {b : BasicBuffer ID} {l : List Nat}

theorem new : Rep (new : BasicBuffer ID) [] where
  ring := rfl
  isRing := trivial
  created _ hc := absurd hc not_mem_nil
  active h := nomatch h
  owner hc := absurd hc not_mem_nil

theorem length_le (h : Rep b l) : l.length ≤ b.created := by
  have hsubset : l ⊆ List.range b.created := fun c hc => mem_range.mpr (h.created c hc)
  have hle := (subperm_of_subset h.isRing.nodup hsubset).length_le
  rwa [length_range] at hle

theorem cells (h : Rep b l) : b.cells = some l := by
  unfold BasicBuffer.cells
  rw [h.ring]
  cases l with
  | nil => rfl
  | cons x l => exact h.isRing.traverse h.length_le

theorem active_inj (h : Rep b l) {id' : ID} {c : Nat} (hid : b.activeIssuers.lookup id = some c)
    (hid' : b.activeIssuers.lookup id' = some c) :
    id = id' := by
  obtain ⟨_, q, hq, hown⟩ := h.active hid
  obtain ⟨_, q', hq', hown'⟩ := h.active hid'
  rw [hq, some.injEq] at hq'
  rw [← hown, ← hown', hq']

end Rep

/-! ## Section 2: Buffers with the same queues -/

/-- Two buffers with the same ring; the queues may have other contents. -/
structure SameQueues (b b' : BasicBuffer ID) : Prop where
  activeIssuers : b'.activeIssuers = b.activeIssuers
  ring : b'.ring = b.ring
  links : b'.links = b.links
  created : b'.created = b.created
  issuer : ∀ c, (b'.value c).map IssuerQueue.issuerID = (b.value c).map IssuerQueue.issuerID

namespace SameQueues

variable {b b' b'' : BasicBuffer ID} {c : Nat} {q : IssuerQueue ID}

section

omit [DecidableEq ID]

theorem refl (b : BasicBuffer ID) : SameQueues b b := ⟨rfl, rfl, rfl, rfl, fun _ => rfl⟩

theorem trans (h : SameQueues b b') (h' : SameQueues b' b'') : SameQueues b b'' where
  activeIssuers := h'.activeIssuers.trans h.activeIssuers
  ring := h'.ring.trans h.ring
  links := h'.links.trans h.links
  created := h'.created.trans h.created
  issuer c := (h'.issuer c).trans (h.issuer c)

theorem setValue (hq : b.value c = some q) {q' : IssuerQueue ID}
    (hissuer : q'.issuerID = q.issuerID) : SameQueues b (b.setValue c q') := by
  refine ⟨rfl, rfl, rfl, rfl, fun d => ?_⟩
  show (update b.value c (some q') d).map _ = _
  rw [update_apply]
  split
  · rename_i hd
    rw [hd, hq, map_some, map_some, hissuer]
  · rfl

theorem exists_queue (h : SameQueues b b') (hq : b.value c = some q) :
    ∃ q', b'.value c = some q' ∧ q'.issuerID = q.issuerID := by
  have hissuer := h.issuer c
  rw [hq, map_some] at hissuer
  exact map_eq_some_iff.mp hissuer

end

theorem rep {l : List Nat} (h : SameQueues b b') (hrep : Rep b l) : Rep b' l where
  ring := by rw [h.ring, hrep.ring]
  isRing := by
    rw [h.links]
    exact hrep.isRing
  created := by
    rw [h.created]
    exact hrep.created
  active := by
    intro id c hid
    rw [h.activeIssuers] at hid
    obtain ⟨hmem, q, hq, hissuer⟩ := hrep.active hid
    obtain ⟨q', hq', hissuer'⟩ := h.exists_queue hq
    exact ⟨hmem, q', hq', hissuer'.trans hissuer⟩
  owner := by
    intro c hc
    obtain ⟨q, hq, hown⟩ := hrep.owner hc
    obtain ⟨q', hq', hissuer'⟩ := h.exists_queue hq
    refine ⟨q', hq', ?_⟩
    rw [h.activeIssuers, hissuer']
    exact hown

end SameQueues

/-! ## Section 3: The operations -/

namespace Rep

variable {b : BasicBuffer ID} {l : List Nat} {x : Nat}

theorem setValue (h : Rep b l) {c : Nat} {q : IssuerQueue ID} (q' : IssuerQueue ID)
    (hq : b.value c = some q) (hissuer : q'.issuerID = q.issuerID) : Rep (b.setValue c q') l :=
  (SameQueues.setValue hq hissuer).rep h

theorem next_nil (h : Rep b []) : b.next = b := by
  have hnone : b.ring = none := h.ring
  unfold BasicBuffer.next
  rw [hnone]
  exact congrArg (fun r => { b with ring := r }) hnone.symm

theorem next (h : Rep b (x :: l)) : Rep b.next (l ++ [x]) := by
  have hmem : ∀ c, c ∈ l ++ [x] ↔ c ∈ x :: l := by
    intro c
    simp [or_comm]
  constructor
  case ring =>
    show b.ring.map b.links.next = (l ++ [x]).head?
    rw [h.ring]
    cases l with
    | nil => exact congrArg some h.isRing.2.1
    | cons y l => exact congrArg some h.isRing.2.1.1
  case isRing =>
    cases l with
    | nil => exact h.isRing
    | cons y l => exact h.isRing.rotate
  case created => exact fun c hc => h.created c ((hmem c).mp hc)
  case active =>
    intro id c hid
    exact ⟨(hmem c).mpr (h.active hid).1, (h.active hid).2⟩
  case owner => exact fun hc => h.owner ((hmem _).mp hc)

theorem create (h : Rep b l) (hid : b.activeIssuers.lookup id = none) :
    ∃ b', b.createIssuerQueue id = some b' ∧ Rep b' (l ++ [b.created]) := by
  have hfresh : b.created ∉ l := fun hmem => Nat.lt_irrefl _ (h.created _ hmem)
  obtain ⟨b', hb'⟩ : ∃ b', b.createIssuerQueue id = some b' :=
    ⟨_, by unfold createIssuerQueue; rw [hid]⟩
  obtain ⟨hactive, hvalue, hcreated⟩ := createIssuerQueue_frame hb'
  have hring : b'.ring = (l ++ [b.created]).head? ∧ IsRing b'.links (l ++ [b.created]) := by
    unfold createIssuerQueue ringInsert newCell at hb'
    rw [hid] at hb'
    simp only [h.ring] at hb'
    obtain rfl := some.inj hb'
    cases l with
    | nil => exact ⟨rfl, isRing_single b.links b.created⟩
    | cons x l =>
      exact ⟨rfl, (h.isRing.frame_single hfresh).link_before (adjacent_single b.links b.created)
        hfresh⟩
  refine ⟨b', hb', hring.1, hring.2, fun c hc => ?_, fun {id' c} hid' => ?_, fun {c} hc => ?_⟩
  · rw [hcreated]
    rcases mem_append.mp hc with hold | hnew
    · exact Nat.lt_succ_of_lt (h.created c hold)
    · rw [mem_singleton.mp hnew]
      exact Nat.lt_succ_self _
  · rw [hactive, lookup_insert_eq] at hid'
    rw [hvalue]
    split_ifs at hid' with heq
    · rw [some.injEq] at hid'
      subst hid'
      exact ⟨by simp, IssuerQueue.new id, update_self _ _ _, heq.symm⟩
    · obtain ⟨hmem, q, hq, hown⟩ := h.active hid'
      have hne : c ≠ b.created := fun hc => hfresh (hc ▸ hmem)
      exact ⟨by simp [hmem], q, by rw [update_of_ne hne]; exact hq, hown⟩
  · rw [hvalue, hactive]
    rcases mem_append.mp hc with hold | hnew
    · obtain ⟨q, hq, hown⟩ := h.owner hold
      have hne : c ≠ b.created := fun heq => hfresh (heq ▸ hold)
      have hother : q.issuerID ≠ id := by
        intro heq
        rw [heq, hid] at hown
        cases hown
      refine ⟨q, by rw [update_of_ne hne]; exact hq, ?_⟩
      rw [lookup_insert_eq, if_neg hother]
      exact hown
    · rw [mem_singleton.mp hnew]
      exact ⟨IssuerQueue.new id, update_self _ _ _, lookup_insert _⟩

theorem removeCurrent (h : Rep b (x :: l)) (hid : b.activeIssuers.lookup id = some x) :
    ∃ b', (b.ringRemove x).map (fun b => b.deactivate id) = some b' ∧ Rep b' l := by
  have hring : b.ring = some x := h.ring
  have hnotin : x ∉ l := (nodup_cons.mp h.isRing.nodup).1
  -- the cells of the other issuers are the rest of the ring
  have hactive : ∀ {id' : ID} {c : Nat}, (b.activeIssuers.erase id).lookup id' = some c →
      c ∈ l ∧ ∃ q, b.value c = some q ∧ q.issuerID = id' := by
    intro id' c hid'
    obtain ⟨hne, hid'⟩ := lookup_of_erase hid'
    obtain ⟨hmem, hq⟩ := h.active hid'
    rcases mem_cons.mp hmem with hc | hmem
    · exact absurd (h.active_inj (hc ▸ hid') hid) hne
    · exact ⟨hmem, hq⟩
  have howner : ∀ {c : Nat}, c ∈ l → ∃ q, b.value c = some q ∧
      (b.activeIssuers.erase id).lookup q.issuerID = some c := by
    intro c hc
    obtain ⟨q, hq, hown⟩ := h.owner (mem_cons_of_mem x hc)
    have hne : q.issuerID ≠ id := by
      intro heq
      rw [heq, hid, some.injEq] at hown
      exact hnotin (hown ▸ hc)
    exact ⟨q, hq, by rw [lookup_erase_ne hne]; exact hown⟩
  have hcreated : ∀ c ∈ l, c < b.created := fun c hc => h.created c (mem_cons_of_mem x hc)
  unfold ringRemove
  rw [hring]
  simp only [map_some, if_true]
  cases l with
  | nil =>
    have hself : b.links.next x = x := h.isRing.2.1
    rw [if_pos hself]
    exact ⟨_, rfl, rfl, trivial, hcreated, hactive, howner⟩
  | cons y l =>
    have hnext : b.links.next x = y := h.isRing.2.1.1
    have hne : b.links.next x ≠ x := fun heq => hnotin (by rw [← heq, hnext]; simp)
    rw [if_neg hne]
    refine ⟨_, rfl, ?_, h.isRing.link_around, hcreated, hactive, howner⟩
    exact congrArg some hnext

/-- The same for a queue whose content was dropped before. -/
theorem removeIssuerQueue (h : Rep b (x :: l)) (hid : b.activeIssuers.lookup id = some x) :
    ∃ b', b.removeIssuerQueue id = some b' ∧ Rep b' l ∧
      b'.activeIssuers = b.activeIssuers.erase id := by
  obtain ⟨_, q, hq, _⟩ := h.active hid
  obtain ⟨b', hb', hrep⟩ := (h.setValue q.clear hq rfl).removeCurrent hid
  refine ⟨b', ?_, hrep, ?_⟩
  · unfold BasicBuffer.removeIssuerQueue
    rw [hid]
    simp only [hq, bind_some]
    exact hb'
  · obtain ⟨c, hc, rfl⟩ := map_eq_some_iff.mp hb'
    show c.activeIssuers.erase id = b.activeIssuers.erase id
    rw [(ringRemove_frame hc).1]
    rfl

/-- Removing the queues in the order of the ring removes the current one every time. -/
theorem clear : ∀ {l : List Nat} {order : List ID} {b : BasicBuffer ID}, Rep b l →
    order.map b.activeIssuers.lookup = l.map some → ∃ b', b.clear order = some b' ∧ Rep b' [] := by
  intro l
  induction l with
  | nil =>
    intro order b h horder
    rw [map_eq_nil_iff.mp horder]
    exact ⟨b, rfl, h⟩
  | cons x l ih =>
    intro order b h horder
    obtain ⟨id, order, rfl, hid, hrest⟩ := map_eq_cons_iff.mp horder
    obtain ⟨b', hb', hrep, hactive⟩ := h.removeIssuerQueue hid
    have hnotin : x ∉ l := (nodup_cons.mp h.isRing.nodup).1
    -- the issuers still to be removed are other ones
    have hrest' : order.map b'.activeIssuers.lookup = l.map some := by
      rw [← hrest, hactive]
      apply map_congr_left
      intro id' hid'
      apply lookup_erase_ne
      intro heq
      have hmem : b.activeIssuers.lookup id' ∈ l.map some :=
        hrest ▸ mem_map_of_mem hid'
      rw [heq, hid] at hmem
      simp only [List.mem_map, some.injEq, exists_eq_right] at hmem
      exact hnotin hmem
    obtain ⟨b'', hb'', hempty⟩ := ih hrep hrest'
    exact ⟨b'', run_cons.mpr ⟨b', hb', hb''⟩, hempty⟩

theorem issuerIDs (h : Rep b l) : ∃ order, b.issuerIDs = some order ∧
    order.map b.activeIssuers.lookup = l.map some := by
  have hall : ∀ l' : List Nat, (∀ c ∈ l', c ∈ l) → ∃ queues, l'.mapM b.value = some queues ∧
      (queues.map IssuerQueue.issuerID).map b.activeIssuers.lookup = l'.map some := by
    intro l'
    induction l' with
    | nil => exact fun _ => ⟨[], rfl, rfl⟩
    | cons c l' ih =>
      intro hmem
      obtain ⟨q, hq, hown⟩ := h.owner (hmem c mem_cons_self)
      obtain ⟨queues, hqueues, hrest⟩ := ih fun d hd => hmem d (mem_cons_of_mem c hd)
      refine ⟨q :: queues, by simp [mapM_cons, hq, hqueues], ?_⟩
      rw [map_cons, map_cons, map_cons, hrest, hown]
  obtain ⟨queues, hqueues, horder⟩ := hall l fun _ hc => hc
  refine ⟨queues.map IssuerQueue.issuerID, ?_, horder⟩
  unfold BasicBuffer.issuerIDs
  rw [h.cells]
  simp [hqueues]

end Rep

/-! ## Section 4: Runs -/

/-- The operations on a buffer. -/
inductive Op (ID : Type) where
  | createIssuerQueue (issuerID : ID)
  | getOrCreateIssuerQueue (issuerID : ID)
  | removeIssuerQueue (issuerID : ID)
  | removeIssuerQueueIfEmpty (issuerID : ID)
  | next
  | forEach
  | issuerIDs
  /-- `Clear`, with the order in which the map of active issuers is iterated. -/
  | clear (order : List ID)
  /-- Blocks are submitted to, made ready in or taken from the queue of an issuer. -/
  | update (issuerID : ID) (nonReady : Nat) (ready : List (Block ID))

section

variable (b : BasicBuffer ID)

/-- The queue of an active issuer gets another content. -/
def BasicBuffer.update (issuerID : ID) (nonReady : Nat)
    (ready : List (Block ID)) : Option (BasicBuffer ID) :=
  match b.activeIssuers.lookup issuerID with
  | none => some b
  | some element =>
    (b.value element).map fun q => b.setValue element
      { q with nonReady := nonReady, ready := ready }

/-- One operation; `none` if it panics. -/
def step : Op ID → Option (BasicBuffer ID)
  | .createIssuerQueue issuerID => b.createIssuerQueue issuerID
  | .getOrCreateIssuerQueue issuerID => b.getOrCreateIssuerQueue issuerID
  | .removeIssuerQueue issuerID => b.removeIssuerQueue issuerID
  | .removeIssuerQueueIfEmpty issuerID => b.removeIssuerQueueIfEmpty issuerID
  | .next => some b.next
  | .forEach => b.forEach.map fun _ => b
  | .issuerIDs => b.issuerIDs.map fun _ => b
  | .clear order => b.clear order
  | .update issuerID nonReady ready => b.update issuerID nonReady ready

/-- The issuer is not active, or it is the current one. -/
def Removable (issuerID : ID) : Prop :=
  b.activeIssuers.lookup issuerID = none ∨ b.activeIssuers.lookup issuerID = b.ring

instance (issuerID : ID) : Decidable (Removable b issuerID) :=
  inferInstanceAs (Decidable (_ ∨ _))

/-- The operation creates no queue a second time, removes at most the current queue, and
    clears the buffer in the order of the ring. -/
def Orderly : Op ID → Prop
  | .createIssuerQueue issuerID => b.activeIssuers.lookup issuerID = none
  | .removeIssuerQueue issuerID => Removable b issuerID
  | .removeIssuerQueueIfEmpty issuerID =>
    Removable b issuerID ∨
      ((b.activeIssuers.lookup issuerID).bind b.value).any (fun q => q.size ≠ 0) = true
  | .clear order => b.issuerIDs = some order
  | _ => True

instance : (op : Op ID) → Decidable (Orderly b op)
  | .createIssuerQueue issuerID =>
    inferInstanceAs (Decidable (b.activeIssuers.lookup issuerID = none))
  | .removeIssuerQueue issuerID => inferInstanceAs (Decidable (Removable b issuerID))
  | .removeIssuerQueueIfEmpty _ => inferInstanceAs (Decidable (_ ∨ _))
  | .clear order => inferInstanceAs (Decidable (b.issuerIDs = some order))
  | .getOrCreateIssuerQueue _ => isTrue trivial
  | .next => isTrue trivial
  | .forEach => isTrue trivial
  | .issuerIDs => isTrue trivial
  | .update _ _ _ => isTrue trivial

end

variable {b : BasicBuffer ID}

theorem Rep.eq_cons_of_removable {l : List Nat} (h : Rep b l) {c : Nat}
    (hid : b.activeIssuers.lookup id = some c) (hremovable : Removable b id) :
    ∃ l', l = c :: l' := by
  unfold Removable at hremovable
  rw [hid, h.ring] at hremovable
  exact List.head?_eq_some_iff.mp (hremovable.resolve_left nofun).symm

theorem Rep.step {l : List Nat} (h : Rep b l) {op : Op ID} (hop : Orderly b op) :
    ∃ b', step b op = some b' ∧ ∃ l', Rep b' l' := by
  cases op with
  | createIssuerQueue id =>
    obtain ⟨b', hb', hrep⟩ := h.create hop
    exact ⟨b', hb', _, hrep⟩
  | getOrCreateIssuerQueue id =>
    show ∃ b', b.getOrCreateIssuerQueue id = some b' ∧ _
    unfold getOrCreateIssuerQueue
    cases hid : b.activeIssuers.lookup id with
    | none =>
      obtain ⟨b', hb', hrep⟩ := h.create hid
      exact ⟨b', hb', _, hrep⟩
    | some c =>
      obtain ⟨_, q, hq, _⟩ := h.active hid
      exact ⟨b, by simp [hq], _, h⟩
  | removeIssuerQueue id =>
    show ∃ b', b.removeIssuerQueue id = some b' ∧ _
    cases hid : b.activeIssuers.lookup id with
    | none => exact ⟨b, by unfold BasicBuffer.removeIssuerQueue; rw [hid], _, h⟩
    | some c =>
      obtain ⟨l', rfl⟩ := h.eq_cons_of_removable hid hop
      obtain ⟨b', hb', hrep, _⟩ := h.removeIssuerQueue hid
      exact ⟨b', hb', _, hrep⟩
  | removeIssuerQueueIfEmpty id =>
    show ∃ b', b.removeIssuerQueueIfEmpty id = some b' ∧ _
    unfold removeIssuerQueueIfEmpty
    cases hid : b.activeIssuers.lookup id with
    | none => exact ⟨b, rfl, _, h⟩
    | some c =>
      obtain ⟨_, q, hq, _⟩ := h.active hid
      simp only [hq, bind_some]
      split_ifs with hsize
      · have hremovable : Removable b id := by
          apply hop.resolve_right
          simp [hid, hq, hsize]
        obtain ⟨l', rfl⟩ := h.eq_cons_of_removable hid hremovable
        obtain ⟨b', hb', hrep⟩ := h.removeCurrent hid
        exact ⟨b', hb', _, hrep⟩
      · exact ⟨b, rfl, _, h⟩
  | next =>
    refine ⟨b.next, rfl, ?_⟩
    cases l with
    | nil => exact ⟨[], by rw [h.next_nil]; exact h⟩
    | cons x l => exact ⟨_, h.next⟩
  | forEach =>
    refine ⟨b, ?_, _, h⟩
    show b.forEach.map _ = _
    unfold forEach
    rw [h.cells]
    rfl
  | issuerIDs =>
    obtain ⟨order, horder, _⟩ := h.issuerIDs
    refine ⟨b, ?_, _, h⟩
    show b.issuerIDs.map _ = _
    rw [horder]
    rfl
  | clear order =>
    obtain ⟨order', horder', hcells⟩ := h.issuerIDs
    rw [hop, some.injEq] at horder'
    subst horder'
    obtain ⟨b', hb', hrep⟩ := h.clear hcells
    exact ⟨b', hb', _, hrep⟩
  | update id nonReady ready =>
    show ∃ b', b.update id nonReady ready = some b' ∧ _
    unfold BasicBuffer.update
    cases hid : b.activeIssuers.lookup id with
    | none => exact ⟨b, rfl, _, h⟩
    | some c =>
      obtain ⟨_, q, hq, _⟩ := h.active hid
      simp only [hq, map_some]
      exact ⟨_, rfl, _, h.setValue _ hq rfl⟩

/-- The ring has exactly the queues of the active issuers, each once, and there is no ring if
    and only if there is no active issuer. -/
def Intact (b : BasicBuffer ID) : Prop :=
  (∃ cells, b.cells = some cells ∧ cells.Nodup ∧
    (∀ c, c ∈ cells ↔ ∃ id, b.activeIssuers.lookup id = some c) ∧
    ∀ id c, b.activeIssuers.lookup id = some c → ∃ q, b.value c = some q ∧ q.issuerID = id) ∧
  (b.ring = none ↔ ∀ id, b.activeIssuers.lookup id = none)

theorem Rep.intact {l : List Nat} (h : Rep b l) : Intact b := by
  have hmem : ∀ c, c ∈ l ↔ ∃ id, b.activeIssuers.lookup id = some c := by
    intro c
    constructor
    · intro hc
      obtain ⟨q, _, hown⟩ := h.owner hc
      exact ⟨q.issuerID, hown⟩
    · intro hex
      obtain ⟨id, hid⟩ := hex
      exact (h.active hid).1
  refine ⟨⟨l, h.cells, h.isRing.nodup, hmem, fun id c hid => (h.active hid).2⟩, ?_⟩
  rw [h.ring, List.head?_eq_none_iff]
  constructor
  · intro hnil id
    refine Option.eq_none_iff_forall_ne_some.mpr fun c hid => ?_
    exact not_mem_nil (hnil ▸ (h.active hid).1)
  · intro hnone
    apply eq_nil_iff_forall_not_mem.mpr
    intro c hc
    obtain ⟨id, hid⟩ := (hmem c).mp hc
    rw [hnone id] at hid
    cases hid

/-- Removing a queue other than the current one leaves its cell in the ring, right after the
    current cell. -/
theorem Rep.not_intact_removeIssuerQueue {b' : BasicBuffer ID} {l : List Nat} (h : Rep b l)
    (hother : ¬ Removable b id) (hb' : b.removeIssuerQueue id = some b') :
    ¬ Intact b' := by
  rw [Removable, not_or] at hother
  obtain ⟨r, hid⟩ := ne_none_iff_exists'.mp hother.1
  obtain ⟨hr, q, hq, _⟩ := h.active hid
  -- the current cell `x` is another one
  obtain ⟨x, l, rfl⟩ := exists_cons_of_ne_nil (ne_nil_of_mem hr)
  have hring : b.ring = some x := h.ring
  have hrx : r ≠ x := fun heq => hother.2 (by rw [hid, hring, heq])
  simp only [BasicBuffer.removeIssuerQueue, hid, hq, bind_some, ringRemove, BasicBuffer.setValue,
    hring, map_some, if_neg hrx] at hb'
  obtain rfl := some.inj hb'
  -- it is followed by the cell of the removed queue
  have hafter := (adjacent_link_outer b.links (b.links.prev r) (b.links.next x)).1
  have hnext_prev : b.links.prev (b.links.next x) = x := by
    cases l with
    | nil => rw [h.isRing.2.1, h.isRing.2.2]
    | cons y l => rw [h.isRing.2.1.1, h.isRing.2.1.2]
  rw [hnext_prev, h.isRing.2.next_prev hr] at hafter
  rintro ⟨⟨cells, hcells, _, hmem, _⟩, _⟩
  unfold BasicBuffer.cells at hcells
  simp only [BasicBuffer.deactivate] at hcells
  have hin := next_mem_of_traverse hcells
  rw [hafter] at hin
  obtain ⟨id', hid'⟩ := (hmem r).mp hin
  obtain ⟨hne, hid'⟩ := lookup_of_erase hid'
  exact hne (h.active_inj hid' hid)

/-- A run of orderly operations goes through, and its ring is represented by a list. -/
theorem run_rep {ops : List (Op ID)} (hops : AllSteps step Orderly new ops) :
    ∃ b, run step new ops = some b ∧ ∃ l, Rep b l :=
  run_total_of
    (fun b op hb hop => by
      obtain ⟨l, h⟩ := hb
      exact h.step hop) ⟨[], Rep.new⟩ hops

/-- In a run of orderly operations none panics, and the ring has exactly the queues of the
    active issuers, each once. -/
theorem ring_intact {ops : List (Op ID)} (hops : AllSteps step Orderly new ops) :
    ∃ b, run step new ops = some b ∧ Intact b ∧
      ∀ op, Orderly b op → (step b op).isSome := by
  obtain ⟨b, hrun, l, h⟩ := run_rep hops
  refine ⟨b, hrun, h.intact, ?_⟩
  intro op hop
  obtain ⟨b', hb', _⟩ := h.step hop
  rw [hb']
  rfl

/-- Issuers 1 and 2 get a queue, the turn passes to issuer 2, whose queue is removed. -/
def removalInTurn : List (Op Nat) :=
  [.createIssuerQueue 1, .createIssuerQueue 2, .next, .removeIssuerQueue 2, .issuerIDs]

theorem ring_intact_removalInTurn :
    AllSteps step Orderly new removalInTurn ∧
    ∃ b, run step new removalInTurn = some b ∧ Intact b := by
  have hops : AllSteps step Orderly new removalInTurn := by decide +kernel
  obtain ⟨b, hrun, hintact, _⟩ := ring_intact hops
  exact ⟨hops, b, hrun, hintact⟩

/-- Issuers 1 and 2 get a queue, and the queue of issuer 2 is removed while it is the turn of
    issuer 1: the ring still has both cells. -/
theorem removed_queue_in_ring :
    ∃ b : BasicBuffer Nat, run step new
        [.createIssuerQueue 1, .createIssuerQueue 2, .removeIssuerQueue 2] = some b ∧
      b.issuerIDs = some [1, 2] ∧ b.activeIssuers.keys = [1] ∧ ¬ Intact b := by
  refine exists_of_result (P := fun b => b.issuerIDs = some [1, 2] ∧
    b.activeIssuers.keys = [1] ∧ b.cells = some [0, 1]) (by decide +kernel) ?_
  rintro b - ⟨hissuers, hkeys, hcells⟩
  refine ⟨hissuers, hkeys, ?_⟩
  intro hintact
  obtain ⟨⟨cells, hcells', _, hmem, _⟩, _⟩ := hintact
  rw [hcells, some.injEq] at hcells'
  subst hcells'
  -- both cells would have to belong to issuer 1
  have howner : ∀ c ∈ [0, 1], b.activeIssuers.lookup 1 = some c := by
    intro c hc
    obtain ⟨id, hid⟩ := (hmem c).mp hc
    have hkey : id ∈ b.activeIssuers.keys := (mem_keys_iff _ _).mpr (hid ▸ rfl)
    rw [hkeys, mem_singleton] at hkey
    rw [← hkey]
    exact hid
  have h0 := howner 0 (by decide)
  rw [howner 1 (by decide)] at h0
  cases h0

end AxonCore.Drr

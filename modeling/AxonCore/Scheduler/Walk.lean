import AxonCore.Scheduler.Deficits

/-! # The walk to the scheduling issuer

    `Holds b queue ids` says that the ring of the buffer has the issuers `ids`, from the
    current one on, with their queues.  In these terms the walk is a walk along a list.

    A queue that is removed on the way moves the turn to the next issuer, and `Next` then moves
    it once more.  So the issuer after a removed queue is passed over: it does not get its
    quantum, and if it is the scheduling issuer the walk goes around once more. -/

namespace AxonCore.Drr

open AxonCore.Lib Function List BasicBuffer

variable {ID : Type} [DecidableEq ID] {id : ID} {target : Nat}

/-! ## Section 1: The ring as a list of issuers -/

/-- The ring has the issuers `ids`, and `queue` are their queues. -/
structure Holds (b : BasicBuffer ID) (queue : ID → IssuerQueue ID) (cells : List Nat)
    (ids : List ID) : Prop where
  rep : Rep b cells
  lookup : ids.map b.activeIssuers.lookup = cells.map some
  value : ∀ {id : ID} {c : Nat}, id ∈ ids → b.activeIssuers.lookup id = some c →
    b.value c = some (queue id)

namespace Holds

variable {b : BasicBuffer ID} {queue : ID → IssuerQueue ID} {cells : List Nat} {ids : List ID}

theorem nodup (h : Holds b queue cells ids) : ids.Nodup := by
  have hcells : (cells.map some).Nodup := h.rep.isRing.nodup.map (Option.some_injective Nat)
  rw [← h.lookup] at hcells
  exact hcells.of_map

theorem exists_cell (h : Holds b queue cells ids) (hid : id ∈ ids) :
    ∃ c, b.activeIssuers.lookup id = some c := by
  have hmem : b.activeIssuers.lookup id ∈ cells.map some :=
    h.lookup ▸ mem_map_of_mem hid
  obtain ⟨c, _, hc⟩ := mem_map.mp hmem
  exact ⟨c, hc.symm⟩

theorem issuerID (h : Holds b queue cells ids) (hid : id ∈ ids) : (queue id).issuerID = id := by
  obtain ⟨c, hc⟩ := h.exists_cell hid
  obtain ⟨_, q, hq, hissuer⟩ := h.rep.active hc
  rw [h.value hid hc, Option.some.injEq] at hq
  rw [hq]
  exact hissuer

theorem head {a : ID} (h : Holds b queue cells (a :: ids)) :
    ∃ c cells', cells = c :: cells' ∧ b.ring = some c ∧ b.activeIssuers.lookup a = some c ∧
      ids.map b.activeIssuers.lookup = cells'.map some := by
  have hlookup := h.lookup
  rw [map_cons] at hlookup
  obtain ⟨c, cells', hcells, hc, hrest⟩ := map_eq_cons_iff.mp hlookup.symm
  refine ⟨c, cells', hcells, ?_, hc.symm, hrest.symm⟩
  rw [h.rep.ring, hcells]
  rfl

theorem current {a : ID} (h : Holds b queue cells (a :: ids)) : b.current = some (queue a) := by
  obtain ⟨c, _, _, hring, hc, _⟩ := h.head
  unfold BasicBuffer.current
  rw [hring]
  exact h.value mem_cons_self hc

theorem ring_eq_iff {a k : ID} (h : Holds b queue cells (a :: ids))
    (htarget : b.activeIssuers.lookup k = some target) : b.ring = some target ↔ a = k := by
  obtain ⟨c, _, _, hring, hc, _⟩ := h.head
  rw [hring]
  constructor
  · intro heq
    rw [Option.some.injEq] at heq
    exact h.rep.active_inj (heq ▸ hc) htarget
  · intro heq
    rw [← hc, heq, htarget]

section

variable (h : Holds b queue cells ids)
include h

theorem map_value : cells.map b.value = (ids.map queue).map some := by
  have hids : cells.map some = ids.map b.activeIssuers.lookup := h.lookup.symm
  calc cells.map b.value = (cells.map some).map (fun c => c.bind b.value) := by
        simp [comp_def]
    _ = ids.map fun id => (b.activeIssuers.lookup id).bind b.value := by
        rw [hids, map_map]
        rfl
    _ = (ids.map queue).map some := by
        rw [map_map]
        apply map_congr_left
        intro id hid
        obtain ⟨c, hc⟩ := h.exists_cell hid
        rw [hc]
        exact h.value hid hc

theorem length_le : ids.length ≤ b.created := by
  have hcells := congrArg List.length h.lookup
  rw [length_map, length_map] at hcells
  rw [hcells]
  exact h.rep.length_le

theorem forEach : b.forEach = some (ids.map queue) := by
  have hfilter : cells.filterMap b.value = (cells.map b.value).filterMap id := by
    rw [filterMap_map]
    rfl
  unfold BasicBuffer.forEach
  rw [h.rep.cells, Option.map_some, hfilter, h.map_value]
  simp [filterMap_map]

theorem issuerIDs : b.issuerIDs = some ids := by
  have hissuers : (ids.map queue).map IssuerQueue.issuerID = ids := by
    rw [map_map]
    calc ids.map (IssuerQueue.issuerID ∘ queue) = ids.map id :=
          map_congr_left fun id hid => h.issuerID hid
      _ = ids := map_id ids
  unfold BasicBuffer.issuerIDs
  rw [h.rep.cells, Option.bind_some, mapM_eq_some_iff_map.mpr h.map_value,
    Option.map_some, hissuers]

end

theorem next {a : ID} (h : Holds b queue cells (a :: ids)) :
    ∃ cells', Holds b.next queue cells' (ids ++ [a]) := by
  obtain ⟨c, cells', rfl, _, hc, hrest⟩ := h.head
  refine ⟨cells' ++ [c], h.rep.next, ?_, ?_⟩
  · show (ids ++ [a]).map b.activeIssuers.lookup = (cells' ++ [c]).map some
    rw [map_append, map_append, hrest]
    simp [hc]
  · intro id c' hid hc'
    apply h.value _ hc'
    simp only [mem_append, mem_singleton] at hid
    exact mem_cons.mpr hid.symm

theorem removeEmpty {a : ID} (h : Holds b queue cells (a :: ids)) (hempty : (queue a).size = 0) :
    ∃ b' cells', b.removeIssuerQueueIfEmpty a = some b' ∧ Holds b' queue cells' ids ∧
      b'.activeIssuers = b.activeIssuers.erase a := by
  obtain ⟨c, cells', rfl, _, hc, hrest⟩ := h.head
  have hq := h.value mem_cons_self hc
  obtain ⟨b', hb', hrep⟩ := h.rep.removeCurrent hc
  have hnotin : a ∉ ids := (nodup_cons.mp h.nodup).1
  obtain ⟨b₁, hb₁, hb₁'⟩ := Option.map_eq_some_iff.mp hb'
  have hactive : b'.activeIssuers = b.activeIssuers.erase a := by
    rw [← hb₁']
    show b₁.activeIssuers.erase a = b.activeIssuers.erase a
    rw [(ringRemove_frame hb₁).1]
  have hvalue : b'.value = b.value := by
    rw [← hb₁']
    exact (ringRemove_frame hb₁).2
  -- the other issuers keep their cells
  have hother : ∀ id ∈ ids, b'.activeIssuers.lookup id = b.activeIssuers.lookup id := by
    intro id hid
    rw [hactive]
    apply AList.lookup_erase_ne
    intro heq
    exact hnotin (heq ▸ hid)
  refine ⟨b', cells', ?_, ⟨hrep, ?_, ?_⟩, hactive⟩
  · unfold removeIssuerQueueIfEmpty
    rw [hc]
    simp only [hq, Option.bind_some, if_pos hempty]
    exact hb'
  · rw [← hrest]
    exact map_congr_left hother
  · intro id c' hid hc'
    rw [hvalue]
    rw [hother id hid] at hc'
    exact h.value (mem_cons_of_mem a hid) hc'

theorem keepNonEmpty {a : ID} (h : Holds b queue cells (a :: ids)) (hsize : (queue a).size ≠ 0) :
    b.removeIssuerQueueIfEmpty a = some b := by
  obtain ⟨c, _, _, _, hc, _⟩ := h.head
  unfold removeIssuerQueueIfEmpty
  rw [hc]
  simp only [h.value mem_cons_self hc, Option.bind_some, if_neg hsize]

theorem popFront {a : ID} (h : Holds b queue cells (a :: ids)) {block : Block ID}
    (hfront : (queue a).front = some block) :
    ∃ b', b.popFront = some (block, b') ∧ b'.issuerIDs = some (a :: ids) := by
  obtain ⟨c, cells', rfl, hring, hc, _⟩ := h.head
  have hq := h.value mem_cons_self hc
  refine ⟨b.setValue c (queue a).popFront, ?_, ?_⟩
  · unfold popFront
    simp only [hring, hq, hfront, Option.bind_some, Option.map_some]
  · have hholds : Holds (b.setValue c (queue a).popFront)
        (update queue a (queue a).popFront) (c :: cells') (a :: ids) := by
      refine ⟨h.rep.setValue _ hq rfl, h.lookup, ?_⟩
      intro id c' hid hc'
      change b.activeIssuers.lookup id = some c' at hc'
      show update b.value c _ c' = some (update queue a _ id)
      by_cases hida : id = a
      · rw [hida, hc, Option.some.injEq] at hc'
        rw [hida, hc', update_self, update_self]
      · have hne : c' ≠ c := fun heq => hida (h.rep.active_inj (heq ▸ hc') hc)
        rw [update_of_ne hne, update_of_ne hida]
        exact h.value hid hc'
    exact hholds.issuerIDs

end Holds

/-! ## Section 2: One round of the walk -/

namespace Scheduler

variable {p : Params ID} {s : Scheduler ID} {queue : ID → IssuerQueue ID} {cells : List Nat}
  {ids : List ID} {a : ID} {d : Int}

/-- An issuer that keeps its queue gets a quantum, and the turn moves on. -/
theorem advance_keep (h : Holds s.basicBuffer queue cells (a :: ids)) (hquantum : 1 ≤ p.quantum a)
    (hd : s.deficits.lookup a = some d) (hnonneg : 0 ≤ d)
    (hkeep : ¬ ((queue a).size = 0 ∧ maxDeficit ≤ d + p.quantum a)) :
    ∃ s' cells', s.advance p = some s' ∧ Holds s'.basicBuffer queue cells' (ids ++ [a]) ∧
      s'.basicBuffer.activeIssuers = s.basicBuffer.activeIssuers ∧
      s'.deficits = s.deficits.insert a (min maxDeficit (d + p.quantum a)) := by
  obtain ⟨cells', hnext⟩ := h.next
  refine ⟨⟨s.basicBuffer.next, s.deficits.insert a (min maxDeficit (d + p.quantum a)),
    s.blockChan⟩, cells', ?_, hnext, rfl, rfl⟩
  unfold advance
  rw [h.current, Option.bind_some, h.issuerID mem_cons_self,
    incrementDeficit_eq hquantum hd hnonneg (by decide), Int.one_mul, Option.bind_some]
  by_cases hmax : min maxDeficit (d + p.quantum a) = maxDeficit
  · have hsize : (queue a).size ≠ 0 := by
      intro hsize
      apply hkeep
      omega
    have hremoved := h.keepNonEmpty hsize
    simp only [if_pos hmax]
    show (s.basicBuffer.removeIssuerQueueIfEmpty a).map _ = _
    rw [hremoved]
    rfl
  · simp only [if_neg hmax]
    rfl

/-- A removed queue moves the turn on by two. -/
theorem advance_remove {b : ID} (h : Holds s.basicBuffer queue cells (a :: b :: ids))
    (hquantum : 1 ≤ p.quantum a) (hd : s.deficits.lookup a = some d) (hnonneg : 0 ≤ d)
    (hempty : (queue a).size = 0) (hmax : maxDeficit ≤ d + p.quantum a) :
    ∃ s' cells', s.advance p = some s' ∧ Holds s'.basicBuffer queue cells' (ids ++ [b]) ∧
      s'.basicBuffer.activeIssuers = s.basicBuffer.activeIssuers.erase a ∧
      s'.deficits = s.deficits.insert a maxDeficit := by
  obtain ⟨b', cells₁, hremoved, hrest, hactive⟩ := h.removeEmpty hempty
  obtain ⟨cells', hnext⟩ := hrest.next
  refine ⟨⟨b'.next, s.deficits.insert a maxDeficit, s.blockChan⟩, cells', ?_, hnext, hactive, rfl⟩
  unfold advance
  rw [h.current, Option.bind_some, h.issuerID mem_cons_self,
    incrementDeficit_eq hquantum hd hnonneg (by decide), Int.one_mul, Option.bind_some,
    Int.min_eq_left hmax]
  simp only [if_true]
  show (s.basicBuffer.removeIssuerQueueIfEmpty a).map _ = _
  rw [hremoved]
  rfl

/-! ## Section 3: The walk -/

/-- The issuers of a list that are passed over if the queues of the issuers in `removed` are
    removed when they are visited. -/
def passedOver (removed : ID → Bool) : List ID → List ID
  | a :: b :: l => if removed a then b :: passedOver removed l else passedOver removed (b :: l)
  | _ => []

omit [DecidableEq ID] in
theorem passedOver_subset (removed : ID → Bool) :
    ∀ l : List ID, ∀ a ∈ passedOver removed l, a ∈ l := by
  intro l
  induction l using passedOver.induct removed with
  | case1 a b l hremoved ih =>
    intro c hc
    rw [passedOver, if_pos hremoved] at hc
    rcases mem_cons.mp hc with hcb | hc
    · simp [hcb]
    · simp [ih c hc]
  | case2 a b l hremoved ih =>
    intro c hc
    rw [passedOver, if_neg hremoved] at hc
    exact mem_cons_of_mem a (ih c hc)
  | case3 l hl =>
    intro c hc
    rw [passedOver] at hc
    · cases hc
    · exact hl

omit [DecidableEq ID] in
theorem passedOver_cons {removed : ID → Bool} (hkeep : ¬ removed a = true) (l : List ID) :
    passedOver removed (a :: l) = passedOver removed l := by
  cases l with
  | nil => rfl
  | cons b l => rw [passedOver, if_neg hkeep]

/-- The walk from the first of the issuers `before ++ k :: after` has ended at `k`.  The issuers
    before it have got one quantum each, except for those that were passed over, which are
    still in the ring. -/
structure Arrived (p : Params ID) (queue : ID → IssuerQueue ID) (removed : ID → Bool)
    (before : List ID) (k : ID) (after : List ID) (d : ID → Int) (s' : Scheduler ID)
    (rest : List ID) : Prop where
  holds : ∃ cells, Holds s'.basicBuffer queue cells (k :: rest)
  rest_subset : ∀ id ∈ rest, id ∈ before ++ after
  after_subset : ∀ id ∈ after, id ∈ rest
  over_subset : ∀ id ∈ passedOver removed (before ++ [k]), id ∈ rest
  deficit : ∀ id ∈ k :: rest, s'.deficits.lookup id =
    some (if id ∈ before ∧ id ∉ passedOver removed (before ++ [k])
      then min maxDeficit (d id + p.quantum id) else d id)

namespace Arrived

variable {removed : ID → Bool} {before after rest : List ID} {k : ID} {e : ID → Int}
  {s' : Scheduler ID}

theorem here (h : Holds s.basicBuffer queue cells (k :: after))
    (he : ∀ id ∈ k :: after, s.deficits.lookup id = some (e id)) :
    Arrived p queue removed [] k after e s after where
  holds := ⟨cells, h⟩
  rest_subset _ hid := hid
  after_subset _ hid := hid
  over_subset _ hid := nomatch hid
  deficit id hid := by simp [he id hid]

/-- An issuer that keeps its queue goes to the end, with one quantum more. -/
theorem of_keep (hnodup : (a :: (before ++ k :: after)).Nodup) (hkeep : ¬ removed a = true)
    (h : Arrived p queue removed before k (after ++ [a])
      (update e a (min maxDeficit (e a + p.quantum a))) s' rest) :
    Arrived p queue removed (a :: before) k after e s' rest := by
  have hpassed : passedOver removed (a :: before ++ [k]) = passedOver removed (before ++ [k]) :=
    passedOver_cons hkeep (before ++ [k])
  have ha : a ∉ before ++ k :: after := (nodup_cons.mp hnodup).1
  have hnotin : a ∉ before ++ [k] := by
    intro hmem
    apply ha
    simp only [mem_append, mem_cons, not_mem_nil] at hmem ⊢
    tauto
  constructor
  case holds => exact h.holds
  case rest_subset =>
    intro id hid
    have := h.rest_subset id hid
    simp only [mem_append, mem_cons, not_mem_nil] at this ⊢
    tauto
  case after_subset => exact fun id hid => h.after_subset id (by simp [hid])
  case over_subset =>
    rw [hpassed]
    exact h.over_subset
  case deficit =>
    intro id hid
    rw [h.deficit id hid, hpassed]
    by_cases hida : id = a
    · have hover : a ∉ passedOver removed (before ++ [k]) := fun hmem =>
        hnotin (passedOver_subset removed _ a hmem)
      have hbefore : a ∉ before := fun hmem => hnotin (by simp [hmem])
      rw [hida, update_self]
      simp [hover, hbefore]
    · rw [update_of_ne hida]
      simp [hida]

/-- After a removed queue the next issuer goes to the end as it is. -/
theorem of_remove {b : ID} (hnodup : (a :: b :: (before ++ k :: after)).Nodup)
    (hremoved : removed a = true)
    (h : Arrived p queue removed before k (after ++ [b]) e s' rest) :
    Arrived p queue removed (a :: b :: before) k after e s' rest := by
  have hpassed : passedOver removed (a :: b :: before ++ [k]) =
      b :: passedOver removed (before ++ [k]) := by
    show passedOver removed (a :: b :: (before ++ [k])) = _
    rw [passedOver, if_pos hremoved]
  obtain ⟨ha, hnodup⟩ := nodup_cons.mp hnodup
  have hb : b ∉ before := fun hmem => (nodup_cons.mp hnodup).1 (by simp [hmem])
  constructor
  case holds => exact h.holds
  case rest_subset =>
    intro id hid
    have := h.rest_subset id hid
    simp only [mem_append, mem_cons, not_mem_nil] at this ⊢
    tauto
  case after_subset => exact fun id hid => h.after_subset id (by simp [hid])
  case over_subset =>
    rw [hpassed]
    intro id hid
    rcases mem_cons.mp hid with hidb | hid
    · exact h.after_subset id (by simp [hidb])
    · exact h.over_subset id hid
  case deficit =>
    intro id hid
    have hida : id ≠ a := by
      intro heq
      apply ha
      rw [← heq]
      rcases mem_cons.mp hid with hidk | hid
      · simp [hidk]
      · have := h.rest_subset id hid
        simp only [mem_append, mem_cons, not_mem_nil] at this ⊢
        tauto
    rw [h.deficit id hid, hpassed]
    by_cases hidb : id = b
    · rw [hidb]
      simp [hb]
    · simp [hida, hidb]

end Arrived

theorem walk_arrives {removed : ID → Bool} {k : ID} (hquantum : ∀ id, 1 ≤ p.quantum id) :
    ∀ {fuel : Nat} {before after : List ID} {cells : List Nat} {s : Scheduler ID} {d : ID → Int},
      before.length < fuel →
      Holds s.basicBuffer queue cells (before ++ k :: after) →
      s.basicBuffer.activeIssuers.lookup k = some target →
      (∀ id ∈ before ++ k :: after, s.deficits.lookup id = some (d id) ∧ 0 ≤ d id) →
      (∀ id ∈ before, removed id = true ↔
        (queue id).size = 0 ∧ maxDeficit ≤ d id + p.quantum id) →
      k ∉ passedOver removed (before ++ [k]) →
      ∃ s' rest, s.walk p target fuel = some s' ∧
        Arrived p queue removed before k after d s' rest := by
  intro fuel
  -- a visit shortens the list before `k` by one issuer, or by two if a queue is removed
  induction fuel with
  | zero => exact fun h => absurd h (Nat.not_lt_zero _)
  | succ fuel ih =>
    intro before after cells s d hfuel h htarget hd hremoved hover
    rw [walk]
    cases before with
    | nil =>
      refine ⟨s, after, ?_, Arrived.here h fun id hid => (hd id hid).1⟩
      rw [if_pos ((h.ring_eq_iff htarget).mpr rfl)]
    | cons a before =>
      rw [cons_append] at h hd
      have ha : a ∉ before ++ k :: after := (nodup_cons.mp h.nodup).1
      have hak : a ≠ k := fun heq => ha (heq ▸ by simp)
      have hda := hd a mem_cons_self
      rw [if_neg fun heq => hak ((h.ring_eq_iff htarget).mp heq)]
      by_cases hrem : removed a = true
      · obtain ⟨hempty, hmax⟩ := (hremoved a mem_cons_self).mp hrem
        cases before with
        | nil =>
          exfalso
          apply hover
          show k ∈ passedOver removed [a, k]
          rw [passedOver, if_pos hrem]
          exact mem_cons_self
        | cons b before =>
          rw [cons_append] at h hd ha
          obtain ⟨s₁, cells₁, hadvance, h₁, hactive, hdeficits⟩ :=
            advance_remove h (hquantum a) hda.1 hda.2 hempty hmax
          rw [append_assoc, cons_append] at h₁
          have htarget₁ : s₁.basicBuffer.activeIssuers.lookup k = some target := by
            rw [hactive, AList.lookup_erase_ne hak.symm]
            exact htarget
          have hd₁ : ∀ id ∈ before ++ k :: (after ++ [b]),
              s₁.deficits.lookup id = some (d id) ∧ 0 ≤ d id := by
            intro id hid
            have hmem : id ∈ b :: (before ++ k :: after) := by
              simp only [mem_append, mem_cons, not_mem_nil] at hid ⊢
              tauto
            have hne : id ≠ a := fun heq => ha (heq ▸ hmem)
            rw [hdeficits, lookup_insert_eq, if_neg hne]
            exact hd id (mem_cons_of_mem a hmem)
          have hover₁ : k ∉ passedOver removed (before ++ [k]) := by
            intro hmem
            apply hover
            show k ∈ passedOver removed (a :: b :: (before ++ [k]))
            rw [passedOver, if_pos hrem]
            exact mem_cons_of_mem b hmem
          simp only [length_cons] at hfuel
          obtain ⟨s', rest, hwalk, harrived⟩ := ih (by omega) h₁ htarget₁ hd₁
            (fun id hid => hremoved id (by simp [hid])) hover₁
          refine ⟨s', rest, ?_, Arrived.of_remove h.nodup hrem harrived⟩
          rw [hadvance]
          exact hwalk
      · have hkeep : ¬ ((queue a).size = 0 ∧ maxDeficit ≤ d a + p.quantum a) :=
          fun hboth => hrem ((hremoved a mem_cons_self).mpr hboth)
        obtain ⟨s₁, cells₁, hadvance, h₁, hactive, hdeficits⟩ :=
          advance_keep h (hquantum a) hda.1 hda.2 hkeep
        rw [append_assoc, cons_append] at h₁
        -- the deficits after the visit
        obtain ⟨d₁, hd₁⟩ : ∃ d₁, d₁ = update d a (min maxDeficit (d a + p.quantum a)) :=
          ⟨_, rfl⟩
        have hlookup : ∀ id ∈ before ++ k :: (after ++ [a]),
            s₁.deficits.lookup id = some (d₁ id) ∧ 0 ≤ d₁ id := by
          intro id hid
          rw [hdeficits, lookup_insert_eq, hd₁, update_apply]
          split_ifs with hida
          · have hq := hquantum a
            have hmax : 0 ≤ maxDeficit := by decide
            exact ⟨rfl, by omega⟩
          · apply hd
            simp only [mem_append, mem_cons, not_mem_nil] at hid ⊢
            tauto
        have hremoved₁ : ∀ id ∈ before, removed id = true ↔
            (queue id).size = 0 ∧ maxDeficit ≤ d₁ id + p.quantum id := by
          intro id hid
          have hne : id ≠ a := fun heq => ha (heq ▸ by simp [hid])
          rw [hd₁, update_of_ne hne]
          exact hremoved id (mem_cons_of_mem a hid)
        rw [cons_append, passedOver_cons hrem] at hover
        obtain ⟨s', rest, hwalk, harrived⟩ := ih (Nat.lt_of_succ_lt_succ hfuel) h₁
          (hactive ▸ htarget) hlookup hremoved₁ hover
        rw [hd₁] at harrived
        refine ⟨s', rest, ?_, Arrived.of_keep h.nodup hrem harrived⟩
        rw [hadvance]
        exact hwalk

theorem basicBuffer_updateDeficit {delta : Int} {result : Scheduler ID × Int}
    (h : s.updateDeficit id delta = some result) : result.1.basicBuffer = s.basicBuffer := by
  obtain ⟨currentValue, _, hresult⟩ := Option.bind_eq_some_iff.mp h
  cases hsum : safeAddInt64 currentValue delta with
  | error e =>
    rw [hsum] at hresult
    cases hresult
    rfl
  | ok newDeficit =>
    rw [hsum] at hresult
    dsimp only at hresult
    split at hresult
    · cases hresult
      rfl
    · split_ifs at hresult
      cases hresult
      rfl

theorem value_advance {s' : Scheduler ID} (h : s.advance p = some s') :
    s'.basicBuffer.value = s.basicBuffer.value := by
  obtain ⟨q, _, h⟩ := Option.bind_eq_some_iff.mp h
  obtain ⟨result, hresult, h⟩ := Option.bind_eq_some_iff.mp h
  obtain ⟨b, hb, rfl⟩ := Option.map_eq_some_iff.mp h
  have hbuffer : result.1.basicBuffer = s.basicBuffer := basicBuffer_updateDeficit hresult
  rw [hbuffer] at hb
  show b.value = s.basicBuffer.value
  split_ifs at hb with hmax
  · exact value_removeIssuerQueueIfEmpty hb
  · rw [Option.some.injEq] at hb
    rw [hb]

theorem value_walk : ∀ {fuel : Nat} {s s' : Scheduler ID},
    s.walk p target fuel = some s' →
      s'.basicBuffer.ring = some target ∧ s'.basicBuffer.value = s.basicBuffer.value := by
  intro fuel
  induction fuel with
  | zero => exact fun h => nomatch h
  | succ fuel ih =>
    intro s s' h
    rw [walk] at h
    split_ifs at h with hring
    · rw [Option.some.injEq] at h
      rw [← h]
      exact ⟨hring, rfl⟩
    · obtain ⟨s₁, hadvance, hwalk⟩ := Option.bind_eq_some_iff.mp h
      obtain ⟨hend, hvalue⟩ := ih hwalk
      exact ⟨hend, by rw [hvalue, value_advance hadvance]⟩

end Scheduler

end AxonCore.Drr

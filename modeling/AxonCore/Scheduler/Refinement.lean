import AxonCore.Scheduler.Walk

/-! # The selection and the one-step algorithm

    The one-step algorithm is `DeficitRoundRobin.serve` on the issuers of the ring.  The
    selection does the same in one go: it finds the issuer to be served and the number of
    rounds, raises all deficits and walks to that issuer.

    Two things can go wrong.  Among the issuers whose deficits cover their blocks, the selection
    prefers those that cover them by many quanta, while the algorithm takes the first.  And the
    walk passes over the issuer after a queue that it removes. -/

namespace AxonCore.Drr

open AxonCore.Lib List Option BasicBuffer DeficitRoundRobin

variable {ID : Type} [DecidableEq ID]

namespace Scheduler

/-! ## Section 1: The one-step algorithm on the state of the scheduler -/

/-- The issuers of the ring, from the current one on. -/
def issuers (s : Scheduler ID) : List ID := s.basicBuffer.issuerIDs.getD []

/-- The queue of an issuer. -/
def queue (s : Scheduler ID) (id : ID) : IssuerQueue ID :=
  (s.basicBuffer.issuerQueue id).getD (IssuerQueue.new id)

/-- The deficit of an issuer. -/
def deficit (s : Scheduler ID) (id : ID) : Int := (s.deficits.lookup id).getD 0

section

variable (p : Params ID)

/-- What the first block of an issuer costs, if there is one and its issuing time has
    passed. -/
def frontCost (s : Scheduler ID) (id : ID) : Option Int :=
  (s.queue id).front.bind fun block =>
    if block.issuingTime < p.now then some (p.deficitFromWork block.workScore) else none

/-- The one-step algorithm for the issuers. -/
def roundRobin (s : Scheduler ID) : DeficitRoundRobin ID :=
  ⟨p.quantum, s.frontCost p, maxDeficit⟩

/-- A state in which a block can be selected: the ring is intact, no block waits to be
    scheduled, deficits and quanta are in range, no block is committed or costs more than
    `maxDeficit`, and some issuer has a block whose issuing time has passed. -/
structure Selectable (s : Scheduler ID) : Prop where
  ring : ∃ cells, Rep s.basicBuffer cells
  idle : s.blockChan = none
  deficits : ∀ id ∈ s.issuers, ∃ d ∈ s.deficits.lookup id, 0 ≤ d ∧ d ≤ maxDeficit
  quantum : ∀ id, 1 ≤ p.quantum id ∧ p.quantum id ≤ maxInt64
  blocks : ∀ id ∈ s.issuers, ∀ block ∈ (s.queue id).ready,
    block.issuerID = id ∧ block.isCommitted = false ∧ block.workScore ≤ p.maxBlockWork
  ready : ∃ id ∈ s.issuers, (s.frontCost p id).isSome

/-- The selection ends as the one-step algorithm does: it schedules the same block, leaves the
    same deficits to all issuers of its ring, and it is the turn of the scheduled issuer. -/
def Agrees (s : Scheduler ID) : Prop :=
  ∃ s' fuel k rest d, s.selectBasicBlockWithoutLocking p = some s' ∧
    (s.roundRobin p).serve fuel s.issuers s.deficit = some (k, rest, d) ∧
    s'.blockChan = (s.queue k).front ∧ s'.issuers.head? = some k ∧
    ∀ id ∈ s'.issuers, s'.deficits.lookup id = some (d id)

/-- No issuer covers its block by more quanta than `k`. -/
def Foremost (s : Scheduler ID) (k : ID) : Prop :=
  ∀ id ∈ s.issuers, ∀ cost ∈ s.frontCost p id, cost ≤ s.deficit id →
    ∃ cost' ∈ s.frontCost p k, wholeQuanta (p.quantum id) cost (s.deficit id) ≤
      wholeQuanta (p.quantum k) cost' (s.deficit k)

/-- The issuers whose empty queues the walk after `rounds` full rounds removes when it visits
    them. -/
def saturates (s : Scheduler ID) (rounds : Nat) (id : ID) : Bool :=
  (s.queue id).size = 0 ∧
    maxDeficit ≤ (s.roundRobin p).raise s.issuers rounds s.deficit id + p.quantum id

end

variable {p : Params ID} {s : Scheduler ID}

theorem holds_of_rep {cells : List Nat} (hrep : Rep s.basicBuffer cells) :
    Holds s.basicBuffer s.queue cells s.issuers := by
  obtain ⟨ids, hids, hlookup⟩ := hrep.issuerIDs
  have hissuers : s.issuers = ids := by
    unfold issuers
    rw [hids]
    rfl
  refine ⟨hrep, by rw [hissuers]; exact hlookup, ?_⟩
  intro id c _ hc
  obtain ⟨_, q, hq, _⟩ := hrep.active hc
  unfold queue issuerQueue
  rw [hc, bind_some, hq]
  rfl

variable {id : ID} {cost : Int}

theorem deficit_eq {d : Int} (hd : s.deficits.lookup id = some d) : s.deficit id = d := by
  rw [deficit, hd]
  rfl

theorem frontCost_eq_some (h : s.frontCost p id = some cost) :
    ∃ block, (s.queue id).front = some block ∧ block ∈ (s.queue id).ready ∧
      p.deficitFromWork block.workScore = cost := by
  obtain ⟨block, hblock, h⟩ := bind_eq_some_iff.mp h
  refine ⟨block, hblock, mem_of_mem_head? hblock, ?_⟩
  split_ifs at h
  exact some.inj h

namespace Selectable

theorem holds (h : Selectable p s) : ∃ cells, Holds s.basicBuffer s.queue cells s.issuers := by
  obtain ⟨cells, hrep⟩ := h.ring
  exact ⟨cells, holds_of_rep hrep⟩

theorem lookup_deficit (h : Selectable p s) (hid : id ∈ s.issuers) :
    s.deficits.lookup id = some (s.deficit id) ∧ 0 ≤ s.deficit id ∧ s.deficit id ≤ maxDeficit := by
  obtain ⟨d, hd, hrange⟩ := h.deficits id hid
  rw [deficit_eq hd]
  exact ⟨hd, hrange⟩

theorem frontCost_range (h : Selectable p s) (hid : id ∈ s.issuers)
    (hcost : s.frontCost p id = some cost) : 0 ≤ cost ∧ cost ≤ maxDeficit := by
  obtain ⟨block, _, hmem, rfl⟩ := frontCost_eq_some hcost
  exact p.deficitFromWork_le (h.blocks id hid block hmem).2.2

end Selectable

/-! ## Section 2: The issuer with the fewest rounds -/

/-- The rounds that an issuer with a block needs. -/
def need (p : Params ID) (s : Scheduler ID) (id : ID) : Option Int :=
  (s.frontCost p id).bind fun cost => rounds (p.quantum id) cost (s.deficit id)

theorem Selectable.need_spec (h : Selectable p s) (hid : id ∈ s.issuers)
    (hcost : s.frontCost p id = some cost) :
    ∃ n, s.need p id = some n ∧ (∀ m : Nat, n ≤ m ↔ cost ≤ s.deficit id + m * p.quantum id) ∧
      (cost ≤ s.deficit id → n = 1 - wholeQuanta (p.quantum id) cost (s.deficit id)) := by
  have hd := (h.lookup_deficit hid).2
  obtain ⟨n, hn, hspec⟩ := rounds_spec (h.quantum id).1 (h.quantum id).2 hd
    (h.frontCost_range hid hcost)
  refine ⟨n, ?_, hspec⟩
  unfold need
  rw [hcost]
  exact hn

theorem Selectable.covers_raise_iff (h : Selectable p s) (hid : id ∈ s.issuers) (m : Nat) :
    (s.roundRobin p).covers ((s.roundRobin p).raise s.issuers m s.deficit) id = true ↔
      ∃ n, s.need p id = some n ∧ n ≤ m := by
  unfold covers raise
  rw [if_pos hid]
  show (s.frontCost p id).any (fun c =>
    decide (c ≤ min maxDeficit (s.deficit id + m * p.quantum id))) = true ↔ _
  cases hcost : s.frontCost p id with
  | none =>
    have hneed : s.need p id = none := by
      unfold need
      rw [hcost]
      rfl
    simp [hneed]
  | some cost =>
    obtain ⟨n, hn, hle, _⟩ := h.need_spec hid hcost
    have hmax := (h.frontCost_range hid hcost).2
    simp only [any_some, decide_eq_true_eq, hn, some.injEq, exists_eq_left', hle m]
    omega

variable {c : Nat}

/-- Without committed blocks the loop over the blocks of a queue looks at the first one. -/
theorem Selectable.frontBlock_eq (h : Selectable p s) (hid : id ∈ s.issuers)
    (hvalue : s.basicBuffer.value c = some (s.queue id)) (fuel : Nat) :
    frontBlock p (fuel + 1) s c =
      some (s, (s.queue id).front.filter fun block => decide (block.issuingTime < p.now)) := by
  unfold frontBlock
  rw [hvalue, bind_some]
  cases hfront : (s.queue id).front with
  | none => rfl
  | some block =>
    have hmem : block ∈ (s.queue id).ready := mem_of_mem_head? hfront
    by_cases htime : block.issuingTime < p.now
    · simp [filter_some, htime, (h.blocks id hid block hmem).2.1]
    · simp [filter_some, htime]

theorem Selectable.consider_eq (h : Selectable p s) (hid : id ∈ s.issuers)
    (hvalue : s.basicBuffer.value c = some (s.queue id)) (minRounds : Int) (target : Option Nat) :
    consider p ⟨s, minRounds, target⟩ c = some (match s.need p id with
      | none => ⟨s, minRounds, target⟩
      | some n => if n < minRounds then ⟨s, n, some c⟩ else ⟨s, minRounds, target⟩) := by
  unfold consider
  simp only [h.frontBlock_eq hid hvalue, bind_some]
  cases hfront : (s.queue id).front with
  | none =>
    have hneed : s.need p id = none := by
      unfold need frontCost
      rw [hfront]
      rfl
    rw [hneed]
    rfl
  | some block =>
    have hmem : block ∈ (s.queue id).ready := mem_of_mem_head? hfront
    obtain rfl : block.issuerID = id := (h.blocks id hid block hmem).1
    by_cases htime : block.issuingTime < p.now
    · have hcost : s.frontCost p block.issuerID = some (p.deficitFromWork block.workScore) := by
        unfold frontCost
        rw [hfront, bind_some, if_pos htime]
      obtain ⟨n, hn, _⟩ := h.need_spec hid hcost
      have hrounds : rounds (p.quantum block.issuerID) (p.deficitFromWork block.workScore)
          (s.deficit block.issuerID) = some n := by
        unfold need at hn
        rwa [hcost, bind_some] at hn
      rw [hn]
      simp only [filter_some, decide_eq_true htime, if_true, (h.lookup_deficit hid).1,
        bind_some, hrounds, map_some]
    · have hneed : s.need p block.issuerID = none := by
        unfold need frontCost
        rw [hfront, bind_some, if_neg htime]
        rfl
      rw [hneed]
      simp [filter_some, htime]

/-- The first issuer with the fewest rounds. -/
structure Fewest (p : Params ID) (s : Scheduler ID) (ids before : List ID) (k : ID)
    (after : List ID) (n : Int) : Prop where
  ring : ids = before ++ k :: after
  need : s.need p k = some n
  before : ∀ id ∈ before, ∀ m ∈ s.need p id, n < m
  after : ∀ id ∈ after, ∀ m ∈ s.need p id, n ≤ m

variable {before after before' after' : List ID} {k k' : ID} {n : Int} {d : ID → Int}
  {s' : Scheduler ID}

theorem Fewest.mem {ids : List ID} (h : Fewest p s ids before k after n) : k ∈ ids := by
  rw [h.ring]
  simp

theorem Fewest.cons {ids : List ID} {a : ID} (h : Fewest p s ids before k after n)
    (ha : ∀ m ∈ s.need p a, n < m) : Fewest p s (a :: ids) (a :: before) k after n :=
  ⟨by rw [h.ring]; rfl, h.need, forall_mem_cons.mpr ⟨ha, h.before⟩, h.after⟩

theorem Fewest.le {ids : List ID} (h : Fewest p s ids before k after n) (hid : id ∈ ids) {m : Int}
    (hm : s.need p id = some m) : n ≤ m := by
  rw [h.ring, mem_append, mem_cons] at hid
  rcases hid with hid | rfl | hid
  · exact Int.le_of_lt (h.before id hid m hm)
  · rw [h.need, some.injEq] at hm
    exact Int.le_of_eq hm
  · exact h.after id hid m hm

/-- The comparison of all issuers: either none needs fewer rounds than the best one before, or
    the first of those that need the fewest is chosen. -/
theorem Selectable.run_consider (h : Selectable p s) :
    ∀ {ids : List ID} {cells : List Nat} (minRounds : Int) (target : Option Nat),
      (∀ id ∈ ids, id ∈ s.issuers) →
      ids.map s.basicBuffer.activeIssuers.lookup = cells.map some →
      (run (consider p) ⟨s, minRounds, target⟩ cells = some ⟨s, minRounds, target⟩ ∧
        ∀ id ∈ ids, ∀ m ∈ s.need p id, minRounds ≤ m) ∨
      ∃ before k after n c, Fewest p s ids before k after n ∧ n < minRounds ∧
        s.basicBuffer.activeIssuers.lookup k = some c ∧
        run (consider p) ⟨s, minRounds, target⟩ cells = some ⟨s, n, some c⟩ := by
  obtain ⟨_, hholds⟩ := h.holds
  intro ids
  induction ids with
  | nil =>
    intro cells minRounds target _ hlookup
    rw [map_eq_nil_iff.mp hlookup.symm]
    exact .inl ⟨rfl, fun id hid => absurd hid not_mem_nil⟩
  | cons a ids ih =>
    intro cells minRounds target hids hlookup
    rw [map_cons] at hlookup
    obtain ⟨c, cells, rfl, hc, hrest⟩ := map_eq_cons_iff.mp hlookup.symm
    have ha := hids a mem_cons_self
    have hids' : ∀ id ∈ ids, id ∈ s.issuers := fun id hid => hids id (mem_cons_of_mem a hid)
    have hstep := h.consider_eq ha (hholds.value ha hc.symm) minRounds target
    by_cases hless : ∃ n, s.need p a = some n ∧ n < minRounds
    · -- `a` is the best so far
      obtain ⟨n, hn, hlt⟩ := hless
      simp only [hn, if_pos hlt] at hstep
      right
      rcases ih n (some c) hids' hrest.symm with ⟨hrun, hmin⟩ |
        ⟨before, k, after, n', c', hfew, hlt', hc', hrun⟩
      · refine ⟨[], a, ids, n, c, ⟨rfl, hn, fun id hid => absurd hid not_mem_nil, hmin⟩, hlt,
          hc.symm, ?_⟩
        exact run_cons.mpr ⟨_, hstep, hrun⟩
      · refine ⟨a :: before, k, after, n', c', hfew.cons ?_, Int.lt_trans hlt' hlt, hc',
          run_cons.mpr ⟨_, hstep, hrun⟩⟩
        intro m hm
        rw [hn, mem_some_iff] at hm
        omega
    · -- the best one stays
      have hkeep : ∀ m ∈ s.need p a, minRounds ≤ m := fun m hm =>
        Int.not_lt.mp fun hlt => hless ⟨m, hm, hlt⟩
      have hstep : consider p ⟨s, minRounds, target⟩ c = some ⟨s, minRounds, target⟩ := by
        rw [hstep]
        cases hn : s.need p a with
        | none => rfl
        | some n =>
          have hle := hkeep n hn
          simp only [if_neg (Int.not_lt.mpr hle)]
      rcases ih minRounds target hids' hrest.symm with ⟨hrun, hmin⟩ |
        ⟨before, k, after, n', c', hfew, hlt', hc', hrun⟩
      · exact .inl ⟨run_cons.mpr ⟨_, hstep, hrun⟩, forall_mem_cons.mpr ⟨hkeep, hmin⟩⟩
      · exact .inr ⟨a :: before, k, after, n', c',
          hfew.cons fun m hm => Int.lt_of_lt_of_le hlt' (hkeep m hm), hlt', hc',
          run_cons.mpr ⟨_, hstep, hrun⟩⟩

theorem Selectable.selectIssuer_eq (h : Selectable p s) :
    ∃ before k after n c, Fewest p s s.issuers before k after n ∧
      s.basicBuffer.activeIssuers.lookup k = some c ∧ s.selectIssuer p = some ⟨s, n, some c⟩ := by
  obtain ⟨cells, hholds⟩ := h.holds
  have hfilter : (cells.filter fun cell => (s.basicBuffer.value cell).isSome) = cells := by
    apply filter_eq_self.mpr
    intro c hc
    obtain ⟨q, hq, _⟩ := hholds.rep.owner hc
    rw [hq]
    rfl
  have hselect : s.selectIssuer p = run (consider p) ⟨s, maxInt64, none⟩ cells := by
    unfold selectIssuer
    rw [hholds.rep.cells, bind_some, hfilter]
  rw [hselect]
  rcases h.run_consider maxInt64 none (fun _ hid => hid) hholds.lookup with
    ⟨_, hmin⟩ | ⟨before, k, after, n, c, hfew, _, hc, hrun⟩
  · -- some issuer needs fewer than the largest number of rounds
    exfalso
    obtain ⟨id, hid, hready⟩ := h.ready
    obtain ⟨cost, hcost⟩ := isSome_iff_exists.mp hready
    obtain ⟨m, hm, hle, _⟩ := h.need_spec hid hcost
    have hsmall : m ≤ ((2 ^ 62 : Nat) : Int) := by
      rw [hle]
      have hcost := (h.frontCost_range hid hcost).2
      have hd := (h.lookup_deficit hid).2.1
      have hq := (h.quantum id).1
      rw [maxDeficit_eq] at hcost
      omega
    have := hmin id hid m hm
    unfold maxInt64 at this
    omega
  · exact ⟨before, k, after, n, c, hfew, hc, hrun⟩

/-! ## Section 3: Whose turn it is -/

/-- The one-step algorithm serves somebody after the fewest rounds, or at once. -/
theorem Selectable.exists_turn (h : Selectable p s) (hfew : Fewest p s s.issuers before k after n) :
    ∃ before' k' after',
      (s.roundRobin p).Turn s.issuers s.deficit n.toNat before' k' after' := by
  have hk := hfew.mem
  have hcovers : (s.roundRobin p).covers
      ((s.roundRobin p).raise s.issuers n.toNat s.deficit) k = true :=
    (h.covers_raise_iff hk _).mpr ⟨n, hfew.need, by omega⟩
  obtain ⟨k', hfind⟩ := isSome_iff_exists.mp
    (List.find?_isSome.mpr ⟨k, hk, hcovers⟩)
  obtain ⟨hcovers', before', after', hring, hbefore⟩ := List.find?_eq_some_iff_append.mp hfind
  refine ⟨before', k', after', hring, hcovers', ?_, ?_⟩
  · intro b hb
    simpa using hbefore b hb
  · -- nobody needs fewer rounds
    intro m hm b hb
    rw [← Bool.not_eq_true, h.covers_raise_iff hb]
    intro hex
    obtain ⟨n', hn', hle⟩ := hex
    have hmin : n ≤ n' := hfew.le hb hn'
    omega

/-- The issuer that the selection chooses is the one that the algorithm serves if no issuer
    covers its block by more quanta than that one. -/
theorem Selectable.foremost_iff (h : Selectable p s)
    (hfew : Fewest p s s.issuers before' k' after' n)
    (hturn : (s.roundRobin p).Turn s.issuers s.deficit n.toNat before k after) :
    Foremost p s k ↔ k = k' := by
  have hk := hturn.mem
  have hk' := hfew.mem
  obtain ⟨y, hy, hyn⟩ := (h.covers_raise_iff hk _).mp hturn.covers
  obtain ⟨cost, hcost, hrounds⟩ := bind_eq_some_iff.mp hy
  obtain ⟨y', hy', hle, hwhole⟩ := h.need_spec hk hcost
  rw [hy, some.injEq] at hy'
  subst hy'
  have hcovered : y ≤ 0 ↔ cost ≤ s.deficit k := by
    have := hle 0
    simpa using this
  constructor
  · -- `k` needs no more rounds than the chosen issuer, so it is the first of those
    intro hforemost
    have hyn' : y ≤ n := by
      by_cases hpos : 0 < n
      · omega
      · obtain ⟨cost', hcost', _⟩ := bind_eq_some_iff.mp hfew.need
        obtain ⟨n', hn', hle', hwhole'⟩ := h.need_spec hk' hcost'
        rw [hfew.need, some.injEq] at hn'
        subst hn'
        have hcovered' : cost' ≤ s.deficit k' := by
          have := (hle' 0).mp (by simpa using Int.not_lt.mp hpos)
          simpa using this
        obtain ⟨cost'', hcost'', hmost⟩ := hforemost k' hk' cost' hcost' hcovered'
        rw [hcost, mem_some_iff] at hcost''
        subst hcost''
        have hy0 : y = 1 - wholeQuanta (p.quantum k) cost (s.deficit k) :=
          hwhole (hcovered.mp (by omega))
        have hn0 := hwhole' hcovered'
        omega
    have hfirst := first_unique (p := fun id => ∃ m, s.need p id = some m ∧ m ≤ n)
      (hturn.ring.symm.trans hfew.ring)
      (fun b hb hex => by
        obtain ⟨m, hm, hmn⟩ := hex
        have hb' : b ∈ s.issuers := by
          rw [hturn.ring]
          simp [hb]
        have hcovers := (h.covers_raise_iff hb' n.toNat).mpr ⟨m, hm, by omega⟩
        rw [hturn.before b hb] at hcovers
        cases hcovers)
      ⟨y, hy, hyn'⟩
      (fun b hb hex => by
        obtain ⟨m, hm, hmn⟩ := hex
        have := hfew.before b hb m hm
        omega)
      ⟨n, hfew.need, Int.le_refl n⟩
    exact hfirst.2.1
  · -- the chosen issuer needs the fewest rounds
    intro heq id hid costId hcostId hcoveredId
    subst heq
    rw [hfew.need, some.injEq] at hy
    subst hy
    obtain ⟨m, hm, hleId, hwholeId⟩ := h.need_spec hid hcostId
    have hmin : n ≤ m := hfew.le hid hm
    have hm0 : m ≤ 0 := by
      have := (hleId 0).mpr (by simpa using hcoveredId)
      simpa using this
    have hn0 := hwhole (hcovered.mp (by omega))
    have hm0' := hwholeId hcoveredId
    exact ⟨cost, hcost, by omega⟩

/-! ## Section 4: The full rounds -/

theorem run_incrementDeficit {queue : ID → IssuerQueue ID} (hn : 0 ≤ n)
    (hquantum : ∀ id, 1 ≤ p.quantum id) :
    ∀ {ids : List ID} {s : Scheduler ID}, ids.Nodup → (∀ id ∈ ids, (queue id).issuerID = id) →
      (∀ id ∈ ids, s.deficits.lookup id = some (d id) ∧ 0 ≤ d id) →
      ∃ s', run (fun s (q : IssuerQueue ID) => (incrementDeficit p s q.issuerID n).map Prod.fst) s
          (ids.map queue) = some s' ∧ s'.basicBuffer = s.basicBuffer ∧
        ∀ id, s'.deficits.lookup id = if id ∈ ids then
          some (min maxDeficit (d id + n * p.quantum id)) else s.deficits.lookup id := by
  intro ids
  induction ids with
  | nil =>
    intro s _ _ _
    exact ⟨s, rfl, rfl, fun id => by simp⟩
  | cons a ids ih =>
    intro s hnodup hissuer hd
    obtain ⟨ha, hnodup⟩ := nodup_cons.mp hnodup
    have hda := hd a mem_cons_self
    have hstep := incrementDeficit_eq (hquantum a) hda.1 hda.2 hn
    have hlookup : ∀ id,
        (s.setDeficit a (min maxDeficit (d a + n * p.quantum a))).deficits.lookup id =
        if id = a then some (min maxDeficit (d a + n * p.quantum a)) else s.deficits.lookup id :=
      fun id => lookup_insert_eq _ _ _ _
    have hd' : ∀ id ∈ ids,
        (s.setDeficit a (min maxDeficit (d a + n * p.quantum a))).deficits.lookup id = some (d id) ∧
          0 ≤ d id := by
      intro id hid
      have hne : id ≠ a := fun heq => ha (heq ▸ hid)
      rw [hlookup, if_neg hne]
      exact hd id (mem_cons_of_mem a hid)
    obtain ⟨s', hrun, hbuffer, hfinal⟩ := ih hnodup
      (fun id hid => hissuer id (mem_cons_of_mem a hid)) hd'
    refine ⟨s', ?_, hbuffer, ?_⟩
    · rw [map_cons]
      apply run_cons.mpr
      refine ⟨_, ?_, hrun⟩
      rw [hissuer a mem_cons_self, hstep]
      rfl
    · intro id
      rw [hfinal id, hlookup id]
      by_cases hida : id = a
      · simp [hida, ha]
      · simp [hida]

theorem Selectable.incremented (h : Selectable p s) (n : Int) :
    ∃ s', (if 0 < n then s.incrementAll p n else some s) = some s' ∧
      s'.basicBuffer = s.basicBuffer ∧ ∀ id ∈ s.issuers, s'.deficits.lookup id =
        some ((s.roundRobin p).raise s.issuers n.toNat s.deficit id) := by
  obtain ⟨cells, hholds⟩ := h.holds
  split_ifs with hpos
  · obtain ⟨s', hrun, hbuffer, hlookup⟩ := run_incrementDeficit (s := s) (Int.le_of_lt hpos)
      (fun id => (h.quantum id).1) hholds.nodup (fun id hid => hholds.issuerID hid)
      (fun id hid => ⟨(h.lookup_deficit hid).1, (h.lookup_deficit hid).2.1⟩)
    refine ⟨s', ?_, hbuffer, ?_⟩
    · unfold incrementAll
      rw [hholds.forEach, bind_some]
      exact hrun
    · intro id hid
      have hn : (n.toNat : Int) = n := Int.toNat_of_nonneg (Int.le_of_lt hpos)
      rw [hlookup id, if_pos hid]
      unfold raise
      rw [if_pos hid, hn]
      rfl
  · refine ⟨s, rfl, rfl, ?_⟩
    intro id hid
    have hcap : ∀ a ∈ s.issuers, s.deficit a ≤ (s.roundRobin p).cap := fun a ha =>
      (h.lookup_deficit ha).2.2
    rw [Int.toNat_of_nonpos (Int.not_lt.mp hpos), raise_zero hcap]
    exact (h.lookup_deficit hid).1

/-! ## Section 5: The selection -/

theorem scheduleFront_eq {queue : ID → IssuerQueue ID} {cells : List Nat} {rest : List ID}
    (h : Holds s.basicBuffer queue cells (k :: rest)) {block : Block ID}
    (hfront : (queue k).front = some block) (hissuer : block.issuerID = k) {d : Int}
    (hd : s.deficits.lookup k = some d) (hle : d ≤ maxDeficit)
    (hnonneg : 0 ≤ p.deficitFromWork block.workScore)
    (hcovers : p.deficitFromWork block.workScore ≤ d) :
    ∃ s', s.scheduleFront p = some s' ∧ s'.blockChan = some block ∧ s'.issuers = k :: rest ∧
      s'.deficits = s.deficits.insert k (d - p.deficitFromWork block.workScore) := by
  obtain ⟨b', hpop, hissuers⟩ := h.popFront hfront
  have hpay := updateDeficit_sub (s := { s with basicBuffer := b' }) hd hle hnonneg hcovers
  refine ⟨⟨b', s.deficits.insert k (d - p.deficitFromWork block.workScore), some block⟩, ?_, rfl,
    ?_, rfl⟩
  · unfold scheduleFront
    rw [hpop, bind_some]
    simp only [hissuer, hpay, map_some]
    rfl
  · unfold issuers
    rw [hissuers]
    rfl

theorem blockChan_scheduleFront (h : s.scheduleFront p = some s') :
    ∃ cell q, s.basicBuffer.ring = some cell ∧ s.basicBuffer.value cell = some q ∧
      q.front.isSome ∧ s'.blockChan = q.front := by
  obtain ⟨popped, hpopped, h⟩ := bind_eq_some_iff.mp h
  obtain ⟨result, _, rfl⟩ := map_eq_some_iff.mp h
  obtain ⟨cell, hring, hpopped⟩ := bind_eq_some_iff.mp hpopped
  obtain ⟨q, hq, hpopped⟩ := bind_eq_some_iff.mp hpopped
  obtain ⟨block, hblock, rfl⟩ := map_eq_some_iff.mp hpopped
  exact ⟨cell, q, hring, hq, by rw [hblock]; rfl, hblock.symm⟩

theorem Selectable.select_eq (h : Selectable p s) (hk : k ∈ s.issuers)
    (hselect : s.selectIssuer p = some ⟨s, n, some c⟩) :
    ∃ s₁ : Scheduler ID, s₁.basicBuffer = s.basicBuffer ∧
      (∀ id ∈ s.issuers, s₁.deficits.lookup id =
        some ((s.roundRobin p).raise s.issuers n.toNat s.deficit id)) ∧
      s.selectBasicBlockWithoutLocking p =
        (s₁.walk p c ((s.basicBuffer.created + 1) * (s.basicBuffer.created + 1))).bind
          fun s => s.scheduleFront p := by
  obtain ⟨s₁, hincremented, hbuffer, hlookup⟩ := h.incremented n
  obtain ⟨cells, hholds⟩ := h.holds
  have hcurrent : ¬ s₁.basicBuffer.current.isNone := by
    obtain ⟨a, ids, hids⟩ := exists_cons_of_ne_nil (ne_nil_of_mem hk)
    rw [hids] at hholds
    rw [hbuffer, hholds.current]
    exact Bool.false_ne_true
  refine ⟨s₁, hbuffer, hlookup, ?_⟩
  unfold selectBasicBlockWithoutLocking
  rw [h.idle, hselect]
  simp only [isSome_none, Bool.false_eq_true, if_false, bind_some, hincremented]
  rw [if_neg hcurrent, hbuffer]

/-- The walk ends within its fuel if it does not pass over the issuer. -/
theorem Selectable.walk_arrives (h : Selectable p s) {s₁ : Scheduler ID} {n : Nat}
    (hring : s.issuers = before ++ k :: after) (hbuffer : s₁.basicBuffer = s.basicBuffer)
    (hlookup : ∀ id ∈ s.issuers, s₁.deficits.lookup id =
      some ((s.roundRobin p).raise s.issuers n s.deficit id))
    (hc : s.basicBuffer.activeIssuers.lookup k = some c)
    (hover : k ∉ passedOver (s.saturates p n) (before ++ [k])) :
    ∃ s₂ rest, s₁.walk p c ((s.basicBuffer.created + 1) * (s.basicBuffer.created + 1)) = some s₂ ∧
      Arrived p s.queue (s.saturates p n) before k after
        ((s.roundRobin p).raise s.issuers n s.deficit) s₂ rest := by
  obtain ⟨cells, hholds⟩ := h.holds
  have hfuel : before.length < (s.basicBuffer.created + 1) * (s.basicBuffer.created + 1) := by
    have hlength := hholds.length_le
    have hle := Nat.le_mul_of_pos_left (s.basicBuffer.created + 1)
      (Nat.add_one_pos s.basicBuffer.created)
    rw [hring, length_append] at hlength
    omega
  have hraise : ∀ id ∈ s.issuers, 0 ≤ (s.roundRobin p).raise s.issuers n s.deficit id := by
    intro id hid
    have hd := (h.lookup_deficit hid).2.1
    have hq : 0 ≤ (n : Int) * p.quantum id :=
      Int.mul_nonneg (Int.natCast_nonneg n) (by have := (h.quantum id).1; omega)
    have hmax : 0 ≤ maxDeficit := by decide
    unfold raise
    rw [if_pos hid]
    show 0 ≤ min maxDeficit (s.deficit id + n * p.quantum id)
    omega
  rw [hring, ← hbuffer] at hholds
  rw [← hbuffer] at hc
  apply Scheduler.walk_arrives (fun id => (h.quantum id).1) hfuel hholds hc
  · intro id hid
    rw [← hring] at hid
    exact ⟨hlookup id hid, hraise id hid⟩
  · intro id _
    exact decide_eq_true_iff
  · exact hover

theorem pay_creditAll (hne : id ≠ k) :
    (s.roundRobin p).pay k ((s.roundRobin p).creditAll before d) id =
      if id ∈ before then min maxDeficit (d id + p.quantum id) else d id := by
  unfold pay
  rw [Function.update_of_ne hne]
  rfl

theorem Selectable.selected (h : Selectable p s)
    (hturn : (s.roundRobin p).Turn s.issuers s.deficit n.toNat before k after)
    (hc : s.basicBuffer.activeIssuers.lookup k = some c)
    (hselect : s.selectIssuer p = some ⟨s, n, some c⟩)
    (hover : k ∉ passedOver (s.saturates p n.toNat) (before ++ [k])) :
    ∃ s' rest, s.selectBasicBlockWithoutLocking p = some s' ∧
      s'.blockChan = (s.queue k).front ∧ s'.issuers = k :: rest ∧ k ∉ rest ∧
      (∀ id ∈ passedOver (s.saturates p n.toNat) (before ++ [k]), id ∈ rest) ∧
      s'.deficits.lookup k = some ((s.roundRobin p).pay k ((s.roundRobin p).creditAll before
        ((s.roundRobin p).raise s.issuers n.toNat s.deficit)) k) ∧
      ∀ id ∈ rest, s'.deficits.lookup id =
        some (if id ∈ before ∧ id ∉ passedOver (s.saturates p n.toNat) (before ++ [k])
          then min maxDeficit ((s.roundRobin p).raise s.issuers n.toNat s.deficit id + p.quantum id)
          else (s.roundRobin p).raise s.issuers n.toNat s.deficit id) := by
  have hk := hturn.mem
  obtain ⟨_, hholds₀⟩ := h.holds
  have hkbefore : k ∉ before := by
    have hnodup := hholds₀.nodup
    rw [hturn.ring, nodup_append] at hnodup
    exact fun hmem => hnodup.2.2 k hmem k mem_cons_self rfl
  obtain ⟨s₁, hbuffer, hlookup, heq⟩ := h.select_eq hk hselect
  obtain ⟨s₂, rest, hwalk, harrived⟩ := h.walk_arrives hturn.ring hbuffer hlookup hc hover
  obtain ⟨cells, hholds⟩ := harrived.holds
  have hkrest : k ∉ rest := (nodup_cons.mp hholds.nodup).1
  -- the block of `k` and its cost
  obtain ⟨cost, hcost, hcovers⟩ := (any_eq_true _ _).mp hturn.covers
  change s.frontCost p k = some cost at hcost
  obtain ⟨block, hblock, hmem, rfl⟩ := frontCost_eq_some hcost
  have hd : s₂.deficits.lookup k =
      some ((s.roundRobin p).raise s.issuers n.toNat s.deficit k) := by
    rw [harrived.deficit k mem_cons_self]
    simp [hkbefore]
  have hle : (s.roundRobin p).raise s.issuers n.toNat s.deficit k ≤ maxDeficit := by
    unfold raise
    rw [if_pos hk]
    exact Int.min_le_left _ _
  obtain ⟨s', hschedule, hchan, hissuers, hdeficits⟩ := scheduleFront_eq hholds hblock
    (h.blocks k hk block hmem).1 hd hle (h.frontCost_range hk hcost).1 (of_decide_eq_true hcovers)
  refine ⟨s', rest, ?_, by rw [hchan, hblock], hissuers, hkrest, harrived.over_subset, ?_, ?_⟩
  · rw [heq, hwalk]
    exact hschedule
  · rw [hdeficits, lookup_insert_eq, if_pos rfl]
    unfold pay creditAll
    rw [Function.update_self, if_neg hkbefore]
    show _ = some (_ - (s.frontCost p k).getD 0)
    rw [hcost, getD_some]
  · intro id hid
    have hne : id ≠ k := fun heq => hkrest (heq ▸ hid)
    rw [hdeficits, lookup_insert_eq, if_neg hne]
    exact harrived.deficit id (mem_cons_of_mem k hid)

/-- The selection schedules a block of the issuer that it chose, so that it can agree with the
    one-step algorithm only if that serves the same issuer. -/
theorem Selectable.eq_of_agrees (h : Selectable p s)
    (hfew : Fewest p s s.issuers before' k' after' n)
    (hturn : (s.roundRobin p).Turn s.issuers s.deficit n.toNat before k after)
    (hc : s.basicBuffer.activeIssuers.lookup k' = some c)
    (hselect : s.selectIssuer p = some ⟨s, n, some c⟩)
    (hs' : s.selectBasicBlockWithoutLocking p = some s')
    (hchan : s'.blockChan = (s.queue k).front) : k = k' := by
  have hk := hturn.mem
  have hk' := hfew.mem
  obtain ⟨_, hholds⟩ := h.holds
  obtain ⟨s₁, hbuffer, _, heq⟩ := h.select_eq hk' hselect
  rw [heq] at hs'
  obtain ⟨s₂, hwalk, hschedule⟩ := bind_eq_some_iff.mp hs'
  obtain ⟨hring, hvalue⟩ := value_walk hwalk
  obtain ⟨cell, q, hcell, hq, hsome, hchan'⟩ := blockChan_scheduleFront hschedule
  -- the block is the first one of `k'`
  rw [hring, some.injEq] at hcell
  rw [hvalue, hbuffer, ← hcell, hholds.value hk' hc, some.injEq] at hq
  subst hq
  obtain ⟨block, hblock⟩ := isSome_iff_exists.mp hsome
  have hblock' : (s.queue k).front = some block := by rw [← hchan, hchan', hblock]
  rw [← (h.blocks k hk block (mem_of_mem_head? hblock')).1,
    ← (h.blocks k' hk' block (mem_of_mem_head? hblock)).1]

/-- The selection ends as the one-step algorithm does if no issuer covers its block by more
    quanta than the issuer `k` that the algorithm serves, the walk does not pass over `k`, and
    the issuers that it passes over have the greatest deficit already.  The first condition is
    necessary, and so is the last one if the walk does not pass over `k`. -/
theorem selection_agrees_iff (h : Selectable p s) :
    ∃ n before k after, (s.roundRobin p).Turn s.issuers s.deficit n before k after ∧
      (Agrees p s → Foremost p s k) ∧
      (k ∉ passedOver (s.saturates p n) (before ++ [k]) →
        (Agrees p s ↔ Foremost p s k ∧ ∀ id ∈ passedOver (s.saturates p n) (before ++ [k]),
          (s.roundRobin p).raise s.issuers n s.deficit id = maxDeficit)) := by
  obtain ⟨before', k', after', n, c, hfew, hc, hselect⟩ := h.selectIssuer_eq
  obtain ⟨before, k, after, hturn⟩ := h.exists_turn hfew
  obtain ⟨_, hholds⟩ := h.holds
  obtain ⟨fuel, hserve⟩ := hturn.serve hholds.nodup
    (fun id _ => Int.le_trans (by decide) (h.quantum id).1) fun id hid => (h.lookup_deficit hid).2.2
  have hnecessary : Agrees p s → k = k' := by
    intro hagrees
    obtain ⟨s', fuel', j, rest, d, hs', hserve', hchan, _, _⟩ := hagrees
    have hj : k = j := congrArg Prod.fst ((s.roundRobin p).serve_unique hserve hserve')
    rw [← hj] at hchan
    exact h.eq_of_agrees hfew hturn hc hselect hs' hchan
  refine ⟨n.toNat, before, k, after, hturn,
    fun hagrees => (h.foremost_iff hfew hturn).mpr (hnecessary hagrees), ?_⟩
  intro hover
  constructor
  · intro hagrees
    have hkk' := hnecessary hagrees
    refine ⟨(h.foremost_iff hfew hturn).mpr hkk', ?_⟩
    rw [← hkk'] at hc
    obtain ⟨s', fuel', j, rest', d, hs', hserve', _, _, hdeficits⟩ := hagrees
    obtain ⟨s'', rest, hs'', _, hissuers, hkrest, hsubset, _, hlookup⟩ :=
      h.selected hturn hc hselect hover
    rw [hs', some.injEq] at hs''
    subst hs''
    have hresult := (s.roundRobin p).serve_unique hserve hserve'
    have hd : (s.roundRobin p).pay k _ = d := congrArg (fun r => r.2.2) hresult
    -- an issuer that was passed over has its old deficit, and should have one quantum more
    intro id hid
    have hrest := hsubset id hid
    have hne : id ≠ k := fun heq => hkrest (heq ▸ hrest)
    have hbefore : id ∈ before := by
      have := passedOver_subset _ _ id hid
      simpa [hne] using this
    have hactual := hlookup id hrest
    rw [hdeficits id (by rw [hissuers]; exact mem_cons_of_mem k hrest), ← hd,
      pay_creditAll hne, if_pos hbefore, if_neg (fun hboth => hboth.2 hid), some.injEq]
      at hactual
    have hq := (h.quantum id).1
    omega
  · intro hboth
    obtain ⟨hforemost, hmax⟩ := hboth
    have hkk' := (h.foremost_iff hfew hturn).mp hforemost
    rw [← hkk'] at hc
    obtain ⟨s', rest, hs', hchan, hissuers, hkrest, _, hlookupk, hlookup⟩ :=
      h.selected hturn hc hselect hover
    refine ⟨s', fuel, k, _, _, hs', hserve, hchan, by rw [hissuers]; rfl, ?_⟩
    intro id hid
    rw [hissuers] at hid
    rcases mem_cons.mp hid with rfl | hid
    · exact hlookupk
    · have hne : id ≠ k := fun heq => hkrest (heq ▸ hid)
      rw [hlookup id hid, pay_creditAll hne]
      by_cases hbefore : id ∈ before
      · by_cases hpassed : id ∈ passedOver (s.saturates p n.toNat) (before ++ [k])
        · have hq := (h.quantum id).1
          rw [if_neg (fun hboth => hboth.2 hpassed), if_pos hbefore, hmax id hpassed,
            Int.min_eq_left (by omega)]
        · rw [if_pos ⟨hbefore, hpassed⟩, if_pos hbefore]
      · rw [if_neg (fun hboth => hbefore hboth.1), if_neg hbefore]

/-! ## Section 6: Examples -/

/-- A block of an issuer with half of the greatest work. -/
def block (issuerID : Nat) : Block Nat := ⟨issuerID, issuerID, 1, 0, false⟩

/-- All quanta are 1. -/
def unitQuanta : Params Nat := ⟨fun _ => 1, 2, by decide, 1, fun b _ => b⟩

/-- The issuers 1, 2, ... of the ring have blocks as in `ready`. -/
def filling (ready : List (List (Block Nat))) : List (Op Nat) :=
  (ready.zipIdx 1).map (fun q => .createIssuerQueue q.2) ++
    (ready.zipIdx 1).map fun q => .update q.2 0 q.1

/-- Issuers with the blocks in `ready` and the given deficits. -/
def filled (ready : List (List (Block Nat))) (deficits : List Int) : Scheduler Nat where
  basicBuffer := (run step new (filling ready)).getD new
  deficits := (deficits.zipIdx 1).foldl (fun m d => m.insert d.2 d.1) ∅
  blockChan := none

theorem selectable_filled {ready : List (List (Block Nat))} {deficits : List Int}
    (hops : AllSteps step Orderly new (filling ready))
    (hdeficits : ∀ id ∈ (filled ready deficits).issuers,
      ∃ d ∈ (filled ready deficits).deficits.lookup id, 0 ≤ d ∧ d ≤ maxDeficit)
    (hblocks : ∀ id ∈ (filled ready deficits).issuers,
      ∀ block ∈ ((filled ready deficits).queue id).ready,
        block.issuerID = id ∧ block.isCommitted = false ∧ block.workScore ≤ 2)
    (hready : ∃ id ∈ (filled ready deficits).issuers,
      ((filled ready deficits).frontCost unitQuanta id).isSome) :
    Selectable unitQuanta (filled ready deficits) where
  ring := by
    obtain ⟨b, hrun, hrep⟩ := run_rep hops
    show ∃ cells, Rep ((run step new (filling ready)).getD new) cells
    rw [hrun]
    exact hrep
  idle := rfl
  deficits := hdeficits
  quantum _ := ⟨Int.le_refl 1, show (1 : Int) ≤ maxInt64 by decide⟩
  blocks := hblocks
  ready := hready

/-- The first issuer has no block, the third one can pay for its block after one round. -/
def threeIssuers : Scheduler Nat := filled [[], [block 2], [block 3]] [0, 2 ^ 61 - 3, 2 ^ 61 - 2]

theorem selection_agrees_iff_threeIssuers :
    Selectable unitQuanta threeIssuers ∧ Agrees unitQuanta threeIssuers ∧
    ∃ n before k after, (threeIssuers.roundRobin unitQuanta).Turn threeIssuers.issuers
      threeIssuers.deficit n before k after ∧
      passedOver (threeIssuers.saturates unitQuanta n) (before ++ [k]) = [] ∧
      Foremost unitQuanta threeIssuers k := by
  have h : Selectable unitQuanta threeIssuers := selectable_filled (by decide +kernel)
    (by decide +kernel) (by decide +kernel) (by decide +kernel)
  obtain ⟨n, before, k, after, hturn, _, hiff⟩ := selection_agrees_iff h
  have hn : n < 2 := by
    by_contra hle
    have hone : (threeIssuers.roundRobin unitQuanta).covers
        ((threeIssuers.roundRobin unitQuanta).raise threeIssuers.issuers 1 threeIssuers.deficit) 3 =
          true := by decide +kernel
    cases hone.symm.trans (hturn.earlier 1 (by omega) 3 (by decide +kernel))
  have hlength : (before ++ [k]).length ≤ 3 := by
    have hring := congrArg List.length hturn.ring
    rw [show threeIssuers.issuers.length = 3 by decide +kernel] at hring
    simp only [length_append, length_cons, length_nil] at hring ⊢
    omega
  have hover : passedOver (threeIssuers.saturates unitQuanta n) (before ++ [k]) = [] := by
    have hnone : ∀ n < 2, ∀ i ≤ 3,
        passedOver (threeIssuers.saturates unitQuanta n) (threeIssuers.issuers.take i) = [] := by
      decide +kernel
    have htake : threeIssuers.issuers.take (before ++ [k]).length = before ++ [k] := by
      rw [hturn.ring, append_cons before k after, take_left]
    exact htake ▸ hnone n hn _ hlength
  have hforemost : Foremost unitQuanta threeIssuers k := by
    intro id hid cost hcost hle
    have hpoor : ∀ id ∈ threeIssuers.issuers, ∀ cost ∈ threeIssuers.frontCost unitQuanta id,
        ¬ cost ≤ threeIssuers.deficit id := by decide +kernel
    exact absurd hle (hpoor id hid cost hcost)
  rw [hover] at hiff
  exact ⟨h, (hiff not_mem_nil).mpr ⟨hforemost, fun _ hid => absurd hid not_mem_nil⟩, n, before, k,
    after, hturn, hover, hforemost⟩

/-- Both issuers can pay for their blocks, the second one with a surplus of 1. -/
def twoPayers : Scheduler Nat := filled [[block 1], [block 2]] [2 ^ 61 - 1, 2 ^ 61]

/-- The one-step algorithm serves the first issuer, the selection schedules the block of the
    second. -/
theorem surplus_preferred :
    Selectable unitQuanta twoPayers ∧
    ((twoPayers.roundRobin unitQuanta).serve 1 twoPayers.issuers twoPayers.deficit).map Prod.fst =
      some 1 ∧
    (twoPayers.selectBasicBlockWithoutLocking unitQuanta).map Scheduler.blockChan =
      some (some (block 2)) ∧
    ¬ Agrees unitQuanta twoPayers := by
  have h : Selectable unitQuanta twoPayers := selectable_filled (by decide +kernel)
    (by decide +kernel) (by decide +kernel) (by decide +kernel)
  have hserve : ((twoPayers.roundRobin unitQuanta).serve 1 twoPayers.issuers
      twoPayers.deficit).map Prod.fst = some 1 := by decide +kernel
  have hselect : (twoPayers.selectBasicBlockWithoutLocking unitQuanta).map Scheduler.blockChan =
      some (some (block 2)) := by decide +kernel
  refine ⟨h, hserve, hselect, ?_⟩
  intro hagrees
  obtain ⟨s', fuel, k, rest, d, hs', hserve', hchan, _, _⟩ := hagrees
  obtain ⟨r, hr, hr1⟩ := map_eq_some_iff.mp hserve
  have hk : k = 1 := by
    rw [← hr1, (twoPayers.roundRobin unitQuanta).serve_unique hr hserve']
  rw [hs', map_some, some.injEq, hchan, hk] at hselect
  have hfront : (twoPayers.queue 1).front = some (block 1) := by decide +kernel
  rw [hfront] at hselect
  exact absurd hselect (by decide)

-- the queue of issuer 1 is empty and its deficit reaches the maximum: the walk passes over
-- issuer 2, which does not get its quantum
example : ((filled [[], [], [block 3]] [maxDeficit, 0, 2 ^ 61 - 1]).selectBasicBlockWithoutLocking
    unitQuanta).map (fun s => (s.issuers, s.deficit 2)) = some ([3, 2], 0) := by decide +kernel

end Scheduler

end AxonCore.Drr

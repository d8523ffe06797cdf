import Mathlib.Order.Bounds.Basic
import AxonCore.Performance.Emission

/-! # The candidates of an epoch

    A candidacy announcement is registered in the store of its epoch, with its slot.  The
    tracker remembers the registered slots in memory and writes to the store only for an issuer
    that it does not remember, or for a lower slot than the one that it remembers.  A rollback
    drops what was registered in a later slot, in memory and in the store.

    The specification is the list of the announcements that were not rolled back: the store has
    each of their issuers with its least slot (`Registered`).

    A restart empties the memory and keeps the store.  The next announcement of an issuer is then
    written whatever its slot is, and replaces a lower one.  In a run in which this does not
    happen the store is exact after every step (`candidates_registered`). -/

namespace AxonCore.Performance

open AxonCore.Lib AxonCore.Stores Function List Option

variable {ID Hash : Type} [LinearOrder ID]

namespace Tracker

/-! ## Section 1: Operations -/

/-- The candidates that `rollbackCommitteesCandidates` collects. -/
def candidatesToRollback (candidates : Map ID Nat) (deletionStartSlot : Nat) : List ID :=
  (candidates.entries.filter fun e => decide (e.2 ≥ deletionStartSlot)).map fun e => e.1

/-- `rollbackCommitteesCandidates`. -/
def rollbackCommitteesCandidates (t : Tracker ID Hash) (targetSlotEpoch deletionStartSlot : Nat) :
    Tracker ID Hash :=
  { t with
    committeeCandidates := update t.committeeCandidates targetSlotEpoch
      ((candidatesToRollback (t.committeeCandidates targetSlotEpoch) deletionStartSlot).foldl
        (fun candidates id => candidates.erase id) (t.committeeCandidates targetSlotEpoch)) }

/-- What happens to the candidates of an epoch. -/
inductive CandidateOp (ID Hash : Type) where
  | track (block : Block ID Hash)
  | restart (latestAppliedEpoch : Nat)
  /-- The storage is rolled back to a slot and the tracker is reset.  A rollback to an earlier
      epoch deletes the bucket of this epoch, which drops the same candidates. -/
  | reset (lastCommittedSlot : Nat)

variable (p : Params)

/-- One operation. -/
def candidateStep (epoch : Nat) (t : Tracker ID Hash) :
    CandidateOp ID Hash → Option (Tracker ID Hash)
  | .track block => some (t.trackCandidateBlock p block)
  | .restart latestAppliedEpoch => some (t.restart latestAppliedEpoch)
  | .reset lastCommittedSlot =>
    some ((t.rollbackCommitteesCandidates epoch (lastCommittedSlot + 1)).reset lastCommittedSlot)

/-! ## Section 2: Specification -/

/-- The announcements that were tracked and not reset, as issuers and slots. -/
def announcements (ops : List (CandidateOp ID Hash)) : List (ID × Nat) :=
  ops.foldl (fun live op =>
    match op with
    | .track block =>
      if block.isCandidacyAnnouncement then live ++ [(block.issuerID, block.slot)] else live
    | .restart _ => live
    | .reset lastCommittedSlot => live.filter fun a => decide (a.2 ≤ lastCommittedSlot)) []

/-- A store has the issuers of the announcements with their least slots. -/
def Registered (live : List (ID × Nat)) (candidates : Map ID Nat) : Prop :=
  ∀ id slot, candidates.lookup id = some slot ↔ IsLeast {s | (id, s) ∈ live} slot

/-- An issuer that the tracker does not remember announces its candidacy in no later slot than
    the one in the store. -/
def Remembered (epoch : Nat) (t : Tracker ID Hash) : CandidateOp ID Hash → Prop
  | .track block =>
    block.isCandidacyAnnouncement = true →
      t.nextEpochCommitteeCandidates.lookup block.issuerID = none →
        ∀ slot ∈ (t.committeeCandidates epoch).lookup block.issuerID, block.slot ≤ slot
  | _ => True

instance (epoch : Nat) (t : Tracker ID Hash) : DecidablePred (Remembered epoch t)
  | .track block => by unfold Remembered; infer_instance
  | .restart _ => isTrue trivial
  | .reset _ => isTrue trivial

/-! ## Section 3: Registration -/

section Registration

variable {live : List (ID × Nat)} {candidates : Map ID Nat} {id : ID} {slot : Nat}

section

variable (h : Registered live candidates)
include h

theorem Registered.isSome_iff (id : ID) :
    (candidates.lookup id).isSome = true ↔ ∃ slot, (id, slot) ∈ live := by
  constructor
  · intro hsome
    obtain ⟨slot, hslot⟩ := isSome_iff_exists.mp hsome
    exact ⟨slot, ((h id slot).mp hslot).1⟩
  · intro hlive
    classical
    have hleast : IsLeast {s | (id, s) ∈ live} (Nat.find hlive) :=
      ⟨Nat.find_spec hlive, fun s hs => Nat.find_min' hlive hs⟩
    rw [(h id _).mpr hleast]
    rfl

theorem Registered.announce {candidates' : Map ID Nat} {v : Nat}
    (hother : ∀ j, j ≠ id → candidates'.lookup j = candidates.lookup j)
    (hv : candidates'.lookup id = some v) (hmem : (id, v) ∈ live ++ [(id, slot)])
    (hmin : ∀ s, (id, s) ∈ live → v ≤ s) (hle : v ≤ slot) :
    Registered (live ++ [(id, slot)]) candidates' := by
  intro j s
  by_cases hj : j = id
  · subst hj
    have hleast : IsLeast {s | (j, s) ∈ live ++ [(j, slot)]} v := by
      refine ⟨hmem, fun s' hs' => ?_⟩
      rcases mem_append.mp hs' with hold | hnew
      · exact hmin s' hold
      · simp at hnew
        omega
    rw [hv, some.injEq]
    exact ⟨fun heq => heq ▸ hleast, fun hs => hleast.unique hs⟩
  · have hset : {s | (j, s) ∈ live ++ [(id, slot)]} = {s | (j, s) ∈ live} := by
      ext s
      simp [hj]
    rw [hother j hj, hset]
    exact h j s

theorem Registered.insert (hlow : ∀ s ∈ candidates.lookup id, slot ≤ s) :
    Registered (live ++ [(id, slot)]) (candidates.insert id slot) := by
  apply h.announce (fun j hj => AList.lookup_insert_ne hj) (AList.lookup_insert _)
    (by simp) _ le_rfl
  -- no announcement of the issuer is in a lower slot
  intro s hs
  obtain ⟨v, hv⟩ := isSome_iff_exists.mp ((h.isSome_iff id).mpr ⟨s, hs⟩)
  exact Nat.le_trans (hlow v hv) (((h id v).mp hv).2 hs)

theorem Registered.append {v : Nat} (hv : candidates.lookup id = some v) (hle : v ≤ slot) :
    Registered (live ++ [(id, slot)]) candidates := by
  have hleast := (h id v).mp hv
  exact h.announce (fun _ _ => rfl) hv (mem_append_left _ hleast.1) (fun _ hs => hleast.2 hs) hle

theorem Registered.filter {last : Nat} {candidates' : Map ID Nat}
    (hlookup : ∀ id, candidates'.lookup id =
      (candidates.lookup id).filter fun s => decide (s ≤ last)) :
    Registered (live.filter fun a => decide (a.2 ≤ last)) candidates' := by
  intro j s
  rw [hlookup, filter_eq_some_iff, h j s, decide_eq_true_eq]
  constructor
  · intro hs
    exact ⟨by simpa using ⟨hs.1.1, hs.2⟩,
      fun s' hs' => hs.1.2 (mem_filter.mp hs').1⟩
  · intro hs
    obtain ⟨hmem, hle⟩ := mem_filter.mp hs.1
    have hle : s ≤ last := of_decide_eq_true hle
    refine ⟨⟨hmem, fun s' hs' => ?_⟩, hle⟩
    -- a slot that was dropped is higher anyway
    by_cases hs'last : s' ≤ last
    · exact hs.2 (mem_filter.mpr ⟨hs', decide_eq_true hs'last⟩)
    · omega

end

end Registration

/-! ## Section 4: Runs -/

variable {p : Params} {epoch : Nat} {t t' : Tracker ID Hash}

/-- The store is exact, and what the tracker remembers is in the store. -/
structure Exact (epoch : Nat) (ops : List (CandidateOp ID Hash)) (t : Tracker ID Hash) : Prop where
  registered : Registered (announcements ops) (t.committeeCandidates epoch)
  remembered : ∀ id slot, t.nextEpochCommitteeCandidates.lookup id = some slot →
    (t.committeeCandidates epoch).lookup id = some slot

omit [LinearOrder ID] in
theorem announcements_append (ops : List (CandidateOp ID Hash)) (op : CandidateOp ID Hash) :
    announcements (ops ++ [op]) =
      match op with
      | .track block =>
        if block.isCandidacyAnnouncement then announcements ops ++ [(block.issuerID, block.slot)]
        else announcements ops
      | .restart _ => announcements ops
      | .reset lastCommittedSlot =>
        (announcements ops).filter fun a => decide (a.2 ≤ lastCommittedSlot) := by
  unfold announcements
  rw [foldl_append]
  rfl

theorem lookup_rollback (t : Tracker ID Hash) (last : Nat) (id : ID) :
    ((t.rollbackCommitteesCandidates epoch (last + 1)).committeeCandidates epoch).lookup id =
      ((t.committeeCandidates epoch).lookup id).filter fun s => decide (s ≤ last) := by
  show (update t.committeeCandidates epoch _ epoch).lookup id = _
  rw [update_self, candidatesToRollback, foldl_map, foldl_filter,
    lookup_foldl_erase (fun _ s => decide (s ≥ last + 1))]
  congr 1
  funext s
  rw [← decide_not]
  exact decide_eq_decide.mpr (by omega)

theorem lookup_reset (t : Tracker ID Hash) (last : Nat) (id : ID) :
    ((t.reset last).nextEpochCommitteeCandidates).lookup id =
      (t.nextEpochCommitteeCandidates.lookup id).filter fun s => decide (s ≤ last) := by
  have herase := lookup_foldl_erase (fun _ s => decide (s > last)) t.nextEpochCommitteeCandidates id
  simp only [decide_eq_true_eq] at herase
  refine Eq.trans herase ?_
  congr 1
  funext s
  rw [← decide_not]
  exact decide_eq_decide.mpr (by omega)

variable {ops : List (CandidateOp ID Hash)}

theorem Exact.storeCandidate (h : Exact epoch ops t) {block : Block ID Hash}
    (hcandidacy : block.isCandidacyAnnouncement = true)
    (hlow : ∀ slot ∈ (t.committeeCandidates epoch).lookup block.issuerID, block.slot ≤ slot) :
    Exact epoch (ops ++ [.track block]) (t.storeCandidate epoch block.issuerID block.slot) where
  registered := by
    rw [announcements_append]
    simp only [hcandidacy, if_true]
    show Registered _ (update t.committeeCandidates epoch _ epoch)
    rw [update_self]
    exact h.registered.insert hlow
  remembered id slot := by
    show (t.nextEpochCommitteeCandidates.insert block.issuerID block.slot).lookup id = some slot →
      (update t.committeeCandidates epoch _ epoch).lookup id = some slot
    rw [update_self, lookup_insert_eq, lookup_insert_eq]
    split_ifs with hid
    · exact fun hslot => hslot
    · exact h.remembered id slot

theorem Exact.track (h : Exact epoch ops t) {block : Block ID Hash}
    (hepoch : p.timeProvider.epochFromSlot block.slot = epoch)
    (hremembered : Remembered epoch t (.track block)) :
    Exact epoch (ops ++ [.track block]) (t.trackCandidateBlock p block) := by
  unfold trackCandidateBlock
  by_cases hcandidacy : block.isCandidacyAnnouncement = true
  · simp only [hcandidacy, if_true, hepoch]
    cases hcurrent : t.nextEpochCommitteeCandidates.lookup block.issuerID with
    | none => exact h.storeCandidate hcandidacy (hremembered hcandidacy hcurrent)
    | some currentValue =>
      have hstored := h.remembered _ _ hcurrent
      by_cases hlower : currentValue > block.slot
      · simp only [hlower, if_true]
        apply h.storeCandidate hcandidacy
        intro slot hslot
        rw [hstored] at hslot
        have heq : currentValue = slot := some.inj hslot
        omega
      · simp only [hlower, if_false]
        refine ⟨?_, h.remembered⟩
        rw [announcements_append]
        simp only [hcandidacy, if_true]
        exact h.registered.append hstored (Nat.le_of_not_lt hlower)
  · simp only [hcandidacy]
    refine ⟨?_, h.remembered⟩
    rw [announcements_append]
    simp only [hcandidacy]
    exact h.registered

theorem Exact.reset (h : Exact epoch ops t) (last : Nat) :
    Exact epoch (ops ++ [.reset last])
      ((t.rollbackCommitteesCandidates epoch (last + 1)).reset last) where
  registered := by
    rw [announcements_append]
    exact h.registered.filter (lookup_rollback t last)
  remembered id slot hslot := by
    rw [lookup_reset, filter_eq_some_iff] at hslot
    show ((t.rollbackCommitteesCandidates epoch (last + 1)).committeeCandidates epoch).lookup id = _
    rw [lookup_rollback, filter_eq_some_iff]
    exact ⟨h.remembered id slot hslot.1, hslot.2⟩

theorem Exact.step (h : Exact epoch ops t) {op : CandidateOp ID Hash}
    (hepoch : ∀ block, op = .track block → p.timeProvider.epochFromSlot block.slot = epoch)
    (hremembered : Remembered epoch t op) (hstep : t.candidateStep p epoch op = some t') :
    Exact epoch (ops ++ [op]) t' := by
  cases op with
  | track block =>
    rw [← some.inj hstep]
    exact h.track (hepoch block rfl) hremembered
  | restart latestAppliedEpoch =>
    rw [← some.inj hstep]
    refine ⟨?_, fun id slot hslot => nomatch hslot⟩
    rw [announcements_append]
    exact h.registered
  | reset lastCommittedSlot =>
    rw [← some.inj hstep]
    exact h.reset lastCommittedSlot

/-- In a run in which no issuer that was forgotten announces its candidacy again in a later slot,
    the store has the issuers of all announcements that were not reset, each with the least of
    its slots. -/
theorem candidates_registered {ops : List (CandidateOp ID Hash)}
    (hstore : t.committeeCandidates epoch = ∅) (hmemory : t.nextEpochCommitteeCandidates = ∅)
    (hepoch : ∀ block, .track block ∈ ops → p.timeProvider.epochFromSlot block.slot = epoch)
    (hremembered : AllSteps (candidateStep p epoch) (Remembered epoch) t ops)
    (hrun : run (candidateStep p epoch) t ops = some t') :
    (∀ id, ((t'.committeeCandidates epoch).lookup id).isSome = true ↔
      ∃ slot, (id, slot) ∈ announcements ops) ∧
    ∀ id slot, (t'.committeeCandidates epoch).lookup id = some slot ↔
      IsLeast {s | (id, s) ∈ announcements ops} slot := by
  have hinit : Exact epoch ([] : List (CandidateOp ID Hash)) t := by
    refine ⟨fun id slot => ?_, fun id slot hslot => ?_⟩
    · rw [hstore]
      constructor
      · intro hsome
        cases hsome
      · intro hleast
        exact absurd hleast.1 not_mem_nil
    · rw [hmemory] at hslot
      cases hslot
  have hops : AllSteps (candidateStep p epoch)
      (fun _ op => ∀ block, op = .track block → p.timeProvider.epochFromSlot block.slot = epoch)
      t ops := by
    apply allSteps_of_forall
    intro op hop _ block heq
    rw [heq] at hop
    exact hepoch block hop
  have hexact := run_history_invariant_of (I := Exact epoch)
    (fun _ _ _ _ hs hG hstep => Exact.step hs hG.1 hG.2 hstep) hinit (hops.and hremembered) hrun
  rw [nil_append] at hexact
  exact ⟨hexact.registered.isSome_iff, hexact.registered⟩

/-- A candidacy announcement. -/
def announcementAt (issuerID slot : Nat) : Block Nat Unit where
  slot := slot
  issuerID := issuerID
  issuingTime := 10000000000 * slot
  validationBlock := none
  isCandidacyAnnouncement := true

/-- Account 1 announces in slot 3 and, after a restart, in slot 2; account 2 only in slot 3, which
    is reset. -/
theorem candidates_registered_reset :
    ∃ t', run (candidateStep smallParams 1) epochOne
        [.track (announcementAt 1 3), .track (announcementAt 2 3), .restart 0,
          .track (announcementAt 1 2), .reset 2] = some t' ∧
      (t'.committeeCandidates 1).lookup 1 = some 2 ∧
      ((t'.committeeCandidates 1).lookup 2).isSome = false := by
  obtain ⟨t', hrun⟩ : ∃ t', run (candidateStep smallParams 1) epochOne
      [.track (announcementAt 1 3), .track (announcementAt 2 3), .restart 0,
        .track (announcementAt 1 2), .reset 2] = some t' := ⟨_, rfl⟩
  obtain ⟨hissuers, hleast⟩ := candidates_registered rfl rfl (by
    intro block hblock
    simp at hblock
    rcases hblock with rfl | rfl | rfl <;> rfl) (by decide +kernel) hrun
  refine ⟨t', hrun, (hleast 1 2).mpr ⟨by decide, fun s hs => ?_⟩, ?_⟩
  · have hs : (1, s) ∈ [(1, 2)] := hs
    simp at hs
    omega
  · rw [Bool.eq_false_iff, Ne, hissuers]
    intro hslot
    obtain ⟨slot, hslot⟩ := hslot
    have hslot : (2, slot) ∈ [(1, 2)] := hslot
    simp at hslot

/-- Account 1 announces in slot 2 and, after a restart, in slot 3.  The store then has slot 3, and
    a reset to slot 2 drops the candidate although its first announcement stays. -/
theorem candidate_lost :
    ∃ t₁ t₂, run (candidateStep smallParams 1) epochOne
        [.track (announcementAt 1 2), .restart 0, .track (announcementAt 1 3)] = some t₁ ∧
      (t₁.committeeCandidates 1).lookup 1 = some 3 ∧
      candidateStep smallParams 1 t₁ (.reset 2) = some t₂ ∧
      (t₂.committeeCandidates 1).lookup 1 = none ∧
      (1, 2) ∈ announcements [.track (announcementAt 1 2), .restart 0,
        .track (announcementAt 1 3), .reset 2] :=
  ⟨_, _, rfl, by decide +kernel, rfl, by decide +kernel, by decide⟩

end Tracker

end AxonCore.Performance

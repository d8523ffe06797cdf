import AxonCore.Upgrade.Signals

/-! # Nodes that decide the same

    Two nodes that have the same signals for later slots, the same settings and the same
    decided versions of the signaling window decide and schedule the same versions from
    then on.

    A node that was made from a later export may already have the version that will be
    decided at the end of the current epoch, so the relation leaves that one open.

    * `Orchestrator.commitSignals_spec`, `Node.commit_spec`: one commit.
    * `Agrees`: the relation; it is kept by every step (`Agrees.step`). -/

namespace AxonCore.Upgrade

open AxonCore.Lib Function Option
open AxonCore.Accounts (AccountID Block BlockBody SignaledBlock VersionAndHash)

variable {p : Params} {n r : Node} {e₀ : Nat} {d : Option VersionAndHash}

/-! ## Section 1: One commit -/

/-- The signals of a slot after the signals of the slot before it were carried over. -/
def carry (signals next : Signals) (seat : SeatIndex) : Option SignaledBlock :=
  ((signals.lookup seat).map (keepGreater compareSignals (next.lookup seat))).or
    (next.lookup seat)

theorem Orchestrator.commitSignals_spec (o : Orchestrator) (slot : Nat) :
    (o.commitSignals p slot).2.getD ∅ = o.signals slot ∧
    (∀ s, slot < s → ∀ seat, ((o.commitSignals p slot).1.signals s).lookup seat =
      if s = slot + 1 ∧ p.lastSlotInEpoch slot = false then
        carry (o.signals slot) (o.signals s) seat
      else (o.signals s).lookup seat) ∧
    (∀ seat, ((o.commitSignals p slot).1.storage.upgradeSignals slot).lookup seat =
      ((o.signals slot).lookup seat).or ((o.storage.upgradeSignals slot).lookup seat)) ∧
    (∀ s, s ≠ slot → (o.commitSignals p slot).1.storage.upgradeSignals s =
      o.storage.upgradeSignals s) ∧
    (o.commitSignals p slot).1.storage.decidedUpgradeSignals =
      o.storage.decidedUpgradeSignals := by
  unfold Orchestrator.commitSignals
  cases hsignals : o.latestSignals slot with
  | none =>
    have hempty : o.signals slot = ∅ := congrArg (Option.getD · ∅) hsignals
    refine ⟨hempty.symm, ?_, ?_, fun _ _ => rfl, rfl⟩
    · intro s _ seat
      rw [hempty]
      unfold carry
      rw [AList.lookup_empty, map_none, none_or, ite_self]
    · intro seat
      rw [hempty, AList.lookup_empty, none_or]
  | some signals =>
    have hsome : o.signals slot = signals := congrArg (Option.getD · ∅) hsignals
    refine ⟨hsome.symm, ?_, ?_, ?_, rfl⟩
    · intro s hs seat
      rw [hsome]
      have hold : update o.latestSignals slot none s = o.latestSignals s :=
        update_of_ne (by omega) _ _
      unfold Orchestrator.signals
      dsimp only
      cases hlast : p.lastSlotInEpoch slot with
      | true =>
        rw [if_pos rfl, hold, if_neg (fun h => Bool.noConfusion h.2)]
      | false =>
        rw [if_neg Bool.false_ne_true]
        by_cases hnext : s = slot + 1
        · subst hnext
          rw [update_self, hold, if_pos ⟨rfl, rfl⟩, getD_some]
          simp only [addNewSignaledBlock_eq]
          exact lookup_foldl_insert _ (AList.nodupKeys _) _ seat
        · rw [update_of_ne hnext, hold, if_neg (fun h => hnext h.1)]
    · intro seat
      dsimp only
      rw [hsome, update_self, lookup_store]
    · intro s hs
      exact update_of_ne hs _ _

/-- The version that a node decides when it commits the next slot. -/
def Node.decision (p : Params) (n : Node) : Option VersionAndHash :=
  if p.lastSlotInEpoch (n.slot + 1) then
    decideVersion p n.settings (p.timeProvider.epochFromSlot (n.slot + 1))
      (n.orchestrator.signals (n.slot + 1))
  else none

/-- The decided versions after the decision for an epoch. -/
def Storage.record (s : Storage) (epoch : Nat) : Option VersionAndHash → Storage
  | none => s
  | some v => s.store epoch v

/-- The settings after the decision for an epoch: they change only if there is one. -/
def Settings.schedule (p : Params) (settings : Settings) (epoch : Nat) (s : Storage) :
    Option VersionAndHash → Settings
  | none => settings
  | some _ =>
    match s.signalingThresholdReached p epoch with
    | none => settings
    | some v =>
      settings.storeFutureProtocolParametersHash v.version v.hash (epoch + p.activationOffset)

theorem tryUpgrade_eq (s : Storage) (settings : Settings) (epoch : Nat) (last : Bool)
    (signals : Option Signals) :
    tryUpgrade p s settings epoch last signals =
      let decision := if last then decideVersion p settings epoch (signals.getD ∅) else none
      (s.record epoch decision, settings.schedule p epoch (s.record epoch decision) decision) := by
  unfold tryUpgrade
  cases last with
  | false =>
    cases signals <;> rfl
  | true =>
    cases signals with
    | none =>
      simp only [getD_none, if_true, decideVersion_empty]
      rfl
    | some signals =>
      simp only [getD_some, if_true]
      cases decideVersion p settings epoch signals with
      | none => rfl
      | some v =>
        unfold Settings.schedule Storage.record
        dsimp only
        cases (s.store epoch v).signalingThresholdReached p epoch <;> rfl

theorem Node.commit_spec (n : Node) :
    (step p n .commit).slot = n.slot + 1 ∧
    (step p n .commit).orchestrator.signals =
      (n.orchestrator.commitSignals p (n.slot + 1)).1.signals ∧
    (step p n .commit).orchestrator.storage =
      (n.orchestrator.commitSignals p (n.slot + 1)).1.storage.record
        (p.timeProvider.epochFromSlot (n.slot + 1)) (n.decision p) ∧
    (step p n .commit).settings = n.settings.schedule p
      (p.timeProvider.epochFromSlot (n.slot + 1))
      (step p n .commit).orchestrator.storage (n.decision p) := by
  have hsignals := (n.orchestrator.commitSignals_spec (p := p) (n.slot + 1)).1
  unfold step Orchestrator.commit Node.decision
  rw [← hsignals]
  dsimp only
  rw [tryUpgrade_eq]
  exact ⟨rfl, rfl, rfl, rfl⟩

theorem Storage.decided_congr {s s' : Storage}
    (h : s'.decidedUpgradeSignals = s.decidedUpgradeSignals) (e : Nat) :
    s'.decided e = s.decided e := by
  unfold Storage.decided Storage.load
  rw [h]

theorem Storage.decided_record (s : Storage) (epoch : Nat) (v : Option VersionAndHash) (e : Nat) :
    (s.record epoch v).decided e =
      if e = epoch ∧ v.isSome then v.filter (fun v => v.version ≠ 0) else s.decided e := by
  cases v with
  | none => simp [Storage.record]
  | some v =>
    unfold Storage.record
    rw [Storage.decided_store]
    by_cases he : e = epoch
    · by_cases hv : v.version = 0 <;> simp [he, hv, Option.filter]
    · simp [he]

theorem decided_commit (n : Node) (e : Nat) :
    (step p n .commit).orchestrator.storage.decided e =
      if e = p.timeProvider.epochFromSlot (n.slot + 1) ∧ (n.decision p).isSome then
        (n.decision p).filter (fun v => v.version ≠ 0)
      else n.orchestrator.storage.decided e := by
  rw [n.commit_spec.2.2.1, Storage.decided_record,
    Storage.decided_congr (n.orchestrator.commitSignals_spec (n.slot + 1)).2.2.2.2]

/-! ## Section 2: Agreement -/

/-- The two nodes have the same later signals, settings and decided versions.  Before the
    end of epoch `e₀`, the second node has `d` in the place of the version of the epoch. -/
structure Agrees (p : Params) (e₀ : Nat) (d : Option VersionAndHash) (n r : Node) : Prop where
  slot : r.slot = n.slot
  settings : r.settings = n.settings
  genesis : p.timeProvider.genesisSlot ≤ n.slot
  epoch : e₀ ≤ p.timeProvider.epochFromSlot n.slot
  signals : ∀ s, n.slot < s → ∀ seat,
    (r.orchestrator.signals s).lookup seat = (n.orchestrator.signals s).lookup seat
  seated : ∀ s, n.slot < s →
    Seated p (p.timeProvider.epochFromSlot s) (n.orchestrator.signals s)
  decided : ∀ e, signalingWindowStart p e₀ ≤ e → r.orchestrator.storage.decided e =
    if e = e₀ ∧ n.slot < p.timeProvider.epochEnd e₀ then d
    else n.orchestrator.storage.decided e

theorem Seated.track {o : Orchestrator} {settings : Settings} {slot : Nat}
    (h : Seated p (p.timeProvider.epochFromSlot slot) (o.signals slot)) (b : Block) :
    Seated p (p.timeProvider.epochFromSlot slot)
      ((o.trackValidationBlock p settings b).signals slot) := by
  intro seat hseat
  rw [lookup_track] at hseat
  cases hsignal : signalOf p settings b with
  | none =>
    rw [hsignal] at hseat
    exact h seat hseat
  | some x =>
    obtain ⟨seat', sb⟩ := x
    rw [hsignal] at hseat
    dsimp only at hseat
    by_cases heq : slot = b.slot ∧ seat = seat'
    · obtain ⟨rfl, rfl⟩ := heq
      obtain ⟨⟨committee, hcommittee, hlookup, _⟩, _⟩ := signalOf_eq_some.mp hsignal
      exact ⟨committee, hcommittee, b.issuerID, hlookup⟩
    · rw [if_neg heq] at hseat
      exact h seat hseat

theorem carry_isSome {signals next : Signals} {seat : SeatIndex}
    (h : (carry signals next seat).isSome) :
    (signals.lookup seat).isSome ∨ (next.lookup seat).isSome := by
  unfold carry at h
  cases hs : signals.lookup seat with
  | none =>
    rw [hs] at h
    exact .inr h
  | some sb => exact .inl rfl

/-- Signals are carried over within an epoch only. -/
theorem seated_commit (hgenesis : p.timeProvider.genesisSlot ≤ n.slot)
    (h : ∀ s, n.slot < s → Seated p (p.timeProvider.epochFromSlot s) (n.orchestrator.signals s))
    {s : Nat} (hs : n.slot + 1 < s) :
    Seated p (p.timeProvider.epochFromSlot s) ((step p n .commit).orchestrator.signals s) := by
  intro seat hseat
  rw [n.commit_spec.2.1, (n.orchestrator.commitSignals_spec (n.slot + 1)).2.1 s hs] at hseat
  split_ifs at hseat with hcarry
  · have hsame : p.timeProvider.epochFromSlot s =
        p.timeProvider.epochFromSlot (n.slot + 1) := by
      rw [hcarry.1, p.timeProvider.epochFromSlot_succ (by omega),
        if_neg (of_decide_eq_false hcarry.2)]
    rcases carry_isSome hseat with hold | hnew
    · rw [hsame]
      exact h (n.slot + 1) (by omega) seat hold
    · exact h s (by omega) seat hnew
  · exact h s (by omega) seat hseat

theorem Agrees.decision (h : Agrees p e₀ d n r) : r.decision p = n.decision p := by
  unfold Node.decision
  rw [h.slot, h.settings]
  split
  · exact decideVersion_congr _ (h.seated _ (Nat.lt_succ_self _))
      (h.signals _ (Nat.lt_succ_self _))
  · rfl

/-- The end of `e₀` is committed with the open version being the one that the node had
    before, or the one that it has now. -/
def Closes (p : Params) (e₀ : Nat) (d : Option VersionAndHash) (n : Node) : Prop :=
  n.slot + 1 = p.timeProvider.epochEnd e₀ →
    d = n.orchestrator.storage.decided e₀ ∨
      d = (step p n .commit).orchestrator.storage.decided e₀

theorem lastSlot_of_decision (h : (n.decision p).isSome) :
    p.timeProvider.epochEnd (p.timeProvider.epochFromSlot (n.slot + 1)) = n.slot + 1 := by
  unfold Node.decision at h
  split at h
  next hlast => exact of_decide_eq_true hlast
  · cases h

variable (h : Agrees p e₀ d n r)
include h

theorem Agrees.decided_commit (hcloses : Closes p e₀ d n) {e : Nat}
    (he : signalingWindowStart p e₀ ≤ e) :
    (step p r .commit).orchestrator.storage.decided e =
      if e = e₀ ∧ n.slot + 1 < p.timeProvider.epochEnd e₀ then d
      else (step p n .commit).orchestrator.storage.decided e := by
  have hnow := Upgrade.decided_commit (p := p) n e
  rw [Upgrade.decided_commit r e, h.decision, h.slot, h.decided e he]
  by_cases hnew : e = p.timeProvider.epochFromSlot (n.slot + 1) ∧ (n.decision p).isSome
  · rw [if_pos hnew] at hnow ⊢
    have hend := lastSlot_of_decision hnew.2
    rw [hnow, if_neg]
    rintro ⟨rfl, hlt⟩
    rw [hnew.1, hend] at hlt
    omega
  · rw [if_neg hnew] at hnow ⊢
    rw [hnow]
    by_cases hopen : e = e₀ ∧ n.slot < p.timeProvider.epochEnd e₀
    · obtain ⟨rfl, hlt⟩ := hopen
      rw [if_pos ⟨rfl, hlt⟩]
      by_cases hclose : n.slot + 1 = p.timeProvider.epochEnd e
      · rw [if_neg (by omega)]
        rcases hcloses hclose with hd | hd
        · exact hd
        · exact hd.trans hnow
      · rw [if_pos ⟨rfl, by omega⟩]
    · rw [if_neg hopen, if_neg (fun hlt => hopen ⟨hlt.1, by omega⟩)]

theorem Agrees.commit (hcloses : Closes p e₀ d n) :
    Agrees p e₀ d (step p n .commit) (step p r .commit) := by
  have hdecided := fun e (he : signalingWindowStart p e₀ ≤ e) => h.decided_commit hcloses he
  have hepoch : e₀ ≤ p.timeProvider.epochFromSlot (n.slot + 1) :=
    Nat.le_trans h.epoch (p.timeProvider.epochFromSlot_mono (Nat.le_succ _))
  constructor
  · rw [r.commit_spec.1, n.commit_spec.1, h.slot]
  · rw [r.commit_spec.2.2.2, n.commit_spec.2.2.2, h.decision, h.slot, h.settings]
    -- the settings change only at the end of an epoch, when all versions are closed
    cases hdecision : n.decision p with
    | none => rfl
    | some v =>
      have hend := lastSlot_of_decision (p := p) (n := n) (by rw [hdecision]; rfl)
      unfold Settings.schedule
      rw [signalingThresholdReached_congr]
      intro e hlow _
      rw [hdecided e (Nat.le_trans (signalingWindowStart_mono hepoch) hlow), if_neg]
      rintro ⟨rfl, hlt⟩
      have hmono := p.timeProvider.epochEnd_mono hepoch
      omega
  · rw [n.commit_spec.1]
    exact Nat.le_succ_of_le h.genesis
  · rw [n.commit_spec.1]
    exact hepoch
  · intro s hs seat
    rw [n.commit_spec.1] at hs
    rw [r.commit_spec.2.1, n.commit_spec.2.1, h.slot,
      (r.orchestrator.commitSignals_spec (n.slot + 1)).2.1 s hs,
      (n.orchestrator.commitSignals_spec (n.slot + 1)).2.1 s hs]
    unfold carry
    rw [h.signals s (by omega), h.signals (n.slot + 1) (by omega)]
  · intro s hs
    rw [n.commit_spec.1] at hs
    exact seated_commit h.genesis h.seated hs
  · intro e he
    rw [hdecided e he, n.commit_spec.1]

theorem Agrees.track (b : Block) : Agrees p e₀ d (step p n (.track b)) (step p r (.track b)) := by
  constructor
  · exact h.slot
  · exact h.settings
  · exact h.genesis
  · exact h.epoch
  · intro s hs seat
    show ((r.orchestrator.trackValidationBlock p r.settings b).signals s).lookup seat =
      ((n.orchestrator.trackValidationBlock p n.settings b).signals s).lookup seat
    rw [lookup_track, lookup_track, h.settings, h.signals s hs]
  · intro s hs
    exact (h.seated s hs).track b
  · intro e he
    show (r.orchestrator.trackValidationBlock p r.settings b).storage.decided e =
      if _ then d else (n.orchestrator.trackValidationBlock p n.settings b).storage.decided e
    rw [storage_track, storage_track]
    exact h.decided e he

theorem Agrees.step (input : Input) (hcloses : input = .commit → Closes p e₀ d n) :
    Agrees p e₀ d (step p n input) (step p r input) := by
  cases input with
  | track b => exact h.track b
  | commit => exact h.commit (hcloses rfl)

end AxonCore.Upgrade

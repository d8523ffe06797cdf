import Mathlib.Data.List.Sort
import AxonCore.Lib.Greatest
import AxonCore.Upgrade.Model

/-! # Signals and decisions

    What is decided depends on the latest signal of each seat, not on the order in which
    the maps that hold them are iterated: the seats that support a version are counted, and a
    version with a super-majority of the seats is the only one.

    * `Sends`: the signal of a block.
    * `Orchestrator.signals`: the signals of a slot.
    * `decideVersion_congr`: the decision depends on the signals of the seats only.
    * `signalingThresholdReached_congr`: what is scheduled depends on the versions that
      were decided in the window only. -/

namespace AxonCore.Upgrade

open AxonCore.Lib List
open AxonCore.Accounts (AccountID Block BlockBody SignaledBlock VersionAndHash)

variable {p : Params} {s other : SignaledBlock} {s' : Signals} {epoch : Nat}

/-! ## Section 1: The latest signal -/

/-- `SignaledBlock.Compare`: the version decides, then the time, then the ID. -/
def compareSignals : SignaledBlock → SignaledBlock → Ordering :=
  compareLex (compareOn SignaledBlock.highestSupportedVersion)
    (compareLex (compareOn SignaledBlock.issuingTime) (compareOn SignaledBlock.id))

instance : Std.TransCmp compareSignals :=
  inferInstanceAs (Std.TransCmp (compareLex _ _))

theorem greater_iff : s.greater other = true ↔ compareSignals s other = .gt := by
  unfold SignaledBlock.greater compareSignals compareLex compareOn
  rcases Nat.lt_trichotomy s.highestSupportedVersion other.highestSupportedVersion with h | h | h
  · rw [Nat.compare_eq_lt.mpr h]
    simp [Nat.ne_of_lt h, Nat.le_of_lt h]
  · rw [h, Nat.compare_eq_eq.mpr rfl]
    rcases Nat.lt_trichotomy s.issuingTime other.issuingTime with h' | h' | h'
    · rw [Nat.compare_eq_lt.mpr h']
      simp [Nat.ne_of_lt h', Nat.le_of_lt h']
    · rw [h', Nat.compare_eq_eq.mpr rfl]
      simp [Nat.compare_eq_gt]
    · rw [Nat.compare_eq_gt.mpr h']
      simp [Nat.ne_of_gt h', h']
  · rw [Nat.compare_eq_gt.mpr h]
    simp [Nat.ne_of_gt h, h]

theorem id_eq_of_compareSignals (h : compareSignals s other = .eq) : s.id = other.id := by
  unfold compareSignals at h
  rw [compareLex_eq_eq, compareLex_eq_eq] at h
  exact Nat.compare_eq_eq.mp h.2.2

theorem addNewSignaledBlock_eq (s : Signals) (seat : SeatIndex) (sb : SignaledBlock) :
    addNewSignaledBlock s seat sb =
      s.insert seat (keepGreater compareSignals (s.lookup seat) sb) := by
  unfold addNewSignaledBlock keepGreater
  cases s.lookup seat with
  | none => rfl
  | some current =>
    dsimp only
    by_cases h : compareSignals sb current = .gt
    · rw [if_pos h, if_pos (greater_iff.mpr h)]
    · rw [if_neg h, if_neg (fun hg => h (greater_iff.mp hg))]

theorem lookup_store (signals s : Signals) (seat : SeatIndex) :
    (signals.entries.foldl (fun s e => s.insert e.1 e.2) s).lookup seat =
      (signals.lookup seat).or (s.lookup seat) := by
  rw [lookup_foldl_insert (fun _ sb => sb) signals.nodupKeys s seat, Option.map_id']
  rfl

/-! ## Section 2: The signal of a block -/

/-- The block is a validation block of the account with the seat. -/
def Sends (p : Params) (b : Block) (seat : SeatIndex) (sb : SignaledBlock) : Prop :=
  ∃ committee, p.committeeInSlot b.slot = some committee ∧
    committee.lookup b.issuerID = some seat ∧ sb.id = b.id ∧ sb.issuingTime = b.issuingTime ∧
    b.body = .validation sb.highestSupportedVersion sb.protocolParametersHash

/-- The settings know the version. -/
def Settings.Knows (s : Settings) (version : Nat) : Prop := (s.epochForVersion version).isSome

theorem signalOf_eq_some {settings : Settings} {b : Block} {seat : SeatIndex} {sb : SignaledBlock} :
    signalOf p settings b = some (seat, sb) ↔
      Sends p b seat sb ∧ ¬ settings.Knows sb.highestSupportedVersion := by
  unfold signalOf Sends Settings.Knows
  cases hbody : b.body with
  | basic w => simp
  | validation version hash =>
    simp only [Option.bind_eq_some_iff]
    constructor
    · rintro ⟨committee, hcommittee, seat', hseat, hif⟩
      split_ifs at hif with hnot
      obtain ⟨rfl, rfl⟩ := Prod.mk.injEq .. ▸ Option.some.inj hif
      exact ⟨⟨committee, hcommittee, hseat, rfl, rfl, rfl⟩, hnot⟩
    · rintro ⟨⟨committee, hcommittee, hseat, hid, htime, hvalidation⟩, hnot⟩
      obtain ⟨rfl, rfl⟩ := BlockBody.validation.injEq .. ▸ hvalidation
      refine ⟨committee, hcommittee, seat, hseat, ?_⟩
      rw [if_neg hnot, ← hid, ← htime]

/-- The signals of a slot. -/
def Orchestrator.signals (o : Orchestrator) (slot : Nat) : Signals := (o.latestSignals slot).getD ∅

theorem lookup_track (settings : Settings) (o : Orchestrator) (b : Block) (slot : Nat)
    (seat : SeatIndex) :
    ((o.trackValidationBlock p settings b).signals slot).lookup seat =
      match signalOf p settings b with
      | none => (o.signals slot).lookup seat
      | some (seat', sb) =>
        if slot = b.slot ∧ seat = seat' then
          some (keepGreater compareSignals ((o.signals slot).lookup seat) sb)
        else (o.signals slot).lookup seat := by
  unfold Orchestrator.trackValidationBlock
  cases signalOf p settings b with
  | none => rfl
  | some x =>
    obtain ⟨seat', sb⟩ := x
    show ((Function.update o.latestSignals b.slot _ slot).getD ∅).lookup seat = _
    by_cases hslot : slot = b.slot
    · subst hslot
      rw [Function.update_self, Option.getD_some, addNewSignaledBlock_eq, lookup_insert_eq]
      by_cases hseat : seat = seat'
      · subst hseat
        simp [Orchestrator.signals]
      · simp [hseat, Orchestrator.signals]
    · rw [Function.update_of_ne hslot]
      dsimp only
      rw [if_neg (fun h => hslot h.1)]
      rfl

theorem storage_track (settings : Settings) (o : Orchestrator) (b : Block) :
    (o.trackValidationBlock p settings b).storage = o.storage := by
  unfold Orchestrator.trackValidationBlock
  split <;> rfl

/-! ## Section 3: Decisions -/

/-- The signals are of seats of the committee of the epoch. -/
def Seated (p : Params) (epoch : Nat) (signals : Signals) : Prop :=
  ∀ seat, (signals.lookup seat).isSome →
    ∃ committee, p.committeeInEpoch epoch = some committee ∧
      ∃ id, committee.lookup id = some seat

theorem Seated.length_le {signals : Signals} (h : Seated p epoch signals)
    (hne : signals.entries ≠ []) : signals.entries.length ≤ p.seatCountInEpoch epoch := by
  obtain ⟨e, rest, hentries⟩ := exists_cons_of_ne_nil hne
  have hlookup : signals.lookup e.1 = some e.2 :=
    AList.mem_lookup_iff.mpr (hentries ▸ mem_cons_self)
  obtain ⟨committee, hcommittee, _⟩ := h e.1 (by rw [hlookup]; rfl)
  have hsub : signals.keys ⊆ committee.entries.map Sigma.snd := by
    intro seat hseat
    obtain ⟨committee', hcommittee', id, hid⟩ := h seat ((mem_keys_iff _ _).mp hseat)
    obtain rfl := Option.some.inj (hcommittee.symm.trans hcommittee')
    exact mem_map.mpr ⟨⟨id, seat⟩, AList.mem_lookup_iff.mp hid, rfl⟩
  have hle := (subperm_of_subset signals.keys_nodup hsub).length_le
  unfold Params.seatCountInEpoch
  rw [hcommittee]
  simpa [AList.keys, keys] using hle

theorem decideVersion_congr {s : Signals} (settings : Settings) (hseated : Seated p epoch s)
    (h : ∀ seat, s'.lookup seat = s.lookup seat) :
    decideVersion p settings epoch s' = decideVersion p settings epoch s := by
  have hperm : (supportedVersions s).Perm (supportedVersions s') :=
    (SameEntries.perm fun seat => (h seat).symm).map _
  have horder : ∀ s : Signals, ∀ v ∈ (tally (supportedVersions s)).keys,
      v ∈ p.mapOrder (tally (supportedVersions s)).keys :=
    fun s v hv => (p.mapOrder_perm _).mem_iff.mpr hv
  have hcount : (maxVersionByCount p (tally (supportedVersions s))).2 =
      (maxVersionByCount p (tally (supportedVersions s'))).2 :=
    leader_snd_perm _ (horder s) (horder s') hperm
  unfold decideVersion
  dsimp only
  rw [← hcount]
  cases hreached : isThresholdReached (maxVersionByCount p (tally (supportedVersions s))).2
      (p.seatCountInEpoch epoch) p.superMajority with
  | false => simp
  | true =>
    -- the supporters are more than half of all seats
    have hpos := isThresholdReached_pos hreached
    have hle : (maxVersionByCount p (tally (supportedVersions s))).2 ≤
      (supportedVersions s).length := leader_snd_le_length _ _
    have hlength : (supportedVersions s).length = s.entries.length := length_map _
    have hseats := hseated.length_le (by
      intro hnil
      rw [hlength, hnil, length_nil] at hle
      omega)
    have hmajority : (supportedVersions s).length <
        2 * (maxVersionByCount p (tally (supportedVersions s))).2 := by
      have hhalf := p.superMajority_half (p.seatCountInEpoch epoch)
      unfold isThresholdReached at hreached
      split_ifs at hreached
      have hlt := of_decide_eq_true hreached
      omega
    rw [show maxVersionByCount p (tally (supportedVersions s)) = _ from
      leader_perm _ (horder s) (horder s') hperm hmajority]
    rfl

theorem decideVersion_empty (settings : Settings) (epoch : Nat) :
    decideVersion p settings epoch ∅ = none := by
  have hleader : maxVersionByCount p (tally (supportedVersions ∅)) = (⟨0, 0⟩, 0) := by
    have hnil : p.mapOrder (tally (supportedVersions ∅)).keys = [] := (p.mapOrder_perm []).eq_nil
    unfold maxVersionByCount
    rw [hnil]
    rfl
  have hreached : isThresholdReached 0 (p.seatCountInEpoch epoch) p.superMajority = false :=
    Bool.eq_false_iff.mpr fun h => Nat.lt_irrefl 0 (isThresholdReached_pos h)
  unfold decideVersion
  rw [hleader]
  simp [hreached]

/-- The version that was decided for an epoch, if any. -/
def Storage.decided (s : Storage) (epoch : Nat) : Option VersionAndHash :=
  if (s.load epoch).version = 0 then none else some (s.load epoch)

theorem Storage.windowVersions_eq (s : Storage) (epoch : Nat) :
    s.windowVersions p epoch = (signalingWindow p epoch).filterMap s.decided := by
  unfold Storage.windowVersions
  rw [filter_map, ← filterMap_eq_map, ← filterMap_eq_filter, filterMap_filterMap]
  congr 1
  funext e
  unfold Storage.decided
  by_cases h : (s.load e).version = 0 <;> simp [h]

theorem Storage.decided_store (s : Storage) (epoch : Nat) (v : VersionAndHash) (e : Nat) :
    (s.store epoch v).decided e =
      if e = epoch then (if v.version = 0 then none else some v) else s.decided e := by
  unfold Storage.decided Storage.load Storage.store
  by_cases h : e = epoch
  · subst h
    simp
  · simp [h]

theorem mem_signalingWindow {e : Nat} :
    e ∈ signalingWindow p epoch ↔ signalingWindowStart p epoch ≤ e ∧ e ≤ epoch := by
  unfold signalingWindow
  rw [mem_range'_1]
  omega

theorem signalingWindowStart_mono {epoch' : Nat} (h : epoch ≤ epoch') :
    signalingWindowStart p epoch ≤ signalingWindowStart p epoch' := by
  unfold signalingWindowStart
  split <;> split <;> omega

theorem signalingThresholdReached_congr {s s' : Storage}
    (h : ∀ e, signalingWindowStart p epoch ≤ e → e ≤ epoch → s'.decided e = s.decided e) :
    s'.signalingThresholdReached p epoch = s.signalingThresholdReached p epoch := by
  unfold Storage.signalingThresholdReached
  rw [Storage.windowVersions_eq, Storage.windowVersions_eq]
  rw [filterMap_congr (fun e he => h e (mem_signalingWindow.mp he).1
    (mem_signalingWindow.mp he).2)]

end AxonCore.Upgrade

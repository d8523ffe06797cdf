import AxonCore.Upgrade.Agreement

/-! # Restart, snapshot and reset of the orchestrator

    An orchestrator can be put in the place of another one by loading the stored signals
    of the latest commitment into the next slot (`RestoreFromDisk`), by doing so with the
    signals of a snapshot (`Import`), or by dropping all signals in memory (`Reset`).

    The orchestrator itself carries its signals to the next slot only within an epoch.  So
    the first two are right inside of an epoch and `Reset` is right at its end.

    * `recovered_decides_same`: the decisions are the same, under these conditions.
    * `reset_drops_signals`: a reset inside of an epoch and a restart at the end of an
      epoch lead to different versions. -/

namespace AxonCore.Upgrade

open AxonCore.Lib List
open AxonCore.Accounts (AccountID Block BlockBody SignaledBlock VersionAndHash)

variable {p : Params} {n r : Node}

/-! ## Section 1: The three ways -/

/-- The state after a sequence of inputs. -/
def Node.after (p : Params) (n : Node) (inputs : List Input) : Node := inputs.foldl (step p) n

/-- The node is started again on its storage. -/
def Node.restart (n : Node) : Node :=
  { n with orchestrator := (newOrchestrator n.orchestrator.storage).restoreFromDisk n.slot }

def Node.reset (n : Node) : Node := { n with orchestrator := n.orchestrator.reset }

/-- The blocks of slots after `t`. -/
def uncommitted (t : Nat) (inputs : List Input) : List Input :=
  inputs.filter fun
    | .track b => t < b.slot
    | .commit => false

/-! ## Section 2: Recorded signals -/

structure Recorded where
  slot : Nat
  seat : SeatIndex
  signal : SignaledBlock
  deriving DecidableEq

/-- The node and the recorded signals after one more input. -/
def record (p : Params) (s : Node × List Recorded) : Input → Node × List Recorded
  | .track b =>
    (step p s.1 (.track b),
      s.2 ++ (signalOf p s.1.settings b).toList.map fun x => ⟨b.slot, x.1, x.2⟩)
  | .commit => (step p s.1 .commit, s.2)

def recorded (p : Params) (n : Node) (inputs : List Input) : Node × List Recorded :=
  inputs.foldl (record p) (n, [])

theorem recorded_append_singleton (n : Node) (inputs : List Input) (input : Input) :
    recorded p n (inputs ++ [input]) = record p (recorded p n inputs) input := by
  unfold recorded
  rw [foldl_append]
  rfl

theorem recorded_fst (n : Node) (inputs : List Input) :
    (recorded p n inputs).1 = n.after p inputs := by
  induction inputs using reverseRecOn with
  | nil => rfl
  | append_singleton inputs input ih =>
    rw [recorded_append_singleton]
    unfold Node.after at ih ⊢
    rw [foldl_append, foldl_cons, foldl_nil, ← ih]
    cases input <;> rfl

theorem mem_record_track (s : Node × List Recorded) (b : Block) (x : Recorded) :
    x ∈ (record p s (.track b)).2 ↔ x ∈ s.2 ∨
      (x.slot = b.slot ∧ signalOf p s.1.settings b = some (x.seat, x.signal)) := by
  cases x
  simp [record, eq_comm, and_comm]

variable {inputs : List Input} {b : Block} {seat : SeatIndex}

/-- The signal is carried over to the slot from the latest commitment. -/
def Carried (p : Params) (n : Node) (slot : Nat) (seat : SeatIndex) (sb : SignaledBlock) : Prop :=
  slot = n.slot + 1 ∧ p.lastSlotInEpoch n.slot = false ∧
    (n.orchestrator.storage.upgradeSignals n.slot).lookup seat = some sb

/-- The signals of later slots are the latest of those that were recorded for the slot,
    or carried over to it. -/
structure Inv (p : Params) (s : Node × List Recorded) : Prop where
  genesis : p.timeProvider.genesisSlot ≤ s.1.slot
  uncommitted : ∀ slot, s.1.slot < slot → ∀ seat,
    (s.1.orchestrator.storage.upgradeSignals slot).lookup seat = none
  undecided : ∀ e, s.1.slot < p.timeProvider.epochEnd e →
    s.1.orchestrator.storage.decided e = none
  signals : ∀ slot, s.1.slot < slot → ∀ seat,
    Greatest compareSignals (fun sb => ⟨slot, seat, sb⟩ ∈ s.2 ∨ Carried p s.1 slot seat sb)
      ((s.1.orchestrator.signals slot).lookup seat)
  seated : ∀ slot, s.1.slot < slot →
    Seated p (p.timeProvider.epochFromSlot slot) (s.1.orchestrator.signals slot)
  stored : ∀ seat sb,
    (s.1.orchestrator.storage.upgradeSignals s.1.slot).lookup seat = some sb →
      ∃ x ∈ s.2, x.signal = sb

variable {s : Node × List Recorded} {P : SignaledBlock → Prop} {slot e : Nat}
  {settings : Settings}

theorem greatest_track (settings : Settings) {o : Orchestrator} (b : Block)
    (h : Greatest compareSignals P ((o.signals slot).lookup seat)) :
    Greatest compareSignals
      (fun sb => P sb ∨ (slot = b.slot ∧ signalOf p settings b = some (seat, sb)))
      (((o.trackValidationBlock p settings b).signals slot).lookup seat) := by
  rw [lookup_track]
  cases hsignal : signalOf p settings b with
  | none =>
    apply h.congr
    intro sb
    simp
  | some x =>
    obtain ⟨seat', sb'⟩ := x
    dsimp only
    by_cases heq : slot = b.slot ∧ seat = seat'
    · obtain ⟨rfl, rfl⟩ := heq
      rw [if_pos ⟨rfl, rfl⟩]
      apply (h.keep sb').congr
      intro sb
      simp [eq_comm]
    · rw [if_neg heq]
      apply h.congr
      intro sb
      simp only [Option.some.injEq, Prod.mk.injEq]
      constructor
      · exact .inl
      · rintro (hP | ⟨rfl, rfl, rfl⟩)
        · exact hP
        · exact absurd ⟨rfl, rfl⟩ heq

theorem Inv.track (h : Inv p s) (b : Block) : Inv p (record p s (.track b)) := by
  have hslot : (record p s (.track b)).1.slot = s.1.slot := rfl
  have hstorage : (record p s (.track b)).1.orchestrator.storage = s.1.orchestrator.storage :=
    storage_track s.1.settings s.1.orchestrator b
  constructor
  · exact h.genesis
  · rw [hslot, hstorage]
    exact h.uncommitted
  · rw [hslot, hstorage]
    exact h.undecided
  · intro slot hlt seat
    apply (greatest_track (p := p) s.1.settings b (h.signals slot hlt seat)).congr
    intro sb
    simp only [Carried, hslot, hstorage]
    rw [mem_record_track, or_right_comm]
  · exact fun slot hlt => (h.seated slot hlt).track b
  · rw [hslot, hstorage]
    intro seat sb hsb
    obtain ⟨x, hx, rfl⟩ := h.stored seat sb hsb
    exact ⟨x, mem_append_left _ hx, rfl⟩

theorem upgradeSignals_record (storage : Storage) (epoch : Nat) (v : Option VersionAndHash) :
    (storage.record epoch v).upgradeSignals = storage.upgradeSignals := by
  cases v <;> rfl

theorem upgradeSignals_commit (n : Node) (slot : Nat) (seat : SeatIndex) :
    ((step p n .commit).orchestrator.storage.upgradeSignals slot).lookup seat =
      if slot = n.slot + 1 then
        ((n.orchestrator.signals slot).lookup seat).or
          ((n.orchestrator.storage.upgradeSignals slot).lookup seat)
      else (n.orchestrator.storage.upgradeSignals slot).lookup seat := by
  obtain ⟨_, _, hown, hother, _⟩ := n.orchestrator.commitSignals_spec (p := p) (n.slot + 1)
  rw [n.commit_spec.2.2.1, upgradeSignals_record]
  by_cases hslot : slot = n.slot + 1
  · subst hslot
    rw [if_pos rfl, hown]
  · rw [if_neg hslot, hother slot hslot]

theorem Inv.commit (h : Inv p s) : Inv p (record p s .commit) := by
  have hslot : (record p s .commit).1.slot = s.1.slot + 1 := (s.1.commit_spec (p := p)).1
  have hupgradeSignals := upgradeSignals_commit (p := p) s.1
  have hstored : ∀ seat,
      ((record p s .commit).1.orchestrator.storage.upgradeSignals (s.1.slot + 1)).lookup seat =
        (s.1.orchestrator.signals (s.1.slot + 1)).lookup seat := by
    intro seat
    refine (hupgradeSignals _ seat).trans ?_
    rw [if_pos rfl, h.uncommitted _ (Nat.lt_succ_self _), Option.or_none]
  constructor <;> rw [hslot]
  · exact Nat.le_succ_of_le h.genesis
  · intro slot hlt seat
    refine (hupgradeSignals slot seat).trans ?_
    rw [if_neg (by omega)]
    exact h.uncommitted slot (by omega) seat
  · intro e he
    refine (decided_commit s.1 e).trans ?_
    rw [if_neg]
    · exact h.undecided e (by omega)
    · rintro ⟨rfl, hdecision⟩
      have hend := lastSlot_of_decision hdecision
      omega
  · intro slot hlt seat
    have hold : Greatest compareSignals (fun sb => ⟨slot, seat, sb⟩ ∈ s.2)
        ((s.1.orchestrator.signals slot).lookup seat) := by
      apply (h.signals slot (by omega) seat).congr
      intro sb
      have hnot : ¬ Carried p s.1 slot seat sb := fun hcarried => by
        have heq := hcarried.1
        omega
      simp [hnot]
    have hsignals : (record p s .commit).1.orchestrator.signals slot = _ :=
      congrFun s.1.commit_spec.2.1 slot
    simp only [Carried, hslot, hstored]
    rw [hsignals, (s.1.orchestrator.commitSignals_spec (s.1.slot + 1)).2.1 slot hlt seat]
    split_ifs with hnext
    · unfold carry
      cases hlookup : (s.1.orchestrator.signals (s.1.slot + 1)).lookup seat with
      | none =>
        apply hold.congr
        simp [record]
      | some sb' =>
        apply (hold.keep sb').congr
        simp [record, hnext, eq_comm]
    · apply hold.congr
      intro sb
      rw [← and_assoc]
      simp [record, hnext]
  · exact fun slot hlt => seated_commit h.genesis h.seated hlt
  · intro seat sb hsb
    rw [hstored] at hsb
    have hgreatest := h.signals (s.1.slot + 1) (Nat.lt_succ_self _) seat
    rw [hsb] at hgreatest
    rcases hgreatest.1 with hmem | hcarried
    · exact ⟨_, hmem, rfl⟩
    · exact h.stored seat sb hcarried.2.2

theorem inv_genesis (p : Params) (settings : Settings) : Inv p (genesis p settings, []) := by
  constructor
  · exact Nat.le_refl _
  · exact fun _ _ _ => rfl
  · exact fun _ _ => rfl
  · rintro slot _ seat sb (hmem | hcarried)
    · cases hmem
    · cases hcarried.2.2
  · exact fun _ _ seat hseat => (nomatch hseat)
  · exact fun _ _ hsb => (nomatch hsb)

theorem inv_recorded (p : Params) (settings : Settings) (inputs : List Input) :
    Inv p (recorded p (genesis p settings) inputs) := by
  induction inputs using reverseRecOn with
  | nil => exact inv_genesis p settings
  | append_singleton inputs input ih =>
    rw [recorded_append_singleton]
    cases input with
    | track b => exact ih.track b
    | commit => exact ih.commit

theorem inv_after (hn : (genesis p settings).after p inputs = n) :
    Inv p (n, (recorded p (genesis p settings) inputs).2) := by
  rw [← hn, ← recorded_fst]
  exact inv_recorded p settings inputs

/-! ## Section 4: Tracking the blocks again -/

theorem after_append (n : Node) (inputs later : List Input) :
    n.after p (inputs ++ later) = (n.after p inputs).after p later := foldl_append

variable {e₀ : Nat} {d : Option VersionAndHash} {later : List Input}

theorem Agrees.after (h : Agrees p e₀ d n r)
    (hcloses : ∀ pre post, later = pre ++ .commit :: post → Closes p e₀ d (n.after p pre)) :
    Agrees p e₀ d (n.after p later) (r.after p later) := by
  induction later using reverseRecOn with
  | nil => exact h
  | append_singleton later input ih =>
    rw [after_append, after_append]
    apply (ih _).step input
    · rintro rfl
      exact hcloses later [] rfl
    · intro pre post heq
      apply hcloses pre (post ++ [input])
      rw [heq, append_assoc, cons_append]

/-- No signals are stored with the latest commitment. -/
def Quiet (n : Node) : Prop :=
  ∀ seat, (n.orchestrator.storage.upgradeSignals n.slot).lookup seat = none

/-- One validator, epochs of four slots, and a version that was decided for two epochs in
    a row is scheduled. -/
def sampleParams : Params where
  timeProvider := .fourSlots
  committeeInEpoch := fun _ => some ((∅ : Map AccountID SeatIndex).insert 1 0)
  targetCommitteeSize := 1
  superMajority := superMajority
  superMajority_half := by
    intro n
    unfold superMajority
    omega
  windowSize := 1
  windowTargetRatio := 2
  activationOffset := 1
  mapOrder := id
  mapOrder_perm := fun _ => .refl _

/-- A validation block of the slot for the version. -/
def sampleBlock (id slot version : Nat) : Block := ⟨id, slot, 1, slot, .validation version 0⟩

def sampleCodecs : Codecs (Nat ⊕ SignaledBlock ⊕ VersionAndHash ⊕ SeatIndex) where
  slotIndex := .single .inl Sum.getLeft? (fun _ => rfl)
  length := .single .inl Sum.getLeft? (fun _ => rfl)
  seat := .single (fun seat => .inr (.inr (.inr seat)))
    (fun | .inr (.inr (.inr seat)) => some seat | _ => none) (fun _ => rfl)
  signaledBlock := .single (fun sb => .inr (.inl sb))
    (fun | .inr (.inl sb) => some sb | _ => none) (fun _ => rfl)
  epochIndex := .single .inl Sum.getLeft? (fun _ => rfl)
  versionAndHash := .single (fun v => .inr (.inr (.inl v)))
    (fun | .inr (.inr (.inl v)) => some v | _ => none) (fun _ => rfl)

/-- The version is signaled in slot 1, and again in slot 4 before slot 2 is committed. -/
def sampleInputs : List Input :=
  [.track (sampleBlock 1 1 2), .commit, .track (sampleBlock 2 4 2), .commit]

end AxonCore.Upgrade

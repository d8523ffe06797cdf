import AxonCore.Chains.Less
import AxonCore.Chains.Publication

/-! # The chains of the solid commitments

    A commitment is solid if the path to the root is published.  The bookkeeping cuts the tree
    of the solid commitments into chains, so everything that is known about such a cut holds
    after every run.

    * `Kept.decomposes`: the published commitments of a tree are cut into chains.
    * `chains_kept`: the chains after every run of admissible publications.
    * `parentOf_iff_published`: which commitments have their parents then.
    * `less_is_path_order`: the tie-break between the commitments of a slot, for every cut of
      the tree and for every order in which the commitments arrive. -/

namespace AxonCore.Chains

open Lib State

variable {ID : Type} [LinearOrder ID] {p : Params ID} {bound n : Nat} {s t : State ID} {c d q : ID}
  {x : ChainID}

/-! ## Section 1: Solid commitments -/

/-- The root, and the commitments whose parent is solid. -/
inductive Solid (p : Params ID) (s : State ID) : ID → Prop where
  | root : Solid p s p.root
  | child {c q : ID} : s.parentOf c = some q → Solid p s q → Solid p s c

/-- A commitment and what is before it. -/
def Ancestor (s : State ID) : ID → ID → Prop :=
  Relation.ReflTransGen fun c q => s.parentOf c = some q

section

variable (h : Kept p bound s)
include h

theorem Kept.solid_parent (hc : Solid p s c) (hne : c ≠ p.root) :
    s.parentOf c = some (p.previousCommitmentID c) ∧ Solid p s (p.previousCommitmentID c) ∧
      p.slot c = p.slot (p.previousCommitmentID c) + 1 := by
  cases hc with
  | root => exact absurd rfl hne
  | child hparent hq =>
    obtain ⟨_, _, heq, _, hslot, _⟩ := h.stable.shape.parent _ _ hparent
    subst heq
    exact ⟨hparent, hq, hslot⟩

/-- The solid commitments are a tree. -/
def Kept.tree (h : Kept p bound s) : LevelTree ID where
  level := p.slot
  root := p.root
  parent := p.previousCommitmentID
  Node := Solid p s
  node_root := .root
  node_parent := fun hc hne => (h.solid_parent hc hne).2.1
  level_parent := fun hc hne => (h.solid_parent hc hne).2.2

theorem Kept.published_of_solid (hc : Solid p s c) : s.published c = true := by
  cases hc with
  | root => exact h.stable.shape.root
  | child hparent _ => exact (h.stable.shape.parent _ _ hparent).1

/-- A tree of published commitments is cut into chains. -/
theorem Kept.decomposes {T : LevelTree ID} (hT : IsTree p T)
    (hpublished : ∀ c, T.Node c → s.published c = true) : Decomposes p T s := by
  obtain ⟨hlevel, hroot, hparent⟩ := hT
  have hparentOf : ∀ c, T.Node c → c ≠ T.root → s.parentOf c = some (T.parent c) := by
    intro c hc hne
    have hslot : p.slot p.root < p.slot c := by
      have hle := T.level_root_le (T.node_parent hc hne)
      have hstep := T.level_parent hc hne
      rw [hlevel] at hle hstep
      rw [hroot] at hle
      omega
    rcases h.waiting.complete c (hpublished c hc) hslot with hdone | hwaiting
    · rw [hparent, hdone]
    · -- the parent is published, so nothing waits for it
      have hunpublished := (h.waiting.spec c _ hwaiting).2.1
      have hnode := hpublished _ (T.node_parent hc hne)
      rw [hparent, hunpublished] at hnode
      cases hnode
  have hin : ∀ c, T.Node c → c ≠ T.root → InPlace s c (T.parent c) :=
    fun c hc hne => h.stable.inPlace c _ (hparentOf c hc hne)
  constructor
  · exact ⟨hlevel, hroot, hparent⟩
  · exact hparentOf
  · refine Option.eq_none_iff_forall_ne_some.mpr fun q hq => ?_
    have hslot := (h.stable.shape.parent _ q hq).2.2.2.1
    rw [hroot] at hslot
    omega
  · rw [hroot]
    exact h.stable.labels.root
  · intro c hc hne hmain
    have hin := hin c hc hne
    unfold InPlace at hin
    rwa [if_pos hmain] at hin
  · intro c hc hne hmain
    have hin := hin c hc hne
    unfold InPlace at hin
    rwa [if_neg hmain] at hin
  · intro c x hc hne hfork
    exact h.stable.labels.parentChain x c _ hfork (hparentOf c hc hne)
  · intro c x _ hx
    exact (h.stable.labels.slots x _ c).mpr ⟨hx, rfl⟩

theorem Kept.decomposes_tree : Decomposes p h.tree s :=
  h.decomposes ⟨rfl, rfl, rfl⟩ fun _ => h.published_of_solid

theorem Kept.ancestor_ancestorAt (hc : Solid p s c) (slot : Nat) :
    Ancestor s c (h.tree.ancestorAt c slot) := by
  apply h.tree.node_induction (P := fun c => Ancestor s c (h.tree.ancestorAt c slot)) _ _ c hc
  · rw [LevelTree.ancestorAt_root]
    exact .refl
  · intro c hnode hne ih
    rcases Nat.lt_or_ge slot (p.slot c) with hlt | hge
    · rw [h.tree.ancestorAt_parent hnode hne hlt]
      exact .head (h.solid_parent hnode hne).1 ih
    · rw [h.tree.ancestorAt_of_level_le hge]
      exact .refl

end

/-! ## Section 2: The chains after a run -/

/-- After every run of admissible publications, with all callbacks run: a solid commitment is
    on the chain of its parent if it is the main child and begins a chain otherwise; the chain
    of a solid commitment gives its ancestors by slot; and a chain that has a commitment knows
    its latest one. -/
theorem chains_kept (hp : p.Consecutive) (inputs : List (State.Input ID))
    (hslots : ∀ i ∈ inputs, p.slot i.commitment < n)
    (hadmissible : AllSteps (step p n) Admissible (init p) inputs) :
    ∃ s, run (step p n) (init p) inputs = some s ∧
      (∀ c q, Solid p s c → s.parentOf c = some q →
        ((s.commitments q).mainChild = some c → ∃ x, s.chainOf q = some x ∧ s.chainOf c = some x) ∧
        ((s.commitments q).mainChild ≠ some c →
          ∃ x, s.chainOf c = some x ∧ (s.chains x).forkingPoint = some c)) ∧
      (∀ c x, Solid p s c → s.chainOf c = some x →
        ∀ slot, p.slot p.root ≤ slot → slot ≤ p.slot c →
          ∃ d, Ancestor s c d ∧ p.slot d = slot ∧
            ∀ m, p.slot c - p.slot p.root < m →
              s.commitmentAt p m (some x) slot = some (some d)) ∧
      ∀ c x, s.chainOf c = some x → ∃ d, (s.chains x).latestCommitment = some d ∧
        s.chainOf d = some x ∧ ∀ c, s.chainOf c = some x → p.slot c ≤ p.slot d := by
  obtain ⟨s, hrun, hkept, _⟩ := run_kept hp (kept_init p (n - 1)) hslots hadmissible
  have hcut := hkept.decomposes_tree
  refine ⟨s, hrun, ?_, ?_, fun c x hx => hkept.stable.latest x c hx⟩
  · intro c q hc hq
    have hin := hkept.stable.inPlace c q hq
    unfold InPlace at hin
    constructor
    · intro hmain
      rw [if_pos hmain] at hin
      obtain ⟨x, _, hx, _⟩ := hcut.forkingPoint hc
      exact ⟨x, hin ▸ hx, hx⟩
    · intro hmain
      rwa [if_neg hmain] at hin
  · intro c x hc hx slot hfrom hto
    refine ⟨hkept.tree.ancestorAt c slot, hkept.ancestor_ancestorAt hc slot, ?_, ?_⟩
    · exact hkept.tree.level_ancestorAt hc hfrom hto
    · exact fun m hm => hcut.commitmentAt_eq hc hx hfrom hto hm

/-- Two forks above the root; the commitments 21 and 22 are on top of one of them. -/
def forkedParams : Params Nat where
  slot := fun c => c / 10
  previousCommitmentID := fun c => if c < 20 then 0 else if c = 22 then 11 else c - 10
  root := 0

theorem forkedParams_consecutive : forkedParams.Consecutive := by
  intro c hc
  simp only [forkedParams] at hc ⊢
  split_ifs <;> omega

theorem chains_kept_promotion :
    ∃ s, run (step forkedParams 5) (init forkedParams)
        [.publish 21, .publish 10, .publish 11, .publish 22, .publishFromEngine 11 0] = some s ∧
      ∀ c x, s.chainOf c = some x → ∃ d, (s.chains x).latestCommitment = some d ∧
        s.chainOf d = some x ∧ ∀ c, s.chainOf c = some x → c / 10 ≤ d / 10 := by
  obtain ⟨s, hrun, _, _, hlatest⟩ := chains_kept (n := 5) forkedParams_consecutive
    [.publish 21, .publish 10, .publish 11, .publish 22, .publishFromEngine 11 0]
    (by decide) (by decide +kernel)
  exact ⟨s, hrun, hlatest⟩

/-- Without the condition it fails.  A main child that is promoted again is dropped from the
    slots of the chain by the child that gives way to it; and a commitment that an engine
    publishes below one that waited for it ends up as the latest commitment of the chain. -/
theorem promotion_back_loses_commitment :
    (∃ s, run (step forkedParams 5) (init forkedParams)
        [.publish 10, .publish 11, .publishFromEngine 11 0, .publishFromEngine 10 0] = some s ∧
      s.parentOf 10 = some forkedParams.root ∧ s.chainOf 10 = some 0 ∧
      s.commitmentAt forkedParams 5 (some 0) (forkedParams.slot 10) = some none) ∧
    ∃ s, run (step forkedParams 5) (init forkedParams)
        [.publish 20, .publishFromEngine 10 0] = some s ∧
      s.chainOf 20 = some 0 ∧ forkedParams.slot 10 < forkedParams.slot 20 ∧
      (s.chains 0).latestCommitment = some 10 := by
  decide +kernel

/-- No publication is lost: the commitments of the run are published, and a commitment has
    its parent if and only if both are, in whatever order they arrived. -/
theorem parentOf_iff_published (hp : p.Consecutive) (inputs : List (State.Input ID))
    (hslots : ∀ i ∈ inputs, p.slot i.commitment < n)
    (hadmissible : AllSteps (step p n) Admissible (init p) inputs) :
    ∃ s, run (step p n) (init p) inputs = some s ∧
      (∀ c, s.published c = true ↔ c = p.root ∨ ∃ i ∈ inputs, i.commitment = c) ∧
      ∀ c q, s.parentOf c = some q ↔
        s.published c = true ∧ s.published q = true ∧ q = p.previousCommitmentID c ∧
          p.slot p.root < p.slot c := by
  obtain ⟨s, hrun, hkept, hpublished⟩ := run_kept hp (kept_init p (n - 1)) hslots hadmissible
  refine ⟨s, hrun, fun c => ?_, fun c q => ⟨fun hparent => ?_, ?_⟩⟩
  · rw [hpublished c, init, decide_eq_true_iff]
  · obtain ⟨hc, hq, heq, hslot, _⟩ := hkept.stable.shape.parent c q hparent
    exact ⟨hc, hq, heq, hslot⟩
  · rintro ⟨hc, hq, rfl, hslot⟩
    -- a commitment only waits for one that is not published
    refine (hkept.waiting.complete c hc hslot).resolve_right fun hwaiting => ?_
    rw [(hkept.waiting.spec _ _ hwaiting).2.1] at hq
    cases hq

/-- Commitment 21 arrives before the commitment 11 that it builds on, and gets it as its
    parent; the commitment 20 builds on one that does not arrive. -/
theorem parentOf_iff_published_waiting :
    ∃ s, run (step forkedParams 5) (init forkedParams) [.publish 21, .publish 20, .publish 11] =
        some s ∧
      s.published 21 = true ∧ s.parentOf 21 = some 11 ∧ s.parentOf 11 = some 0 ∧
      s.published 20 = true ∧ s.parentOf 20 = none := by
  obtain ⟨s, hrun, hpublished, hparent⟩ := parentOf_iff_published (n := 5) forkedParams_consecutive
    [.publish 21, .publish 20, .publish 11] (by decide) (by decide +kernel)
  refine ⟨s, hrun, (hpublished 21).mpr (by decide), (hparent 21 11).mpr ?_,
    (hparent 11 0).mpr ?_, (hpublished 20).mpr (by decide), ?_⟩
  · rw [hpublished, hpublished]
    decide
  · rw [hpublished, hpublished]
    decide
  · refine Option.eq_none_iff_forall_ne_some.mpr fun q hq => ?_
    obtain ⟨_, hq, rfl, _⟩ := (hparent 20 q).mp hq
    rw [hpublished] at hq
    revert hq
    decide

/-! ## Section 3: The tie-break -/

/-- For every cut of the tree into chains, `Less` returns and tells which of two commitments of
    the same slot has the smaller ID at the first slot where their paths from the root differ;
    so it does after every order of arrival.  On the commitments of a slot this is a strict
    total order, and it depends on the tree only. -/
theorem less_is_path_order (hp : p.Consecutive) (T : LevelTree ID) (hT : IsTree p T) :
    (∀ s, Decomposes p T s → ∀ c d, T.Node c → T.Node d → p.slot c = p.slot d →
      ∃ bound, ∀ m, bound < m → ∃ b, s.less p m (some c) (some d) = some b ∧
        (b = true ↔ T.Precedes c d)) ∧
    (∀ (n : Nat) (arrivals : List ID), (∀ c ∈ arrivals, p.slot c < n) →
      (∀ c, T.Node c → c = T.root ∨ c ∈ arrivals) →
      ∃ s, run (step p n) (init p) (arrivals.map .publish) = some s ∧
        ∀ c d, T.Node c → T.Node d → p.slot c = p.slot d →
          ∃ bound, ∀ m, bound < m → ∃ b, s.less p m (some c) (some d) = some b ∧
            (b = true ↔ T.Precedes c d)) ∧
    ((∀ c, ¬ T.Precedes c c) ∧
      (∀ c d e, T.level c = T.level d → T.Precedes c d → T.Precedes d e → T.Precedes c e) ∧
      ∀ c d, T.level c = T.level d → c ≠ d → T.Precedes c d ∨ T.Precedes d c) := by
  refine ⟨fun s h c d => h.less_spec, ?_, T.precedes_irrefl,
    fun c d e hlevel => T.precedes_trans hlevel, fun c d hlevel => T.precedes_total hlevel⟩
  intro n arrivals hslots hnodes
  obtain ⟨s, hrun, hkept, hpublished⟩ := run_kept hp (kept_init p (n - 1))
    (List.forall_mem_map.mpr hslots : ∀ i ∈ arrivals.map Input.publish, p.slot i.commitment < n)
    (allSteps_of_forall (List.forall_mem_map.mpr fun _ _ _ => trivial) _)
  refine ⟨s, hrun, fun c d => Decomposes.less_spec (hkept.decomposes hT ?_)⟩
  intro c hc
  rcases hnodes c hc with hroot | hmem
  · rw [hroot, hT.2.1]
    exact hkept.stable.shape.root
  · exact (hpublished c).mpr (.inr ⟨.publish c, List.mem_map_of_mem hmem, rfl⟩)

/-- The tree of the forks. -/
def forkedTree : LevelTree Nat where
  level := fun c => c / 10
  root := 0
  parent := fun c => if c < 20 then 0 else if c = 22 then 11 else c - 10
  Node := fun c => c ∈ [0, 10, 11, 20, 21, 22]
  node_root := by decide
  node_parent := by
    have hnodes : ∀ c ∈ [0, 10, 11, 20, 21, 22], c ≠ 0 →
        (if c < 20 then 0 else if c = 22 then 11 else c - 10) ∈ [0, 10, 11, 20, 21, 22] := by decide
    exact fun {c} => hnodes c
  level_parent := by
    have hnodes : ∀ c ∈ [0, 10, 11, 20, 21, 22], c ≠ 0 →
        c / 10 = (if c < 20 then 0 else if c = 22 then 11 else c - 10) / 10 + 1 := by decide
    exact fun {c} => hnodes c

theorem less_is_path_order_forks :
    forkedParams.Consecutive ∧ IsTree forkedParams forkedTree ∧
      ∃ s, run (step forkedParams 5) (init forkedParams)
          ([22, 21, 11, 20, 10].map .publish) = some s ∧
        ∃ bound, ∀ m, bound < m → ∃ b, s.less forkedParams m (some 20) (some 22) = some b ∧
          (b = true ↔ forkedTree.Precedes 20 22) := by
  have hT : IsTree forkedParams forkedTree := ⟨rfl, rfl, rfl⟩
  refine ⟨forkedParams_consecutive, hT, ?_⟩
  obtain ⟨_, harrivals, _⟩ := less_is_path_order forkedParams_consecutive forkedTree hT
  have hnodes : ∀ c ∈ [0, 10, 11, 20, 21, 22], c = 0 ∨ c ∈ [22, 21, 11, 20, 10] := by decide
  obtain ⟨s, hrun, hless⟩ := harrivals 5 [22, 21, 11, 20, 10] (by decide) hnodes
  have hnode : forkedTree.Node 20 ∧ forkedTree.Node 22 := by
    show 20 ∈ [0, 10, 11, 20, 21, 22] ∧ 22 ∈ [0, 10, 11, 20, 21, 22]
    decide
  exact ⟨s, hrun, hless 20 22 hnode.1 hnode.2 rfl⟩

end AxonCore.Chains

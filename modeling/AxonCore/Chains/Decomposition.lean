import AxonCore.Lib.LevelTree
import AxonCore.Chains.Model

/-! # A tree cut into chains

    A choice of main children cuts a tree of commitments into chains.  `Decomposes` says that
    a state has such a decomposition: main children are on the chain of their parent, other
    children begin a chain of their own, and the chains know their commitments by slot.

    * `Decomposes.forkingPoint`: the commitments of a chain lie on one path, which begins at
      its forking point.
    * `Decomposes.commitmentAt_eq`: `Chain.Commitment` gives the ancestors. -/

namespace AxonCore.Chains

open Lib Option

variable {ID : Type} [LinearOrder ID]

/-- The tree of the commitments for which `Node` holds. -/
def IsTree (p : Params ID) (T : LevelTree ID) : Prop :=
  T.level = p.slot ∧ T.root = p.root ∧ T.parent = p.previousCommitmentID

/-- The state has the tree cut into chains. -/
structure Decomposes (p : Params ID) (T : LevelTree ID) (s : State ID) : Prop where
  tree : IsTree p T
  parentOf : ∀ c, T.Node c → c ≠ T.root → s.parentOf c = some (T.parent c)
  parentOf_root : s.parentOf T.root = none
  /-- The chain of the root begins with it. -/
  root : ∃ x, s.chainOf T.root = some x ∧ (s.chains x).forkingPoint = some T.root
  main : ∀ c, T.Node c → c ≠ T.root → (s.commitments (T.parent c)).mainChild = some c →
    s.chainOf c = s.chainOf (T.parent c)
  fork : ∀ c, T.Node c → c ≠ T.root → (s.commitments (T.parent c)).mainChild ≠ some c →
    ∃ x, s.chainOf c = some x ∧ (s.chains x).forkingPoint = some c
  parentChain : ∀ c x, T.Node c → c ≠ T.root → (s.chains x).forkingPoint = some c →
    (s.chains x).parentChain = s.chainOf (T.parent c)
  commitments : ∀ c x, T.Node c → s.chainOf c = some x →
    (s.chains x).commitments (p.slot c) = some c

/-- The forking point of a commitment's chain is its ancestor, and so are the other commitments
    of the chain between them. -/
def OnPath (p : Params ID) (T : LevelTree ID) (s : State ID) (c : ID) : Prop :=
  ∃ x f, s.chainOf c = some x ∧ (s.chains x).forkingPoint = some f ∧
    p.slot T.root ≤ p.slot f ∧ p.slot f ≤ p.slot c ∧ T.ancestorAt c (p.slot f) = f ∧
    ∀ slot, p.slot f ≤ slot → slot ≤ p.slot c → s.chainOf (T.ancestorAt c slot) = some x

namespace Decomposes

variable {p : Params ID} {T : LevelTree ID} {s : State ID} (h : Decomposes p T s) {c f : ID}
  {x : ChainID} {slot : Nat}

include h

omit [LinearOrder ID] in
theorem level_eq (c : ID) : T.level c = p.slot c := congrFun h.tree.1 c

/-! ## Section 1: Chains are paths -/

omit [LinearOrder ID] in
theorem eq_of_chainOf {d : ID} (hc : T.Node c) (hd : T.Node d) (hcx : s.chainOf c = some x)
    (hdx : s.chainOf d = some x) (hslot : p.slot c = p.slot d) : c = d := by
  have hcc := h.commitments c x hc hcx
  rw [hslot, h.commitments d x hd hdx] at hcc
  exact (some.inj hcc).symm

theorem forkingPoint (hc : T.Node c) : OnPath p T s c := by
  -- a commitment that begins a chain is alone between the forking point and itself
  have hself : ∀ c x, T.Node c → s.chainOf c = some x →
      (s.chains x).forkingPoint = some c → OnPath p T s c := by
    intro c x hnode hx hf
    have hroot := T.level_root_le hnode
    rw [h.level_eq, h.level_eq] at hroot
    have hanc : ∀ slot, p.slot c ≤ slot → T.ancestorAt c slot = c :=
      fun slot hle => T.ancestorAt_of_level_le ((h.level_eq c).trans_le hle)
    refine ⟨x, c, hx, hf, hroot, le_rfl, hanc _ le_rfl, ?_⟩
    intro slot hle _
    rw [hanc slot hle, hx]
  apply T.node_induction (P := OnPath p T s) _ _ c hc
  · obtain ⟨x, hx, hf⟩ := h.root
    exact hself T.root x T.node_root hx hf
  · intro c hnode hroot ih
    by_cases hmain : (s.commitments (T.parent c)).mainChild = some c
    · -- the main child prolongs the path of its parent
      obtain ⟨x, f, hx, hf, hrootf, hle, hanc, hpath⟩ := ih
      have hlevel := T.level_parent hnode hroot
      rw [h.level_eq, h.level_eq] at hlevel
      have hchain := h.main c hnode hroot hmain
      have hbelow : ∀ slot, slot < p.slot c →
          T.ancestorAt c slot = T.ancestorAt (T.parent c) slot :=
        fun slot hlt => T.ancestorAt_parent hnode hroot ((h.level_eq c).symm ▸ hlt)
      refine ⟨x, f, hchain.trans hx, hf, hrootf, by omega, ?_, ?_⟩
      · rw [hbelow _ (by omega), hanc]
      · intro slot hfrom hto
        rcases Nat.lt_or_ge slot (p.slot c) with hlt | hge
        · rw [hbelow slot hlt]
          exact hpath slot hfrom (by omega)
        · rw [T.ancestorAt_of_level_le ((h.level_eq c).trans_le hge), hchain, hx]
    · obtain ⟨x, hx, hf⟩ := h.fork c hnode hroot hmain
      exact hself c x hnode hx hf

/-- The forking point of a commitment's chain is itself on that chain, and the parent of a
    forking point is on the parent chain. -/
theorem chainOf_forkingPoint (hc : T.Node c) (hx : s.chainOf c = some x)
    (hf : (s.chains x).forkingPoint = some f) :
    T.Node f ∧ s.chainOf f = some x ∧ p.slot T.root ≤ p.slot f ∧ p.slot f ≤ p.slot c ∧
      T.ancestorAt c (p.slot f) = f := by
  obtain ⟨x', f', hx', hf', hroot, hle, hanc, hpath⟩ := h.forkingPoint hc
  obtain rfl : x = x' := some.inj (hx.symm.trans hx')
  obtain rfl : f = f' := some.inj (hf.symm.trans hf')
  refine ⟨hanc ▸ T.node_ancestorAt hc _, ?_, hroot, hle, hanc⟩
  have := hpath (p.slot f) le_rfl hle
  rwa [hanc] at this

theorem chainOf_ancestorAt (hc : T.Node c) (hx : s.chainOf c = some x)
    (hf : (s.chains x).forkingPoint = some f) (hfrom : p.slot f ≤ slot) (hto : slot ≤ p.slot c) :
    s.chainOf (T.ancestorAt c slot) = some x := by
  obtain ⟨x', f', hx', hf', _, _, _, hpath⟩ := h.forkingPoint hc
  obtain rfl : x = x' := some.inj (hx.symm.trans hx')
  obtain rfl : f = f' := some.inj (hf.symm.trans hf')
  exact hpath slot hfrom hto

/-! ## Section 2: Reading a chain -/

theorem commitmentAt_eq {n : Nat} (hc : T.Node c) (hx : s.chainOf c = some x)
    (hfrom : p.slot T.root ≤ slot) (hto : slot ≤ p.slot c) (hn : p.slot c - p.slot T.root < n) :
    s.commitmentAt p n (some x) slot = some (some (T.ancestorAt c slot)) := by
  induction n generalizing c x with
  | zero => omega
  | succ n ih =>
    obtain ⟨_, f, hx', hf, _, _, _, _⟩ := h.forkingPoint hc
    obtain rfl := some.inj (hx.symm.trans hx')
    obtain ⟨hfnode, hfx, hroot, hle, hanc⟩ := h.chainOf_forkingPoint hc hx hf
    unfold State.commitmentAt
    rw [hf]
    dsimp only
    rcases Nat.lt_trichotomy (p.slot f) slot with hlt | heq | hgt
    · rw [if_neg (by omega), if_pos hlt]
      have hpath := h.chainOf_ancestorAt hc hx hf hlt.le hto
      have hslot : p.slot (T.ancestorAt c slot) = slot := by
        rw [← h.level_eq]
        apply T.level_ancestorAt hc
        · rwa [h.level_eq]
        · rwa [h.level_eq]
      have := h.commitments _ _ (T.node_ancestorAt hc slot) hpath
      rw [hslot] at this
      rw [this]
    · rw [if_pos heq, ← heq, hanc]
    · -- before the forking point: the search goes on in the parent chain
      rw [if_neg (by omega), if_neg (by omega)]
      have hfroot : f ≠ T.root := by
        intro hcontra
        rw [hcontra] at hgt
        omega
      have hparent := T.node_parent hfnode hfroot
      have hlevel := T.level_parent hfnode hfroot
      rw [h.level_eq, h.level_eq] at hlevel
      obtain ⟨y, _, hy, _, _, _, _, _⟩ := h.forkingPoint hparent
      rw [h.parentChain f _ hfnode hfroot hf, hy, ih hparent hy (by omega) (by omega)]
      congr 2
      rw [← T.ancestorAt_parent hfnode hfroot ((h.level_eq f).symm ▸ hgt)]
      nth_rewrite 1 [← hanc]
      exact T.ancestorAt_ancestorAt hc hgt.le

end Decomposes

end AxonCore.Chains

import Mathlib.Data.Nat.Find
import Mathlib.Order.Lattice

/-! # Trees with levels

    A tree given by its root and the parents of its nodes, where each node is one level above
    its parent.  Every node has one ancestor on each level between the root and itself, and
    two nodes of the same level are compared where their paths from the root part.

    * `LevelTree.ancestorAt`: the ancestor of a node on a level.
    * `LevelTree.node_induction`: induction from the root upwards.
    * `LevelTree.Precedes`: the order of the nodes on the first level where they differ; a
      strict total order on each level. -/

namespace AxonCore.Lib

/-- The nodes are a part of the type `N`; `parent` says nothing about the root. -/
structure LevelTree (N : Type) where
  level : N → Nat
  root : N
  parent : N → N
  Node : N → Prop
  node_root : Node root
  node_parent : ∀ {x}, Node x → x ≠ root → Node (parent x)
  level_parent : ∀ {x}, Node x → x ≠ root → level x = level (parent x) + 1

namespace LevelTree

variable {N : Type} (T : LevelTree N) {x y z : N} {l : Nat}

/-! ## Section 1: Ancestors -/

theorem node_induction {P : N → Prop} (hroot : P T.root)
    (hstep : ∀ x, T.Node x → x ≠ T.root → P (T.parent x) → P x) : ∀ x, T.Node x → P x := by
  have hlevel : ∀ n x, T.level x = n → T.Node x → P x := by
    intro n
    induction n using Nat.strong_induction_on with
    | _ n ih =>
      intro x hx hnode
      by_cases hroot' : x = T.root
      · exact hroot' ▸ hroot
      · have hlt := T.level_parent hnode hroot'
        exact hstep x hnode hroot' (ih _ (by omega) _ rfl (T.node_parent hnode hroot'))
  exact fun x => hlevel _ x rfl

theorem level_root_le (hx : T.Node x) : T.level T.root ≤ T.level x := by
  apply T.node_induction (P := fun x => T.level T.root ≤ T.level x) le_rfl _ x hx
  intro x hnode hroot ih
  have := T.level_parent hnode hroot
  omega

section Ancestors

variable [DecidableEq N] {l' : Nat}

/-- A number of steps towards the root. -/
def up : Nat → N → N
  | 0, x => x
  | k + 1, x => if x = T.root then x else up k (T.parent x)

/-- The ancestor on a level, or the root below its level. -/
def ancestorAt (x : N) (l : Nat) : N := T.up (T.level x - l) x

@[simp] theorem up_root (k : Nat) : T.up k T.root = T.root := by
  cases k <;> simp [up]

@[simp] theorem ancestorAt_root (l : Nat) : T.ancestorAt T.root l = T.root := T.up_root _

theorem ancestorAt_of_level_le (h : T.level x ≤ l) : T.ancestorAt x l = x := by
  unfold ancestorAt
  rw [Nat.sub_eq_zero_of_le h]
  rfl

variable (hx : T.Node x)
include hx

theorem ancestorAt_parent (hroot : x ≠ T.root) (hl : l < T.level x) :
    T.ancestorAt x l = T.ancestorAt (T.parent x) l := by
  have hlevel := T.level_parent hx hroot
  unfold ancestorAt
  rw [show T.level x - l = (T.level (T.parent x) - l) + 1 by omega]
  exact if_neg hroot

theorem node_ancestorAt (l : Nat) : T.Node (T.ancestorAt x l) := by
  apply T.node_induction (P := fun x => T.Node (T.ancestorAt x l)) _ _ x hx
  · rw [ancestorAt_root]
    exact T.node_root
  · intro x hnode hroot ih
    rcases Nat.lt_or_ge l (T.level x) with hlt | hge
    · rwa [T.ancestorAt_parent hnode hroot hlt]
    · rwa [T.ancestorAt_of_level_le hge]

theorem level_ancestorAt (hl : T.level T.root ≤ l) (hlx : l ≤ T.level x) :
    T.level (T.ancestorAt x l) = l := by
  revert hlx
  apply T.node_induction (P := fun x => l ≤ T.level x → T.level (T.ancestorAt x l) = l) _ _ x hx
  · intro hle
    rw [ancestorAt_root]
    omega
  · intro x hnode hroot ih hle
    have hlevel := T.level_parent hnode hroot
    rcases Nat.lt_or_ge l (T.level x) with hlt | hge
    · rw [T.ancestorAt_parent hnode hroot hlt]
      exact ih (by omega)
    · rw [T.ancestorAt_of_level_le hge]
      omega

theorem ancestorAt_ancestorAt (hl : l' ≤ l) :
    T.ancestorAt (T.ancestorAt x l) l' = T.ancestorAt x l' := by
  apply T.node_induction
    (P := fun x => T.ancestorAt (T.ancestorAt x l) l' = T.ancestorAt x l') _ _ x hx
  · simp
  · intro x hnode hroot ih
    rcases Nat.lt_or_ge l (T.level x) with hlt | hge
    · rw [T.ancestorAt_parent hnode hroot hlt, ih, T.ancestorAt_parent hnode hroot (by omega)]
    · rw [T.ancestorAt_of_level_le hge]

theorem ancestorAt_congr (hy : T.Node y) (hl : l' ≤ l)
    (h : T.ancestorAt x l = T.ancestorAt y l) : T.ancestorAt x l' = T.ancestorAt y l' := by
  rw [← T.ancestorAt_ancestorAt hx hl, ← T.ancestorAt_ancestorAt hy hl, h]

end Ancestors

/-! ## Section 2: The order of a level -/

section Order

variable [LinearOrder N]

/-- On the first level where the paths from the root differ, `y` has the greater node. -/
def Precedes (x y : N) : Prop :=
  ∃ l, l ≤ T.level x ∧ (∀ l' < l, T.ancestorAt x l' = T.ancestorAt y l') ∧
    T.ancestorAt x l < T.ancestorAt y l

theorem precedes_irrefl (x : N) : ¬ T.Precedes x x := by
  intro h
  obtain ⟨l, _, _, hlt⟩ := h
  exact lt_irrefl _ hlt

theorem precedes_trans (hlevel : T.level x = T.level y) (hxy : T.Precedes x y)
    (hyz : T.Precedes y z) : T.Precedes x z := by
  obtain ⟨l, hl, hbelow, hlt⟩ := hxy
  obtain ⟨l', hl', hbelow', hlt'⟩ := hyz
  -- the first level where one of the two pairs differs
  rcases Nat.lt_trichotomy l l' with h | h | h
  · refine ⟨l, hl, fun k hk => ?_, ?_⟩
    · rw [hbelow k hk, hbelow' k (by omega)]
    · rw [← hbelow' l h]
      exact hlt
  · subst h
    refine ⟨l, hl, fun k hk => ?_, hlt.trans hlt'⟩
    rw [hbelow k hk, hbelow' k hk]
  · refine ⟨l', by omega, fun k hk => ?_, ?_⟩
    · rw [hbelow k (by omega), hbelow' k hk]
    · rw [hbelow l' h]
      exact hlt'

theorem precedes_total (hlevel : T.level x = T.level y) (hne : x ≠ y) :
    T.Precedes x y ∨ T.Precedes y x := by
  have hlast : T.ancestorAt x (T.level x) ≠ T.ancestorAt y (T.level x) := by
    rwa [T.ancestorAt_of_level_le le_rfl, T.ancestorAt_of_level_le hlevel.ge]
  have hdiffer : ∃ l, T.ancestorAt x l ≠ T.ancestorAt y l := ⟨_, hlast⟩
  have hfirst := Nat.find_spec hdiffer
  have hbelow : ∀ l' < Nat.find hdiffer, T.ancestorAt x l' = T.ancestorAt y l' :=
    fun l' hl' => not_not.mp (Nat.find_min hdiffer hl')
  have hle : Nat.find hdiffer ≤ T.level x := Nat.find_min' hdiffer hlast
  rcases lt_or_gt_of_ne hfirst with h | h
  · exact .inl ⟨_, hle, hbelow, h⟩
  · exact .inr ⟨_, hlevel ▸ hle, fun l' hl' => (hbelow l' hl').symm, h⟩

/-- The comparison on a level where the nodes differ and their parents do not. -/
theorem precedes_iff (hx : T.Node x) (hy : T.Node y) (hl : l < T.level x)
    (hsame : T.ancestorAt x l = T.ancestorAt y l)
    (hdiffer : T.ancestorAt x (l + 1) ≠ T.ancestorAt y (l + 1)) :
    T.Precedes x y ↔ T.ancestorAt x (l + 1) < T.ancestorAt y (l + 1) := by
  constructor
  · intro h
    obtain ⟨k, _, hbelow, hlt⟩ := h
    -- below they agree, and above the first difference there is nothing to compare
    have hk : k = l + 1 := by
      rcases Nat.lt_trichotomy k (l + 1) with h | h | h
      · have := T.ancestorAt_congr hx hy (Nat.le_of_lt_succ h) hsame
        exact absurd this hlt.ne
      · exact h
      · exact absurd (hbelow (l + 1) h) hdiffer
    exact hk ▸ hlt
  · intro hlt
    exact ⟨l + 1, hl, fun l' hl' => T.ancestorAt_congr hx hy (Nat.le_of_lt_succ hl') hsame, hlt⟩

end Order

end LevelTree

end AxonCore.Lib

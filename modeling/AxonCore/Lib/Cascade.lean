import Mathlib.Data.List.Induction
import AxonCore.Lib.Walk

/-! # Collecting walks

    A walk that marks every node it visits and collects some of them: a node
    that is eligible is collected if it reaches a threshold of its own, or if
    one of its children was collected before it.  The collected nodes are
    prepended to a list.

    Each node is visited once, so what the walk does to a node depends on the
    value of the node before the walk and on the nodes collected so far.

    * `Cascade.run_value`: the values after the walk.
    * `Cascade.mem_collected`: which nodes are collected.
    * `Cascade.collected_induction`: every collected node has a cause.
    * `Cascade.exists_collected_eq`: the collected nodes are in the reverse of
      the visiting order.
-/

namespace AxonCore.Lib

open List

variable {N β : Type} [DecidableEq N]

/-- What a collecting walk does at a node, in terms of the value the node has
    before it is visited. -/
structure Cascade (N β : Type) where
  mark : N → β → β
  /-- Whether the mark is new. -/
  added : N → β → Bool
  /-- Whether the node may be collected. -/
  eligible : N → β → Bool
  /-- Whether the node, once marked, is collected on its own account. -/
  reached : N → β → Bool
  children : N → List N

namespace Cascade

variable (c : Cascade N β)

/-- The decision to collect `x`, with `collected` the nodes collected so far. -/
def collects (collected : List N) (x : N) (b : β) : Bool :=
  c.eligible x b && (c.reached x b || (c.children x).any (fun y => decide (y ∈ collected)))

/-- One visit. -/
def visit (a : (N → β) × List N) (x : N) : (N → β) × List N :=
  (fun y => if y = x then c.mark x (a.1 x) else a.1 y,
    if c.collects a.2 x (a.1 x) then x :: a.2 else a.2)

/-- The visits of a list of nodes, in order. -/
def run (order : List N) (a : (N → β) × List N) : (N → β) × List N := order.foldl c.visit a

variable {c}

@[simp] theorem run_nil (a : (N → β) × List N) : c.run [] a = a := rfl

theorem run_cons (x : N) (order : List N) (a : (N → β) × List N) :
    c.run (x :: order) a = c.run order (c.visit a x) := rfl

theorem run_append (pre post : List N) (a : (N → β) × List N) :
    c.run (pre ++ post) a = c.run post (c.run pre a) := foldl_append

variable {x : N}

theorem collects_eq_true {collected : List N} {b : β} :
    c.collects collected x b = true ↔ c.eligible x b = true ∧
      (c.reached x b = true ∨ ∃ y ∈ c.children x, y ∈ collected) := by
  simp [collects]

variable {order : List N}

theorem run_value_of_notMem (hx : x ∉ order) (a : (N → β) × List N) :
    (c.run order a).1 x = a.1 x := by
  induction order generalizing a with
  | nil => rfl
  | cons y order ih =>
    have hne : x ≠ y := fun h => hx (h ▸ mem_cons_self)
    rw [run_cons, ih (fun h => hx (mem_cons_of_mem _ h))]
    simp [visit, hne]

omit [DecidableEq N] in
theorem notMem_of_nodup {pre post : List N} (h : (pre ++ x :: post).Nodup) : x ∉ pre :=
  fun hx => (nodup_append.mp h).2.2 x hx x mem_cons_self rfl

theorem run_value (hnodup : order.Nodup) (x : N) (a : (N → β) × List N) :
    (c.run order a).1 x = if x ∈ order then c.mark x (a.1 x) else a.1 x := by
  split
  · next hx =>
    obtain ⟨pre, post, rfl⟩ := append_of_mem hx
    have hpost : x ∉ post := (nodup_cons.mp (nodup_append.mp hnodup).2.1).1
    rw [run_append, run_cons, run_value_of_notMem hpost]
    simp [visit, run_value_of_notMem (notMem_of_nodup hnodup)]
  · next hx => exact run_value_of_notMem hx a

/-- The collected nodes are prepended, so they stand in the reverse of the
    visiting order. -/
theorem exists_collected_eq (order : List N) (a : (N → β) × List N) :
    ∃ l, List.Sublist l order ∧ (c.run order a).2 = l.reverse ++ a.2 := by
  induction order generalizing a with
  | nil => exact ⟨[], List.Sublist.refl _, rfl⟩
  | cons x order ih =>
    obtain ⟨l, hl, heq⟩ := ih (c.visit a x)
    by_cases hx : c.collects a.2 x (a.1 x) = true
    · refine ⟨x :: l, hl.cons_cons x, ?_⟩
      rw [run_cons, heq]
      simp [visit, hx]
    · refine ⟨l, hl.cons x, ?_⟩
      rw [run_cons, heq]
      simp [visit, hx]

variable {a : (N → β) × List N} {y : N}

theorem mem_collected_of_mem (hx : x ∈ a.2) :
    x ∈ (c.run order a).2 := by
  obtain ⟨l, -, heq⟩ := exists_collected_eq (c := c) order a
  rw [heq]
  exact mem_append_right _ hx

theorem mem_visit : x ∈ (c.visit a y).2 ↔ x ∈ a.2 ∨ (x = y ∧ c.collects a.2 y (a.1 y) = true) := by
  unfold visit
  split <;> simp [*, or_comm]

theorem mem_collected (hnodup : order.Nodup) :
    x ∈ (c.run order a).2 ↔ x ∈ a.2 ∨
      ∃ pre post, order = pre ++ x :: post ∧ c.collects (c.run pre a).2 x (a.1 x) = true := by
  induction order generalizing a with
  | nil => simp
  | cons y order ih =>
    obtain ⟨hy, hnodup'⟩ := nodup_cons.mp hnodup
    -- the visit of `y` does not change the value of a later node
    have hlater : ∀ pre post, order = pre ++ x :: post → (c.visit a y).1 x = a.1 x := by
      rintro pre post rfl
      exact if_neg fun h => hy (by simp [h])
    rw [run_cons, ih hnodup', mem_visit]
    constructor
    · rintro ((hx | ⟨rfl, hcol⟩) | ⟨pre, post, horder, hcol⟩)
      · exact .inl hx
      · exact .inr ⟨[], order, rfl, hcol⟩
      · rw [hlater pre post horder] at hcol
        exact .inr ⟨y :: pre, post, congrArg _ horder, hcol⟩
    · rintro (hx | ⟨pre, post, heq, hcol⟩)
      · exact .inl (.inl hx)
      · cases pre with
        | nil =>
          obtain ⟨rfl, rfl⟩ := List.cons.inj heq
          exact .inl (.inr ⟨rfl, hcol⟩)
        | cons z pre =>
          obtain ⟨rfl, rfl⟩ := List.cons.inj heq
          rw [← hlater pre post rfl] at hcol
          exact .inr ⟨pre, post, rfl, hcol⟩

theorem mem_order_of_collected (hx : x ∈ (c.run order a).2) : x ∈ a.2 ∨ x ∈ order := by
  obtain ⟨l, hl, heq⟩ := exists_collected_eq (c := c) order a
  rw [heq, mem_append, mem_reverse] at hx
  exact hx.symm.imp_right (fun h => hl.subset h)

theorem mem_collected_of_reached (hnodup : order.Nodup) (hx : x ∈ order)
    (hel : c.eligible x (a.1 x) = true) (hr : c.reached x (a.1 x) = true) :
    x ∈ (c.run order a).2 := by
  obtain ⟨pre, post, rfl⟩ := append_of_mem hx
  exact (mem_collected hnodup).mpr (.inr ⟨pre, post, rfl, collects_eq_true.mpr ⟨hel, .inl hr⟩⟩)

theorem mem_collected_of_child {pre post : List N} (hnodup : (pre ++ post).Nodup)
    (hx : x ∈ (c.run pre a).2) (hxy : x ∈ c.children y) (hy : y ∈ post)
    (hel : c.eligible y (a.1 y) = true) : y ∈ (c.run (pre ++ post) a).2 := by
  obtain ⟨mid, post, rfl⟩ := append_of_mem hy
  refine (mem_collected hnodup).mpr (.inr ⟨pre ++ mid, post, by simp, ?_⟩)
  refine collects_eq_true.mpr ⟨hel, .inr ⟨x, hxy, ?_⟩⟩
  rw [run_append]
  exact mem_collected_of_mem hx

theorem eligible_of_collected (hnodup : order.Nodup) (hx : x ∈ (c.run order a).2) :
    x ∈ a.2 ∨ c.eligible x (a.1 x) = true := by
  rcases (mem_collected hnodup).mp hx with hx | ⟨pre, post, -, hcol⟩
  · exact .inl hx
  · exact .inr (collects_eq_true.mp hcol).1

/-- Every collected node has a cause: it was collected before the walk, it
    reaches its own threshold, or a child was collected. -/
theorem collected_induction (hnodup : order.Nodup) {P : N → Prop} (hold : ∀ x ∈ a.2, P x)
    (hreached : ∀ x ∈ order, c.eligible x (a.1 x) = true → c.reached x (a.1 x) = true → P x)
    (hchild : ∀ x ∈ order, c.eligible x (a.1 x) = true → ∀ y ∈ c.children x,
      y ∈ (c.run order a).2 → P y → P x) :
    ∀ x ∈ (c.run order a).2, P x := by
  -- induction on the part of the order visited so far
  have key : ∀ pre post, order = pre ++ post → ∀ x ∈ (c.run pre a).2, P x := by
    intro pre
    induction pre using reverseRecOn with
    | nil => exact fun _ _ x hx => hold x hx
    | append_singleton pre z ih =>
      intro post horder x hx
      have horder' : order = pre ++ z :: post := by rw [horder]; simp
      have hz : z ∉ pre := notMem_of_nodup (horder' ▸ hnodup)
      rw [run_append, run_cons, run_nil, mem_visit, run_value_of_notMem hz] at hx
      rcases hx with hx | ⟨rfl, hcol⟩
      · exact ih _ horder' x hx
      · have hmem : x ∈ order := by rw [horder']; simp
        obtain ⟨hel, hr | ⟨y, hy, hycol⟩⟩ := collects_eq_true.mp hcol
        · exact hreached x hmem hel hr
        · refine hchild x hmem hel y hy ?_ (ih _ horder' y hycol)
          rw [horder', run_append]
          exact mem_collected_of_mem hycol
  exact key order [] (by simp)

/-! ## The walk of a cascade -/

variable (c) in
/-- What a breadth-first walk with the visits of a cascade guarantees about its
    visiting order. -/
structure Spec (next : N → List N) (expands : N → Prop) (start : List N)
    (a : (N → β) × List N) (order : List N) : Prop where
  nodup : order.Nodup
  start_mem : ∀ x ∈ start, x ∈ order
  /-- A node whose mark is new hands the walk on. -/
  closed_added : ∀ x ∈ order, c.added x (a.1 x) = true → ∀ y ∈ next x, y ∈ order
  /-- A collected node hands the walk on. -/
  closed_collected : ∀ x ∈ (c.run order a).2, x ∉ a.2 → ∀ y ∈ next x, y ∈ order
  exists_level : ∃ level : N → Nat, order.Pairwise (fun x y => level x ≤ level y) ∧
    ∀ x ∈ order, Depth next expands start (level x) x

/-- A walk whose visits, seen through `view`, are those of a cascade. -/
theorem walk_cascade {σ : Type} {visit : σ → N → σ × Bool} {next : N → List N} {expands : N → Prop}
    {start : List N} {s s' : σ} (h : WalkSpec visit next expands start s order s')
    (view : σ → (N → β) × List N) (hview : ∀ s x, view (visit s x).1 = c.visit (view s) x)
    (hgo : ∀ s x, c.added x ((view s).1 x) = true ∨
      c.collects (view s).2 x ((view s).1 x) = true → (visit s x).2 = true) :
    view s' = c.run order (view s) ∧ c.Spec next expands start (view s) order := by
  have hfold : ∀ (l : List N) (s : σ),
      view (l.foldl (fun s x => (visit s x).1) s) = c.run l (view s) :=
    fun _ _ => (foldl_hom view fun s x => (hview s x).symm).symm
  have hvalue : ∀ pre x post, order = pre ++ x :: post →
      (c.run pre (view s)).1 x = (view s).1 x := by
    intro pre x post horder
    exact run_value_of_notMem (notMem_of_nodup (horder ▸ h.nodup)) _
  refine ⟨by rw [h.eq_foldl, hfold], h.nodup, h.start_mem, ?_, ?_, h.exists_level⟩
  · intro x hx hadd
    obtain ⟨pre, post, horder⟩ := append_of_mem hx
    refine h.closed pre x post horder (hgo _ _ (.inl ?_))
    rw [hfold, hvalue pre x post horder]
    exact hadd
  · intro x hx hold
    rcases (mem_collected h.nodup).mp hx with hx | ⟨pre, post, horder, hcol⟩
    · exact absurd hx hold
    · refine h.closed pre x post horder (hgo _ _ (.inr ?_))
      rw [hfold, hvalue pre x post horder]
      exact hcol

section spec

variable {next : N → List N} {expands : N → Prop} {start : List N}
  {a : (N → β) × List N} {order : List N}

section

variable (h : c.Spec next expands start a order)
include h

theorem Spec.exists_depth (hx : x ∈ order) : ∃ n, Depth next expands start n x := by
  obtain ⟨level, -, hdepth⟩ := h.exists_level
  exact ⟨level x, hdepth x hx⟩

/-- A node with a single depth is visited after each of its predecessors. -/
theorem Spec.split_of_unique_depth (hx : x ∈ order) (hy : y ∈ order) (hexp : expands x)
    (hxy : y ∈ next x)
    (huniq : ∀ n m, Depth next expands start n y → Depth next expands start m y → n = m) :
    ∃ pre post, order = pre ++ x :: post ∧ y ∈ post := by
  obtain ⟨level, hsorted, hdepth⟩ := h.exists_level
  have hlevel : level y = level x + 1 :=
    huniq _ _ (hdepth y hy) (.next (hdepth x hx) hexp hxy)
  obtain ⟨pre, post, rfl⟩ := append_of_mem hx
  refine ⟨pre, post, rfl, ?_⟩
  rcases mem_append.mp hy with hpre | hpost
  · -- everything before `x` is at most as deep as `x`
    have := (pairwise_append.mp hsorted).2.2 y hpre x mem_cons_self
    omega
  · rcases mem_cons.mp hpost with rfl | hpost
    · omega
    · exact hpost

theorem Spec.mem_collected_of_unique_depth (hx : x ∈ (c.run order a).2) (hold : x ∉ a.2)
    (hexp : expands x) (hxy : y ∈ next x) (hchild : x ∈ c.children y)
    (hel : c.eligible y (a.1 y) = true)
    (huniq : ∀ n m, Depth next expands start n y → Depth next expands start m y → n = m) :
    y ∈ (c.run order a).2 := by
  have hxo : x ∈ order := (mem_order_of_collected hx).resolve_left hold
  have hyo : y ∈ order := h.closed_collected x hx hold y hxy
  obtain ⟨pre, post, horder, hy⟩ := h.split_of_unique_depth hxo hyo hexp hxy huniq
  have hnodup := h.nodup
  rw [horder, ← singleton_append, ← append_assoc] at hnodup ⊢
  refine mem_collected_of_child hnodup ?_ hchild hy hel
  -- `x` is not visited later, so it was collected by its own visit
  rw [horder, ← singleton_append, ← append_assoc, run_append] at hx
  rcases mem_order_of_collected hx with hx | hx
  · exact hx
  · exact absurd rfl ((nodup_append.mp hnodup).2.2 x (by simp) x hx)

/-- With single depths, the list of collected nodes has no node in front of one
    of its successors. -/
theorem Spec.collected_pairwise (hexp : ∀ x ∈ (c.run order a).2, x ∉ a.2 → expands x)
    (huniq : ∀ y ∈ (c.run order a).2, y ∉ a.2 → ∀ n m,
      Depth next expands start n y → Depth next expands start m y → n = m)
    (hold : ∀ x ∈ order, ∀ y ∈ a.2, x ≠ y ∧ y ∉ next x)
    (hpw : a.2.Pairwise (fun x y => y ∉ next x)) :
    (c.run order a).2.Pairwise (fun x y => y ∉ next x) := by
  obtain ⟨l, hl, heq⟩ := exists_collected_eq (c := c) order a
  have hmem : ∀ x ∈ l, x ∈ (c.run order a).2 ∧ x ∉ a.2 := by
    intro x hx
    refine ⟨by rw [heq]; simp [hx], fun hxa => ?_⟩
    exact (hold x (hl.subset hx) x hxa).1 rfl
  obtain ⟨level, hlevel, hdepth⟩ := h.exists_level
  have hsorted : l.Pairwise (fun y x => y ∉ next x) := by
    refine (hlevel.sublist hl).imp_of_mem ?_
    intro y x hy hx hle hyx
    obtain ⟨hycol, hyold⟩ := hmem y hy
    obtain ⟨hxcol, hxold⟩ := hmem x hx
    -- a successor is one level deeper, so it is not visited first
    have hnext := huniq y hycol hyold _ _ (hdepth y (hl.subset hy))
      (.next (hdepth x (hl.subset hx)) (hexp x hxcol hxold) hyx)
    omega
  rw [heq]
  refine pairwise_append.mpr ⟨pairwise_reverse.mpr hsorted, hpw, ?_⟩
  intro x hx y hy
  exact (hold x (hl.subset (mem_reverse.mp hx)) y hy).2

end

end spec

end Cascade

end AxonCore.Lib

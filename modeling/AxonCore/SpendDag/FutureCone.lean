import AxonCore.SpendDag.Operations

/-! # What an eviction reaches, and what it spares

    A call of `Evict` takes a reference away only if one of its two ends is evicted,
    and it touches no votes (`Spares`).  In the other direction, every spender that
    it evicts takes others along: a rejected spender all of its children, and an
    accepted one all spenders that conflict with it (`TakesAlong`).  Both are proved
    for the whole cascade, whatever evictions it is nested in.  The cascade ends
    because every call below another one has one spender less to evict. -/

namespace AxonCore.SpendDag

open AxonCore.Lib List

variable {SpenderID ResourceID VoteRank : Type} {d d' : SpendDAG SpenderID ResourceID VoteRank}
  {x : SpenderID}

/-! ## Section 1: References go only with one of their ends -/

/-- From `d` to `d'` a reference is lost only if one of its ends is evicted. -/
structure Spares (d d' : SpendDAG SpenderID ResourceID VoteRank) : Prop extends Evicts d d' where
  linked : Linked d.links → Linked d'.links
  keepsParents : ∀ x, ∀ y ∈ (d.spender x).parents, y ∈ (d'.spender x).parents ∨
    (d'.spender x).evicted = true ∨ (d'.spender y).evicted = true
  keepsConflicts : ∀ x, ∀ y ∈ (d.spender x).conflictingSpenders,
    y ∈ (d'.spender x).conflictingSpenders ∨
      (d'.spender x).evicted = true ∨ (d'.spender y).evicted = true
  keepsSpendSets : ∀ x, ∀ r ∈ (d.spender x).spendSets, r ∈ (d'.spender x).spendSets ∨
    (d'.spender x).evicted = true
  votes : ∀ x, (d'.spender x).voters = (d.spender x).voters ∧
    (d'.spender x).attestors = (d.spender x).attestors ∧
    (d'.spender x).latestVotes = (d.spender x).latestVotes

theorem Spares.refl (d : SpendDAG SpenderID ResourceID VoteRank) : Spares d d where
  toEvicts := Evicts.refl d
  linked := id
  keepsParents := fun _ _ hy => .inl hy
  keepsConflicts := fun _ _ hy => .inl hy
  keepsSpendSets := fun _ _ hr => .inl hr
  votes := fun _ => ⟨rfl, rfl, rfl⟩

theorem Spares.trans {d₁ d₂ d₃ : SpendDAG SpenderID ResourceID VoteRank} (h : Spares d₁ d₂)
    (h' : Spares d₂ d₃) : Spares d₁ d₃ where
  toEvicts := h.toEvicts.trans h'.toEvicts
  linked := h'.linked ∘ h.linked
  keepsParents := by
    intro x y hy
    rcases h.keepsParents x y hy with hy | hx | hy
    · exact h'.keepsParents x y hy
    · exact .inr (.inl (h'.evicted x hx))
    · exact .inr (.inr (h'.evicted y hy))
  keepsConflicts := by
    intro x y hy
    rcases h.keepsConflicts x y hy with hy | hx | hy
    · exact h'.keepsConflicts x y hy
    · exact .inr (.inl (h'.evicted x hx))
    · exact .inr (.inr (h'.evicted y hy))
  keepsSpendSets := by
    intro x r hr
    rcases h.keepsSpendSets x r hr with hr | hx
    · exact h'.keepsSpendSets x r hr
    · exact .inr (h'.evicted x hx)
  votes := by
    intro x
    obtain ⟨hv, ha, hl⟩ := h.votes x
    obtain ⟨hv', ha', hl'⟩ := h'.votes x
    exact ⟨hv'.trans hv, ha'.trans ha, hl'.trans hl⟩

theorem Spares.keepsChildren (h : Spares d d') (hlinked : Linked d.links) {k : SpenderID}
    (hk : k ∈ (d.spender x).children) :
    k ∈ (d'.spender x).children ∨ (d'.spender x).evicted = true ∨
      (d'.spender k).evicted = true := by
  have hx : x ∈ (d.spender k).parents := hlinked.parent_iff.mpr hk
  rcases h.keepsParents k x hx with hx' | hk' | hx'
  · exact .inl ((h.linked hlinked).parent_iff.mp hx')
  · exact .inr (.inr hk')
  · exact .inr (.inl hx')

variable [DecidableEq SpenderID]

theorem spares_mark (d : SpendDAG SpenderID ResourceID VoteRank) (c : SpenderID) :
    Spares d (d.modify c (fun s => { s with evicted := true })) := by
  constructor
  case toEvicts => exact evicts_mark d c
  case linked => exact fun h => linked_mark h c
  case keepsParents => exact fun x y hy => .inl (by simpa [mark_spender] using hy)
  case keepsConflicts => exact fun x y hy => .inl (by simpa [mark_spender] using hy)
  case keepsSpendSets => exact fun x r hr => .inl (by simpa [mark_spender] using hr)
  case votes => exact fun x => by simp [mark_spender]

theorem mark_evicted (d : SpendDAG SpenderID ResourceID VoteRank) (c : SpenderID) :
    ((d.modify c (fun s => { s with evicted := true })).spender c).evicted = true := by
  rw [modify_spender, if_pos rfl]

variable {c : SpenderID}

section

variable (hc : (d.spender c).evicted = true)
include hc

theorem spares_removeParent (k : SpenderID) : Spares d (removeParent d k c) := by
  have hrem := removes_removeParent d k c
  have hspender := removeParent_spender d k c
  constructor
  case toEvicts => exact hrem.toEvicts
  case linked => exact fun h => linked_removeParent h k c
  case keepsParents =>
    intro x y hy
    by_cases hxy : x = k ∧ y = c
    · rw [hrem.evicted_eq, hrem.evicted_eq, hxy.2]
      exact .inr (.inr hc)
    · exact .inl (mem_parents_removeParent.mpr ⟨hy, hxy⟩)
  case keepsConflicts => exact fun x y hy => .inl ((hspender x).1.symm ▸ hy)
  case keepsSpendSets => exact fun x r hr => .inl ((hspender x).2.2.symm ▸ hr)
  case votes =>
    intro x
    unfold removeParent
    split
    · simp only [unregisterChild, modify_spender]
      split <;> split <;> exact ⟨rfl, rfl, rfl⟩
    · exact ⟨rfl, rfl, rfl⟩

theorem spares_releaseChildren :
    Spares d (releaseChildren d c) ∧ Removes d (releaseChildren d c) ∧
      ∀ x, ((releaseChildren d c).spender x).conflictingSpenders =
        (d.spender x).conflictingSpenders := by
  unfold releaseChildren
  generalize (d.spender c).children = ks
  induction ks generalizing d with
  | nil => exact ⟨Spares.refl d, Removes.refl d, fun _ => rfl⟩
  | cons k ks ih =>
    have hrem := removes_removeParent d k c
    obtain ⟨hspares, hrem', hconf⟩ := ih ((hrem.evicted_eq c).trans hc)
    exact ⟨(spares_removeParent hc k).trans hspares, hrem.trans hrem',
      fun x => (hconf x).trans (removeParent_spender d k c x).1⟩

theorem spares_leaveParents : Spares d (leaveParents d c) := by
  have hspender := leaveParents_spender d c
  constructor
  case toEvicts => exact (removes_leaveParents d c).toEvicts
  case linked => exact fun h => linked_leaveParents h c
  case keepsParents =>
    intro x y hy
    rw [hspender, hspender]
    by_cases hx : x = c
    · exact .inr (.inl (hx ▸ hc))
    · exact .inl (by simpa [hx] using hy)
  case keepsConflicts => exact fun x y hy => .inl (by rw [hspender]; exact hy)
  case keepsSpendSets => exact fun x r hr => .inl (by rw [hspender]; exact hr)
  case votes => exact fun x => by rw [hspender]; exact ⟨rfl, rfl, rfl⟩

theorem spares_leaveSpendSets [DecidableEq ResourceID] : Spares d (leaveSpendSets d c) := by
  have hspender := leaveSpendSets_spender d c
  constructor
  case toEvicts => exact (removes_leaveSpendSets d c).toEvicts
  case linked => exact fun h => linked_leaveSpendSets h c
  case keepsParents => exact fun x y hy => .inl (by rw [hspender]; exact hy)
  case keepsConflicts => exact fun x y hy => .inl (by rw [hspender]; exact hy)
  case keepsSpendSets =>
    intro x r hr
    rw [hspender]
    by_cases hx : x = c
    · exact .inr (hx ▸ hc)
    · exact .inl (by simpa [hx] using hr)
  case votes => exact fun x => by rw [hspender]; exact ⟨rfl, rfl, rfl⟩

theorem spares_removeConflict (o : SpenderID) : Spares d (removeConflict d c o) := by
  have hspender := removeConflict_spender d c o
  constructor
  case toEvicts => exact (removes_removeConflict d c o).toEvicts
  case linked => exact fun h => linked_removeConflict h c o
  case keepsParents => exact fun x y hy => .inl ((hspender x).1.symm ▸ hy)
  case keepsConflicts =>
    intro x y hy
    rw [(hspender x).2.2.2, (hspender y).2.2.2]
    by_cases hx : x = c
    · exact .inr (.inl (hx ▸ hc))
    by_cases hy' : y = c
    · exact .inr (.inr (hy' ▸ hc))
    · refine .inl (mem_conflicting_removeConflict.mpr ⟨hy, ?_, ?_⟩)
      · exact fun hxy => hx hxy.1
      · exact fun hxy => hy' hxy.2
  case keepsSpendSets => exact fun x r hr => .inl ((hspender x).2.2.1.symm ▸ hr)
  case votes =>
    intro x
    simp only [removeConflict, removeConflicting, modify_spender]
    split <;> split <;> exact ⟨rfl, rfl, rfl⟩

end

variable [DecidableEq ResourceID]

theorem spares_conflicting {fuel : Nat}
    (ih : ∀ {e e' : Eviction SpenderID ResourceID VoteRank} {x : SpenderID},
      evict fuel e x = some e' → Spares e.1 e'.1 ∧ (e'.1.spender x).evicted = true)
    {e e' : Eviction SpenderID ResourceID VoteRank} {o : SpenderID}
    (hc : (e.1.spender c).evicted = true)
    (hrun : (if (removeConflict e.1 c o).state c = .accepted then
        evict fuel (removeConflict e.1 c o, e.2) o
      else some (removeConflict e.1 c o, e.2)) = some e') :
    Spares e.1 e'.1 ∧ (e.1.state c = .accepted → (e'.1.spender o).evicted = true) := by
  have hfirst := spares_removeConflict hc o
  split at hrun
  · obtain ⟨hspares, ho⟩ := ih hrun
    exact ⟨hfirst.trans hspares, fun _ => ho⟩
  · next hstate =>
    cases hrun
    exact ⟨hfirst, fun ha => absurd ((hfirst.state c).trans ha) hstate⟩

theorem evict_spares (fuel : Nat) : ∀ {e e' : Eviction SpenderID ResourceID VoteRank}
    {c : SpenderID}, evict fuel e c = some e' →
      Spares e.1 e'.1 ∧ (e'.1.spender c).evicted = true := by
  induction fuel with
  | zero => exact fun h => nomatch h
  | succ fuel ih =>
    intro e e' c hrun
    rw [evict] at hrun
    split at hrun
    · next hc =>
      cases hrun
      exact ⟨Spares.refl _, hc⟩
    obtain ⟨e₂, hchildren, hrest⟩ := Option.bind_eq_some_iff.mp hrun
    obtain ⟨e₄, hconflicts, he'⟩ := Option.map_eq_some_iff.mp hrest
    subst he'
    have h₁ := spares_mark e.1 c
    have hc₁ := mark_evicted e.1 c
    set d₁ := e.1.modify c (fun s => { s with evicted := true })
    have h₂ : Spares d₁ e₂.1 := by
      split at hchildren
      · exact run_invariant (I := fun s => Spares d₁ s.1)
          (fun s k s' hs hs' => hs.trans (ih hs').1) (Spares.refl d₁) hchildren
      · cases hchildren
        exact (spares_releaseChildren hc₁).1
    have h₃ := (spares_leaveParents (h₂.evicted c hc₁)).trans
      (spares_leaveSpendSets ((spares_leaveParents (h₂.evicted c hc₁)).evicted c
        (h₂.evicted c hc₁)))
    set d₃ := leaveSpendSets (leaveParents e₂.1 c) c
    have hc₃ := h₃.evicted c (h₂.evicted c hc₁)
    have h₄ : Spares d₃ e₄.1 := run_invariant (I := fun s => Spares d₃ s.1)
      (fun s o s' hs hs' => hs.trans (spares_conflicting ih (hs.evicted c hc₃) hs').1)
      (Spares.refl d₃) hconflicts
    exact ⟨((h₁.trans h₂).trans h₃).trans h₄, h₄.evicted c hc₃⟩

/-! ## Section 2: Evicted spenders take others along -/

section TakesAlong

omit [DecidableEq SpenderID] [DecidableEq ResourceID]

/-- What the eviction of `x`, in the DAG as it was in `d₀`, has done in `d`. -/
def TakesAlong (d₀ d : SpendDAG SpenderID ResourceID VoteRank) (x : SpenderID) : Prop :=
  (d₀.state x = .rejected → ∀ k ∈ (d₀.spender x).children, (d.spender k).evicted = true) ∧
    (d₀.state x = .accepted →
      ∀ y ∈ (d₀.spender x).conflictingSpenders, (d.spender y).evicted = true)

/-- Every spender that is evicted since `d₀` has taken others along, but for those
    in `F`, which are under way. -/
def Reached (d₀ : SpendDAG SpenderID ResourceID VoteRank) (F : SpenderID → Prop)
    (d : SpendDAG SpenderID ResourceID VoteRank) : Prop :=
  ∀ x, (d.spender x).evicted = true →
    (d₀.spender x).evicted = true ∨ F x ∨ TakesAlong d₀ d x

variable {d₀ : SpendDAG SpenderID ResourceID VoteRank} {F : SpenderID → Prop}

theorem TakesAlong.mono (h : TakesAlong d₀ d x) (hev : Evicts d d') : TakesAlong d₀ d' x :=
  ⟨fun hr k hk => hev.evicted k (h.1 hr k hk), fun ha y hy => hev.evicted y (h.2 ha y hy)⟩

theorem Reached.removes (h : Reached d₀ F d) (hrem : Removes d d') : Reached d₀ F d' := by
  intro x hx
  rw [hrem.evicted_eq] at hx
  exact (h x hx).imp_right (fun h' => h'.imp_right (fun ht => ht.mono hrem.toEvicts))

theorem Reached.finish (h : Reached d₀ (fun x => F x ∨ x = c) d) (hc : TakesAlong d₀ d c) :
    Reached d₀ F d := by
  intro x hx
  rcases h x hx with h₀ | (hF | rfl) | ht
  · exact .inl h₀
  · exact .inr (.inl hF)
  · exact .inr (.inr hc)
  · exact .inr (.inr ht)

end TakesAlong

variable {d₀ : SpendDAG SpenderID ResourceID VoteRank} {nodes : List SpenderID}

omit [DecidableEq ResourceID] in
theorem Reached.mark {F : SpenderID → Prop} (h : Reached d₀ F d) (c : SpenderID) :
    Reached d₀ (fun x => F x ∨ x = c) (d.modify c (fun s => { s with evicted := true })) := by
  intro x hx
  by_cases hxc : x = c
  · exact .inr (.inl (.inr hxc))
  rw [modify_spender, if_neg hxc] at hx
  rcases h x hx with h₀ | hF | ht
  · exact .inl h₀
  · exact .inr (.inl (.inl hF))
  · exact .inr (.inr (ht.mono (spares_mark d c).toEvicts))

/-- What a call of `Evict` does, whatever else is under way. -/
def EvictionKeepsReached (d₀ : SpendDAG SpenderID ResourceID VoteRank) (fuel : Nat) : Prop :=
  ∀ {F : SpenderID → Prop} {e e' : Eviction SpenderID ResourceID VoteRank} {c : SpenderID},
    Spares d₀ e.1 → Reached d₀ F e.1 → evict fuel e c = some e' → Reached d₀ F e'.1

section Phases

variable {F : SpenderID → Prop} {fuel : Nat} {e e' : Eviction SpenderID ResourceID VoteRank}

/-- First phase of a rejected spender: all children in the list are evicted. -/
theorem reached_children (ih : EvictionKeepsReached d₀ fuel) (h₀ : Spares d₀ e.1)
    (hreach : Reached d₀ F e.1) {ks : List SpenderID} (hrun : run (evict fuel) e ks = some e') :
    Spares e.1 e'.1 ∧ Reached d₀ F e'.1 ∧ ∀ k ∈ ks, (e'.1.spender k).evicted = true := by
  rw [← and_assoc]
  refine run_each (I := fun s => Spares e.1 s.1 ∧ Reached d₀ F s.1)
    (D := fun s k => (s.1.spender k).evicted = true) ?_ ⟨Spares.refl _, hreach⟩ hrun
  rintro s k s' ⟨hspares, hreach⟩ hs'
  obtain ⟨hspares', hk⟩ := evict_spares fuel hs'
  exact ⟨⟨hspares.trans hspares', ih (h₀.trans hspares) hreach hs'⟩, hk, hspares'.evicted⟩

/-- Second phase: an accepted spender evicts those in the list, which conflict with
    it. -/
theorem reached_conflicting (ih : EvictionKeepsReached d₀ fuel) (h₀ : Spares d₀ e.1)
    (hreach : Reached d₀ F e.1) (hc : (e.1.spender c).evicted = true) {os : List SpenderID}
    (hrun : run (fun (e : Eviction SpenderID ResourceID VoteRank) spender =>
        if (removeConflict e.1 c spender).state c = .accepted then
          evict fuel (removeConflict e.1 c spender, e.2) spender
        else some (removeConflict e.1 c spender, e.2)) e os = some e') :
    Spares e.1 e'.1 ∧ Reached d₀ F e'.1 ∧
      (e.1.state c = .accepted → ∀ o ∈ os, (e'.1.spender o).evicted = true) := by
  have heach := run_each (I := fun s => Spares e.1 s.1 ∧ Reached d₀ F s.1)
    (D := fun s o => e.1.state c = .accepted → (s.1.spender o).evicted = true) ?_
    ⟨Spares.refl _, hreach⟩ hrun
  · obtain ⟨⟨hspares, hreach'⟩, hall⟩ := heach
    exact ⟨hspares, hreach', fun ha o ho => hall o ho ha⟩
  · rintro s o s' ⟨hspares, hreach⟩ hs'
    have hcs := hspares.evicted c hc
    obtain ⟨hspares', ho⟩ := spares_conflicting (evict_spares fuel) hcs hs'
    have hreach' := hreach.removes (removes_removeConflict s.1 c o)
    refine ⟨⟨hspares.trans hspares', ?_⟩, fun ha => ho ((hspares.state c).trans ha),
      fun j hj ha => hspares'.evicted j (hj ha)⟩
    split at hs'
    · exact ih ((h₀.trans hspares).trans (spares_removeConflict hcs o)) hreach' hs'
    · cases hs'
      exact hreach'

end Phases

theorem evict_reached (hlinked₀ : Linked d₀.links) (fuel : Nat) :
    EvictionKeepsReached d₀ fuel := by
  induction fuel with
  | zero => exact fun _ _ h => nomatch h
  | succ fuel ih =>
    intro F e e' c h₀ hreach hrun
    rw [evict] at hrun
    split at hrun
    · cases hrun
      exact hreach
    next hlive =>
    obtain ⟨e₂, hchildren, hrest⟩ := Option.bind_eq_some_iff.mp hrun
    obtain ⟨e₄, hconflicts, he'⟩ := Option.map_eq_some_iff.mp hrest
    subst he'
    have hmark := spares_mark e.1 c
    have hc₁ := mark_evicted e.1 c
    have hreach₁ := hreach.mark c
    set d₁ := e.1.modify c (fun s => { s with evicted := true }) with hd₁
    have hd₁c : d₁.spender c = { e.1.spender c with evicted := true } := by
      rw [hd₁, modify_spender, if_pos rfl]
    have h₁ : Spares d₀ d₁ := h₀.trans hmark
    -- first phase: a rejected spender evicts its children, any other one releases them
    have hphase : Spares d₁ e₂.1 ∧ Reached d₀ (fun x => F x ∨ x = c) e₂.1 ∧
        (d₀.state c = .rejected →
          ∀ k ∈ (d₁.spender c).children, (e₂.1.spender k).evicted = true) ∧
        (d₀.state c = .accepted →
          (e₂.1.spender c).conflictingSpenders = (d₁.spender c).conflictingSpenders) := by
      split at hchildren
      · next hr =>
        obtain ⟨hspares, hreach₂, hall⟩ := reached_children ih h₁ hreach₁ hchildren
        refine ⟨hspares, hreach₂, fun _ => hall, fun ha => ?_⟩
        rw [h₁.state, ha] at hr
        cases hr
      · next hr =>
        cases hchildren
        obtain ⟨hspares, hrem, hconf⟩ := spares_releaseChildren hc₁
        exact ⟨hspares, hreach₁.removes hrem, fun hr' => absurd ((h₁.state c).trans hr') hr,
          fun _ => hconf c⟩
    obtain ⟨h₂, hreach₂, hrejected, hconf⟩ := hphase
    have hc₂ := h₂.evicted c hc₁
    have hleave := spares_leaveParents hc₂
    have h₃ := hleave.trans (spares_leaveSpendSets (hleave.evicted c hc₂))
    have hreach₃ := hreach₂.removes
      ((removes_leaveParents e₂.1 c).trans (removes_leaveSpendSets _ c))
    have hconf₃ : ((leaveSpendSets (leaveParents e₂.1 c) c).spender c).conflictingSpenders =
        (e₂.1.spender c).conflictingSpenders := by
      rw [leaveSpendSets_spender, leaveParents_spender]
    -- second phase: an accepted spender evicts those that conflict with it
    obtain ⟨h₄, hreach₄, haccepted⟩ := reached_conflicting ih ((h₁.trans h₂).trans h₃) hreach₃
      (h₃.evicted c hc₂) hconflicts
    refine hreach₄.finish ⟨fun hr k hk => ?_, fun ha y hy => ?_⟩
    · apply h₄.evicted k
      apply h₃.evicted k
      rcases h₀.keepsChildren hlinked₀ hk with hk | hc | hk
      · exact hrejected hr k (by rwa [hd₁c])
      · exact absurd hc hlive
      · exact h₂.evicted k (hmark.evicted k hk)
    · rcases h₀.keepsConflicts c y hy with hy | hc | hy
      · apply haccepted ((((h₁.trans h₂).trans h₃).state c).trans ha)
        rwa [hconf₃, hconf ha, hd₁c]
      · exact absurd hc hlive
      · exact h₄.evicted y (h₃.evicted y (h₂.evicted y (hmark.evicted y hy)))

/-! ## Section 3: The cascade ends -/

/-- How many of the spenders are not evicted yet. -/
def unevicted (nodes : List SpenderID) (d : SpendDAG SpenderID ResourceID VoteRank) : Nat :=
  nodes.countP (fun x => !(d.spender x).evicted)

omit [DecidableEq SpenderID] [DecidableEq ResourceID] in
theorem Evicts.unevicted_le (h : Evicts d d') (nodes : List SpenderID) :
    unevicted nodes d' ≤ unevicted nodes d := by
  apply countP_mono_left
  intro x _ hx
  cases hd : (d.spender x).evicted with
  | false => rfl
  | true => simp [h.evicted x hd] at hx

omit [DecidableEq ResourceID] in
theorem unevicted_mark (hc : c ∈ nodes) (hlive : ¬(d.spender c).evicted = true) :
    unevicted nodes (d.modify c (fun s => { s with evicted := true })) < unevicted nodes d := by
  rw [unevicted, unevicted, countP_eq_length_filter, countP_eq_length_filter]
  apply length_filter_lt hc (by simpa using hlive)
  intro x
  by_cases hx : x = c <;> simp [mark_spender, hx]

/-- Eviction returns: every call below it has one spender less to evict. -/
theorem evict_isSome (fuel : Nat) :
    ∀ {e : Eviction SpenderID ResourceID VoteRank} {c : SpenderID},
      (∀ x ∈ nodes, ∀ y, y ∈ (e.1.spender x).children ∨ y ∈ (e.1.spender x).conflictingSpenders →
        y ∈ nodes) → c ∈ nodes → unevicted nodes e.1 < fuel → (evict fuel e c).isSome := by
  induction fuel with
  | zero => exact fun _ _ h => nomatch h
  | succ fuel ih =>
    intro e c hclosed hc hfuel
    rw [evict]
    split
    · rfl
    next hlive =>
    have hlt := unevicted_mark hc hlive
    have hmark := spares_mark e.1 c
    have hc₁ := mark_evicted e.1 c
    set d₁ := e.1.modify c (fun s => { s with evicted := true })
    -- below this call the references only get fewer
    have hcall : ∀ {s : Eviction SpenderID ResourceID VoteRank} {x : SpenderID},
        Evicts d₁ s.1 → x ∈ nodes → (evict fuel s x).isSome := by
      intro s x hs hx
      apply ih _ hx (by have := hs.unevicted_le nodes; omega)
      intro z hz y hy
      have hs' := hmark.toEvicts.trans hs
      exact hclosed z hz y (hy.imp (fun h => hs'.children z h)
        (fun h => hs'.conflictingSpenders z h))
    have hfirst : ((if d₁.state c = .rejected then run (evict fuel) (d₁, e.2)
        (d₁.spender c).children else some (releaseChildren d₁ c, e.2))).isSome := by
      split
      · apply run_isSome (I := fun s => Evicts d₁ s.1)
        · intro k hk s hs
          exact hcall hs (hclosed c hc k (.inl (hmark.children c hk)))
        · exact fun k _ s s' hs hs' => hs.trans (evict_spares fuel hs').1.toEvicts
        · exact Evicts.refl d₁
      · rfl
    obtain ⟨e₂, he₂⟩ := Option.isSome_iff_exists.mp hfirst
    have h₂ : Evicts d₁ e₂.1 := by
      split at he₂
      · exact run_invariant (I := fun s => Evicts d₁ s.1)
          (fun s k s' hs hs' => hs.trans (evict_spares fuel hs').1.toEvicts) (Evicts.refl d₁) he₂
      · cases he₂
        exact (spares_releaseChildren hc₁).1.toEvicts
    have h₃ := h₂.trans ((removes_leaveParents e₂.1 c).trans
      (removes_leaveSpendSets _ c)).toEvicts
    simp only [he₂, Option.bind_some, Option.isSome_map]
    apply run_isSome (I := fun s => Evicts d₁ s.1)
    · intro o ho s hs
      have ho' : o ∈ nodes := hclosed c hc o
        (.inr (hmark.conflictingSpenders c (h₃.conflictingSpenders c ho)))
      split
      · exact hcall (hs.trans (removes_removeConflict s.1 c o).toEvicts) ho'
      · rfl
    · intro o _ s s' hs hs'
      exact hs.trans (spares_conflicting (evict_spares fuel) (hs.evicted c hc₁) hs').1.toEvicts
    · exact h₃

end AxonCore.SpendDag

import AxonCore.SpendDag.Links

/-! # Eviction leaves no references

    `Evict` calls itself for children and conflicting spenders, so that several
    spenders can be marked as evicted while their references are still being
    removed.  `Progress` follows such a cascade: the spenders in `F` are those whose
    removal is under way, and every other evicted spender is free of references
    except from children in `F`. -/

namespace AxonCore.SpendDag

open AxonCore.Lib List

variable {SpenderID ResourceID VoteRank : Type} [DecidableEq SpenderID]
  {M : SpenderID → SpenderID → Prop} {d : SpendDAG SpenderID ResourceID VoteRank}

/-! ## Section 1: Children of a spender that is not rejected -/

theorem foldl_removeParent (c : SpenderID) (ks : List SpenderID) :
    ∀ {d : SpendDAG SpenderID ResourceID VoteRank}, Linked d.links →
      MembersConflict M d.links →
      Linked (ks.foldl (fun d child => removeParent d child c) d).links ∧
      MembersConflict M (ks.foldl (fun d child => removeParent d child c) d).links ∧
      Removes d (ks.foldl (fun d child => removeParent d child c) d) ∧
      ∀ k ∈ ks, k ∉ ((ks.foldl (fun d child => removeParent d child c) d).spender c).children := by
  induction ks with
  | nil => exact fun h hm => ⟨h, hm, Removes.refl _, fun k hk => nomatch hk⟩
  | cons k ks ih =>
    intro d h hm
    obtain ⟨hlinked, hmembers, hremoves, hgone⟩ :=
      ih (linked_removeParent h k c) (membersConflict_removeParent hm k c)
    refine ⟨hlinked, hmembers, (removes_removeParent d k c).trans hremoves, ?_⟩
    intro j hj
    rcases mem_cons.mp hj with rfl | hj
    · intro hmem
      have hmem' := hremoves.children c hmem
      rw [mem_children_removeParent h] at hmem'
      exact hmem'.2 ⟨rfl, rfl⟩
    · exact hgone j hj

theorem releaseChildren_spec (h : Linked d.links) (hm : MembersConflict M d.links) (c : SpenderID) :
    Linked (releaseChildren d c).links ∧ MembersConflict M (releaseChildren d c).links ∧
      Removes d (releaseChildren d c) ∧ ((releaseChildren d c).spender c).children = [] := by
  obtain ⟨hlinked, hmembers, hremoves, hgone⟩ := foldl_removeParent c (d.spender c).children h hm
  refine ⟨hlinked, hmembers, hremoves, ?_⟩
  apply eq_nil_iff_forall_not_mem.mpr
  intro k hk
  exact hgone k (hremoves.children c hk) hk

/-! ## Section 2: A cascade of evictions -/

/-- The eviction that started in `d₀` has come to `e`, and the spenders in `F` are
    under way. -/
structure Progress (d₀ : SpendDAG SpenderID ResourceID VoteRank) (F : SpenderID → Prop)
    (e : Eviction SpenderID ResourceID VoteRank) : Prop where
  linked : Linked e.1.links
  members : MembersConflict (fun _ _ => False) e.1.links
  evicts : Evicts d₀ e.1
  free : ∀ x, (e.1.spender x).evicted = true → ¬F x →
    (e.1.spender x).parents = [] ∧ (e.1.spender x).spendSets = [] ∧
      (e.1.spender x).conflictingSpenders = [] ∧ ∀ k ∈ (e.1.spender x).children, F k
  logged : ∀ x, (e.1.spender x).evicted = true ↔
    (d₀.spender x).evicted = true ∨ F x ∨ x ∈ e.2

variable {d₀ : SpendDAG SpenderID ResourceID VoteRank} {F : SpenderID → Prop}
  {e : Eviction SpenderID ResourceID VoteRank} {c : SpenderID}

omit [DecidableEq SpenderID] in
theorem Progress.removes (h : Progress d₀ F e) (hlinked : Linked d.links)
    (hmembers : MembersConflict (fun _ _ => False) d.links) (hremoves : Removes e.1 d) :
    Progress d₀ F (d, e.2) where
  linked := hlinked
  members := hmembers
  evicts := h.evicts.trans hremoves.toEvicts
  free := by
    intro x hx hF
    rw [hremoves.evicted_eq] at hx
    obtain ⟨hp, hs, hc, hk⟩ := h.free x hx hF
    exact ⟨eq_nil_of_subset_nil (hp ▸ hremoves.parents x),
      eq_nil_of_subset_nil (hs ▸ hremoves.spendSets x),
      eq_nil_of_subset_nil (hc ▸ hremoves.conflictingSpenders x),
      fun k hkx => hk k (hremoves.children x hkx)⟩
  logged := fun x => by rw [hremoves.evicted_eq]; exact h.logged x

theorem Progress.start (h : Progress d₀ F e) (c : SpenderID) :
    Progress d₀ (fun x => F x ∨ x = c)
      (e.1.modify c (fun s => { s with evicted := true }), e.2) ∧
    Evicts e.1 (e.1.modify c (fun s => { s with evicted := true })) := by
  have hev := evicts_mark e.1 c
  refine ⟨⟨linked_mark h.linked c, ?_, h.evicts.trans hev, ?_, ?_⟩, hev⟩
  · intro x y r hx hy hne
    simp only [SpendDAG.links, mark_spender]
    exact h.members x y r hx hy hne
  · intro x hx hF
    obtain ⟨hFx, hxc⟩ := not_or.mp hF
    simp only [mark_spender, if_neg hxc] at hx ⊢
    obtain ⟨hp, hs, hc, hk⟩ := h.free x hx hFx
    exact ⟨hp, hs, hc, fun k hkx => .inl (hk k hkx)⟩
  · intro x
    have hlogged := h.logged x
    by_cases hx : x = c
    · simp [mark_spender, hx]
    · simpa [mark_spender, hx] using hlogged

omit [DecidableEq SpenderID] in
theorem Progress.finish (h : Progress d₀ (fun x => F x ∨ x = c) e)
    (hparents : (e.1.spender c).parents = []) (hsets : (e.1.spender c).spendSets = [])
    (hconf : (e.1.spender c).conflictingSpenders = [])
    (hchildren : ∀ k ∈ (e.1.spender c).children, F k ∨ k = c) :
    Progress d₀ F (e.1, e.2 ++ [c]) where
  linked := h.linked
  members := h.members
  evicts := h.evicts
  free := by
    -- `c` has no parents, so it is nobody's child
    have hno : ∀ x, c ∉ (e.1.spender x).children := by
      intro x hx
      have hp : x ∈ (e.1.spender c).parents := h.linked.parent_iff.mpr hx
      rw [hparents] at hp
      cases hp
    have hdrop : ∀ x, (∀ k ∈ (e.1.spender x).children, F k ∨ k = c) →
        ∀ k ∈ (e.1.spender x).children, F k := by
      intro x hx k hk
      exact (hx k hk).resolve_right (fun hkc => hno x (hkc ▸ hk))
    intro x hx hF
    by_cases hxc : x = c
    · subst hxc
      exact ⟨hparents, hsets, hconf, hdrop x hchildren⟩
    · obtain ⟨hp, hs, hc, hk⟩ := h.free x hx (not_or.mpr ⟨hF, hxc⟩)
      exact ⟨hp, hs, hc, hdrop x hk⟩
  logged := by
    intro x
    rw [h.logged x]
    simp only [mem_append, mem_singleton]
    tauto

/-! ## Section 3: One eviction -/

variable [DecidableEq ResourceID] {fuel : Nat} {e' : Eviction SpenderID ResourceID VoteRank}

/-- What a call of `Evict` does, whatever else is under way. -/
def EvictionKeepsProgress (d₀ : SpendDAG SpenderID ResourceID VoteRank) (fuel : Nat) : Prop :=
  ∀ {F : SpenderID → Prop} {e e' : Eviction SpenderID ResourceID VoteRank} {c : SpenderID},
    Progress d₀ F e → evict fuel e c = some e' →
      Progress d₀ F e' ∧ Evicts e.1 e'.1 ∧ (e'.1.spender c).evicted = true

/-- The children of a rejected spender: those it keeps are under way. -/
theorem evict_children (ih : EvictionKeepsProgress d₀ fuel) (h : Progress d₀ F e)
    (hrun : run (evict fuel) e (e.1.spender c).children = some e') :
    Progress d₀ F e' ∧ Evicts e.1 e'.1 ∧ ∀ k ∈ (e'.1.spender c).children, F k := by
  have heach := run_each (I := fun s => Progress d₀ F s ∧ Evicts e.1 s.1)
    (D := fun s k => (s.1.spender k).evicted = true) ?_ ⟨h, Evicts.refl _⟩ hrun
  · obtain ⟨⟨hp, hev⟩, hall⟩ := heach
    refine ⟨hp, hev, fun k hk => ?_⟩
    by_contra hF
    have hevicted := hall k (hev.children c hk)
    -- a child that is done has no parents
    have hck : c ∈ (e'.1.spender k).parents := hp.linked.parent_iff.mpr hk
    rw [(hp.free k hevicted hF).1] at hck
    cases hck
  · rintro s k s' ⟨hp, hev⟩ hs'
    obtain ⟨hp', hev', hk⟩ := ih hp hs'
    exact ⟨⟨hp', hev.trans hev'⟩, hk, hev'.evicted⟩

/-- The conflicting spenders of a spender that has left its spend sets: none of
    them is kept. -/
theorem evict_conflicting (ih : EvictionKeepsProgress d₀ fuel) (h : Progress d₀ F e)
    (hsets : (e.1.spender c).spendSets = [])
    (hrun : run (fun (e : Eviction SpenderID ResourceID VoteRank) spender =>
        if (removeConflict e.1 c spender).state c = .accepted then
          evict fuel (removeConflict e.1 c spender, e.2) spender
        else some (removeConflict e.1 c spender, e.2))
      e (e.1.spender c).conflictingSpenders = some e') :
    Progress d₀ F e' ∧ Evicts e.1 e'.1 ∧ (e'.1.spender c).conflictingSpenders = [] := by
  have hloop := run_loop (I := fun xs s => Progress d₀ F s ∧ Evicts e.1 s.1 ∧
      ∀ x ∈ (s.1.spender c).conflictingSpenders, x ∈ xs)
    ?_ ⟨h, Evicts.refl _, fun x hx => hx⟩ hrun
  · obtain ⟨hp, hev, hnone⟩ := hloop
    exact ⟨hp, hev, eq_nil_iff_forall_not_mem.mpr (fun x hx => nomatch hnone x hx)⟩
  · rintro x xs s s' ⟨hp, hev, hall⟩ hs'
    have hsets' : (s.1.spender c).spendSets = [] :=
      eq_nil_of_subset_nil (hsets ▸ hev.spendSets c)
    have hremoves := removes_removeConflict s.1 c x
    have hp' := hp.removes (linked_removeConflict hp.linked c x)
      (membersConflict_removeConflict hp.linked hp.members hsets' x) hremoves
    have hgone : ∀ y ∈ ((removeConflict s.1 c x).spender c).conflictingSpenders, y ∈ xs := by
      intro y hy
      obtain ⟨hy, hne, -⟩ := mem_conflicting_removeConflict.mp hy
      exact (mem_cons.mp (hall y hy)).resolve_left (fun hyx => hne ⟨rfl, hyx⟩)
    split at hs'
    · obtain ⟨hp'', hev'', -⟩ := ih hp' hs'
      exact ⟨hp'', (hev.trans hremoves.toEvicts).trans hev'',
        fun y hy => hgone y (hev''.conflictingSpenders c hy)⟩
    · cases hs'
      exact ⟨hp', hev.trans hremoves.toEvicts, hgone⟩

theorem evict_progress (fuel : Nat) : EvictionKeepsProgress d₀ fuel := by
  induction fuel with
  | zero => exact fun _ h => nomatch h
  | succ fuel ih =>
    intro F e e' c h hrun
    rw [evict] at hrun
    split at hrun
    · next hc =>
      cases hrun
      exact ⟨h, Evicts.refl _, hc⟩
    obtain ⟨h₁, hev₁⟩ := h.start c
    set d₁ := e.1.modify c (fun s => { s with evicted := true }) with hd₁
    have hc₁ : (d₁.spender c).evicted = true := by rw [hd₁, modify_spender, if_pos rfl]
    obtain ⟨e₂, hchildren, hrest⟩ := Option.bind_eq_some_iff.mp hrun
    obtain ⟨e₄, hconflicts, he'⟩ := Option.map_eq_some_iff.mp hrest
    subst he'
    have hphase : Progress d₀ (fun x => F x ∨ x = c) e₂ ∧ Evicts d₁ e₂.1 ∧
        ∀ k ∈ (e₂.1.spender c).children, F k ∨ k = c := by
      split at hchildren
      · exact evict_children ih h₁ hchildren
      · cases hchildren
        obtain ⟨hlinked, hmembers, hremoves, hnil⟩ := releaseChildren_spec h₁.linked h₁.members c
        refine ⟨h₁.removes hlinked hmembers hremoves, hremoves.toEvicts, fun k hk => ?_⟩
        rw [hnil] at hk
        cases hk
    obtain ⟨h₂, hev₂, hk₂⟩ := hphase
    have hrem := (removes_leaveParents e₂.1 c).trans (removes_leaveSpendSets _ c)
    have hlinked := linked_leaveParents h₂.linked c
    have h₃ := h₂.removes (linked_leaveSpendSets hlinked c)
      (membersConflict_leaveSpendSets hlinked (membersConflict_leaveParents h₂.members c) c) hrem
    set d₃ := leaveSpendSets (leaveParents e₂.1 c) c with hd₃
    have hparents : (d₃.spender c).parents = [] := by
      rw [hd₃, leaveSpendSets_spender, leaveParents_spender]
      exact if_pos rfl
    have hsets : (d₃.spender c).spendSets = [] := by
      rw [hd₃, leaveSpendSets_spender]
      exact if_pos rfl
    obtain ⟨h₄, hev₄, hnone⟩ := evict_conflicting ih h₃ hsets hconflicts
    refine ⟨h₄.finish ?_ ?_ hnone ?_, ((hev₁.trans hev₂).trans hrem.toEvicts).trans hev₄, ?_⟩
    · exact eq_nil_of_subset_nil (hparents ▸ hev₄.parents c)
    · exact eq_nil_of_subset_nil (hsets ▸ hev₄.spendSets c)
    · exact fun k hk => hk₂ k (hrem.children c (hev₄.children c hk))
    · exact hev₄.evicted c (hrem.evicted c (hev₂.evicted c hc₁))

end AxonCore.SpendDag

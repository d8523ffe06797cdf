import AxonCore.SpendDag.Model

/-! # The references between spenders

    Every reference of the DAG is kept at both of its ends: parents and children,
    conflicting spenders and their hooks, spend sets and their members.  `Links`
    is the DAG without votes and acceptance states, and `Linked` says that the two
    ends agree.  Eviction is followed reference by reference: it only removes
    references, and at its end nothing refers to an evicted spender. -/

namespace AxonCore.SpendDag

open AxonCore.Lib List SpendDAG

variable {SpenderID ResourceID VoteRank : Type}

/-! ## Section 1: Links -/

/-- What the DAG says about references. -/
@[ext] structure Links (SpenderID ResourceID : Type) where
  spendersByID : List SpenderID
  spendSetsByID : ResourceID → List SpenderID
  parents : SpenderID → List SpenderID
  children : SpenderID → List SpenderID
  conflictingSpenders : SpenderID → List SpenderID
  conflictHooks : SpenderID → List SpenderID
  spendSets : SpenderID → List ResourceID
  evicted : SpenderID → Bool

/-- The references of a DAG. -/
@[simps] def SpendDAG.links (d : SpendDAG SpenderID ResourceID VoteRank) :
    Links SpenderID ResourceID where
  spendersByID := d.spendersByID
  spendSetsByID := d.spendSetsByID
  parents := fun x => (d.spender x).parents
  children := fun x => (d.spender x).children
  conflictingSpenders := fun x => (d.spender x).conflictingSpenders
  conflictHooks := fun x => (d.spender x).conflictHooks
  spendSets := fun x => (d.spender x).spendSets
  evicted := fun x => (d.spender x).evicted

/-- The two ends of every reference agree. -/
structure Linked (l : Links SpenderID ResourceID) : Prop where
  parent_iff : ∀ {c p}, p ∈ l.parents c ↔ c ∈ l.children p
  hook_iff : ∀ {c x}, c ∈ l.conflictHooks x ↔ x ∈ l.conflictingSpenders c
  conflict_symm : ∀ {c x}, x ∈ l.conflictingSpenders c → c ∈ l.conflictingSpenders x
  member_iff : ∀ {c r}, c ∈ l.spendSetsByID r ↔ r ∈ l.spendSets c

variable {l : Links SpenderID ResourceID}

theorem Linked.hook_symm (h : Linked l) {c x : SpenderID} (hx : x ∈ l.conflictHooks c) :
    c ∈ l.conflictHooks x :=
  h.hook_iff.mpr (h.conflict_symm (h.hook_iff.mp hx))

/-- The members of a spend set conflict with each other, but for the pairs in `M`. -/
def MembersConflict (M : SpenderID → SpenderID → Prop) (l : Links SpenderID ResourceID) : Prop :=
  ∀ c x r, c ∈ l.spendSetsByID r → x ∈ l.spendSetsByID r → x ≠ c →
    M c x ∨ x ∈ l.conflictingSpenders c

variable {M : SpenderID → SpenderID → Prop}

theorem MembersConflict.mono {M' : SpenderID → SpenderID → Prop} {l' : Links SpenderID ResourceID}
    (h : MembersConflict M l) (hM : ∀ c x, M c x → M' c x ∨ x ∈ l'.conflictingSpenders c)
    (hsets : ∀ r, l'.spendSetsByID r ⊆ l.spendSetsByID r)
    (hconf : ∀ c, l.conflictingSpenders c ⊆ l'.conflictingSpenders c) : MembersConflict M' l' := by
  intro c x r hc hx hne
  rcases h c x r (hsets r hc) (hsets r hx) hne with hM' | hx'
  · exact hM c x hM'
  · exact .inr (hconf c hx')

variable [DecidableEq SpenderID]

section Modify

variable (d : SpendDAG SpenderID ResourceID VoteRank) (c x : SpenderID)
  (f : Spender SpenderID ResourceID VoteRank → Spender SpenderID ResourceID VoteRank)

theorem modify_spender :
    (d.modify c f).spender x = if x = c then f (d.spender x) else d.spender x := rfl

/-- An update of a spender that leaves its references alone. -/
def KeepsReferences : Prop :=
  ∀ s, (f s).parents = s.parents ∧ (f s).children = s.children ∧
    (f s).conflictingSpenders = s.conflictingSpenders ∧ (f s).conflictHooks = s.conflictHooks ∧
    (f s).spendSets = s.spendSets ∧ (f s).evicted = s.evicted

theorem links_modify (hf : KeepsReferences f) : (d.modify c f).links = d.links := by
  ext1
  · rfl
  · rfl
  all_goals
    funext x
    simp only [links, modify_spender]
    split
    · simp [hf (d.spender x)]
    · rfl

@[simp] theorem links_setState (newState : AcceptanceState) :
    (d.setState c newState).links = d.links :=
  links_modify d c _ (fun _ => ⟨rfl, rfl, rfl, rfl, rfl, rfl⟩)

theorem state_modify (hf : ∀ s, (f s).acceptanceState = s.acceptanceState) :
    (d.modify c f).state x = d.state x := by
  unfold state
  rw [modify_spender]
  split
  · exact hf _
  · rfl

theorem state_setState (newState : AcceptanceState) :
    (d.setState c newState).state x = if x = c then newState else d.state x := by
  unfold state setState
  rw [modify_spender]
  split <;> rfl

end Modify

/-! ## Section 2: Operations on single references -/

section References

variable (d : SpendDAG SpenderID ResourceID VoteRank) {c p x y z : SpenderID}
  {d₁ d₂ d₃ : SpendDAG SpenderID ResourceID VoteRank}

/-- What eviction leaves of a DAG: references go, acceptance states stay. -/
structure Evicts (d d' : SpendDAG SpenderID ResourceID VoteRank) : Prop where
  spendersByID : d'.spendersByID = d.spendersByID
  state : ∀ x, d'.state x = d.state x
  parents : ∀ x, (d'.spender x).parents ⊆ (d.spender x).parents
  children : ∀ x, (d'.spender x).children ⊆ (d.spender x).children
  conflictingSpenders : ∀ x,
    (d'.spender x).conflictingSpenders ⊆ (d.spender x).conflictingSpenders
  spendSets : ∀ x, (d'.spender x).spendSets ⊆ (d.spender x).spendSets
  evicted : ∀ x, (d.spender x).evicted = true → (d'.spender x).evicted = true

omit [DecidableEq SpenderID] in
theorem Evicts.refl : Evicts d d :=
  ⟨rfl, fun _ => rfl, fun _ => Subset.refl _, fun _ => Subset.refl _,
    fun _ => Subset.refl _, fun _ => Subset.refl _, fun _ h => h⟩

omit [DecidableEq SpenderID] in
theorem Evicts.trans (h : Evicts d₁ d₂) (h' : Evicts d₂ d₃) : Evicts d₁ d₃ where
  spendersByID := h'.spendersByID.trans h.spendersByID
  state := fun x => (h'.state x).trans (h.state x)
  parents := fun x => Subset.trans (h'.parents x) (h.parents x)
  children := fun x => Subset.trans (h'.children x) (h.children x)
  conflictingSpenders := fun x => Subset.trans (h'.conflictingSpenders x) (h.conflictingSpenders x)
  spendSets := fun x => Subset.trans (h'.spendSets x) (h.spendSets x)
  evicted := fun x hx => h'.evicted x (h.evicted x hx)

/-- The removal of references, without any spender being marked as evicted. -/
structure Removes (d d' : SpendDAG SpenderID ResourceID VoteRank) : Prop
    extends Evicts d d' where
  evicted_eq : ∀ x, (d'.spender x).evicted = (d.spender x).evicted

omit [DecidableEq SpenderID] in
theorem Removes.refl : Removes d d :=
  ⟨Evicts.refl d, fun _ => rfl⟩

omit [DecidableEq SpenderID] in
theorem Removes.trans (h : Removes d₁ d₂) (h' : Removes d₂ d₃) : Removes d₁ d₃ :=
  ⟨h.toEvicts.trans h'.toEvicts, fun x => (h'.evicted_eq x).trans (h.evicted_eq x)⟩

theorem Removes.modify (c : SpenderID)
    (f : Spender SpenderID ResourceID VoteRank → Spender SpenderID ResourceID VoteRank)
    (hf : ∀ s, (f s).acceptanceState = s.acceptanceState ∧ (f s).parents ⊆ s.parents ∧
      (f s).children ⊆ s.children ∧ (f s).conflictingSpenders ⊆ s.conflictingSpenders ∧
      (f s).spendSets ⊆ s.spendSets ∧ (f s).evicted = s.evicted) :
    Removes d (d.modify c f) := by
  have hevicted : ∀ x, ((d.modify c f).spender x).evicted = (d.spender x).evicted := by
    intro x
    rw [modify_spender]
    split
    · exact (hf _).2.2.2.2.2
    · rfl
  refine ⟨⟨rfl, fun x => state_modify d c x f (fun s => (hf s).1), ?_, ?_, ?_, ?_,
    fun x hx => (hevicted x).trans hx⟩, hevicted⟩
  all_goals
    intro x
    rw [modify_spender]
    split
    · simp only [hf]
    · exact Subset.refl _

theorem removes_unregisterChild (p c : SpenderID) :
    Removes d (unregisterChild d p c) :=
  Removes.modify d p _ (fun _ => ⟨rfl, Subset.refl _, filter_sublist.subset,
    Subset.refl _, Subset.refl _, rfl⟩)

theorem removes_removeParent (c p : SpenderID) :
    Removes d (removeParent d c p) := by
  unfold removeParent
  split
  · refine Removes.trans (Removes.modify d c _ (fun s => ?_)) (removes_unregisterChild _ p c)
    exact ⟨rfl, filter_sublist.subset, Subset.refl _, Subset.refl _,
      Subset.refl _, rfl⟩
  · exact Removes.refl d

theorem removes_removeConflicting (c x : SpenderID) :
    Removes d (removeConflicting d c x) := by
  refine Removes.trans (Removes.modify d c _ (fun s => ?_)) (Removes.modify _ x _ (fun s => ?_))
  · exact ⟨rfl, Subset.refl _, Subset.refl _, filter_sublist.subset,
      Subset.refl _, rfl⟩
  · exact ⟨rfl, Subset.refl _, Subset.refl _, Subset.refl _,
      Subset.refl _, rfl⟩

theorem removes_removeConflict (c x : SpenderID) :
    Removes d (removeConflict d c x) :=
  (removes_removeConflicting d x c).trans (removes_removeConflicting _ c x)

theorem mark_spender (c x : SpenderID) :
    (d.modify c (fun s => { s with evicted := true })).spender x =
      { d.spender x with evicted := if x = c then true else (d.spender x).evicted } := by
  rw [modify_spender]
  split <;> rfl

theorem evicts_mark (c : SpenderID) :
    Evicts d (d.modify c (fun s => { s with evicted := true })) := by
  refine ⟨rfl, fun x => state_modify d c x _ (fun _ => rfl), ?_, ?_, ?_, ?_, ?_⟩
  all_goals simp +contextual [mark_spender]

/-! ## Section 3: The two ends stay in agreement -/

variable {d}

theorem linked_mark (h : Linked d.links) (c : SpenderID) :
    Linked (d.modify c (fun s => { s with evicted := true })).links := by
  constructor
  all_goals simp only [links, mark_spender]
  · exact h.parent_iff
  · exact h.hook_iff
  · exact h.conflict_symm
  · exact h.member_iff

theorem mem_parents_removeParent :
    y ∈ ((removeParent d c p).spender x).parents ↔
      y ∈ (d.spender x).parents ∧ ¬(x = c ∧ y = p) := by
  unfold removeParent
  split
  · next hp =>
    simp only [unregisterChild, modify_spender]
    by_cases hxc : x = c <;> by_cases hxp : x = p <;> simp_all
  · next hp =>
    constructor
    · intro hy
      exact ⟨hy, fun hxy => hp (hxy.1 ▸ hxy.2 ▸ hy)⟩
    · exact fun hy => hy.1

theorem mem_children_removeParent (h : Linked d.links) :
    y ∈ ((removeParent d c p).spender x).children ↔
      y ∈ (d.spender x).children ∧ ¬(x = p ∧ y = c) := by
  unfold removeParent
  split
  · next hp =>
    simp only [unregisterChild, modify_spender]
    by_cases hxc : x = c <;> by_cases hxp : x = p <;> simp_all
  · next hp =>
    constructor
    · intro hy
      refine ⟨hy, fun hxy => hp ?_⟩
      exact h.parent_iff.mpr (hxy.1 ▸ hxy.2 ▸ hy)
    · exact fun hy => hy.1

variable (d) in
theorem removeParent_spender (c p x : SpenderID) :
    ((removeParent d c p).spender x).conflictingSpenders = (d.spender x).conflictingSpenders ∧
      ((removeParent d c p).spender x).conflictHooks = (d.spender x).conflictHooks ∧
      ((removeParent d c p).spender x).spendSets = (d.spender x).spendSets := by
  unfold removeParent
  split
  · simp only [unregisterChild, modify_spender]
    split <;> split <;> exact ⟨rfl, rfl, rfl⟩
  · exact ⟨rfl, rfl, rfl⟩

variable (d) in
theorem removeParent_spendSetsByID (c p : SpenderID) :
    (removeParent d c p).spendSetsByID = d.spendSetsByID := by
  unfold removeParent
  split <;> rfl

theorem linked_removeParent (h : Linked d.links) (c p : SpenderID) :
    Linked (removeParent d c p).links := by
  constructor
  · intro x y
    simp only [links_parents, links_children, mem_parents_removeParent,
      mem_children_removeParent h]
    rw [and_comm (a := y = p)]
    exact and_congr_left' h.parent_iff
  all_goals simp only [links_conflictHooks, links_conflictingSpenders,
    links_spendSets, links_spendSetsByID, removeParent_spender,
    removeParent_spendSetsByID]
  · exact h.hook_iff
  · exact h.conflict_symm
  · exact h.member_iff

theorem membersConflict_removeParent (h : MembersConflict M d.links) (c p : SpenderID) :
    MembersConflict M (removeParent d c p).links := by
  apply h.mono (fun _ _ hM => .inl hM)
  · simp [removeParent_spendSetsByID]
  · simp [removeParent_spender]

theorem foldl_unregisterChild (ps : List SpenderID)
    (d : SpendDAG SpenderID ResourceID VoteRank) (c x : SpenderID) :
    (ps.foldl (fun d parent => unregisterChild d parent c) d).spender x =
      { d.spender x with children :=
          if x ∈ ps then (d.spender x).children.filter (· ≠ c) else (d.spender x).children } := by
  induction ps generalizing d with
  | nil => simp
  | cons p ps ih =>
    rw [foldl_cons, ih]
    simp only [unregisterChild, modify_spender, mem_cons]
    by_cases hx : x = p
    · -- filtering twice is filtering once
      simp only [hx, if_true, true_or, filter_filter, Bool.and_self]
      split <;> rfl
    · simp [hx]

variable (d) in
theorem leaveParents_spender (c x : SpenderID) :
    (leaveParents d c).spender x =
      { d.spender x with
        parents := if x = c then [] else (d.spender x).parents
        children := if x ∈ (d.spender c).parents then (d.spender x).children.filter (· ≠ c)
          else (d.spender x).children } := by
  unfold leaveParents
  rw [modify_spender, foldl_unregisterChild]
  split <;> rfl

variable (d) in
theorem leaveParents_spendSetsByID (c : SpenderID) :
    (leaveParents d c).spendSetsByID = d.spendSetsByID := by
  show ((d.spender c).parents.foldl
    (fun d parent => unregisterChild d parent c) d).spendSetsByID = _
  exact foldlRecOn (motive := fun s : SpendDAG _ _ _ => s.spendSetsByID = _) _ _ rfl
    fun _ hs _ _ => hs

variable (d) in
theorem removes_leaveParents (c : SpenderID) : Removes d (leaveParents d c) := by
  refine Removes.trans (foldlRecOn (d.spender c).parents _ (Removes.refl d)
    fun s hs p _ => hs.trans (removes_unregisterChild s p c)) ?_
  exact Removes.modify _ c _ (fun _ => ⟨rfl, nil_subset _, Subset.refl _,
    Subset.refl _, Subset.refl _, rfl⟩)

theorem linked_leaveParents (h : Linked d.links) (c : SpenderID) :
    Linked (leaveParents d c).links := by
  constructor
  · intro x p
    simp only [links_parents, links_children, leaveParents_spender]
    have hxp := h.parent_iff (c := x) (p := p)
    have hcp := h.parent_iff (c := c) (p := p)
    simp only [links_parents, links_children] at hxp hcp
    by_cases hx : x = c
    · subst hx
      by_cases hp : p ∈ (d.spender x).parents <;> simp_all
    · by_cases hp : p ∈ (d.spender c).parents <;> simp_all
  all_goals simp only [links_conflictHooks, links_conflictingSpenders,
    links_spendSets, links_spendSetsByID, leaveParents_spender,
    leaveParents_spendSetsByID]
  · exact h.hook_iff
  · exact h.conflict_symm
  · exact h.member_iff

theorem membersConflict_leaveParents (h : MembersConflict M d.links) (c : SpenderID) :
    MembersConflict M (leaveParents d c).links := by
  apply h.mono (fun _ _ hM => .inl hM)
  · simp [leaveParents_spendSetsByID]
  · simp [leaveParents_spender]

section SpendSets

variable [DecidableEq ResourceID]

variable (d) in
theorem leaveSpendSets_spender (c x : SpenderID) :
    (leaveSpendSets d c).spender x =
      { d.spender x with spendSets := if x = c then [] else (d.spender x).spendSets } := by
  show (if x = c then { d.spender x with spendSets := [] } else d.spender x) = _
  split <;> rfl

variable (d) in
theorem removes_leaveSpendSets (c : SpenderID) : Removes d (leaveSpendSets d c) := by
  -- the map of the spend sets is none of what `Removes` speaks of
  refine Removes.trans ?_ (Removes.modify _ c _ ?_)
  · exact ⟨⟨rfl, fun _ => rfl, fun _ => Subset.refl _, fun _ => Subset.refl _,
      fun _ => Subset.refl _, fun _ => Subset.refl _, fun _ h => h⟩, fun _ => rfl⟩
  · exact fun _ => ⟨rfl, Subset.refl _, Subset.refl _, Subset.refl _,
      nil_subset _, rfl⟩

theorem mem_leaveSpendSets (h : Linked d.links) {r : ResourceID} :
    x ∈ (leaveSpendSets d c).spendSetsByID r ↔ x ∈ d.spendSetsByID r ∧ x ≠ c := by
  show x ∈ (if r ∈ (d.spender c).spendSets then _ else d.spendSetsByID r) ↔ _
  split
  · simp
  · next hr =>
    have hc : c ∉ d.spendSetsByID r := fun hc => hr (h.member_iff.mp hc)
    exact ⟨fun hx => ⟨hx, fun hxc => hc (hxc ▸ hx)⟩, fun hx => hx.1⟩

theorem linked_leaveSpendSets (h : Linked d.links) (c : SpenderID) :
    Linked (leaveSpendSets d c).links := by
  constructor
  all_goals simp only [links_conflictHooks, links_conflictingSpenders,
    links_spendSets, links_spendSetsByID, links_parents,
    links_children, leaveSpendSets_spender, mem_leaveSpendSets h]
  · exact h.parent_iff
  · exact h.hook_iff
  · exact h.conflict_symm
  · intro x r
    have hx := h.member_iff (c := x) (r := r)
    simp only [links_spendSets, links_spendSetsByID] at hx
    by_cases hxc : x = c <;> simp [hxc, hx]

theorem membersConflict_leaveSpendSets (hl : Linked d.links) (h : MembersConflict M d.links)
    (c : SpenderID) :
    MembersConflict M (leaveSpendSets d c).links := by
  apply h.mono (fun _ _ hM => .inl hM)
  · exact fun r x hx => ((mem_leaveSpendSets hl).mp hx).1
  · simp [leaveSpendSets_spender]

end SpendSets

variable (d) in
theorem removeConflict_spender (c x y : SpenderID) :
    ((removeConflict d c x).spender y).parents = (d.spender y).parents ∧
      ((removeConflict d c x).spender y).children = (d.spender y).children ∧
      ((removeConflict d c x).spender y).spendSets = (d.spender y).spendSets ∧
      ((removeConflict d c x).spender y).evicted = (d.spender y).evicted := by
  simp only [removeConflict, removeConflicting, modify_spender]
  split <;> split <;> exact ⟨rfl, rfl, rfl, rfl⟩

theorem mem_conflicting_removeConflict :
    z ∈ ((removeConflict d c x).spender y).conflictingSpenders ↔
      z ∈ (d.spender y).conflictingSpenders ∧ ¬(y = c ∧ z = x) ∧ ¬(y = x ∧ z = c) := by
  simp only [removeConflict, removeConflicting, modify_spender]
  by_cases hyc : y = c <;> by_cases hyx : y = x <;> simp_all

theorem mem_hooks_removeConflict :
    z ∈ ((removeConflict d c x).spender y).conflictHooks ↔
      z ∈ (d.spender y).conflictHooks ∧ ¬(z = c ∧ y = x) ∧ ¬(z = x ∧ y = c) := by
  simp only [removeConflict, removeConflicting, modify_spender]
  by_cases hyc : y = c <;> by_cases hyx : y = x <;> simp_all

theorem linked_removeConflict (h : Linked d.links) (c x : SpenderID) :
    Linked (removeConflict d c x).links := by
  constructor
  · intro y p
    simp only [links_parents, links_children, removeConflict_spender]
    exact h.parent_iff
  · intro y z
    simp only [links_conflictHooks, links_conflictingSpenders,
      mem_hooks_removeConflict, mem_conflicting_removeConflict]
    exact and_congr_left' h.hook_iff
  · intro y z hz
    simp only [links_conflictingSpenders, mem_conflicting_removeConflict] at hz ⊢
    exact ⟨h.conflict_symm hz.1, fun hyz => hz.2.2 hyz.symm, fun hyz => hz.2.1 hyz.symm⟩
  · intro y r
    simp only [links_spendSets, removeConflict_spender]
    exact h.member_iff

/-- A conflict can go once one of the two spenders has left its spend sets. -/
theorem membersConflict_removeConflict (hl : Linked d.links) (h : MembersConflict M d.links)
    (hsets : (d.spender c).spendSets = []) (x : SpenderID) :
    MembersConflict M (removeConflict d c x).links := by
  intro y z r hy hz hne
  have hmem : ∀ w, w ∈ d.spendSetsByID r → w ≠ c := by
    intro w hw hwc
    have hr : r ∈ (d.spender c).spendSets := hl.member_iff.mp (hwc ▸ hw)
    rw [hsets] at hr
    cases hr
  refine (h y z r hy hz hne).imp_right (fun hz' => ?_)
  exact mem_conflicting_removeConflict.mpr
    ⟨hz', fun hyz => hmem y hy hyz.1, fun hyz => hmem z hz hyz.2⟩

end References

end AxonCore.SpendDag

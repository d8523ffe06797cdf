import AxonCore.SpendDag.Eviction
import AxonCore.SpendDag.Propagation

/-! # The operations keep the DAG consistent

    Every operation keeps the references in order: they agree at both ends, and
    evicted spenders are gone (`Wired`).  With the references it keeps the states at
    their ends in every relation that the propagation establishes (`Sound`); no
    condition is needed to say that a rejected spender has only rejected children.
    `Inv` is the strongest case: no two conflicting spenders are accepted, and the
    parents of an accepted spender are accepted.  The one operation that needs a
    condition for it is `UpdateSpenderParents`: `registerChild` looks at a rejected
    parent, but nothing looks at a pending parent of a spender that is accepted
    already. -/

namespace AxonCore.SpendDag

open AxonCore.Lib List Option SpendDAG Links

variable {SpenderID ResourceID VoteRank : Type}

/-! ## Section 1: The invariants -/

/-- Spenders that are not in the map have no references, and those in the map are
    not evicted. -/
structure Tidy (l : Links SpenderID ResourceID) : Prop where
  blank : ∀ x, x ∉ l.spendersByID → l.parents x = [] ∧ l.children x = [] ∧
    l.conflictingSpenders x = [] ∧ l.spendSets x = []
  live : ∀ x ∈ l.spendersByID, l.evicted x = false

/-- The references are in order, but for the conflicts in `M`. -/
structure Wired (M : SpenderID → SpenderID → Prop) (l : Links SpenderID ResourceID) : Prop where
  linked : Linked l
  members : MembersConflict M l
  tidy : Tidy l

/-- The references are in order, and the states at the two ends of every parent
    reference are in `R`. -/
structure Sound (R : AcceptanceState → AcceptanceState → Prop)
    (d : SpendDAG SpenderID ResourceID VoteRank) : Prop where
  wired : Wired (fun _ _ => False) d.links
  along : AlongParents R (fun _ _ => False) d

/-- What holds between two operations. -/
structure Inv (d : SpendDAG SpenderID ResourceID VoteRank) : Prop where
  sound : Sound Agree d
  conflicts : ConflictsApart (fun _ _ => False) d

variable {d d' : SpendDAG SpenderID ResourceID VoteRank}
  {R : AcceptanceState → AcceptanceState → Prop}

variable {c : SpenderID} {r : ResourceID}

theorem Tidy.mem_of_member {l : Links SpenderID ResourceID} (h : Tidy l) (hl : Linked l)
    (hc : c ∈ l.spendSetsByID r) : c ∈ l.spendersByID := by
  by_contra hno
  have hr := hl.member_iff.mp hc
  rw [(h.blank c hno).2.2.2] at hr
  cases hr

variable {x y : SpenderID}

section Wired

variable {M : SpenderID → SpenderID → Prop} {l : Links SpenderID ResourceID}

theorem Wired.hooks_nil (h : Wired M l) (hx : x ∉ l.spendersByID) : l.conflictHooks x = [] := by
  apply eq_nil_iff_forall_not_mem.mpr
  intro y hy
  have hy' := h.linked.conflict_symm (h.linked.hook_iff.mp hy)
  rw [(h.tidy.blank x hx).2.2.1] at hy'
  cases hy'

theorem Wired.closed (h : Wired M l)
    (hxy : y ∈ l.parents x ∨ y ∈ l.children x ∨ y ∈ l.conflictHooks x) : y ∈ l.spendersByID := by
  by_contra hno
  obtain ⟨hp, hc, -, -⟩ := h.tidy.blank y hno
  rcases hxy with hy | hy | hy
  · have hx := h.linked.parent_iff.mp hy
    rw [hc] at hx
    cases hx
  · have hx := h.linked.parent_iff.mpr hy
    rw [hp] at hx
    cases hx
  · have hx := h.linked.hook_symm hy
    rw [h.hooks_nil hno] at hx
    cases hx

theorem Wired.mem (h : Wired M l) (hxy : y ∈ l.parents x ∨ y ∈ l.conflictHooks x) :
    x ∈ l.spendersByID := by
  rcases hxy with hy | hy
  · exact h.closed (.inr (.inl (h.linked.parent_iff.mp hy)))
  · exact h.closed (.inr (.inr (h.linked.hook_symm hy)))

theorem Evicts.blank (h : Evicts d d') {x : SpenderID}
    (hx : (d.spender x).parents = [] ∧ (d.spender x).children = [] ∧
      (d.spender x).conflictingSpenders = [] ∧ (d.spender x).spendSets = []) :
    (d'.spender x).parents = [] ∧ (d'.spender x).children = [] ∧
      (d'.spender x).conflictingSpenders = [] ∧ (d'.spender x).spendSets = [] := by
  obtain ⟨hpar, hc, hconf, hs⟩ := hx
  exact ⟨eq_nil_of_subset_nil (hpar ▸ h.parents x),
    eq_nil_of_subset_nil (hc ▸ h.children x),
    eq_nil_of_subset_nil (hconf ▸ h.conflictingSpenders x),
    eq_nil_of_subset_nil (hs ▸ h.spendSets x)⟩

theorem Tidy.removes (h : Tidy d.links) (hrem : Removes d d') : Tidy d'.links where
  blank := by
    intro x hx
    rw [links_spendersByID, hrem.spendersByID] at hx
    exact hrem.toEvicts.blank (h.blank x hx)
  live := by
    intro x hx
    rw [links_spendersByID, hrem.spendersByID] at hx
    exact (hrem.evicted_eq x).trans (h.live x hx)

theorem Evicts.hooks_subset (h : Evicts d d') (hlinked : Linked d.links)
    (hlinked' : Linked d'.links) (x : SpenderID) :
    (d'.spender x).conflictHooks ⊆ (d.spender x).conflictHooks :=
  fun y hy => hlinked.hook_iff.mpr (h.conflictingSpenders y (hlinked'.hook_iff.mp hy))

end Wired

theorem Sound.of_links_eq (h : Sound R d) (hlinks : d'.links = d.links)
    (halong : AlongParents R (fun _ _ => False) d') : Sound R d' :=
  ⟨hlinks ▸ h.wired, halong⟩

/-- States and references are all that the invariants speak of. -/
theorem Sound.of_state_eq (h : Sound R d) (hlinks : d'.links = d.links)
    (hstate : ∀ x, d'.state x = d.state x) : Sound R d' :=
  h.of_links_eq hlinks
    (h.along.subset (fun x => (parents_eq hlinks x).symm ▸ Subset.refl _) hstate)

theorem Inv.of_state_eq (h : Inv d) (hlinks : d'.links = d.links)
    (hstate : ∀ x, d'.state x = d.state x) : Inv d' := by
  obtain ⟨hsound, hconflicts⟩ := h
  refine ⟨hsound.of_state_eq hlinks hstate, ?_⟩
  exact hconflicts.subset (fun x => (conflictHooks_eq hlinks x).symm ▸ Subset.refl _)
    (fun x hx => (hstate x).symm.trans hx)

variable [DecidableEq SpenderID]

/-! ## Section 2: Forced acceptance and votes -/

variable {fuel : Nat}

theorem Sound.accept (hR : Propagated R) (h : Sound R d)
    (hrun : setAcceptanceState fuel d c .accepted = some d') : Sound R d' :=
  h.of_links_eq (setAcceptanceState_links fuel hrun)
    (accept_along hR fuel _ d d' c h.wired.linked (h.along.mono fun _ _ hW => hW.elim) hrun)

theorem Inv.accept (h : Inv d) (hrun : setAcceptanceState fuel d c .accepted = some d') :
    Inv d' := by
  obtain ⟨hsound, hconflicts⟩ := h
  exact ⟨hsound.accept propagated_agree hrun,
    accept_conflictsApart fuel _ d d' c hsound.wired.linked hconflicts hrun⟩

/-- A property that acceptances and updates of votes and weights keep. -/
structure KeptByVotes (I : SpendDAG SpenderID ResourceID VoteRank → Prop) : Prop where
  accept : ∀ {d d' fuel c}, I d → setAcceptanceState fuel d c .accepted = some d' → I d'
  of_state_eq : ∀ {d d'}, I d → d'.links = d.links → (∀ x, d'.state x = d.state x) → I d'

theorem keptByVotes_sound (hR : Propagated R) :
    KeptByVotes (Sound R : SpendDAG SpenderID ResourceID VoteRank → Prop) :=
  ⟨fun h => h.accept hR, Sound.of_state_eq⟩

theorem keptByVotes_inv : KeptByVotes (Inv : SpendDAG SpenderID ResourceID VoteRank → Prop) :=
  ⟨fun h => h.accept, Inv.of_state_eq⟩

variable {id : SpenderID}

section KeptByVotes

variable {I : SpendDAG SpenderID ResourceID VoteRank → Prop} {threshold : Nat}

section

variable (hI : KeptByVotes I)
include hI

theorem KeptByVotes.setAccepted (h : I d) (hrun : setAccepted fuel d id = some d') : I d' := by
  unfold SpendDag.setAccepted at hrun
  split at hrun
  · exact hI.accept h hrun
  · cases hrun
    exact h

theorem KeptByVotes.modify (h : I d) (c : SpenderID)
    {f : Spender SpenderID ResourceID VoteRank → Spender SpenderID ResourceID VoteRank}
    (hf : KeepsReferences f) (hstate : ∀ s, (f s).acceptanceState = s.acceptanceState) :
    I (d.modify c f) :=
  hI.of_state_eq h (links_modify d c f hf) (fun x => state_modify d c x f hstate)

theorem KeptByVotes.updateWeight (h : I d) {voters attestors : Finset SeatIndex}
    (hrun : updateWeight fuel threshold d c voters attestors = some d') : I d' := by
  have hmod : I (d.modify c (fun s => { s with voters := voters, attestors := attestors })) :=
    hI.modify h c (fun _ => ⟨rfl, rfl, rfl, rfl, rfl, rfl⟩) (fun _ => rfl)
  unfold SpendDag.updateWeight at hrun
  split at hrun
  · cases hrun
    exact h
  · simp only at hrun
    split at hrun
    · exact hI.accept hmod hrun
    · cases hrun
      exact hmod

variable [Ord VoteRank] {vote : Vote VoteRank}

theorem KeptByVotes.applyVote (h : I d) (hrun : applyVote fuel threshold vote d c = some d') :
    I d' := by
  unfold SpendDag.applyVote at hrun
  split at hrun
  · cases hrun
    exact h
  simp only at hrun
  split at hrun
  · cases hrun
    exact h
  obtain ⟨d₁, hattestors, hvoters⟩ := bind_eq_some_iff.mp hrun
  -- the latest vote is recorded, then the attestors are updated in one of three ways
  have hvote : I (d.modify c (fun s => { s with
      latestVotes := fun seat => if seat = vote.voter then some vote else s.latestVotes seat })) :=
    hI.modify h c (fun _ => ⟨rfl, rfl, rfl, rfl, rfl, rfl⟩) (fun _ => rfl)
  have h₁ : I d₁ := by
    split at hattestors
    · split at hattestors
      · exact hI.updateWeight hvote hattestors
      · exact hI.updateWeight hvote hattestors
    · exact hI.updateWeight hvote hattestors
  split at hvoters
  · cases hvoters
    exact h₁
  · split at hvoters
    · exact hI.updateWeight h₁ hvoters
    · exact hI.updateWeight h₁ hvoters

theorem KeptByVotes.castVotes (h : I d) {ceilBft : Nat → Nat} {spenderIDs : List SpenderID}
    (hrun : (castVotes ceilBft fuel d vote spenderIDs).map Prod.fst = some d') : I d' := by
  unfold SpendDag.castVotes at hrun
  split at hrun
  · cases hrun
    exact h
  · rw [Option.map_map] at hrun
    obtain ⟨d₂, hvotes, rfl⟩ := map_eq_some_iff.mp hrun
    obtain ⟨d₁, hsupported, hrevoked⟩ := bind_eq_some_iff.mp hvotes
    have h₁ : I d₁ := run_invariant (fun _ _ _ hs => hI.applyVote hs) h hsupported
    exact run_invariant (fun _ _ _ hs => hI.applyVote hs) h₁ hrevoked

end

end KeptByVotes

/-! ## Section 3: Creation and eviction -/

section Creation

variable {ceilBft : Nat → Nat} {id : SpenderID}

theorem createSpender_state (hx : x ≠ id) : (createSpender ceilBft d id).state x = d.state x := by
  unfold createSpender state
  split
  · rfl
  · simp only [modify_spender, if_neg hx]

theorem createSpender_links {M : SpenderID → SpenderID → Prop} (h : Wired M d.links)
    (hid : id ∉ d.spendersByID) :
    (createSpender ceilBft d id).links = { d.links with
      spendersByID := d.spendersByID ++ [id]
      evicted := fun x => if x = id then false else d.links.evicted x } := by
  obtain ⟨hparents, hchildren, hconf, hsets⟩ := h.tidy.blank id hid
  unfold createSpender
  rw [if_neg hid]
  ext1
  · rfl
  · rfl
  all_goals
    funext x
    simp only [links, modify_spender]
    split
    · next hx =>
      subst hx
      first | exact hparents.symm | exact hchildren.symm | exact hconf.symm |
        exact (h.hooks_nil hid).symm | exact hsets.symm | rfl
    · rfl

theorem Wired.createSpender (h : Wired (fun _ _ => False) d.links) :
    Wired (fun _ _ => False) (createSpender ceilBft d id).links := by
  by_cases hid : id ∈ d.spendersByID
  · unfold SpendDag.createSpender
    rwa [if_pos hid]
  rw [createSpender_links h hid]
  refine ⟨⟨h.linked.parent_iff, h.linked.hook_iff, h.linked.conflict_symm, h.linked.member_iff⟩,
    h.members, ?_, ?_⟩
  · intro x hx
    exact h.tidy.blank x (fun hx' => hx (mem_append_left _ hx'))
  · intro x hx
    show (if x = id then false else d.links.evicted x) = false
    split
    · rfl
    · next hxid =>
      rcases mem_append.mp hx with hx | hx
      · exact h.tidy.live x hx
      · exact absurd (mem_singleton.mp hx) hxid

/-- Nothing refers to the new spender, so the states at the ends of references stay. -/
theorem createSpender_refs (h : Wired (fun _ _ => False) d.links) (hid : id ∉ d.spendersByID)
    (x : SpenderID) :
    ((createSpender ceilBft d id).spender x).parents = (d.spender x).parents ∧
      ((createSpender ceilBft d id).spender x).conflictHooks = (d.spender x).conflictHooks :=
  ⟨congrFun (congrArg parents (createSpender_links h hid)) x,
    congrFun (congrArg conflictHooks (createSpender_links h hid)) x⟩

theorem Sound.createSpender (h : Sound R d) : Sound R (createSpender ceilBft d id) := by
  refine ⟨h.wired.createSpender, ?_⟩
  by_cases hid : id ∈ d.spendersByID
  · unfold SpendDag.createSpender
    rw [if_pos hid]
    exact h.along
  intro c p hp
  rw [(createSpender_refs h.wired hid c).1] at hp
  have hne : ∀ x ∈ d.spendersByID, x ≠ id := fun x hx he => hid (he ▸ hx)
  rw [createSpender_state (hne c (h.wired.mem (.inl hp))),
    createSpender_state (hne p (h.wired.closed (.inl hp)))]
  exact h.along c p hp

theorem Inv.createSpender (h : Inv d) (ceilBft : Nat → Nat) (id : SpenderID) :
    Inv (createSpender ceilBft d id) := by
  obtain ⟨hsound, hconflicts⟩ := h
  refine ⟨hsound.createSpender, ?_⟩
  by_cases hid : id ∈ d.spendersByID
  · unfold SpendDag.createSpender
    rwa [if_pos hid]
  intro x y hy
  rw [(createSpender_refs hsound.wired hid x).2] at hy
  have hne : ∀ x ∈ d.spendersByID, x ≠ id := fun x hx he => hid (he ▸ hx)
  rw [createSpender_state (hne x (hsound.wired.mem (.inr hy))),
    createSpender_state (hne y (hsound.wired.closed (.inr (.inr hy))))]
  exact hconflicts x y hy

end Creation

section Eviction

variable [DecidableEq ResourceID] {fuel : Nat} {id : SpenderID}

omit [DecidableEq SpenderID] [DecidableEq ResourceID] in
theorem Wired.progress (h : Wired (fun _ _ => False) d.links) :
    Progress d (fun _ => False) (d, []) := by
  refine ⟨h.linked, h.members, Evicts.refl d, fun x hx _ => ?_, fun x => by simp⟩
  have hno : x ∉ d.spendersByID := by
    intro hmem
    have hlive : (d.spender x).evicted = false := h.tidy.live x hmem
    exact Bool.false_ne_true (hlive.symm.trans hx)
  obtain ⟨hp, hc, hconf, hs⟩ := h.tidy.blank x hno
  simp only [links] at hp hc hconf hs
  exact ⟨hp, hs, hconf, fun k hk => by rw [hc] at hk; cases hk⟩

theorem Wired.evictSpender (h : Wired (fun _ _ => False) d.links)
    (hrun : evictSpender fuel d id = some d') :
    Wired (fun _ _ => False) d'.links ∧
      (∀ x, (d'.spender x).parents ⊆ (d.spender x).parents) ∧
      (∀ x, (d'.spender x).conflictHooks ⊆ (d.spender x).conflictHooks) ∧
      ∀ x, d'.state x = d.state x := by
  unfold SpendDag.evictSpender at hrun
  split at hrun
  · cases hrun
    exact ⟨h, fun _ => Subset.refl _, fun _ => Subset.refl _, fun _ => rfl⟩
  obtain ⟨e, hevict, rfl⟩ := map_eq_some_iff.mp hrun
  obtain ⟨hp, hev, -⟩ := evict_progress fuel h.progress hevict
  refine ⟨⟨⟨hp.linked.parent_iff, hp.linked.hook_iff, hp.linked.conflict_symm,
    hp.linked.member_iff⟩, hp.members, ?_, ?_⟩, hev.parents, hev.hooks_subset h.linked hp.linked,
    hev.state⟩
  · intro x hx
    by_cases hmem : x ∈ e.1.spendersByID
    · -- the evicted spenders
      have hlog : x ∈ e.2 := by
        by_contra hno
        exact hx (mem_filter.mpr ⟨hmem, by simpa using hno⟩)
      obtain ⟨hpar, hs, hconf, hk⟩ := hp.free x ((hp.logged x).mpr (.inr (.inr hlog))) not_false
      exact ⟨hpar, eq_nil_iff_forall_not_mem.mpr hk, hconf, hs⟩
    · rw [hev.spendersByID] at hmem
      exact hev.blank (h.tidy.blank x hmem)
  · intro x hx
    obtain ⟨hmem, hlog⟩ := mem_filter.mp hx
    rw [hev.spendersByID] at hmem
    have hlive : (d.spender x).evicted = false := h.tidy.live x hmem
    have hiff := hp.logged x
    rw [hlive] at hiff
    simp only [decide_eq_true_eq] at hlog
    simpa [hlog] using hiff

theorem Sound.evictSpender (h : Sound R d) (hrun : evictSpender fuel d id = some d') :
    Sound R d' := by
  obtain ⟨hwired, hparents, -, hstate⟩ := h.wired.evictSpender hrun
  exact ⟨hwired, h.along.subset hparents hstate⟩

theorem Inv.evictSpender (h : Inv d) (hrun : evictSpender fuel d id = some d') : Inv d' := by
  obtain ⟨hsound, hconflicts⟩ := h
  obtain ⟨-, -, hhooks, hstate⟩ := hsound.wired.evictSpender hrun
  exact ⟨hsound.evictSpender hrun,
    hconflicts.subset hhooks (fun x hx => (hstate x).symm.trans hx)⟩

end Eviction

/-! ## Section 4: Parents -/

theorem Sound.removeParent (h : Sound R d) (c p : SpenderID) : Sound R (removeParent d c p) := by
  have hrem := removes_removeParent d c p
  exact ⟨⟨linked_removeParent h.wired.linked c p, membersConflict_removeParent h.wired.members c p,
    h.wired.tidy.removes hrem⟩, h.along.subset hrem.parents hrem.state⟩

section

variable (d : SpendDAG SpenderID ResourceID VoteRank)

/-- The two ends of a new parent reference. -/
def linkParent (c p : SpenderID) : SpendDAG SpenderID ResourceID VoteRank :=
  (d.modify c (fun s => { s with parents := s.parents ++ [p] })).modify p
    (fun s => { s with children := s.children ++ [c] })

theorem linkParent_state (c p x : SpenderID) : (linkParent d c p).state x = d.state x := by
  simp only [state, linkParent, modify_spender]
  split <;> split <;> rfl

theorem linkParent_links (c p : SpenderID) :
    (linkParent d c p).links = { d.links with
      parents := fun x => if x = c then d.links.parents x ++ [p] else d.links.parents x
      children := fun x => if x = p then d.links.children x ++ [c] else d.links.children x } := by
  ext1
  · rfl
  · rfl
  all_goals
    funext x
    simp only [links, linkParent, modify_spender]
    split <;> split <;> rfl

end

variable {p : SpenderID}

theorem Wired.linkParent (h : Wired (fun _ _ => False) d.links) (hc : c ∈ d.spendersByID)
    (hp : p ∈ d.spendersByID) :
    Wired (fun _ _ => False) (linkParent d c p).links := by
  rw [linkParent_links d c p]
  refine ⟨⟨fun {x y} => ?_, h.linked.hook_iff, h.linked.conflict_symm, h.linked.member_iff⟩,
    h.members, ?_, h.tidy.live⟩
  · have hxy := h.linked.parent_iff (c := x) (p := y)
    show y ∈ (if x = c then d.links.parents x ++ [p] else d.links.parents x) ↔
      x ∈ (if y = p then d.links.children y ++ [c] else d.links.children y)
    by_cases hx : x = c <;> by_cases hy : y = p <;> simp [hx, hy] at hxy ⊢ <;> simp [hxy]
  · intro x hx
    have hxc : x ≠ c := fun he => hx (he ▸ hc)
    have hxp : x ≠ p := fun he => hx (he ▸ hp)
    simp only [if_neg hxc, if_neg hxp]
    exact h.tidy.blank x hx

/-- After a new parent reference the states of the two are still to be related. -/
theorem AlongParents.linkParent {W : SpenderID → SpenderID → Prop} (h : AlongParents R W d)
    (c p : SpenderID) :
    AlongParents R (fun x y => W x y ∨ pairsWith c [p] x y) (linkParent d c p) := by
  intro x y hy
  have hsame : ((SpendDag.linkParent d c p).spender x).parents =
      if x = c then (d.spender x).parents ++ [p] else (d.spender x).parents :=
    congrFun (congrArg parents (linkParent_links d c p)) x
  rw [hsame] at hy
  have hold : y ∈ (d.spender x).parents ∨ pairsWith c [p] x y := by
    split at hy
    · next hx => exact (mem_append.mp hy).imp id (fun hy => ⟨hx, hy⟩)
    · exact .inl hy
  rw [linkParent_state, linkParent_state]
  rcases hold with hy | hpair
  · exact (h x y hy).imp_left .inl
  · exact .inl (.inr hpair)

/-- What adding a parent comes down to: the parent is known already, or the new
    reference is made and a rejected parent rejects the child. -/
theorem addParent_cases (hlinked : Linked d.links) (hrun : addParent fuel c d p = some d') :
    d' = d ∨
      (d.state p = .rejected ∧ setAcceptanceState fuel (linkParent d c p) c .rejected = some d') ∨
      (d.state p ≠ .rejected ∧ d' = linkParent d c p) := by
  unfold SpendDag.addParent at hrun
  split at hrun
  · cases hrun
    exact .inl rfl
  next hnew =>
  split at hrun
  · cases hrun
  -- the parent does not know the child yet
  have hchild : c ∉ ((d.modify c (fun s => { s with parents := s.parents ++ [p] })).spender
      p).children := by
    intro hmem
    apply hnew
    apply hlinked.parent_iff.mpr
    rw [modify_spender] at hmem
    split at hmem
    · exact hmem
    · exact hmem
  unfold registerChild at hrun
  rw [if_neg hchild] at hrun
  change (if (linkParent d c p).state p = .rejected then
    setAcceptanceState fuel (linkParent d c p) c .rejected else some (linkParent d c p)) =
      some d' at hrun
  rw [linkParent_state] at hrun
  split at hrun
  · next hpr => exact .inr (.inl ⟨hpr, hrun⟩)
  · next hpr =>
    cases hrun
    exact .inr (.inr ⟨hpr, rfl⟩)

theorem addParent_frame (hlinked : Linked d.links) (hrun : addParent fuel c d p = some d') :
    d'.spendersByID = d.spendersByID ∧
      (∀ x, (d'.spender x).conflictHooks = (d.spender x).conflictHooks) ∧
      ∀ x, d'.state x = d.state x ∨ d'.state x = .rejected := by
  have hhooks : ∀ x, ((linkParent d c p).spender x).conflictHooks =
      (d.spender x).conflictHooks :=
    fun x => congrFun (congrArg conflictHooks (linkParent_links d c p)) x
  rcases addParent_cases hlinked hrun with rfl | ⟨-, hreject⟩ | ⟨-, rfl⟩
  · exact ⟨rfl, fun _ => rfl, fun _ => .inl rfl⟩
  · have hlinks := setAcceptanceState_links fuel hreject
    refine ⟨congrArg Links.spendersByID hlinks,
      fun x => (conflictHooks_eq hlinks x).trans (hhooks x), fun x => ?_⟩
    rw [← linkParent_state d c p]
    exact (reject_spec fuel _ d' c hreject).1.state x
  · exact ⟨rfl, hhooks, fun x => .inl (linkParent_state d c p x)⟩

/-- One parent is added.  If it is not rejected, it must be in the relation. -/
theorem Sound.addParent (hR : Propagated R) (h : Sound R d) (hc : c ∈ d.spendersByID)
    (hp : p ∈ d.spendersByID) (hnew : d.state p ≠ .rejected → R (d.state c) (d.state p))
    (hrun : addParent fuel c d p = some d') : Sound R d' := by
  have hwired := h.wired.linkParent hc hp
  have halong := h.along.linkParent c p
  rcases addParent_cases h.wired.linked hrun with rfl | ⟨-, hreject⟩ | ⟨hpr, rfl⟩
  · exact h
  · -- a rejected parent: the child is rejected, too
    obtain ⟨hr, hcr⟩ := reject_spec fuel _ d' c hreject
    refine ⟨setAcceptanceState_links fuel hreject ▸ hwired, fun x y hy => .inr ?_⟩
    rcases hr.along hR hwired.linked halong x y hy with (hW | ⟨rfl, -⟩) | hok
    · exact hW.elim
    · rw [hcr]
      exact hR.rejectedChild _
    · exact hok
  · refine ⟨hwired, fun x y hy => .inr ?_⟩
    rcases halong x y hy with (hW | ⟨rfl, hyp⟩) | hok
    · exact hW.elim
    · rw [mem_singleton] at hyp
      subst hyp
      rw [linkParent_state, linkParent_state]
      exact hnew hpr
    · exact hok

/-- No pending spender becomes a parent of an accepted one. -/
def AddsNoPendingParent (d : SpendDAG SpenderID ResourceID VoteRank) (id : SpenderID)
    (addedParentIDs : List SpenderID) : Prop :=
  d.state id = .accepted → ∀ p ∈ addedParentIDs, p ∈ d.spendersByID → d.state p ≠ .pending

variable {added : List SpenderID}

omit [DecidableEq SpenderID] in
theorem AddsNoPendingParent.agree (h : AddsNoPendingParent d id added) (hp : p ∈ added)
    (hmem : p ∈ d.spendersByID) (hpr : d.state p ≠ .rejected) : Agree (d.state id) (d.state p) := by
  refine ⟨fun ha => ?_, fun hr => absurd hr hpr⟩
  cases hs : d.state p with
  | pending => exact absurd hs (h ha p hp hmem)
  | accepted => rfl
  | rejected => exact absurd hs hpr

theorem sound_foldl_removeParent (c : SpenderID) (rs : List SpenderID) :
    ∀ {d : SpendDAG SpenderID ResourceID VoteRank}, Sound R d →
      Sound R (rs.foldl (fun d p => removeParent d c p) d) ∧
        Removes d (rs.foldl (fun d p => removeParent d c p) d) := by
  induction rs with
  | nil => exact fun hd => ⟨hd, Removes.refl _⟩
  | cons r rs ih =>
    intro d hd
    obtain ⟨hsound, hrem⟩ := ih (hd.removeParent c r)
    exact ⟨hsound, (removes_removeParent d c r).trans hrem⟩

variable {removed : List SpenderID} {z o : SpenderID}

/-- The parents of a spender are updated.  The added ones that are not rejected must
    be in the relation; removals come first and change neither states nor the map. -/
theorem Sound.updateParents (hR : Propagated R) (h : Sound R d) (hc : c ∈ d.spendersByID)
    (hadded : ∀ p ∈ added, p ∈ d.spendersByID)
    (hnew : ∀ p ∈ added, d.state p ≠ .rejected → R (d.state c) (d.state p))
    (hrun : updateParents fuel d c added removed = some d') :
    Sound R d' ∧ (∀ x, (d'.spender x).conflictHooks ⊆ (d.spender x).conflictHooks) ∧
      ∀ x, d'.state x = .accepted → d.state x = .accepted := by
  obtain ⟨h₁, hrem⟩ := sound_foldl_removeParent c removed h
  have hloop := run_loop (I := fun ps s => Sound R s ∧ s.spendersByID = d.spendersByID ∧
      (∀ p ∈ ps, p ∈ added) ∧
      (∀ x, (s.spender x).conflictHooks ⊆ (d.spender x).conflictHooks) ∧
      ∀ x, s.state x = d.state x ∨ s.state x = .rejected)
    ?_ ⟨h₁, hrem.spendersByID, fun _ hp => hp,
      hrem.toEvicts.hooks_subset h.wired.linked h₁.wired.linked,
      fun x => .inl (hrem.state x)⟩ hrun
  · obtain ⟨hs, -, -, hhooks, hstate⟩ := hloop
    refine ⟨hs, hhooks, fun x hx => ?_⟩
    rcases hstate x with he | he
    · exact he ▸ hx
    · rw [hx] at he
      cases he
  · rintro p ps s s' ⟨hs, hmap, hps, hhooks, hstate⟩ hs'
    have hp := hps p mem_cons_self
    obtain ⟨hmap', hhooks', hstate'⟩ := addParent_frame hs.wired.linked hs'
    refine ⟨?_, hmap'.trans hmap, fun q hq => hps q (mem_cons_of_mem p hq),
      fun x => (hhooks' x).symm ▸ hhooks x, fun x => ?_⟩
    · -- rejections on the way only make the relation easier
      apply hs.addParent hR (hmap.symm ▸ hc) (hmap.symm ▸ hadded p hp) _ hs'
      intro hpr
      have hpe := (hstate p).resolve_right hpr
      rcases hstate c with hce | hce
      · rw [hce, hpe]
        exact hnew p hp (hpe ▸ hpr)
      · rw [hce]
        exact hR.rejectedChild _
    · rcases hstate' x with he | he
      · rw [he]
        exact hstate x
      · exact .inr he

theorem Sound.updateSpenderParents (hR : Propagated R) (h : Sound R d)
    (hnew : ∀ p ∈ added, p ∈ d.spendersByID → d.state p ≠ .rejected →
      R (d.state id) (d.state p))
    (hrun : (updateSpenderParents fuel d id added removed).map Prod.fst = some d') :
    Sound R d' ∧ (∀ x, (d'.spender x).conflictHooks ⊆ (d.spender x).conflictHooks) ∧
      ∀ x, d'.state x = .accepted → d.state x = .accepted := by
  unfold SpendDag.updateSpenderParents at hrun
  split at hrun
  · cases hrun
    exact ⟨h, fun _ => Subset.refl _, fun _ hx => hx⟩
  next hid =>
  split at hrun
  · cases hrun
    exact ⟨h, fun _ => Subset.refl _, fun _ hx => hx⟩
  · rw [Option.map_map] at hrun
    obtain ⟨d₁, hupdate, rfl⟩ := map_eq_some_iff.mp hrun
    apply h.updateParents hR (not_not.mp hid) _ _ hupdate
    · intro p hp
      simpa using (mem_filter.mp hp).2
    · intro p hp
      obtain ⟨hp, hmem⟩ := mem_filter.mp hp
      exact hnew p hp (by simpa using hmem)

theorem Inv.updateSpenderParents (h : Inv d) (hpend : AddsNoPendingParent d id added)
    (hrun : (updateSpenderParents fuel d id added removed).map Prod.fst = some d') : Inv d' := by
  obtain ⟨hsound, hconflicts⟩ := h
  obtain ⟨hsound', hhooks, hstate⟩ := hsound.updateSpenderParents propagated_agree
    (fun p hp hmem => hpend.agree hp hmem) hrun
  exact ⟨hsound', hconflicts.subset hhooks hstate⟩

/-! ## Section 5: Spend sets -/

theorem addConflicting_state (d : SpendDAG SpenderID ResourceID VoteRank) (c x y : SpenderID) :
    (addConflicting d c x).2.state y = d.state y := by
  unfold addConflicting state
  split
  · rfl
  · simp only [modify_spender]
    split <;> split <;> rfl

theorem addConflicting_links (d : SpendDAG SpenderID ResourceID VoteRank) (c x : SpenderID) :
    ∃ conflictingSpenders conflictHooks, (addConflicting d c x).2.links = { d.links with
      conflictingSpenders := conflictingSpenders
      conflictHooks := conflictHooks } := by
  refine ⟨(addConflicting d c x).2.links.conflictingSpenders,
    (addConflicting d c x).2.links.conflictHooks, ?_⟩
  unfold addConflicting
  split
  · rfl
  · ext1
    any_goals rfl
    all_goals
      funext y
      simp only [links, modify_spender]
      split <;> split <;> rfl

section

variable (hlive : (d.spender c).evicted = false)
include hlive

theorem addConflicting_isNew (hne : x ≠ c) :
    (addConflicting d c x).1 = decide (x ∉ (d.spender c).conflictingSpenders) := by
  unfold addConflicting
  by_cases hx : x ∈ (d.spender c).conflictingSpenders <;> simp [hlive, hne, hx]

theorem mem_conflicting_addConflicting (hne : x ≠ c) :
    z ∈ ((addConflicting d c x).2.spender y).conflictingSpenders ↔
      z ∈ (d.spender y).conflictingSpenders ∨ (y = c ∧ z = x) := by
  unfold addConflicting
  split
  · next hold =>
    have hx : x ∈ (d.spender c).conflictingSpenders := by simpa [hlive, hne] using hold
    constructor
    · exact .inl
    · rintro (hz | ⟨rfl, rfl⟩)
      · exact hz
      · exact hx
  · simp only [modify_spender]
    by_cases hyc : y = c <;> by_cases hyx : y = x <;> simp_all

theorem mem_hooks_addConflicting (hne : x ≠ c)
    (hhook : ∀ a b, a ∈ (d.spender b).conflictHooks ↔ b ∈ (d.spender a).conflictingSpenders) :
    z ∈ ((addConflicting d c x).2.spender y).conflictHooks ↔
      z ∈ (d.spender y).conflictHooks ∨ (y = x ∧ z = c) := by
  unfold addConflicting
  split
  · next hold =>
    have hx : x ∈ (d.spender c).conflictingSpenders := by simpa [hlive, hne] using hold
    constructor
    · exact .inl
    · rintro (hz | ⟨rfl, rfl⟩)
      · exact hz
      · exact (hhook z y).mpr hx
  · simp only [modify_spender]
    by_cases hyc : y = c <;> by_cases hyx : y = x <;> simp_all

/-- One direction of a new conflict: the links of `addConflicting`, and the spender
    is rejected if the other one is accepted. -/
theorem registerConflictingSpender_spec (hne : x ≠ c)
    (hrun : registerConflictingSpender fuel d c x = some d') :
    d'.links = (addConflicting d c x).2.links ∧ Rejects d d' ∧
      (x ∉ (d.spender c).conflictingSpenders → d.state x = .accepted →
        d'.state c = .rejected) := by
  obtain ⟨_, _, hlinks⟩ := addConflicting_links d c x
  have hadd : Rejects d (addConflicting d c x).2 :=
    Rejects.of_state_eq (congrFun (congrArg parents hlinks))
      (congrFun (congrArg children hlinks)) (addConflicting_state d c x)
  have hnew := addConflicting_isNew (x := x) hlive hne
  unfold registerConflictingSpender at hrun
  split at hrun
  · next hd =>
    cases hrun
    rw [hd] at hadd hnew ⊢
    exact ⟨rfl, hadd, fun hx => by simp [hx] at hnew⟩
  · next d₁ hd =>
    have hstate := addConflicting_state d c x x
    rw [hd] at hadd hstate ⊢
    split at hrun
    · obtain ⟨hr, hc⟩ := reject_spec fuel _ d' c hrun
      exact ⟨setAcceptanceState_links fuel hrun, hadd.trans hr, fun _ _ => hc⟩
    · next hx =>
      cases hrun
      exact ⟨rfl, hadd, fun _ ha => absurd (hstate.trans ha) hx⟩

end

/-- What registering the conflict of `c` and `o` at both of them does. -/
structure RegistersConflict (c o : SpenderID) (d d' : SpendDAG SpenderID ResourceID VoteRank) :
    Prop where
  spendersByID : d'.spendersByID = d.spendersByID
  spendSetsByID : d'.spendSetsByID = d.spendSetsByID
  spendSets : ∀ y, (d'.spender y).spendSets = (d.spender y).spendSets
  evicted : ∀ y, (d'.spender y).evicted = (d.spender y).evicted
  conflicting : ∀ y z, z ∈ (d'.spender y).conflictingSpenders ↔
    (z ∈ (d.spender y).conflictingSpenders ∨ (y = c ∧ z = o)) ∨ (y = o ∧ z = c)
  hooks : ∀ y z, z ∈ (d'.spender y).conflictHooks ↔
    (z ∈ (d.spender y).conflictHooks ∨ (y = o ∧ z = c)) ∨ (y = c ∧ z = o)
  rejects : Rejects d d'
  apart : o ∉ (d.spender c).conflictingSpenders →
    ¬(d'.state c = .accepted ∧ d'.state o = .accepted)

theorem registerConflict_spec (hc : (d.spender c).evicted = false)
    (ho : (d.spender o).evicted = false) (hne : o ≠ c)
    (hhook : ∀ a b, a ∈ (d.spender b).conflictHooks ↔ b ∈ (d.spender a).conflictingSpenders)
    (hrun : registerConflict fuel c d o = some d') : RegistersConflict c o d d' := by
  obtain ⟨d₁, h₁, h₂⟩ := bind_eq_some_iff.mp hrun
  obtain ⟨hlinks₁, hr₁, hrej⟩ := registerConflictingSpender_spec hc hne h₁
  have hconf₁ : ∀ y z, z ∈ (d₁.spender y).conflictingSpenders ↔
      z ∈ (d.spender y).conflictingSpenders ∨ (y = c ∧ z = o) := by
    intro y z
    rw [← mem_conflicting_addConflicting hc hne]
    exact Eq.to_iff (congrArg (z ∈ ·) (congrFun (congrArg conflictingSpenders hlinks₁) y))
  have hhook₁ : ∀ y z, z ∈ (d₁.spender y).conflictHooks ↔
      z ∈ (d.spender y).conflictHooks ∨ (y = o ∧ z = c) := by
    intro y z
    rw [← mem_hooks_addConflicting hc hne hhook, conflictHooks_eq hlinks₁]
  obtain ⟨_, _, hframe₁⟩ := addConflicting_links d c o
  have ho₁ : (d₁.spender o).evicted = false :=
    (congrFun (congrArg evicted (hlinks₁.trans hframe₁)) o).trans ho
  obtain ⟨hlinks₂, hr₂, -⟩ := registerConflictingSpender_spec ho₁ hne.symm h₂
  obtain ⟨_, _, hframe₂⟩ := addConflicting_links d₁ o c
  have hframe := hlinks₂.trans hframe₂
  rw [hlinks₁, hframe₁] at hframe
  -- the hooks still match the conflicts after the first registration
  have hmatch : ∀ a b, a ∈ (d₁.spender b).conflictHooks ↔
      b ∈ (d₁.spender a).conflictingSpenders := by
    intro a b
    rw [hhook₁, hconf₁, hhook, and_comm]
  constructor
  · exact congrArg Links.spendersByID hframe
  · exact congrArg Links.spendSetsByID hframe
  · exact congrFun (congrArg spendSets hframe)
  · exact congrFun (congrArg evicted hframe)
  · intro y z
    rw [← hconf₁, ← mem_conflicting_addConflicting ho₁ hne.symm]
    exact Eq.to_iff (congrArg (z ∈ ·) (congrFun (congrArg conflictingSpenders hlinks₂) y))
  · intro y z
    rw [← hhook₁, ← mem_hooks_addConflicting ho₁ hne.symm hmatch, conflictHooks_eq hlinks₂]
  · exact hr₁.trans hr₂
  · rintro hnew ⟨hca, hoa⟩
    have hcr := hr₂.rejected (hrej hnew (hr₁.accepted (hr₂.accepted hoa)))
    rw [hca] at hcr
    cases hcr

theorem RegistersConflict.wired {M : SpenderID → SpenderID → Prop} (hd : Wired M d.links)
    (hc : c ∈ d.spendersByID) (ho : o ∈ d.spendersByID) (h : RegistersConflict c o d d') :
    Wired (fun x y => M x y ∧ ¬(x = c ∧ y = o) ∧ ¬(x = o ∧ y = c)) d'.links := by
  refine ⟨⟨?_, ?_, ?_, ?_⟩, ?_, ?_, ?_⟩
  · intro x p
    simp only [links, h.rejects.parents_eq, h.rejects.children_eq]
    exact hd.linked.parent_iff
  · intro x y
    simp only [links]
    rw [h.hooks, h.conflicting]
    have hxy := hd.linked.hook_iff (c := x) (x := y)
    simp only [links] at hxy
    rw [hxy]
    tauto
  · intro x y hy
    simp only [links] at hy ⊢
    rw [h.conflicting] at hy ⊢
    have hxy := hd.linked.conflict_symm (c := x) (x := y)
    simp only [links] at hxy
    tauto
  · intro x r
    simp only [links, h.spendSetsByID, h.spendSets]
    exact hd.linked.member_iff
  · intro x y r hx hy hne
    simp only [links, h.spendSetsByID] at hx hy
    have hxy := hd.members x y r hx hy hne
    simp only [links] at hxy ⊢
    rw [h.conflicting]
    tauto
  · intro x hx
    rw [links_spendersByID, h.spendersByID] at hx
    obtain ⟨hpar, hch, hconf, hs⟩ := hd.tidy.blank x hx
    refine ⟨(h.rejects.parents_eq x).trans hpar, (h.rejects.children_eq x).trans hch, ?_,
      (h.spendSets x).trans hs⟩
    apply eq_nil_iff_forall_not_mem.mpr
    intro z hz
    rcases (h.conflicting x z).mp hz with (hz | ⟨rfl, -⟩) | ⟨rfl, -⟩
    · rw [show (d.spender x).conflictingSpenders = [] from hconf] at hz
      cases hz
    · exact hx hc
    · exact hx ho
  · intro x hx
    rw [links_spendersByID, h.spendersByID] at hx
    exact (h.evicted x).trans (hd.tidy.live x hx)

/-- The new conflict is between spenders that are not both accepted. -/
theorem RegistersConflict.conflictsApart (hlinked : Linked d.links)
    (h : RegistersConflict c o d d') (hd : ConflictsApart (fun _ _ => False) d) :
    ConflictsApart (fun _ _ => False) d' := by
  intro x y hy hx hy'
  -- a conflict that was there before, or the new one
  by_cases hnew : o ∈ (d.spender c).conflictingSpenders
  · have hco : c ∈ (d.spender o).conflictHooks := hlinked.hook_iff.mpr hnew
    have hoc : o ∈ (d.spender c).conflictHooks := hlinked.hook_symm hco
    have hold : y ∈ (d.spender x).conflictHooks := by
      rcases (h.hooks x y).mp hy with (hold | ⟨rfl, rfl⟩) | ⟨rfl, rfl⟩
      · exact hold
      · exact hco
      · exact hoc
    exact hd x y hold (h.rejects.accepted hx) (h.rejects.accepted hy')
  · rcases (h.hooks x y).mp hy with (hold | ⟨rfl, rfl⟩) | ⟨rfl, rfl⟩
    · exact hd x y hold (h.rejects.accepted hx) (h.rejects.accepted hy')
    · exact (h.apart hnew ⟨hy', hx⟩).elim
    · exact (h.apart hnew ⟨hx, hy'⟩).elim

section SpendSets

variable [DecidableEq ResourceID] {Q : SpendDAG SpenderID ResourceID VoteRank → Prop}
  {resourceIDs : List ResourceID}

section

variable (d : SpendDAG SpenderID ResourceID VoteRank)

theorem joined_links (c : SpenderID) (r : ResourceID) :
    (addSpendSet (addToSpendSet d r c) c r).links = { d.links with
      spendSetsByID := fun x => if x = r then d.spendSetsByID x ++ [c] else d.spendSetsByID x
      spendSets := fun x =>
        if x = c then (d.spender x).spendSets ++ [r] else (d.spender x).spendSets } := by
  ext1
  · rfl
  · rfl
  all_goals
    funext x
    simp only [links, addSpendSet, addToSpendSet, modify_spender]
    split <;> rfl

theorem joined_state (c x : SpenderID) (r : ResourceID) :
    (addSpendSet (addToSpendSet d r c) c r).state x = d.state x :=
  state_modify (addToSpendSet d r c) c x _ (fun _ => rfl)

theorem joined_refs (c x : SpenderID) (r : ResourceID) :
    ((addSpendSet (addToSpendSet d r c) c r).spender x).parents = (d.spender x).parents ∧
      ((addSpendSet (addToSpendSet d r c) c r).spender x).conflictHooks =
        (d.spender x).conflictHooks :=
  ⟨congrFun (congrArg parents (joined_links d c r)) x,
    congrFun (congrArg conflictHooks (joined_links d c r)) x⟩

end

theorem Wired.joined (h : Wired (fun _ _ => False) d.links) (hc : c ∈ d.spendersByID) :
    Wired (fun x y => (x = c ∧ y ∈ d.spendSetsByID r) ∨ (y = c ∧ x ∈ d.spendSetsByID r))
      (addSpendSet (addToSpendSet d r c) c r).links := by
  rw [joined_links d c r]
  refine ⟨⟨h.linked.parent_iff, h.linked.hook_iff, h.linked.conflict_symm, fun {x q} => ?_⟩,
    ?_, ?_, h.tidy.live⟩
  · have hxq := h.linked.member_iff (c := x) (r := q)
    simp only [links] at hxq
    by_cases hx : x = c <;> by_cases hq : q = r <;> simp [hx, hq] at hxq ⊢ <;> simp [hxq]
  · intro x y q hx hy hne
    have hold := h.members x y q
    simp only [links] at hx hy hold ⊢
    by_cases hq : q = r
    · subst hq
      simp only [if_true, mem_append, mem_singleton] at hx hy
      rcases hx with hx | rfl
      · rcases hy with hy | rfl
        · exact (hold hx hy hne).imp_left False.elim
        · exact .inl (.inr ⟨rfl, hx⟩)
      · exact .inl (.inl ⟨rfl, hy.resolve_right hne⟩)
    · rw [if_neg hq] at hx hy
      exact (hold hx hy hne).imp_left False.elim
  · intro x hx
    have hxc : x ≠ c := fun he => hx (he ▸ hc)
    obtain ⟨hpar, hch, hconf, hs⟩ := h.tidy.blank x hx
    exact ⟨hpar, hch, hconf, (if_neg hxc).trans hs⟩

/-- Joining a spend set keeps the DAG sound, and with it every property of the states
    that the new membership and the registration of conflicts keep. -/
theorem Sound.joinSpendSet (hR : Propagated R) (h : Sound R d) (hQ : Q d)
    (hjoined : Q d → Q (addSpendSet (addToSpendSet d r c) c r))
    (hregister : ∀ o s s', Linked s.links → RegistersConflict c o s s' → Q s → Q s')
    (hc : c ∈ d.spendersByID) (hrun : joinSpendSet fuel c d r = some d') :
    Sound R d' ∧ Q d' ∧ d'.spendersByID = d.spendersByID := by
  unfold SpendDag.joinSpendSet at hrun
  have hiff := h.wired.linked.member_iff (c := c) (r := r)
  simp only [links] at hiff
  by_cases hmem : c ∈ d.spendSetsByID r
  · -- already a member: nothing happens
    simp only [hmem, decide_true, if_true, hiff.mp hmem] at hrun
    cases hrun
    exact ⟨h, hQ, rfl⟩
  have hr : r ∉ ((addToSpendSet d r c).spender c).spendSets := fun hr => hmem (hiff.mpr hr)
  simp only [hmem, decide_false, Bool.false_eq_true, if_false, hr] at hrun
  have halong : AlongParents R (fun _ _ => False) (addSpendSet (addToSpendSet d r c) c r) := by
    refine h.along.subset (fun x => ?_) (fun x => joined_state d c x r)
    rw [(joined_refs d c x r).1]
    exact Subset.refl _
  have hothers : ∀ o ∈ d.spendSetsByID r, o ∈ d.spendersByID ∧ o ≠ c := by
    intro o ho
    refine ⟨h.wired.tidy.mem_of_member h.wired.linked ho, ?_⟩
    rintro rfl
    exact hmem ho
  have hloop := run_loop (I := fun os s =>
      Wired (fun x y => (x = c ∧ y ∈ os) ∨ (y = c ∧ x ∈ os)) s.links ∧
      AlongParents R (fun _ _ => False) s ∧ Q s ∧ s.spendersByID = d.spendersByID ∧
      ∀ o ∈ os, o ∈ d.spendersByID ∧ o ≠ c)
    ?_ ⟨h.wired.joined hc, halong, hjoined hQ, rfl, hothers⟩ hrun
  · obtain ⟨hwired, halong, hQ', hmap, -⟩ := hloop
    refine ⟨⟨⟨hwired.linked, ?_, hwired.tidy⟩, halong⟩, hQ', hmap⟩
    apply hwired.members.mono _ (fun _ => Subset.refl _) (fun _ => Subset.refl _)
    rintro x y (⟨-, hy⟩ | ⟨-, hx⟩)
    · cases hy
    · cases hx
  · rintro o os s s' ⟨hwired, halong, hQs, hmap, hos⟩ hs'
    obtain ⟨ho, hne⟩ := hos o mem_cons_self
    rw [← hmap] at ho
    have hcs : c ∈ s.spendersByID := hmap ▸ hc
    have hreg := registerConflict_spec (hwired.tidy.live c hcs) (hwired.tidy.live o ho) hne
      (fun _ _ => hwired.linked.hook_iff) hs'
    have hwired' := hreg.wired hwired hcs ho
    refine ⟨⟨hwired'.linked, ?_, hwired'.tidy⟩, hreg.rejects.along hR hwired.linked halong,
      hregister o s s' hwired.linked hreg hQs, hreg.spendersByID.trans hmap,
      fun q hq => hos q (mem_cons_of_mem o hq)⟩
    apply hwired'.members.mono _ (fun _ => Subset.refl _) (fun _ => Subset.refl _)
    rintro x y ⟨hM, hxy, hyx⟩
    left
    rcases hM with ⟨hx, hy⟩ | ⟨hy, hx⟩
    · exact .inl ⟨hx, (mem_cons.mp hy).resolve_left (fun he => hxy ⟨hx, he⟩)⟩
    · exact .inr ⟨hy, (mem_cons.mp hx).resolve_left (fun he => hyx ⟨he, hy⟩)⟩

theorem Sound.updateSpentResources (hR : Propagated R) (h : Sound R d) (hQ : Q d)
    (hjoined : ∀ s c r, Q s → Q (addSpendSet (addToSpendSet s r c) c r))
    (hregister : ∀ c o s s', Linked s.links → RegistersConflict c o s s' → Q s → Q s')
    (hrun : (updateSpentResources fuel d id resourceIDs).map Prod.fst = some d') :
    Sound R d' ∧ Q d' := by
  unfold SpendDag.updateSpentResources at hrun
  split at hrun
  · cases hrun
    exact ⟨h, hQ⟩
  next hid =>
  split at hrun
  · cases hrun
    exact ⟨h, hQ⟩
  rw [Option.map_map] at hrun
  obtain ⟨d₁, hjoin, rfl⟩ := map_eq_some_iff.mp hrun
  have hinv := run_invariant (I := fun s => Sound R s ∧ Q s ∧ id ∈ s.spendersByID) ?_
    ⟨h, hQ, not_not.mp hid⟩ hjoin
  · exact ⟨hinv.1, hinv.2.1⟩
  · rintro s r s' ⟨hs, hQs, hmem⟩ hs'
    obtain ⟨hs₁, hQ₁, hmap⟩ :=
      hs.joinSpendSet hR hQs (hjoined s id r) (hregister id) hmem hs'
    exact ⟨hs₁, hQ₁, hmap ▸ hmem⟩

theorem Inv.updateSpentResources (h : Inv d)
    (hrun : (updateSpentResources fuel d id resourceIDs).map Prod.fst = some d') : Inv d' := by
  obtain ⟨hsound, hconflicts⟩ := h
  refine (and_imp.mpr Inv.mk) (hsound.updateSpentResources propagated_agree hconflicts ?_ ?_ hrun)
  · intro s c r hs
    refine hs.subset (fun x => ?_) (fun x hx => (joined_state s c x r).symm.trans hx)
    rw [(joined_refs s c x r).2]
    exact Subset.refl _
  · exact fun c o s s' hlinked hreg hs => hreg.conflictsApart hlinked hs

end SpendSets

/-- The worker only changes the order of the conflicting spenders. -/
theorem Wired.fixMemberPosition (h : Wired (fun _ _ => False) d.links) {order : List SpenderID}
    (hperm : order.Perm (d.spender id).conflictingSpenders) :
    Wired (fun _ _ => False)
      (d.modify id (fun s => { s with conflictingSpenders := order })).links := by
  set d' := d.modify id (fun s => { s with conflictingSpenders := order }) with hd'
  have hsame : ∀ x, (d'.spender x).parents = (d.spender x).parents ∧
      (d'.spender x).children = (d.spender x).children ∧
      (d'.spender x).conflictHooks = (d.spender x).conflictHooks ∧
      (d'.spender x).spendSets = (d.spender x).spendSets ∧
      (d'.spender x).evicted = (d.spender x).evicted := by
    intro x
    rw [hd', modify_spender]
    split <;> exact ⟨rfl, rfl, rfl, rfl, rfl⟩
  have hconf : ∀ x, (d'.spender x).conflictingSpenders.Perm
      (d.spender x).conflictingSpenders := by
    intro x
    rw [hd', modify_spender]
    split
    · next hx => exact hx ▸ hperm
    · exact List.Perm.refl _
  refine ⟨⟨?_, ?_, ?_, ?_⟩, ?_, ?_, ?_⟩
  · intro x p
    simp only [links, hsame]
    exact h.linked.parent_iff
  · intro x y
    simp only [links, hsame, (hconf x).mem_iff]
    exact h.linked.hook_iff
  · intro x y
    simp only [links, (hconf x).mem_iff, (hconf y).mem_iff]
    exact h.linked.conflict_symm
  · intro x r
    simp only [links, hsame]
    exact h.linked.member_iff
  · exact h.members.mono (fun _ _ hM => hM.elim) (fun _ => Subset.refl _)
      (fun x => (hconf x).symm.subset)
  · intro x hx
    obtain ⟨hp, hc, hconf', hs⟩ := h.tidy.blank x hx
    refine ⟨(hsame x).1.trans hp, (hsame x).2.1.trans hc, ?_, (hsame x).2.2.2.1.trans hs⟩
    exact List.Perm.eq_nil (hconf' ▸ hconf x)
  · exact fun x hx => (hsame x).2.2.2.2.trans (h.tidy.live x hx)

section FixMemberPosition

variable {id : SpenderID} {order : List SpenderID}

theorem Sound.fixMemberPosition (h : Sound R d)
    (hperm : order.Perm (d.spender id).conflictingSpenders) :
    Sound R (d.modify id (fun s => { s with conflictingSpenders := order })) := by
  refine ⟨h.wired.fixMemberPosition hperm, h.along.subset (fun x => ?_)
    (fun x => state_modify d id x _ (fun _ => rfl))⟩
  rw [modify_spender]
  split <;> exact Subset.refl _

theorem Inv.fixMemberPosition (h : Inv d) (hperm : order.Perm (d.spender id).conflictingSpenders) :
    Inv (d.modify id (fun s => { s with conflictingSpenders := order })) := by
  obtain ⟨hsound, hconflicts⟩ := h
  refine ⟨hsound.fixMemberPosition hperm, hconflicts.subset (fun x => ?_)
    (fun x hx => ?_)⟩
  · rw [modify_spender]
    split <;> exact Subset.refl _
  · rwa [state_modify d id x (fun s => { s with conflictingSpenders := order })
      (fun _ => rfl)] at hx

end FixMemberPosition

end AxonCore.SpendDag

import AxonCore.SpendDag.Links

/-! # Propagation of acceptance and rejection

    What one call of `setAcceptanceState` leaves behind, whatever calls it is
    nested in.  Rejection only ever rejects, and takes the children along
    (`reject_spec`).  Acceptance is described with the work that is still to be done:
    `AlongParents R W` says that the acceptance states are in `R` along every parent
    reference that is not in `W`, and `ConflictsApart T` that no two conflicting
    spenders are accepted unless the pair is in `T` (`accept_along`,
    `accept_conflictsApart`).  `Agree` is the strongest relation that is kept. -/

namespace AxonCore.SpendDag

open AxonCore.Lib List

variable {SpenderID ResourceID VoteRank : Type}

/-! ## Section 1: The states along parent references -/

variable {R : AcceptanceState → AcceptanceState → Prop}

section States

variable {d d' : SpendDAG SpenderID ResourceID VoteRank}

theorem parents_eq (h : d'.links = d.links) (x : SpenderID) :
    (d'.spender x).parents = (d.spender x).parents :=
  congrFun (congrArg Links.parents h) x

theorem children_eq (h : d'.links = d.links) (x : SpenderID) :
    (d'.spender x).children = (d.spender x).children :=
  congrFun (congrArg Links.children h) x

theorem conflictHooks_eq (h : d'.links = d.links) (x : SpenderID) :
    (d'.spender x).conflictHooks = (d.spender x).conflictHooks :=
  congrFun (congrArg Links.conflictHooks h) x

/-- A relation between the state of a spender and the state of its parent that holds
    once the spender is rejected and once the parent is accepted. -/
structure Propagated (R : AcceptanceState → AcceptanceState → Prop) : Prop where
  rejectedChild : ∀ s, R .rejected s
  acceptedParent : ∀ s, R s .accepted

/-- The states at the two ends of every parent reference that is not in `W` are
    in `R`. -/
def AlongParents (R : AcceptanceState → AcceptanceState → Prop)
    (W : SpenderID → SpenderID → Prop) (d : SpendDAG SpenderID ResourceID VoteRank) : Prop :=
  ∀ c p, p ∈ (d.spender c).parents → W c p ∨ R (d.state c) (d.state p)

/-- No two conflicting spenders are accepted unless the pair is in `T`. -/
def ConflictsApart (T : SpenderID → SpenderID → Prop)
    (d : SpendDAG SpenderID ResourceID VoteRank) : Prop :=
  ∀ x y, y ∈ (d.spender x).conflictHooks → d.state x = .accepted → d.state y = .accepted →
    T x y ∨ T y x

/-- An accepted spender has an accepted parent, and a rejected parent a rejected child. -/
def Agree (c p : AcceptanceState) : Prop :=
  (c = .accepted → p = .accepted) ∧ (p = .rejected → c = .rejected)

/-- Its second half. -/
def RejectedWithParent (c p : AcceptanceState) : Prop :=
  p = .rejected → c = .rejected

theorem propagated_agree : Propagated Agree where
  rejectedChild := fun _ => ⟨(fun h => nomatch h), fun _ => rfl⟩
  acceptedParent := fun _ => ⟨fun _ => rfl, fun h => nomatch h⟩

theorem propagated_rejectedWithParent : Propagated RejectedWithParent where
  rejectedChild := fun _ _ => rfl
  acceptedParent := fun _ h => nomatch h

variable {W T : SpenderID → SpenderID → Prop} {x : SpenderID} {xs : List SpenderID}

/-- The pairs of `c` with the spenders of a list. -/
def pairsWith (c : SpenderID) (ps : List SpenderID) (a b : SpenderID) : Prop :=
  a = c ∧ b ∈ ps

theorem AlongParents.mono {W' : SpenderID → SpenderID → Prop} (h : AlongParents R W d)
    (hW : ∀ c p, W c p → W' c p) : AlongParents R W' d :=
  fun c p hp => (h c p hp).imp_left (hW c p)

theorem AlongParents.subset (h : AlongParents R W d)
    (hparents : ∀ x, (d'.spender x).parents ⊆ (d.spender x).parents)
    (hstate : ∀ x, d'.state x = d.state x) : AlongParents R W d' := by
  intro c p hp
  rw [hstate, hstate]
  exact h c p (hparents c hp)

theorem ConflictsApart.subset (h : ConflictsApart T d)
    (hhooks : ∀ x, (d'.spender x).conflictHooks ⊆ (d.spender x).conflictHooks)
    (hstate : ∀ x, d'.state x = .accepted → d.state x = .accepted) : ConflictsApart T d' :=
  fun x y hy hx hy' => h x y (hhooks x hy) (hstate x hx) (hstate y hy')

/-! ## Section 2: Rejection -/

/-- What rejecting spenders does: only rejections, and with a spender all of its
    children. -/
structure Rejects (d d' : SpendDAG SpenderID ResourceID VoteRank) : Prop where
  parents_eq : ∀ x, (d'.spender x).parents = (d.spender x).parents
  children_eq : ∀ x, (d'.spender x).children = (d.spender x).children
  state : ∀ x, d'.state x = d.state x ∨ d'.state x = .rejected
  children : ∀ x, d'.state x = .rejected → d.state x ≠ .rejected →
    ∀ k ∈ (d.spender x).children, d'.state k = .rejected

theorem Rejects.of_state_eq (hp : ∀ x, (d'.spender x).parents = (d.spender x).parents)
    (hc : ∀ x, (d'.spender x).children = (d.spender x).children)
    (hs : ∀ x, d'.state x = d.state x) : Rejects d d' :=
  ⟨hp, hc, fun x => .inl (hs x), fun x h h' => absurd ((hs x).symm.trans h) h'⟩

theorem Rejects.refl (d : SpendDAG SpenderID ResourceID VoteRank) : Rejects d d :=
  Rejects.of_state_eq (fun _ => rfl) (fun _ => rfl) (fun _ => rfl)

theorem Rejects.rejected (h : Rejects d d') (hx : d.state x = .rejected) : d'.state x = .rejected :=
  (h.state x).elim (fun he => he.trans hx) id

theorem Rejects.accepted (h : Rejects d d') (hx : d'.state x = .accepted) :
    d.state x = .accepted := by
  rcases h.state x with he | he
  · exact he ▸ hx
  · rw [hx] at he
    cases he

theorem Rejects.trans {d₁ d₂ d₃ : SpendDAG SpenderID ResourceID VoteRank} (h : Rejects d₁ d₂)
    (h' : Rejects d₂ d₃) : Rejects d₁ d₃ where
  parents_eq := fun x => (h'.parents_eq x).trans (h.parents_eq x)
  children_eq := fun x => (h'.children_eq x).trans (h.children_eq x)
  state := by
    intro x
    rcases h'.state x with he | he
    · rw [he]
      exact h.state x
    · exact .inr he
  children := by
    intro x hx hx₁ k hk
    by_cases hx₂ : d₂.state x = .rejected
    · exact h'.rejected (h.children x hx₂ hx₁ k hk)
    · exact h'.children x hx hx₂ k (by rwa [h.children_eq])

theorem Rejects.along (hR : Propagated R) (h : Rejects d d') (hlinked : Linked d.links)
    (hd : AlongParents R W d) : AlongParents R W d' := by
  intro c p hp
  rw [h.parents_eq] at hp
  refine (hd c p hp).imp_right fun hok => ?_
  rcases h.state c with hc | hc
  · rcases h.state p with hp' | hp'
    · rwa [hc, hp']
    · by_cases hpd : d.state p = .rejected
      · rwa [hc, hp', ← hpd]
      · -- a newly rejected parent takes the child along
        rw [h.children p hp' hpd c (hlinked.parent_iff.mp hp)]
        exact hR.rejectedChild _
  · rw [hc]
    exact hR.rejectedChild _

theorem run_rejects
    {f : SpendDAG SpenderID ResourceID VoteRank → SpenderID →
      Option (SpendDAG SpenderID ResourceID VoteRank)}
    (hf : ∀ d d' x, f d x = some d' → Rejects d d' ∧ d'.state x = .rejected)
    (hrun : run f d xs = some d') : Rejects d d' ∧ ∀ x ∈ xs, d'.state x = .rejected := by
  refine run_each (D := fun s x => s.state x = .rejected) (fun s x s' hs hs' => ?_)
    (Rejects.refl d) hrun
  obtain ⟨hx, hxr⟩ := hf s s' x hs'
  exact ⟨hs.trans hx, hxr, fun y hy => hx.rejected hy⟩

/-- Once every spender that conflicts with `c` is rejected, `c` is in no conflict
    that is left. -/
theorem ConflictsApart.done {c : SpenderID}
    (h : ConflictsApart (fun x y => T x y ∨ pairsWith c xs x y) d)
    (hxs : ∀ x ∈ xs, d.state x = .rejected) : ConflictsApart T d := by
  intro x y hy hx hy'
  rcases h x y hy hx hy' with (hT | ⟨-, hmem⟩) | (hT | ⟨-, hmem⟩)
  · exact .inl hT
  · rw [hxs y hmem] at hy'
    cases hy'
  · exact .inr hT
  · rw [hxs x hmem] at hx
    cases hx

end States

variable [DecidableEq SpenderID] {d d' : SpendDAG SpenderID ResourceID VoteRank}

theorem setAcceptanceState_links (fuel : Nat) :
    ∀ {d d' : SpendDAG SpenderID ResourceID VoteRank} {c : SpenderID}
      {newState : AcceptanceState}, setAcceptanceState fuel d c newState = some d' →
      d'.links = d.links := by
  induction fuel with
  | zero => exact fun h => nomatch h
  | succ fuel ih =>
    intro d d' c newState hrun
    have hloop : ∀ {s s' : SpendDAG SpenderID ResourceID VoteRank} {t : AcceptanceState}
        {xs : List SpenderID}, run (fun d x => setAcceptanceState fuel d x t) s xs = some s' →
        s'.links = s.links := by
      intro s s' t xs h
      exact run_invariant (I := fun u => u.links = s.links)
        (fun _ _ _ hu hstep => (ih hstep).trans hu) rfl h
    rw [setAcceptanceState] at hrun
    split at hrun
    · cases hrun
      rfl
    · cases newState with
      | pending =>
        cases hrun
        exact links_setState d c .pending
      | accepted =>
        obtain ⟨d₂, hparents, hhooks⟩ := Option.bind_eq_some_iff.mp hrun
        exact (hloop hhooks).trans ((hloop hparents).trans (links_setState d c .accepted))
      | rejected => exact (hloop hrun).trans (links_setState d c .rejected)

theorem reject_spec (fuel : Nat) : ∀ (d d' : SpendDAG SpenderID ResourceID VoteRank)
    (c : SpenderID), setAcceptanceState fuel d c .rejected = some d' →
      Rejects d d' ∧ d'.state c = .rejected := by
  induction fuel with
  | zero => exact fun _ _ _ h => nomatch h
  | succ fuel ih =>
    intro d d' c hrun
    have hlinks := setAcceptanceState_links (fuel + 1) hrun
    rw [setAcceptanceState] at hrun
    split at hrun
    · next hc =>
      cases hrun
      exact ⟨Rejects.refl d, hc⟩
    · next hc =>
      obtain ⟨hr, hchildren⟩ := run_rejects ih hrun
      have hcr : d'.state c = .rejected := hr.rejected (by rw [state_setState, if_pos rfl])
      refine ⟨⟨parents_eq hlinks, children_eq hlinks, ?_, ?_⟩, hcr⟩
      · intro x
        by_cases hxc : x = c
        · exact .inr (hxc ▸ hcr)
        · have hx := hr.state x
          rwa [state_setState, if_neg hxc] at hx
      · intro x hx hxd k hk
        rw [← children_eq (links_setState d c .rejected)] at hk
        by_cases hxc : x = c
        · exact hchildren k (hxc ▸ hk)
        · exact hr.children x hx (by rwa [state_setState, if_neg hxc]) k hk

/-! ## Section 3: Acceptance -/

section Acceptance

variable {R : AcceptanceState → AcceptanceState → Prop} {W T : SpenderID → SpenderID → Prop}
  {c : SpenderID}

/-- After `accept`, `c` and its parents still have to be made consistent. -/
theorem AlongParents.setAccepted (hR : Propagated R)
    (h : AlongParents R (fun a b => W a b ∨ b = c) d) :
    AlongParents R (fun a b => W a b ∨ pairsWith c (d.spender c).parents a b)
      (d.setState c .accepted) := by
  intro a p hp
  rw [parents_eq (links_setState d c .accepted)] at hp
  by_cases hac : a = c
  · exact .inl (.inr ⟨hac, hac ▸ hp⟩)
  rw [state_setState, state_setState, if_neg hac]
  by_cases hpc : p = c
  · -- an accepted parent is consistent with every child
    rw [if_pos hpc]
    exact .inr (hR.acceptedParent _)
  · rw [if_neg hpc]
    rcases h a p hp with (hW | hb) | hok
    · exact .inl (.inl hW)
    · exact absurd hb hpc
    · exact .inr hok

/-- After `accept`, `c` and the spenders it conflicts with still have to be made
    consistent. -/
theorem ConflictsApart.setAccepted (hlinked : Linked d.links) (h : ConflictsApart T d) :
    ConflictsApart (fun x y => T x y ∨ pairsWith c (d.spender c).conflictHooks x y)
      (d.setState c .accepted) := by
  intro x y hy hx hy'
  have hsymm := hlinked.hook_symm (c := x) (x := y)
  rw [conflictHooks_eq (links_setState d c .accepted)] at hy
  rw [state_setState] at hx hy'
  by_cases hxc : x = c
  · exact .inl (.inr ⟨hxc, hxc ▸ hy⟩)
  by_cases hyc : y = c
  · exact .inr (.inr ⟨hyc, hyc ▸ hsymm hy⟩)
  · rw [if_neg hxc] at hx
    rw [if_neg hyc] at hy'
    exact (h x y hy hx hy').imp .inl .inl

end Acceptance

/-- Acceptance relates all references to `c` as a parent and leaves no other work
    than there was. -/
theorem accept_along (hR : Propagated R) (fuel : Nat) : ∀ (W : SpenderID → SpenderID → Prop)
    (d d' : SpendDAG SpenderID ResourceID VoteRank) (c : SpenderID), Linked d.links →
    AlongParents R (fun a b => W a b ∨ b = c) d →
    setAcceptanceState fuel d c .accepted = some d' → AlongParents R W d' := by
  induction fuel with
  | zero => exact fun _ _ _ _ _ _ h => nomatch h
  | succ fuel ih =>
    intro W d d' c hlinked h hrun
    rw [setAcceptanceState] at hrun
    split at hrun
    · next hc =>
      cases hrun
      intro a b hb
      rcases h a b hb with (hW | rfl) | hok
      · exact .inl hW
      · rw [hc]
        exact .inr (hR.acceptedParent _)
      · exact .inr hok
    · obtain ⟨d₂, hparents, hhooks⟩ := Option.bind_eq_some_iff.mp hrun
      have hlinks₁ : (d.setState c .accepted).links = d.links := links_setState d c .accepted
      -- the parents: the references to those still to come are left
      have h₂ := run_loop (I := fun ps s => s.links = d.links ∧
          AlongParents R (fun a b => W a b ∨ pairsWith c ps a b) s)
        ?_ ⟨hlinks₁, by rw [parents_eq hlinks₁]; exact h.setAccepted hR⟩ hparents
      · obtain ⟨hlinks₂, h₂⟩ := h₂
        obtain ⟨hr, -⟩ := run_rejects (reject_spec fuel) hhooks
        apply hr.along hR (hlinks₂ ▸ hlinked)
        apply h₂.mono
        rintro a b (hW | ⟨-, hb⟩)
        · exact hW
        · cases hb
      · rintro p ps s s' ⟨hlinks, hs⟩ hs'
        refine ⟨(setAcceptanceState_links fuel hs').trans hlinks, ?_⟩
        apply ih (fun a b => W a b ∨ pairsWith c ps a b) s s' p (hlinks ▸ hlinked) _ hs'
        apply hs.mono
        rintro a b (hW | ⟨ha, hb⟩)
        · exact .inl (.inl hW)
        · rcases mem_cons.mp hb with hb | hb
          · exact .inr hb
          · exact .inl (.inr ⟨ha, hb⟩)

/-- Acceptance rejects the conflicting spenders of every spender that it accepts. -/
theorem accept_conflictsApart (fuel : Nat) : ∀ (T : SpenderID → SpenderID → Prop)
    (d d' : SpendDAG SpenderID ResourceID VoteRank) (c : SpenderID), Linked d.links →
    ConflictsApart T d → setAcceptanceState fuel d c .accepted = some d' →
    ConflictsApart T d' := by
  induction fuel with
  | zero => exact fun _ _ _ _ _ _ h => nomatch h
  | succ fuel ih =>
    intro T d d' c hlinked h hrun
    rw [setAcceptanceState] at hrun
    split at hrun
    · cases hrun
      exact h
    · obtain ⟨d₂, hparents, hhooks⟩ := Option.bind_eq_some_iff.mp hrun
      have hlinks₁ : (d.setState c .accepted).links = d.links := links_setState d c .accepted
      -- while the parents are accepted, the conflicts of `c` are still to come
      obtain ⟨hlinks₂, h₂⟩ := run_invariant (I := fun s => s.links = d.links ∧
          ConflictsApart (fun x y => T x y ∨ pairsWith c (d.spender c).conflictHooks x y) s)
        (fun s p s' hs hs' => ⟨(setAcceptanceState_links fuel hs').trans hs.1,
          ih _ s s' p (hs.1 ▸ hlinked) hs.2 hs'⟩)
        ⟨hlinks₁, h.setAccepted hlinked⟩ hparents
      obtain ⟨hr, hall⟩ := run_rejects (reject_spec fuel) hhooks
      rw [conflictHooks_eq hlinks₂] at hall
      have hlinks₃ : d'.links = d₂.links :=
        run_invariant (I := fun s => s.links = d₂.links)
          (fun _ _ _ hs hstep => (setAcceptanceState_links fuel hstep).trans hs) rfl hhooks
      have h₃ := h₂.subset (fun x => (conflictHooks_eq hlinks₃ x).symm ▸ Subset.refl _)
        (fun _ => hr.accepted)
      exact h₃.done hall

/-! ## Section 4: The propagation ends -/

variable {d₀ : SpendDAG SpenderID ResourceID VoteRank} {rank : SpenderID → Nat} {depth : Nat}
  (hchildren : ∀ x, ∀ k ∈ (d₀.spender x).children, rank x < rank k ∧ rank k ≤ depth)
include hchildren

/-- Rejection returns where the children are ranked: every call below it is of a higher rank. -/
theorem reject_isSome (fuel : Nat) :
    ∀ {d : SpendDAG SpenderID ResourceID VoteRank} {c : SpenderID}, d.links = d₀.links →
      depth - rank c < fuel → (setAcceptanceState fuel d c .rejected).isSome := by
  induction fuel with
  | zero => exact fun _ h => nomatch h
  | succ fuel ih =>
    intro d c hd hfuel
    rw [setAcceptanceState]
    split
    · rfl
    have hd₁ := (links_setState d c .rejected).trans hd
    apply run_isSome _ (fun _ _ _ _ hs hs' => (setAcceptanceState_links fuel hs').trans hs) hd₁
    intro k hk s hs
    rw [children_eq hd₁] at hk
    obtain ⟨hlt, hle⟩ := hchildren c k hk
    exact ih hs (by omega)

/-- Acceptance returns, too: the parents are of a lower rank, and the rejections above. -/
theorem accept_isSome (hparents : ∀ x, ∀ p ∈ (d₀.spender x).parents, rank p < rank x) (fuel : Nat) :
    ∀ {d : SpendDAG SpenderID ResourceID VoteRank} {c : SpenderID}, d.links = d₀.links →
      rank c + depth + 1 < fuel → (setAcceptanceState fuel d c .accepted).isSome := by
  induction fuel with
  | zero => exact fun _ h => nomatch h
  | succ fuel ih =>
    intro d c hd hfuel
    rw [setAcceptanceState]
    split
    · rfl
    have hd₁ := (links_setState d c .accepted).trans hd
    have hkept : ∀ {t p} {s s' : SpendDAG SpenderID ResourceID VoteRank}, s.links = d₀.links →
        setAcceptanceState fuel s p t = some s' → s'.links = d₀.links :=
      fun hs hs' => (setAcceptanceState_links fuel hs').trans hs
    have hfirst : (run (fun s p => setAcceptanceState fuel s p .accepted)
        (d.setState c .accepted) ((d.setState c .accepted).spender c).parents).isSome := by
      apply run_isSome _ (fun _ _ _ _ => hkept) hd₁
      intro p hp s hs
      rw [parents_eq hd₁] at hp
      have hrank := hparents c p hp
      exact ih hs (by omega)
    obtain ⟨d₂, hrun⟩ := Option.isSome_iff_exists.mp hfirst
    have hd₂ := run_invariant (I := fun s => s.links = d₀.links) (fun _ _ _ => hkept) hd₁ hrun
    simp only [hrun, Option.bind_some]
    apply run_isSome _ (fun _ _ _ _ => hkept) hd₂
    exact fun o _ s hs => reject_isSome hchildren fuel hs (by omega)

end AxonCore.SpendDag

import AxonCore.SpendDag.Operations

/-! # Acceptance safety over runs

    In every run in which no pending spender is added as a parent of an accepted
    one, no two members of a spend set are accepted, the parents of an accepted
    spender are accepted, and the children of a rejected one are rejected.  Without
    the condition an accepted spender can get a pending parent.

    An acceptance is propagated to its end if the parents have no cycles. -/

namespace AxonCore.SpendDag

open AxonCore.Lib

variable {SpenderID ResourceID VoteRank : Type} {d : SpendDAG SpenderID ResourceID VoteRank}

/-! ## Section 1: The property -/

/-- The acceptance states of the DAG are safe. -/
structure AcceptanceSafe (d : SpendDAG SpenderID ResourceID VoteRank) : Prop where
  /-- No two members of a spend set are accepted. -/
  spendSets : ∀ r x y, x ∈ d.spendSetsByID r → y ∈ d.spendSetsByID r → x ≠ y →
    ¬(d.state x = .accepted ∧ d.state y = .accepted)
  /-- The parents of an accepted spender are accepted. -/
  parents : ∀ c p, p ∈ (d.spender c).parents → d.state c = .accepted → d.state p = .accepted
  /-- The children of a rejected spender are rejected. -/
  children : ∀ p c, c ∈ (d.spender p).children → d.state p = .rejected → d.state c = .rejected

theorem Inv.acceptanceSafe (h : Inv d) : AcceptanceSafe d where
  spendSets := by
    rintro r x y hx hy hne ⟨hxa, hya⟩
    have hconf : y ∈ (d.spender x).conflictingSpenders :=
      (h.sound.wired.members x y r hx hy hne.symm).resolve_left not_false
    have hhook : x ∈ (d.spender y).conflictHooks := h.sound.wired.linked.hook_iff.mpr hconf
    exact (h.conflicts y x hhook hya hxa).elim id id
  parents := fun c p hp => ((h.sound.along c p hp).resolve_left not_false).1
  children := fun p c hc =>
    ((h.sound.along c p (h.sound.wired.linked.parent_iff.mpr hc)).resolve_left not_false).2

theorem inv_newSpendDAG (seatCount : Nat) :
    Inv (newSpendDAG seatCount : SpendDAG SpenderID ResourceID VoteRank) where
  sound := by
    refine ⟨⟨⟨?_, ?_, ?_, ?_⟩, ?_, ?_, ?_⟩, ?_⟩ <;>
    simp [newSpendDAG, newSpender, MembersConflict, AlongParents]
  conflicts := fun _ _ h => nomatch h

variable [DecidableEq SpenderID] [DecidableEq ResourceID] [Ord VoteRank] {fuel : Nat}

/-! ## Section 2: Runs -/

/-- The condition on an operation: no pending spender is added as a parent of a
    spender that is accepted already. -/
def NoPendingParentOfAccepted (d : SpendDAG SpenderID ResourceID VoteRank) :
    Op SpenderID ResourceID VoteRank → Prop
  | .updateSpenderParents id addedParentIDs _ => AddsNoPendingParent d id addedParentIDs
  | _ => True

instance (d : SpendDAG SpenderID ResourceID VoteRank) (op : Op SpenderID ResourceID VoteRank) :
    Decidable (NoPendingParentOfAccepted d op) :=
  match op with
  | .updateSpenderParents id addedParentIDs _ =>
    inferInstanceAs (Decidable (d.state id = .accepted → ∀ p ∈ addedParentIDs,
      p ∈ d.spendersByID → d.state p ≠ .pending))
  | .createSpender _ | .updateSpentResources _ _ | .castVotes _ _ | .setAccepted _
  | .evictSpender _ | .fixMemberPosition _ _ | .updateSeatCount _ => isTrue trivial

theorem step_inv {ceilBft : Nat → Nat} {d' : SpendDAG SpenderID ResourceID VoteRank}
    {op : Op SpenderID ResourceID VoteRank} (h : Inv d) (hop : NoPendingParentOfAccepted d op)
    (hstep : step ceilBft fuel d op = some d') : Inv d' := by
  cases op with
  | createSpender id =>
    cases hstep
    exact h.createSpender ceilBft id
  | updateSpentResources id resourceIDs => exact h.updateSpentResources hstep
  | updateSpenderParents id added removed => exact h.updateSpenderParents hop hstep
  | castVotes vote spenderIDs => exact keptByVotes_inv.castVotes h hstep
  | setAccepted id => exact keptByVotes_inv.setAccepted h hstep
  | evictSpender id => exact h.evictSpender hstep
  | fixMemberPosition id order =>
    simp only [step] at hstep
    split_ifs at hstep with hperm
    cases hstep
    exact h.fixMemberPosition (List.isPerm_iff.mp hperm)
  | updateSeatCount seatCount =>
    cases hstep
    exact h.of_state_eq rfl (fun _ => rfl)

/-- Acceptance is safe in every state of every run in which no accepted spender gets
    a pending parent, whatever the committee, the depth of the propagation and the
    order of the conflicting spenders. -/
theorem acceptance_safe (ceilBft : Nat → Nat) (fuel seatCount : Nat)
    (ops : List (Op SpenderID ResourceID VoteRank)) (d : SpendDAG SpenderID ResourceID VoteRank)
    (hops : AllSteps (step ceilBft fuel) NoPendingParentOfAccepted (newSpendDAG seatCount) ops)
    (hrun : run (step ceilBft fuel) (newSpendDAG seatCount) ops = some d) : AcceptanceSafe d :=
  (run_invariant_of (fun _ _ _ h hop => step_inv h hop) (inv_newSpendDAG seatCount) hops
    hrun).acceptanceSafe

/-- In these states the propagation of an acceptance returns, if the parents have no cycles.  It
    goes up to the parents and down from the spenders that conflict with them, so that its depth
    is at most twice the number of spenders in the longest chain of parents. -/
theorem setAccepted_isSome {ceilBft : Nat → Nat} {fuel₀ seatCount : Nat}
    {ops : List (Op SpenderID ResourceID VoteRank)}
    (hops : AllSteps (step ceilBft fuel₀) NoPendingParentOfAccepted (newSpendDAG seatCount) ops)
    (hrun : run (step ceilBft fuel₀) (newSpendDAG seatCount) ops = some d)
    (rank : SpenderID → Nat) (depth : Nat)
    (hrank : ∀ c p, p ∈ (d.spender c).parents → rank p < rank c ∧ rank c ≤ depth) (id : SpenderID)
    (hfuel : rank id + depth + 1 < fuel) : (setAccepted fuel d id).isSome := by
  have h : Inv d :=
    run_invariant_of (fun _ _ _ h hop => step_inv h hop) (inv_newSpendDAG seatCount) hops hrun
  unfold setAccepted
  split
  · exact accept_isSome (fun x k hk => hrank k x (h.sound.wired.linked.parent_iff.mpr hk))
      (fun x p hp => (hrank x p hp).1) fuel rfl hfuel
  · rfl

/-! ## Section 3: A run with votes, and a run with a late parent -/

/-- `math.Ceil(n * 0.67)` for the committee sizes that occur. -/
def ceilTwoThirds (n : Nat) : Nat := (n * 67 + 99) / 100

/-- Spenders `1` and `2` spend resource `0`, spender `3` is a child of `1`, and
    `4` a child of `2`.  The only seat votes twice for `3`, and `1` is evicted. -/
def votedOps : List (Op Nat Nat Nat) :=
  [.createSpender 1, .createSpender 2, .createSpender 3, .createSpender 4,
    .updateSpentResources 1 [0], .updateSpentResources 2 [0],
    .updateSpenderParents 3 [1] [], .updateSpenderParents 4 [2] [],
    .castVotes { voter := 0, rank := 1, liked := true } [3],
    .castVotes { voter := 0, rank := 2, liked := true } [3],
    .evictSpender 1]

theorem acceptance_safe_votes :
    ∃ d, run (step ceilTwoThirds 10) (newSpendDAG 1) votedOps = some d ∧
      (d.state 3 = .accepted ∧ d.state 1 = .accepted ∧ d.state 2 = .rejected ∧
        d.state 4 = .rejected ∧ d.spendersByID = [3]) ∧ AcceptanceSafe d := by
  refine exists_result (by decide) fun d hd _ => ?_
  exact acceptance_safe ceilTwoThirds 10 1 votedOps d (by decide) hd

/-- Spender `2` is a child of `1`. -/
def childOps : List (Op Nat Nat Nat) :=
  [.createSpender 1, .createSpender 2, .updateSpenderParents 2 [1] []]

theorem setAccepted_isSome_child :
    ∃ d, run (step ceilTwoThirds 10) (newSpendDAG 1) childOps = some d ∧
      (setAccepted 6 d 2).isSome := by
  have hops : AllSteps (step ceilTwoThirds 10) NoPendingParentOfAccepted (newSpendDAG 1)
      childOps := by decide
  refine ⟨_, rfl, setAccepted_isSome hops rfl id 2 (fun c p hp => ?_) 2 (by decide)⟩
  match c with
  | 0 | 1 | _ + 3 => exact nomatch hp
  | 2 => exact List.mem_singleton.mp hp ▸ ⟨Nat.one_lt_two, Nat.le_refl 2⟩

/-- Spender `1` is accepted without a vote, and spender `2` becomes its parent. -/
def lateParentOps : List (Op Nat Nat Nat) :=
  [.createSpender 1, .createSpender 2, .setAccepted 1, .updateSpenderParents 1 [2] []]

/-- A spender that is accepted without a vote keeps a parent that is pending. -/
theorem accepted_with_pending_parent :
    ∃ d, run (step ceilTwoThirds 10) (newSpendDAG 1) lateParentOps = some d ∧
      2 ∈ (d.spender 1).parents ∧ d.state 1 = .accepted ∧ d.state 2 = .pending ∧
      ¬AcceptanceSafe d := by
  refine exists_of_result (P := fun d => 2 ∈ (d.spender 1).parents ∧ d.state 1 = .accepted ∧
    d.state 2 = .pending) (by decide) ?_
  rintro d - ⟨hmem, haccepted, hpending⟩
  refine ⟨hmem, haccepted, hpending, fun hsafe => ?_⟩
  have h := hsafe.parents 1 2 hmem haccepted
  rw [hpending] at h
  cases h

end AxonCore.SpendDag

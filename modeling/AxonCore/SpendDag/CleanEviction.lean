import AxonCore.SpendDag.FutureCone
import AxonCore.SpendDag.Safety

/-! # Eviction leaves no dangling references

    Whatever operations have been made, `EvictSpender` leaves nothing behind that
    refers to an evicted spender, evicts all that has to go with it, and does not
    touch the rest.  The future cone of a rejected spender goes as a whole because
    in every run the children of a rejected spender are rejected, too; this needs no
    condition on the operations (`step_sound`).

    The model of the DAG treats a spend set that is not in `spendSetsByID` as an
    empty one.  Here the keys of that map are followed as the code maintains them. -/

namespace AxonCore.SpendDag

open AxonCore.Lib List Option

variable {SpenderID ResourceID VoteRank : Type} [DecidableEq SpenderID] [DecidableEq ResourceID]
  {d d' : SpendDAG SpenderID ResourceID VoteRank}

/-! ## Section 1: Soundness of every run -/

variable {ceilBft : Nat → Nat} {fuel : Nat} {op : Op SpenderID ResourceID VoteRank}
  {c : SpenderID}

theorem step_sound [Ord VoteRank] (h : Sound RejectedWithParent d)
    (hstep : step ceilBft fuel d op = some d') : Sound RejectedWithParent d' := by
  have hR := propagated_rejectedWithParent
  cases op with
  | createSpender id =>
    cases hstep
    exact h.createSpender
  | updateSpentResources id resourceIDs =>
    exact (h.updateSpentResources hR (Q := fun _ => True) trivial (fun _ _ _ hQ => hQ)
      (fun _ _ _ _ _ _ hQ => hQ) hstep).1
  | updateSpenderParents id added removed =>
    exact (h.updateSpenderParents hR (fun p _ _ hpr hr => absurd hr hpr) hstep).1
  | castVotes vote spenderIDs => exact (keptByVotes_sound hR).castVotes h hstep
  | setAccepted id => exact (keptByVotes_sound hR).setAccepted h hstep
  | evictSpender id => exact h.evictSpender hstep
  | fixMemberPosition id order =>
    simp only [step] at hstep
    split_ifs at hstep with hperm
    cases hstep
    exact h.fixMemberPosition (isPerm_iff.mp hperm)
  | updateSeatCount seatCount =>
    cases hstep
    exact h.of_state_eq rfl (fun _ => rfl)

/-! ## Section 2: The keys of the map of spend sets -/

/-- The DAG with the keys of `spendSetsByID`. -/
structure KeyedDAG (SpenderID ResourceID VoteRank : Type) where
  dag : SpendDAG SpenderID ResourceID VoteRank
  spendSetKeys : List ResourceID

/-- `New`. -/
def newKeyedDAG (seatCount : Nat) : KeyedDAG SpenderID ResourceID VoteRank where
  dag := newSpendDAG seatCount
  spendSetKeys := []

/-- What an operation from `d` to `d'` does to the keys.  `spendSets` creates the sets
    of all resources of an existing spender before it joins them; a set whose last
    member is removed triggers `OnAllMembersEvicted`, which deletes it. -/
def spendSetKeysAfter (d d' : SpendDAG SpenderID ResourceID VoteRank)
    (spendSetKeys : List ResourceID) : Op SpenderID ResourceID VoteRank → List ResourceID
  | .updateSpentResources id resourceIDs =>
    if id ∈ d.spendersByID then
      spendSetKeys ++ resourceIDs.filter (· ∉ spendSetKeys)
    else spendSetKeys
  | .evictSpender _ =>
    spendSetKeys.filter (fun r => (d.spendSetsByID r).isEmpty || !(d'.spendSetsByID r).isEmpty)
  | _ => spendSetKeys

/-- One operation. -/
def keyedStep [Ord VoteRank] (ceilBft : Nat → Nat) (fuel : Nat)
    (m : KeyedDAG SpenderID ResourceID VoteRank) (op : Op SpenderID ResourceID VoteRank) :
    Option (KeyedDAG SpenderID ResourceID VoteRank) :=
  (step ceilBft fuel m.dag op).map fun d =>
    { dag := d, spendSetKeys := spendSetKeysAfter m.dag d m.spendSetKeys op }

omit [DecidableEq ResourceID] in
theorem registerConflict_spendSetsByID {o : SpenderID}
    (hrun : registerConflict fuel c d o = some d') : d'.spendSetsByID = d.spendSetsByID := by
  have hone : ∀ {d d' : SpendDAG SpenderID ResourceID VoteRank} {c x : SpenderID},
      registerConflictingSpender fuel d c x = some d' → d'.spendSetsByID = d.spendSetsByID := by
    intro d d' c x h
    obtain ⟨_, _, hlinks⟩ := addConflicting_links d c x
    have hmaps := congrArg Links.spendSetsByID hlinks
    unfold registerConflictingSpender at h
    split at h
    · next hd =>
      cases h
      rw [hd] at hmaps
      exact hmaps
    · next hd =>
      rw [hd] at hmaps
      split at h
      · exact (congrArg Links.spendSetsByID (setAcceptanceState_links fuel h)).trans hmaps
      · cases h
        exact hmaps
  obtain ⟨d₁, h₁, h₂⟩ := bind_eq_some_iff.mp hrun
  exact (hone h₂).trans (hone h₁)

theorem joinSpendSet_spendSetsByID {r : ResourceID} (hrun : joinSpendSet fuel c d r = some d')
    (q : ResourceID) : d'.spendSetsByID q = [] ↔ d.spendSetsByID q = [] ∧ q ≠ r := by
  unfold joinSpendSet at hrun
  by_cases hmem : c ∈ d.spendSetsByID r
  · have hsame : d'.spendSetsByID = d.spendSetsByID := by
      simp only [hmem, decide_true, if_true] at hrun
      split at hrun <;> cases hrun <;> rfl
    rw [hsame]
    refine ⟨fun hq => ⟨hq, ?_⟩, And.left⟩
    rintro rfl
    rw [hq] at hmem
    cases hmem
  · have hsame : d'.spendSetsByID = (addToSpendSet d r c).spendSetsByID := by
      simp only [hmem, decide_false, Bool.false_eq_true, if_false] at hrun
      split at hrun
      · cases hrun
        rfl
      · exact run_invariant
          (I := fun s => s.spendSetsByID = (addToSpendSet d r c).spendSetsByID)
          (fun s o s' hs hs' => (registerConflict_spendSetsByID hs').trans hs) rfl hrun
    rw [hsame]
    show (if q = r then d.spendSetsByID q ++ [c] else d.spendSetsByID q) = [] ↔ _
    by_cases hq : q = r <;> simp [hq]

variable {id : SpenderID}

theorem updateSpentResources_spendSetsByID {resourceIDs : List ResourceID}
    (hid : id ∈ d.spendersByID) (hlive : (d.spender id).evicted = false)
    (hrun : (updateSpentResources fuel d id resourceIDs).map Prod.fst = some d') (q : ResourceID) :
    d'.spendSetsByID q = [] ↔ d.spendSetsByID q = [] ∧ q ∉ resourceIDs := by
  unfold updateSpentResources at hrun
  simp only [hid, not_true, if_false, hlive, Bool.false_eq_true, Option.map_map] at hrun
  obtain ⟨d₁, hjoin, rfl⟩ := map_eq_some_iff.mp hrun
  -- the invariant counts the resources still to come as empty
  have hloop := run_loop (I := fun rest s =>
      (s.spendSetsByID q = [] ∧ q ∉ rest) ↔ (d.spendSetsByID q = [] ∧ q ∉ resourceIDs))
    ?_ Iff.rfl hjoin
  · simpa using hloop
  · intro r rest s s' hs hs'
    rw [← hs, joinSpendSet_spendSetsByID hs' q, mem_cons, not_or, and_assoc]

omit [DecidableEq ResourceID] in
theorem addParent_spendSetsByID {p : SpenderID} (hrun : addParent fuel c d p = some d') :
    d'.spendSetsByID = d.spendSetsByID := by
  unfold addParent registerChild at hrun
  split at hrun
  · cases hrun
    rfl
  split at hrun
  · cases hrun
  split at hrun
  · cases hrun
    rfl
  simp only at hrun
  split at hrun
  · exact congrArg Links.spendSetsByID (setAcceptanceState_links fuel hrun)
  · cases hrun
    rfl

omit [DecidableEq ResourceID] in
theorem updateSpenderParents_spendSetsByID {added removed : List SpenderID}
    (hrun : (updateSpenderParents fuel d id added removed).map Prod.fst = some d') :
    d'.spendSetsByID = d.spendSetsByID := by
  unfold updateSpenderParents at hrun
  split at hrun
  · cases hrun
    rfl
  split at hrun
  · cases hrun
    rfl
  · rw [Option.map_map] at hrun
    obtain ⟨d₁, hupdate, rfl⟩ := map_eq_some_iff.mp hrun
    refine run_invariant (I := fun s => s.spendSetsByID = d.spendSetsByID)
      (fun s p s' hs hs' => (addParent_spendSetsByID hs').trans hs) ?_ hupdate
    exact foldlRecOn (motive := fun s : SpendDAG _ _ _ => s.spendSetsByID = d.spendSetsByID) _ _ rfl
      fun s hs p _ => (removeParent_spendSetsByID s id p).trans hs

theorem evictSpender_cascade (h : Wired (fun _ _ => False) d.links)
    (hrun : evictSpender fuel d id = some d') :
    ∃ e : Eviction SpenderID ResourceID VoteRank,
      d' = { e.1 with spendersByID := e.1.spendersByID.filter (· ∉ e.2) } ∧
      Progress d (fun _ => False) e ∧ Spares d e.1 ∧ Reached d (fun _ => False) e.1 ∧
      (id ∈ d.spendersByID → (e.1.spender id).evicted = true) := by
  have hreached : Reached d (fun _ => False) d := fun x hx => .inl hx
  unfold evictSpender at hrun
  split at hrun
  · next hid =>
    cases hrun
    refine ⟨(d, []), ?_, h.progress, Spares.refl d, hreached, fun hid' => absurd hid' hid⟩
    simp
  · obtain ⟨e, hevict, rfl⟩ := map_eq_some_iff.mp hrun
    obtain ⟨hspares, hid⟩ := evict_spares fuel hevict
    exact ⟨e, rfl, (evict_progress fuel h.progress hevict).1, hspares,
      evict_reached h.linked fuel (Spares.refl d) hreached hevict, fun _ => hid⟩

/-- The keys are those of the spend sets with members. -/
structure KeyedDAG.Ok (m : KeyedDAG SpenderID ResourceID VoteRank) : Prop where
  sound : Sound RejectedWithParent m.dag
  keys : ∀ r, r ∈ m.spendSetKeys ↔ m.dag.spendSetsByID r ≠ []

variable {m m' : KeyedDAG SpenderID ResourceID VoteRank}

theorem keyedStep_ok [Ord VoteRank] (h : m.Ok) (hstep : keyedStep ceilBft fuel m op = some m') :
    m'.Ok := by
  obtain ⟨d', hd', rfl⟩ := map_eq_some_iff.mp hstep
  refine ⟨step_sound h.sound hd', ?_⟩
  -- most operations change neither the keys nor the members
  have hsame : d'.spendSetsByID = m.dag.spendSetsByID →
      ∀ r, r ∈ m.spendSetKeys ↔ d'.spendSetsByID r ≠ [] := fun he => he ▸ h.keys
  cases op with
  | createSpender id =>
    apply hsame
    cases hd'
    unfold createSpender
    split <;> rfl
  | updateSpentResources id resourceIDs =>
    intro r
    show r ∈ (if id ∈ m.dag.spendersByID then
      m.spendSetKeys ++ resourceIDs.filter (· ∉ m.spendSetKeys) else m.spendSetKeys) ↔ _
    by_cases hid : id ∈ m.dag.spendersByID
    · have hafter := updateSpentResources_spendSetsByID hid (h.sound.wired.tidy.live id hid) hd' r
      simp only [if_pos hid, mem_append, mem_filter, decide_eq_true_eq, h.keys, ne_eq,
        hafter]
      tauto
    · rw [if_neg hid]
      apply hsame
      simp only [step, updateSpentResources, hid, not_false_eq_true, if_true] at hd'
      cases hd'
      rfl
  | updateSpenderParents id added removed =>
    exact hsame (updateSpenderParents_spendSetsByID hd')
  | castVotes vote spenderIDs =>
    have hkept : KeptByVotes (fun s : SpendDAG SpenderID ResourceID VoteRank =>
        s.links = m.dag.links) :=
      ⟨fun hs hrun => (setAcceptanceState_links _ hrun).trans hs, fun hs he _ => he.trans hs⟩
    exact hsame (congrArg Links.spendSetsByID (hkept.castVotes rfl hd'))
  | setAccepted id =>
    apply hsame
    simp only [step, setAccepted] at hd'
    split at hd'
    · exact congrArg Links.spendSetsByID (setAcceptanceState_links fuel hd')
    · cases hd'
      rfl
  | evictSpender id =>
    intro r
    obtain ⟨e, he, -, hspares, -, -⟩ := evictSpender_cascade h.sound.wired hd'
    -- members only go, so a set that has some now had some before
    have hsub : ∀ x ∈ d'.spendSetsByID r, x ∈ m.dag.spendSetsByID r := by
      intro x hx
      rw [he] at hx
      have hlinked := h.sound.wired.linked
      have hr : r ∈ (e.1.spender x).spendSets := (hspares.linked hlinked).member_iff.mp hx
      exact hlinked.member_iff.mpr (hspares.spendSets x hr)
    have hempty : m.dag.spendSetsByID r = [] → d'.spendSetsByID r = [] := by
      intro hr
      apply eq_nil_iff_forall_not_mem.mpr
      intro x hx
      have hx' := hsub x hx
      rw [hr] at hx'
      cases hx'
    show r ∈ m.spendSetKeys.filter _ ↔ _
    rw [mem_filter, h.keys]
    by_cases hr : m.dag.spendSetsByID r = []
    · simp [hr, hempty hr]
    · simp [hr]
  | fixMemberPosition id order =>
    apply hsame
    simp only [step] at hd'
    split_ifs at hd'
    cases hd'
    rfl
  | updateSeatCount seatCount =>
    apply hsame
    cases hd'
    rfl

theorem keyedRun_ok [Ord VoteRank] {seatCount : Nat} {ops : List (Op SpenderID ResourceID VoteRank)}
    (hrun : run (keyedStep ceilBft fuel) (newKeyedDAG seatCount) ops = some m) : m.Ok := by
  refine run_invariant (fun _ _ _ hs => keyedStep_ok hs) ⟨⟨?_, ?_⟩, fun r => ?_⟩ hrun
  · exact (inv_newSpendDAG seatCount).sound.wired
  · intro _ _ hp
    cases hp
  · simp [newKeyedDAG, newSpendDAG]

/-! ## Section 3: What is left of an evicted spender -/

section Clean

omit [DecidableEq SpenderID] [DecidableEq ResourceID]

/-- `k` is a child of `x`. -/
def SpendDAG.IsChild (d : SpendDAG SpenderID ResourceID VoteRank) (x k : SpenderID) : Prop :=
  k ∈ (d.spender x).children

/-- The spender `x` is in `d'` as it was in `d`, but for references to spenders that
    are gone. -/
structure KeepsOthers (d d' : SpendDAG SpenderID ResourceID VoteRank) (x : SpenderID) : Prop where
  parents : ∀ y, y ∈ (d'.spender x).parents ↔ y ∈ (d.spender x).parents ∧ y ∈ d'.spendersByID
  children : ∀ y, y ∈ (d'.spender x).children ↔ y ∈ (d.spender x).children ∧ y ∈ d'.spendersByID
  conflictingSpenders : ∀ y, y ∈ (d'.spender x).conflictingSpenders ↔
    y ∈ (d.spender x).conflictingSpenders ∧ y ∈ d'.spendersByID
  spendSets : ∀ r, r ∈ (d'.spender x).spendSets ↔ r ∈ (d.spender x).spendSets
  acceptanceState : d'.state x = d.state x
  voters : (d'.spender x).voters = (d.spender x).voters
  attestors : (d'.spender x).attestors = (d.spender x).attestors
  latestVotes : (d'.spender x).latestVotes = (d.spender x).latestVotes

/-- The eviction of `id` from `m` has led to `m'`. -/
structure CleanlyEvicted (m : KeyedDAG SpenderID ResourceID VoteRank) (id : SpenderID)
    (m' : KeyedDAG SpenderID ResourceID VoteRank) : Prop where
  /-- What a spender refers to is still there. -/
  references : ∀ x y, y ∈ (m'.dag.spender x).parents ∨ y ∈ (m'.dag.spender x).children ∨
    y ∈ (m'.dag.spender x).conflictingSpenders → y ∈ m'.dag.spendersByID
  members : ∀ r, ∀ y ∈ m'.dag.spendSetsByID r, y ∈ m'.dag.spendersByID
  /-- The map holds exactly the spenders that are not evicted. -/
  spendersByID : ∀ x, x ∈ m'.dag.spendersByID ↔
    x ∈ m.dag.spendersByID ∧ (m'.dag.spender x).evicted = false
  spendSetsByID : ∀ r, r ∈ m'.spendSetKeys ↔ m'.dag.spendSetsByID r ≠ []
  evicted : id ∉ m'.dag.spendersByID
  /-- A rejected spender goes with its future cone. -/
  futureCone : id ∈ m.dag.spendersByID → m.dag.state id = .rejected →
    ∀ x, Relation.ReflTransGen m.dag.IsChild id x → x ∉ m'.dag.spendersByID
  /-- An accepted spender goes with all that conflict with it. -/
  conflicting : id ∈ m.dag.spendersByID → m.dag.state id = .accepted →
    ∀ y ∈ (m.dag.spender id).conflictingSpenders, y ∉ m'.dag.spendersByID
  remaining : ∀ x ∈ m'.dag.spendersByID, KeepsOthers m.dag m'.dag x

end Clean

omit [DecidableEq ResourceID] in
theorem mem_remaining {e : Eviction SpenderID ResourceID VoteRank}
    (h : Wired (fun _ _ => False) d.links) (hp : Progress d (fun _ => False) e) (x : SpenderID) :
    x ∈ e.1.spendersByID.filter (· ∉ e.2) ↔
      x ∈ d.spendersByID ∧ (e.1.spender x).evicted = false := by
  rw [mem_filter, hp.evicts.spendersByID]
  refine and_congr_right fun hx => ?_
  have hlive : (d.spender x).evicted = false := h.tidy.live x hx
  have hlog := hp.logged x
  rw [hlive] at hlog
  rw [← Bool.not_eq_true, hlog]
  simp

omit [DecidableEq SpenderID] [DecidableEq ResourceID] in
theorem Reached.futureCone (h : Sound RejectedWithParent d)
    {e : SpendDAG SpenderID ResourceID VoteRank} (hreached : Reached d (fun _ => False) e)
    {x : SpenderID} (hid : id ∈ d.spendersByID) (hr : d.state id = .rejected)
    (hev : (e.spender id).evicted = true) (hx : Relation.ReflTransGen d.IsChild id x) :
    x ∈ d.spendersByID ∧ d.state x = .rejected ∧ (e.spender x).evicted = true := by
  induction hx with
  | refl => exact ⟨hid, hr, hev⟩
  | @tail y k _ hk ih =>
    obtain ⟨hy, hyr, hye⟩ := ih
    have hp : y ∈ (d.spender k).parents := h.wired.linked.parent_iff.mpr hk
    refine ⟨h.wired.closed (.inr (.inl hk)), ?_, ?_⟩
    · exact (h.along k y hp).resolve_left not_false hyr
    · rcases hreached y hye with hold | hF | htakes
      · -- a spender in the map was not evicted before
        have hlive : (d.spender y).evicted = false := h.wired.tidy.live y hy
        rw [hlive] at hold
        cases hold
      · exact hF.elim
      · exact htakes.1 hyr k hk

theorem cleanlyEvicted_of_step [Ord VoteRank] (h : m.Ok)
    (hstep : keyedStep ceilBft fuel m (.evictSpender id) = some m') : CleanlyEvicted m id m' := by
  have hok' := keyedStep_ok h hstep
  obtain ⟨d', hd', rfl⟩ := map_eq_some_iff.mp hstep
  have hwired := h.sound.wired
  have hwired' : Wired (fun _ _ => False) d'.links := hok'.sound.wired
  obtain ⟨e, rfl, hp, hspares, hreached, hid⟩ := evictSpender_cascade hwired hd'
  have hmap := mem_remaining hwired hp
  have hgone : ∀ x, (e.1.spender x).evicted = true →
      x ∉ e.1.spendersByID.filter (· ∉ e.2) := by
    intro x hx hmem
    rw [((hmap x).mp hmem).2] at hx
    cases hx
  have hrefs : ∀ x y, y ∈ (e.1.spender x).parents ∨ y ∈ (e.1.spender x).children ∨
      y ∈ (e.1.spender x).conflictingSpenders → y ∈ e.1.spendersByID.filter (· ∉ e.2) := by
    rintro x y (hy | hy | hy)
    · exact hwired'.closed (.inl hy)
    · exact hwired'.closed (.inr (.inl hy))
    · exact hwired'.closed (.inr (.inr (hwired'.linked.hook_iff.mpr
        (hwired'.linked.conflict_symm hy))))
  constructor
  case references => exact hrefs
  case members => exact fun r y hy => hwired'.tidy.mem_of_member hwired'.linked hy
  case spendersByID => exact hmap
  case spendSetsByID => exact hok'.keys
  case evicted =>
    intro hmem
    obtain ⟨hmem₀, hlive⟩ := (hmap id).mp hmem
    rw [hid hmem₀] at hlive
    cases hlive
  case futureCone =>
    intro hmem hr x hx
    exact hgone x (hreached.futureCone h.sound hmem hr (hid hmem) hx).2.2
  case conflicting =>
    intro hmem ha y hy
    have hlive : (m.dag.spender id).evicted = false := hwired.tidy.live id hmem
    rcases hreached id (hid hmem) with hold | hF | htakes
    · rw [hlive] at hold
      cases hold
    · exact hF.elim
    · exact hgone y (htakes.2 ha y hy)
  case remaining =>
    intro x hx
    -- a reference that is lost has an evicted end, and that is not `x`
    have hlive : ¬(e.1.spender x).evicted = true := by simp [((hmap x).mp hx).2]
    have hlost : ∀ {P : Prop} {y : SpenderID}, y ∈ e.1.spendersByID.filter (· ∉ e.2) →
        P ∨ (e.1.spender x).evicted = true ∨ (e.1.spender y).evicted = true → P := by
      rintro P y hy (hP | hxe | hye)
      · exact hP
      · exact absurd hxe hlive
      · exact absurd hy (hgone y hye)
    constructor
    case parents =>
      exact fun y => ⟨fun hy => ⟨hspares.parents x hy, hrefs x y (.inl hy)⟩,
        fun hy => hlost hy.2 (hspares.keepsParents x y hy.1)⟩
    case children =>
      exact fun y => ⟨fun hy => ⟨hspares.children x hy, hrefs x y (.inr (.inl hy))⟩,
        fun hy => hlost hy.2 (hspares.keepsChildren hwired.linked hy.1)⟩
    case conflictingSpenders =>
      exact fun y => ⟨fun hy =>
        ⟨hspares.conflictingSpenders x hy, hrefs x y (.inr (.inr hy))⟩,
        fun hy => hlost hy.2 (hspares.keepsConflicts x y hy.1)⟩
    case spendSets =>
      exact fun r => ⟨fun hr => hspares.spendSets x hr,
        fun hr => (hspares.keepsSpendSets x r hr).resolve_right hlive⟩
    case acceptanceState => exact hspares.state x
    case voters => exact (hspares.votes x).1
    case attestors => exact (hspares.votes x).2.1
    case latestVotes => exact (hspares.votes x).2.2

theorem evictSpender_isSome (h : Wired (fun _ _ => False) d.links)
    (hfuel : d.spendersByID.length < fuel) (id : SpenderID) : (evictSpender fuel d id).isSome := by
  unfold evictSpender
  split
  · rfl
  next hid =>
  rw [isSome_map]
  have hclosed : ∀ x ∈ d.spendersByID, ∀ y, y ∈ (d.spender x).children ∨
      y ∈ (d.spender x).conflictingSpenders → y ∈ d.spendersByID := by
    rintro x - y (hy | hy)
    · exact h.closed (.inr (.inl hy))
    · exact h.closed (.inr (.inr (h.linked.hook_iff.mpr (h.linked.conflict_symm hy))))
  exact evict_isSome fuel hclosed (not_not.mp hid)
    (Nat.lt_of_le_of_lt countP_le_length hfuel)

/-- From every state that the operations lead to, `EvictSpender` returns, and whenever
    it returns it has evicted cleanly. -/
theorem evictSpender_clean [Ord VoteRank] (ceilBft : Nat → Nat) (fuel seatCount : Nat)
    (ops : List (Op SpenderID ResourceID VoteRank)) (m : KeyedDAG SpenderID ResourceID VoteRank)
    (hrun : run (keyedStep ceilBft fuel) (newKeyedDAG seatCount) ops = some m) (id : SpenderID)
    (depth : Nat) :
    (m.dag.spendersByID.length < depth →
      (keyedStep ceilBft depth m (.evictSpender id)).isSome) ∧
    ∀ m', keyedStep ceilBft depth m (.evictSpender id) = some m' → CleanlyEvicted m id m' := by
  have hok := keyedRun_ok hrun
  refine ⟨fun hdepth => ?_, fun m' hm' => cleanlyEvicted_of_step hok hm'⟩
  rw [keyedStep, isSome_map]
  exact evictSpender_isSome hok.sound.wired hdepth id

/-- Spenders `1` and `2` spend resource `0`, `3` is a child of `1`, and `4` of `2` and
    of `5`.  Spender `3` is accepted, and with it `1`. -/
def coneOps : List (Op Nat Nat Nat) :=
  [.createSpender 1, .createSpender 2, .createSpender 3, .createSpender 4, .createSpender 5,
    .updateSpentResources 1 [0], .updateSpentResources 2 [0], .updateSpentResources 4 [7],
    .updateSpenderParents 3 [1] [], .updateSpenderParents 4 [2, 5] [], .setAccepted 3]

/-- The eviction of the rejected spender `2` takes its child `4` along; `5` loses a
    child, and the set of resource `7` is empty. -/
theorem evictSpender_clean_cone :
    ∃ m m', run (keyedStep ceilTwoThirds 10) (newKeyedDAG 1) coneOps = some m ∧
      keyedStep ceilTwoThirds 10 m (.evictSpender 2) = some m' ∧
      (m.dag.state 2 = .rejected ∧ m'.dag.spendersByID = [1, 3, 5] ∧ m'.spendSetKeys = [0] ∧
        (m'.dag.spender 5).children = []) ∧ CleanlyEvicted m 2 m' := by
  obtain ⟨m, hm, m', hm', hevicted⟩ :
      ∃ m, run (keyedStep ceilTwoThirds 10) (newKeyedDAG 1) coneOps = some m ∧
        ∃ m', keyedStep ceilTwoThirds 10 m (.evictSpender 2) = some m' ∧
          m.dag.state 2 = .rejected ∧ m'.dag.spendersByID = [1, 3, 5] ∧
          m'.spendSetKeys = [0] ∧ (m'.dag.spender 5).children = [] := by
    decide +kernel
  exact ⟨m, m', hm, hm', hevicted,
    (evictSpender_clean ceilTwoThirds 10 1 coneOps m hm 2 10).2 m' hm'⟩

end AxonCore.SpendDag

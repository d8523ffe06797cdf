import Mathlib.Data.Finset.Card
import AxonCore.Lib.Run
import AxonCore.Lib.Walk
import AxonCore.Votes

/-! # The spend DAG

    Spenders compete for resources: the spenders of one resource form a spend
    set and conflict with each other, and a spender that uses what another one
    creates is its child.  Votes decide which spenders are accepted; acceptance
    runs up to the parents, and rejection runs down to the children and over to
    the conflicting spenders.

    The propagation is a chain of event hooks that call each other.  It is
    modelled as one recursion, `setAcceptanceState`, with a bound on its depth:
    `none` stands for an operation that has not returned within that bound. -/

namespace AxonCore.SpendDag

open AxonCore.Lib

/-! ## Section 1: Spenders -/

/-- `acceptance.State`. -/
inductive AcceptanceState where
  | pending
  | accepted
  | rejected
  deriving DecidableEq

/-- `vote.Vote`. -/
structure Vote (VoteRank : Type) where
  voter : SeatIndex
  rank : VoteRank
  liked : Bool

/-- `Vote.WithLiked`. -/
def Vote.withLiked {VoteRank : Type} (v : Vote VoteRank) (liked : Bool) : Vote VoteRank :=
  { v with liked := liked }

/-- `Spender`, with its `Weight`.  Sets are lists in the order of insertion.
    The weights of the validators and the attestors are the sizes of `voters` and
    `attestors`; every update of these sets updates them. -/
structure Spender (SpenderID ResourceID VoteRank : Type) where
  parents : List SpenderID
  /-- Each child has a hook on this spender's `AcceptanceStateUpdated`. -/
  children : List SpenderID
  spendSets : List ResourceID
  /-- The members of `ConflictingSpenders` other than the spender itself. -/
  conflictingSpenders : List SpenderID
  /-- The spenders that hold this one in their `ConflictingSpenders`, in the order
      in which they attached `onAcceptanceStateUpdated`. -/
  conflictHooks : List SpenderID
  acceptanceState : AcceptanceState
  voters : Finset SeatIndex
  attestors : Finset SeatIndex
  latestVotes : SeatIndex → Option (Vote VoteRank)
  evicted : Bool

variable (ceilBft : Nat → Nat)

/-- `acceptance.ThresholdProvider`.  The product `math.Ceil(float64(n) * bftThreshold)`
    is floating-point arithmetic; it enters as the function `ceilBft`. -/
def thresholdProvider (totalWeight : Nat) : Nat :=
  max (ceilBft totalWeight) 1

/-- `NewSpender` with `weight.New()`: an empty weight is accepted at once if it
    reaches the threshold. -/
def newSpender {SpenderID ResourceID VoteRank : Type} (threshold : Nat) :
    Spender SpenderID ResourceID VoteRank where
  parents := []
  children := []
  spendSets := []
  conflictingSpenders := []
  conflictHooks := []
  acceptanceState := if threshold ≤ 0 then .accepted else .pending
  voters := ∅
  attestors := ∅
  latestVotes := fun _ => none
  evicted := false

/-- The spender objects, by the ID they were last created with, and the two
    maps of the DAG.  A spend set that is not in the map is empty. -/
structure SpendDAG (SpenderID ResourceID VoteRank : Type) where
  spendersByID : List SpenderID
  spender : SpenderID → Spender SpenderID ResourceID VoteRank
  spendSetsByID : ResourceID → List SpenderID
  seatCount : Nat

/-- `New`. -/
def newSpendDAG {SpenderID ResourceID VoteRank : Type} (seatCount : Nat) :
    SpendDAG SpenderID ResourceID VoteRank where
  spendersByID := []
  spender := fun _ => newSpender 1
  spendSetsByID := fun _ => []
  seatCount := seatCount

variable {SpenderID ResourceID VoteRank : Type} [DecidableEq SpenderID] [DecidableEq ResourceID]

namespace SpendDAG

variable (d : SpendDAG SpenderID ResourceID VoteRank)

/-- Write one spender object. -/
def modify (c : SpenderID)
    (f : Spender SpenderID ResourceID VoteRank → Spender SpenderID ResourceID VoteRank) :
    SpendDAG SpenderID ResourceID VoteRank :=
  { d with spender := fun x => if x = c then f (d.spender x) else d.spender x }

/-- The acceptance state of a spender. -/
def state (c : SpenderID) : AcceptanceState :=
  (d.spender c).acceptanceState

/-- `Weight.SetAcceptanceState`. -/
def setState (c : SpenderID)
    (newState : AcceptanceState) : SpendDAG SpenderID ResourceID VoteRank :=
  d.modify c (fun s => { s with acceptanceState := newState })

end SpendDAG

/-! ## Section 2: Propagation of the acceptance state -/

/-- `Spender.setAcceptanceState` with everything its hooks do.  An update to
    `accepted` is acted upon by the hooks of the conflicting spenders only, one to
    `rejected` by the hooks of the children only. -/
def setAcceptanceState : Nat → SpendDAG SpenderID ResourceID VoteRank → SpenderID →
    AcceptanceState → Option (SpendDAG SpenderID ResourceID VoteRank)
  | 0, _, _, _ => none
  | fuel + 1, d, c, newState =>
    if d.state c = newState then some d
    else
      let d₁ := d.setState c newState
      match newState with
      | .accepted =>
        -- propagate acceptance to parents first, then trigger AcceptanceStateUpdated
        (run (fun d parent => setAcceptanceState fuel d parent .accepted) d₁
          (d₁.spender c).parents).bind fun d₂ =>
            run (fun d owner => setAcceptanceState fuel d owner .rejected) d₂
              (d₂.spender c).conflictHooks
      | .rejected =>
        run (fun d child => setAcceptanceState fuel d child .rejected) d₁ (d₁.spender c).children
      | .pending => some d₁

/-! ## Section 3: Spend sets -/

variable (d : SpendDAG SpenderID ResourceID VoteRank)

/-- `SortedSpenders.Add`: whether the spender was added, and the DAG with its
    hook attached.  The owner is a member from the beginning.  A new member goes to
    the end; `fixMemberPosition` moves it. -/
def addConflicting (c spender : SpenderID) : Bool × SpendDAG SpenderID ResourceID VoteRank :=
  if (d.spender c).evicted = true ∨ spender = c ∨ spender ∈ (d.spender c).conflictingSpenders then
    (false, d)
  else
    (true, (d.modify c (fun s =>
      { s with conflictingSpenders := s.conflictingSpenders ++ [spender] })).modify spender
        (fun s => { s with conflictHooks := s.conflictHooks ++ [c] }))

section

variable (fuel : Nat) (d : SpendDAG SpenderID ResourceID VoteRank)

/-- `registerConflictingSpender`. -/
def registerConflictingSpender (c spender : SpenderID) :
    Option (SpendDAG SpenderID ResourceID VoteRank) :=
  match addConflicting d c spender with
  | (false, d) => some d
  | (true, d) =>
    if d.state spender = .accepted then setAcceptanceState fuel d c .rejected else some d

/-- The body of the inner loop of `JoinSpendSets`. -/
def registerConflict (c : SpenderID) (d : SpendDAG SpenderID ResourceID VoteRank)
    (otherConflict : SpenderID) : Option (SpendDAG SpenderID ResourceID VoteRank) :=
  (registerConflictingSpender fuel d c otherConflict).bind fun d =>
    registerConflictingSpender fuel d otherConflict c

/-- `SpendSet.Add`. -/
def addToSpendSet (r : ResourceID) (c : SpenderID) : SpendDAG SpenderID ResourceID VoteRank :=
  { d with spendSetsByID := fun x =>
      if x = r then d.spendSetsByID x ++ [c] else d.spendSetsByID x }

/-- `Spender.SpendSets.Add`. -/
def addSpendSet (c : SpenderID) (r : ResourceID) : SpendDAG SpenderID ResourceID VoteRank :=
  d.modify c (fun s => { s with spendSets := s.spendSets ++ [r] })

/-- The body of the outer loop of `JoinSpendSets`.  A spender that is a member of
    the set already is not registered again. -/
def joinSpendSet (c : SpenderID) (d : SpendDAG SpenderID ResourceID VoteRank) (r : ResourceID) :
    Option (SpendDAG SpenderID ResourceID VoteRank) :=
  let otherConflicts := d.spendSetsByID r
  let alreadyPart := decide (c ∈ otherConflicts)
  let d₁ := if alreadyPart then d else addToSpendSet d r c
  if r ∈ (d₁.spender c).spendSets then some d₁
  else if alreadyPart then some (addSpendSet d₁ c r)
  else run (registerConflict fuel c) (addSpendSet d₁ c r) otherConflicts

/-- The errors of the operations, with the IDs in their texts. -/
inductive Error (SpenderID : Type) where
  /-- "spender already evicted" -/
  | spenderAlreadyEvicted (id : SpenderID)
  /-- "tried to join spend sets of evicted spender" -/
  | joinEvictedSpender (id : SpenderID)
  /-- "tried to modify evicted spend with %s" -/
  | modifyEvictedSpend (id : SpenderID)
  /-- "tried to retrieve a non-existing spend with %s" -/
  | retrieveNonExisting (id : SpenderID)
  /-- "applied conflicting votes (%s is supported and revoked)" -/
  | conflictingVotes (id : SpenderID)
  deriving DecidableEq

/-- The DAG after an operation, and the error it returned. -/
abbrev Outcome (SpenderID ResourceID VoteRank : Type) :=
  Option (SpendDAG SpenderID ResourceID VoteRank × Option (Error SpenderID))

/-- `SpendDAG.UpdateSpentResources`, with `JoinSpendSets`. -/
def updateSpentResources (id : SpenderID) (resourceIDs : List ResourceID) :
    Outcome SpenderID ResourceID VoteRank :=
  if id ∉ d.spendersByID then some (d, some (.spenderAlreadyEvicted id))
  else if (d.spender id).evicted then some (d, some (.joinEvictedSpender id))
  else (run (joinSpendSet fuel id) d resourceIDs).map (fun d => (d, none))

/-! ## Section 4: Parents -/

/-- `Spender.unregisterChild`. -/
def unregisterChild (parent child : SpenderID) : SpendDAG SpenderID ResourceID VoteRank :=
  d.modify parent (fun s => { s with children := s.children.filter (· ≠ child) })

/-- `Spender.removeParent`. -/
def removeParent (c parent : SpenderID) : SpendDAG SpenderID ResourceID VoteRank :=
  if parent ∈ (d.spender c).parents then
    unregisterChild
      (d.modify c (fun s => { s with parents := s.parents.filter (· ≠ parent) })) parent c
  else d

/-- `Spender.registerChild`. -/
def registerChild (parent child : SpenderID) : Option (SpendDAG SpenderID ResourceID VoteRank) :=
  if child ∈ (d.spender parent).children then some d
  else
    let d := d.modify parent (fun s => { s with children := s.children ++ [child] })
    if d.state parent = .rejected then setAcceptanceState fuel d child .rejected else some d

/-- The body of the loop over the added parents in `UpdateParents`.  A spender
    cannot become its own parent: `registerChild` then waits for the mutex that
    `UpdateParents` holds. -/
def addParent (c : SpenderID) (d : SpendDAG SpenderID ResourceID VoteRank) (parent : SpenderID) :
    Option (SpendDAG SpenderID ResourceID VoteRank) :=
  if parent ∈ (d.spender c).parents then some d
  else if parent = c then none
  else registerChild fuel
    (d.modify c (fun s => { s with parents := s.parents ++ [parent] })) parent c

/-- `Spender.UpdateParents`. -/
def updateParents (c : SpenderID) (addedParents removedParents : List SpenderID) :
    Option (SpendDAG SpenderID ResourceID VoteRank) :=
  run (addParent fuel c) (removedParents.foldl (fun d p => removeParent d c p) d) addedParents

/-- `SpendDAG.spenders`: the spenders that exist, and the first ID that is
    missing. -/
def spenders (ids : List SpenderID) (ignoreMissing : Bool) :
    List SpenderID × Option (Error SpenderID) :=
  match ids.find? (fun id => decide (id ∉ d.spendersByID)) with
  | some id =>
    if ignoreMissing then (ids.filter (· ∈ d.spendersByID), none)
    else (ids.takeWhile (· ∈ d.spendersByID), some (.retrieveNonExisting id))
  | none => (ids, none)

/-- `SpendDAG.UpdateSpenderParents`. -/
def updateSpenderParents (id : SpenderID) (addedParentIDs removedParentIDs : List SpenderID) :
    Outcome SpenderID ResourceID VoteRank :=
  if id ∉ d.spendersByID then some (d, some (.modifyEvictedSpend id))
  else
    -- parents that cannot be loaded have been evicted already
    let addedParents := addedParentIDs.filter (· ∈ d.spendersByID)
    match spenders d removedParentIDs (decide (d.state id ≠ .rejected)) with
    | (_, some err) => some (d, some err)
    | (removedParents, none) =>
      (updateParents fuel d id addedParents removedParents).map (fun d => (d, none))

end

/-! ## Section 5: Votes -/

/-- The votes collected by `determineVotes`.  What is pushed to the walker of the
    revoked spenders is taken from it only later, so it is collected in order. -/
structure DeterminedVotes (SpenderID : Type) where
  supportedSpenders : List SpenderID
  revokedSpenders : List SpenderID
  revokedWalker : List SpenderID
  conflict : Option SpenderID

/-- `revokeSpend`. -/
def revokeSpend (v : DeterminedVotes SpenderID)
    (revokedSpender : SpenderID) : DeterminedVotes SpenderID :=
  if v.conflict.isSome ∨ revokedSpender ∈ v.revokedSpenders then v
  else if revokedSpender ∈ v.supportedSpenders then
    { v with
      revokedSpenders := v.revokedSpenders ++ [revokedSpender]
      conflict := some revokedSpender }
  else
    { v with
      revokedSpenders := v.revokedSpenders ++ [revokedSpender]
      revokedWalker := v.revokedWalker ++ (d.spender revokedSpender).children }

/-- `supportSpender`, and whether to walk on to the parents. -/
def supportSpender (v : DeterminedVotes SpenderID)
    (supportedSpender : SpenderID) : DeterminedVotes SpenderID × Bool :=
  if v.conflict.isSome ∨ supportedSpender ∈ v.supportedSpenders then (v, false)
  else
    let v := (d.spender supportedSpender).conflictingSpenders.foldl (revokeSpend d)
      { v with supportedSpenders := v.supportedSpenders ++ [supportedSpender] }
    (v, v.conflict.isNone)

/-- The body of the second loop of `determineVotes`. -/
def visitRevoked (revokedSpenders : List SpenderID) (revokedSpender : SpenderID) :
    List SpenderID × Bool :=
  if revokedSpender ∈ revokedSpenders then (revokedSpenders, false)
  else (revokedSpenders ++ [revokedSpender], true)

/-- `SpendDAG.determineVotes`. -/
def determineVotes (spenderIDs : List SpenderID) :
    Except (Error SpenderID) (List SpenderID × List SpenderID) :=
  let v := walk (supportSpender d) (fun x => (d.spender x).parents) d.spendersByID
    (spenders d spenderIDs true).1
    { supportedSpenders := [], revokedSpenders := [], revokedWalker := [], conflict := none }
  match v.conflict with
  | some id => .error (.conflictingVotes id)
  | none => .ok (v.supportedSpenders,
      walk visitRevoked (fun x => (d.spender x).children) d.spendersByID v.revokedWalker
        v.revokedSpenders)

section

variable (fuel threshold : Nat) (d : SpendDAG SpenderID ResourceID VoteRank) (c : SpenderID)

/-- An update of the voters or the attestors, and the hook that monitors
    `Weight.OnUpdate` if they changed. -/
def updateWeight (voters attestors : Finset SeatIndex) :
    Option (SpendDAG SpenderID ResourceID VoteRank) :=
  if voters = (d.spender c).voters ∧ attestors = (d.spender c).attestors then some d
  else
    let d := d.modify c (fun s => { s with voters := voters, attestors := attestors })
    if d.state c = .pending ∧ threshold ≤ voters.card ∧ threshold ≤ attestors.card then
      setAcceptanceState fuel d c .accepted
    else some d

variable (seat : SeatIndex)

/-- `Weight.AddVoter`. -/
def addVoter : Option (SpendDAG SpenderID ResourceID VoteRank) :=
  updateWeight fuel threshold d c (insert seat (d.spender c).voters) (d.spender c).attestors

/-- `Weight.DeleteVoter`. -/
def deleteVoter : Option (SpendDAG SpenderID ResourceID VoteRank) :=
  updateWeight fuel threshold d c ((d.spender c).voters.erase seat) (d.spender c).attestors

/-- `Weight.AddAttestor`. -/
def addAttestor : Option (SpendDAG SpenderID ResourceID VoteRank) :=
  updateWeight fuel threshold d c (d.spender c).voters (insert seat (d.spender c).attestors)

/-- `Weight.DeleteAttestor`. -/
def deleteAttestor : Option (SpendDAG SpenderID ResourceID VoteRank) :=
  updateWeight fuel threshold d c (d.spender c).voters ((d.spender c).attestors.erase seat)

/-- `Weight.ResetAttestors`. -/
def resetAttestors : Option (SpendDAG SpenderID ResourceID VoteRank) :=
  updateWeight fuel threshold d c (d.spender c).voters ∅

end

section Votes

variable [Ord VoteRank]

/-- `Spender.ApplyVote`. -/
def applyVote (fuel threshold : Nat) (vote : Vote VoteRank)
    (d : SpendDAG SpenderID ResourceID VoteRank) (c : SpenderID) :
    Option (SpendDAG SpenderID ResourceID VoteRank) :=
  if d.state c ≠ .pending then some d
  else
    let latestVote := (d.spender c).latestVotes vote.voter
    -- another vote of the same validator has at least the same rank
    if latestVote.any (fun l => compare l.rank vote.rank != .lt) then some d
    else
      let d := d.modify c (fun s => { s with
        latestVotes := fun seat => if seat = vote.voter then some vote else s.latestVotes seat })
      -- track attestors once the weight has reached the threshold
      (if threshold ≤ (d.spender c).voters.card then
        if vote.liked then addAttestor fuel threshold d c vote.voter
        else deleteAttestor fuel threshold d c vote.voter
      else resetAttestors fuel threshold d c).bind fun d =>
        -- the vote does not change the opinion of the validator
        if latestVote.any (fun l => l.liked == vote.liked) then some d
        else if vote.liked then addVoter fuel threshold d c vote.voter
        else deleteVoter fuel threshold d c vote.voter

/-- `SpendDAG.CastVotes`. -/
def castVotes (fuel : Nat) (d : SpendDAG SpenderID ResourceID VoteRank)
    (vote : Vote VoteRank) (spenderIDs : List SpenderID) : Outcome SpenderID ResourceID VoteRank :=
  let threshold := thresholdProvider ceilBft d.seatCount
  match determineVotes d spenderIDs with
  | .error err => some (d, some err)
  | .ok (supportedSpenders, revokedSpenders) =>
    ((run (applyVote fuel threshold (vote.withLiked true)) d supportedSpenders).bind fun d =>
      run (applyVote fuel threshold (vote.withLiked false)) d revokedSpenders).map
        (fun d => (d, none))

end Votes

/-! ## Section 6: Creation, forced acceptance and eviction -/

/-- `SpendDAG.CreateSpender`. -/
def createSpender (id : SpenderID) : SpendDAG SpenderID ResourceID VoteRank :=
  if id ∈ d.spendersByID then d
  else
    { d.modify id (fun _ => newSpender (thresholdProvider ceilBft d.seatCount)) with
      spendersByID := d.spendersByID ++ [id] }

/-- `SpendDAG.SetAccepted`. -/
def setAccepted (fuel : Nat) (d : SpendDAG SpenderID ResourceID VoteRank) (id : SpenderID) :
    Option (SpendDAG SpenderID ResourceID VoteRank) :=
  if id ∈ d.spendersByID then setAcceptanceState fuel d id .accepted else some d

/-- `c.Parents.Range(unregisterChild)` and `c.Parents.Clear()`. -/
def leaveParents (c : SpenderID) : SpendDAG SpenderID ResourceID VoteRank :=
  ((d.spender c).parents.foldl (fun d parent => unregisterChild d parent c) d).modify c
    (fun s => { s with parents := [] })

/-- `c.SpendSets.Range(Remove)` and `c.SpendSets.Clear()`. -/
def leaveSpendSets (c : SpenderID) : SpendDAG SpenderID ResourceID VoteRank :=
  { d with spendSetsByID := fun r =>
      if r ∈ (d.spender c).spendSets then (d.spendSetsByID r).filter (· ≠ c)
      else d.spendSetsByID r }.modify c (fun s => { s with spendSets := [] })

/-- `SortedSpenders.Remove`: the member goes, and the owner's hook on it. -/
def removeConflicting (c spender : SpenderID) : SpendDAG SpenderID ResourceID VoteRank :=
  (d.modify c (fun s =>
    { s with conflictingSpenders := s.conflictingSpenders.filter (· ≠ spender) })).modify spender
      (fun s => { s with conflictHooks := s.conflictHooks.filter (· ≠ c) })

/-- The objects and `evictedSpends`, the list of the spenders evicted so far. -/
abbrev Eviction (SpenderID ResourceID VoteRank : Type) :=
  SpendDAG SpenderID ResourceID VoteRank × List SpenderID

/-- The part of `Spender.Evict` on the children of a spender that is not
    rejected: they lose it as a parent. -/
def releaseChildren (c : SpenderID) : SpendDAG SpenderID ResourceID VoteRank :=
  (d.spender c).children.foldl (fun d child => removeParent d child c) d

/-- Two spenders stop conflicting. -/
def removeConflict (c spender : SpenderID) : SpendDAG SpenderID ResourceID VoteRank :=
  removeConflicting (removeConflicting d spender c) c spender

/-- `Spender.Evict`.  The children of a rejected spender are evicted with it, and
    so are the spenders that conflict with an accepted one. -/
def evict : Nat → Eviction SpenderID ResourceID VoteRank → SpenderID →
    Option (Eviction SpenderID ResourceID VoteRank)
  | 0, _, _ => none
  | fuel + 1, e, c =>
    if (e.1.spender c).evicted then some e
    else
      let d₁ := e.1.modify c (fun s => { s with evicted := true })
      (if d₁.state c = .rejected then run (evict fuel) (d₁, e.2) (d₁.spender c).children
        else some (releaseChildren d₁ c, e.2)).bind fun e₂ =>
          let d₃ := leaveSpendSets (leaveParents e₂.1 c) c
          (run (fun (e : Eviction SpenderID ResourceID VoteRank) spender =>
              if (removeConflict e.1 c spender).state c = .accepted then
                evict fuel (removeConflict e.1 c spender, e.2) spender
              else some (removeConflict e.1 c spender, e.2))
            (d₃, e₂.2) (d₃.spender c).conflictingSpenders).map fun e₄ => (e₄.1, e₄.2 ++ [c])

/-- `SpendDAG.EvictSpender`. -/
def evictSpender (fuel : Nat) (d : SpendDAG SpenderID ResourceID VoteRank) (id : SpenderID) :
    Option (SpendDAG SpenderID ResourceID VoteRank) :=
  if id ∉ d.spendersByID then some d
  else (evict fuel (d, []) id).map fun e =>
    { e.1 with spendersByID := e.1.spendersByID.filter (· ∉ e.2) }

/-! ## Section 7: Runs -/

/-- The operations.  `fixMemberPosition` is the worker that keeps the conflicting
    spenders of `id` sorted: it can leave them in any order.  `updateSeatCount` is a
    change of the committee. -/
inductive Op (SpenderID ResourceID VoteRank : Type) where
  | createSpender (id : SpenderID)
  | updateSpentResources (id : SpenderID) (resourceIDs : List ResourceID)
  | updateSpenderParents (id : SpenderID) (addedParentIDs removedParentIDs : List SpenderID)
  | castVotes (vote : Vote VoteRank) (spenderIDs : List SpenderID)
  | setAccepted (id : SpenderID)
  | evictSpender (id : SpenderID)
  | fixMemberPosition (id : SpenderID) (order : List SpenderID)
  | updateSeatCount (seatCount : Nat)

/-- One operation, with all the hooks it triggers. -/
def step [Ord VoteRank] (ceilBft : Nat → Nat) (fuel : Nat)
    (d : SpendDAG SpenderID ResourceID VoteRank) :
    Op SpenderID ResourceID VoteRank → Option (SpendDAG SpenderID ResourceID VoteRank)
  | .createSpender id => some (createSpender ceilBft d id)
  | .updateSpentResources id resourceIDs =>
    (updateSpentResources fuel d id resourceIDs).map Prod.fst
  | .updateSpenderParents id added removed =>
    (updateSpenderParents fuel d id added removed).map Prod.fst
  | .castVotes vote spenderIDs => (castVotes ceilBft fuel d vote spenderIDs).map Prod.fst
  | .setAccepted id => setAccepted fuel d id
  | .evictSpender id => evictSpender fuel d id
  | .fixMemberPosition id order =>
    if order.isPerm (d.spender id).conflictingSpenders then
      some (d.modify id (fun s => { s with conflictingSpenders := order }))
    else none
  | .updateSeatCount seatCount => some { d with seatCount := seatCount }

end AxonCore.SpendDag

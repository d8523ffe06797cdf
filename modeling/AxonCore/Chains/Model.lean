import Mathlib.Order.Lattice
import AxonCore.Lib.Run

/-! # Commitments and chains

    The commitments of the network form a tree.  Each of them is assigned to a chain: the
    main child of a commitment continues its chain, every other child is the forking point of
    a chain of its own.

    The assignment is a network of variables with callbacks.  A commitment derives its chain
    from its parent's main child and chain; a chain takes over the commitments assigned to it
    in a map by slot.  When a variable gets a new value, its callbacks are run one after the
    other, in the order of their registration, and a callback that sets a variable runs that
    variable's callbacks before it returns.

    * `State`: the commitments that are published, and the chains.
    * `State.setChain`: a new value of a commitment's chain and everything that follows.
    * `State.publish`, `State.publishFromEngine`, `State.forceChain`: what the protocol does.
    * `State.commitmentAt`, `State.less`: the queries.

    A commitment is represented by its ID; the order of the IDs is that of their bytes. -/

namespace AxonCore.Chains

open Lib Function

/-- The chains are numbered in the order of their creation. -/
abbrev ChainID := Nat

/-! ## Section 1: The state -/

/-- `Chain`, as far as the assignment of the commitments goes. -/
structure Chain (ID : Type) where
  forkingPoint : Option ID
  parentChain : Option ChainID
  /-- The commitments by slot. -/
  commitments : Nat → Option ID
  latestCommitment : Option ID

def Chain.empty {ID : Type} : Chain ID := ⟨none, none, fun _ => none, none⟩

/-- What is run when the chain of a commitment changes. -/
inductive Callback (ID : Type) where
  /-- The commitment is taken out of its old chain and added to the new one. -/
  | addCommitment
  /-- A child derives its chain. -/
  | deriveChain (child : ID)
  /-- A chain whose forking point is a child inherits its parent chain. -/
  | inheritParentChain (chain : ChainID)
  deriving DecidableEq

/-- `Commitment`, as far as the assignment to chains goes. -/
structure Commitment (ID : Type) where
  parent : Option ID
  children : List ID
  mainChild : Option ID
  chain : Option ChainID
  /-- The children that derive their chain when the main child changes. -/
  onMainChild : List ID
  onChain : List (Callback ID)

def Commitment.new {ID : Type} (onChain : List (Callback ID)) : Commitment ID :=
  ⟨none, [], none, none, [], onChain⟩

/-- What the IDs of the commitments tell. -/
structure Params (ID : Type) where
  slot : ID → Nat
  previousCommitmentID : ID → ID
  root : ID

structure State (ID : Type) where
  /-- Whether a commitment is published. -/
  published : ID → Bool
  commitments : ID → Commitment ID
  /-- The commitments that wait for the publication of their parent. -/
  waiting : ID → List ID
  chains : ChainID → Chain ID
  chainCount : Nat

namespace State

variable {ID : Type} [LinearOrder ID] (p : Params ID)

section

variable (s : State ID)

def chainOf (c : ID) : Option ChainID := (s.commitments c).chain

def parentOf (c : ID) : Option ID := (s.commitments c).parent

/-- A change of one commitment. -/
def modify (c : ID) (f : Commitment ID → Commitment ID) : State ID :=
  { s with commitments := update s.commitments c (f (s.commitments c)) }

/-- A change of one chain. -/
def modifyChain (x : ChainID) (f : Chain ID → Chain ID) : State ID :=
  { s with chains := update s.chains x (f (s.chains x)) }

/-! ## Section 2: The assignment to chains -/

/-- The callback of a commitment's chain that was set up by `addCommitment`: the one for the
    old chain is torn down first. -/
def addCommitment (c : ID) (old new : Option ChainID) : State ID :=
  let s := match old with
    | none => s
    | some x => s.modifyChain x fun chain =>
        { chain with commitments := update chain.commitments (p.slot c) none }
  match new with
  | none => s
  | some x => s.modifyChain x fun chain =>
      { chain with
        commitments := update chain.commitments (p.slot c) (some c)
        latestCommitment := some c }

/-- `Chains.newChain`, with the forking point; the parent chain is inherited from the parent
    of the forking point from then on. -/
def newChain (forkingPoint parent : ID) : State ID × ChainID :=
  let x := s.chainCount
  ({ (s.modifyChain x fun _ =>
        { Chain.empty with
          forkingPoint := some forkingPoint
          parentChain := s.chainOf parent }).modify parent fun c =>
        { c with onChain := c.onChain ++ [.inheritParentChain x] } with
      chainCount := x + 1 }, x)

/-- The value computed in `deriveChain`; a new chain may be created for it. -/
def derivedChain (c parent : ID) : State ID × Option ChainID :=
  if (s.commitments parent).mainChild ≠ some c then
    if s.chainOf c = none ∨ s.chainOf c = s.chainOf parent then
      let (s, x) := s.newChain c parent
      (s, some x)
    else (s, s.chainOf c)
  else (s, s.chainOf parent)

end

/-- A new value for the chain of a commitment, with all its callbacks.  The number bounds the
    depth to which commitments derive their chains from each other. -/
def setChain : Nat → State ID → ID → Option ChainID → Option (State ID)
  | 0, _, _, _ => none
  | n + 1, s, c, new =>
    let old := s.chainOf c
    if old = new then some s
    else
      run (fun s callback => match callback with
        | .addCommitment => some (s.addCommitment p c old new)
        | .deriveChain child =>
          let (s, chain) := s.derivedChain child c
          setChain n s child chain
        | .inheritParentChain x =>
          some (s.modifyChain x fun chain => { chain with parentChain := new }))
        (s.modify c fun c => { c with chain := new }) (s.commitments c).onChain

section

variable (n : Nat) (s : State ID)

/-- A new value for the main child, with all its callbacks. -/
def setMainChild (c : ID) (mainChild : ID) : Option (State ID) :=
  if (s.commitments c).mainChild = some mainChild then some s
  else
    run (fun s child =>
      let (s, chain) := s.derivedChain child c
      s.setChain p n child chain)
      (s.modify c fun c => { c with mainChild := some mainChild }) (s.commitments c).onMainChild

/-- `registerChild`: the first child becomes the main child. -/
def registerChild (c child : ID) : Option (State ID) :=
  if child ∈ (s.commitments c).children then some s
  else
    let s := s.modify c fun c => { c with children := c.children ++ [child] }
    match (s.commitments c).mainChild with
    | some _ => some s
    | none => s.setMainChild p n c child

/-- What a commitment does when it gets its parent: it registers as a child and derives its
    chain. -/
def attach (c parent : ID) : Option (State ID) :=
  (s.registerChild p n parent c).bind fun s =>
    let (s, chain) := s.derivedChain c parent
    let s := s.modify parent fun q =>
      { q with onMainChild := q.onMainChild ++ [c], onChain := q.onChain ++ [.deriveChain c] }
    s.setChain p n c chain

/-- The parent of an initialized commitment becomes known. -/
def setParent (c parent : ID) : Option (State ID) :=
  (s.modify c fun c => { c with parent := some parent }).attach p n c parent

/-! ## Section 3: What the protocol does -/

/-- The commitments that wait for a commitment get it as their parent. -/
def solidifyChildren (c : ID) : Option (State ID) :=
  run (fun s child => s.setParent p n child c) { s with waiting := update s.waiting c [] }
    (s.waiting c)

/-- `publishCommitment` for a commitment that was received: its behavior is initialized before
    the parent is looked up (`initCommitment`). -/
def publish (c : ID) : Option (State ID) :=
  if s.published c then some s
  else
    let s := { s with published := update s.published c true }.modify c fun _ =>
      Commitment.new [.addCommitment]
    let parent := p.previousCommitmentID c
    if p.slot c > p.slot p.root then
      (if s.published parent then s.setParent p n c parent
      else some { s with waiting :=
          Function.update s.waiting parent (s.waiting parent ++ [c]) }).bind fun s =>
        s.solidifyChildren p n c
    else s.solidifyChildren p n c

/-- `forceChain`. -/
def forceChain (c : ID) (targetChain : ChainID) : Option (State ID) :=
  if s.chainOf c ≠ some targetChain then
    match s.parentOf c with
    | some parent =>
      if s.chainOf parent = some targetChain then s.setMainChild p n parent c else some s
    | none => some s
  else some s

/-- `initBehavior` of a commitment whose parent is looked up already. -/
def initBehavior (c : ID) : Option (State ID) :=
  let attached : Option (State ID) := match s.parentOf c with
    | some parent => s.attach p n c parent
    | none => some s
  attached.map fun s =>
    (s.modify c fun c => { c with onChain := c.onChain ++ [.addCommitment] }).addCommitment p c
      none (s.chainOf c)

/-- The body of `publishEngineCommitments`: a commitment that an engine produced is forced to
    the chain of the engine.  If it is new, its behavior is initialized after that. -/
def publishFromEngine (c : ID) (chain : ChainID) : Option (State ID) :=
  if s.published c then s.forceChain p n c chain
  else
    let s := { s with published := update s.published c true }.modify c fun _ =>
      Commitment.new []
    let parent := p.previousCommitmentID c
    let s :=
      if p.slot c > p.slot p.root then
        if s.published parent then s.modify c fun c => { c with parent := some parent }
        else { s with waiting := update s.waiting parent (s.waiting parent ++ [c]) }
      else s
    (s.solidifyChildren p n c).bind fun s =>
      (s.forceChain p n c chain).bind fun s => s.initBehavior p n c

/-- The root commitment is published, and the main chain begins with it
    (`publishRootCommitment`). -/
def init : State ID where
  published := fun c => decide (c = p.root)
  commitments := update (fun _ => Commitment.new []) p.root
    { Commitment.new [.addCommitment] with chain := some 0 }
  waiting := fun _ => []
  chains := update (fun _ => Chain.empty) 0
    { forkingPoint := some p.root
      parentChain := none
      commitments := update (fun _ => none) (p.slot p.root) (some p.root)
      latestCommitment := some p.root }
  chainCount := 1

inductive Input (ID : Type) where
  | publish (c : ID)
  | publishFromEngine (c : ID) (chain : ChainID)

def step : Input ID → Option (State ID)
  | .publish c => s.publish p n c
  | .publishFromEngine c chain => s.publishFromEngine p n c chain

end

/-! ## Section 4: Reading the chains -/

/-- `Chain.Commitment`, with a bound on the number of chains visited; `some none` is the
    result that there is no such commitment. -/
def commitmentAt (s : State ID) : Nat → Option ChainID → Nat → Option (Option ID)
  | 0, _, _ => none
  | _ + 1, none, _ => some none
  | n + 1, some x, slot =>
    match (s.chains x).forkingPoint with
    | none => none
    | some forkingPoint =>
      if p.slot forkingPoint = slot then some (some forkingPoint)
      else if slot > p.slot forkingPoint then some ((s.chains x).commitments slot)
      else s.commitmentAt n (s.chains x).parentChain slot

/-- The loop of `Less`, with a bound on its rounds. -/
def lessLoop (s : State ID) : Nat → Option ChainID → Option ChainID → Option Bool
  | 0, _, _ => none
  | n + 1, largerChain, smallerChain =>
    match largerChain with
    | none => some false
    | some larger =>
    match smallerChain with
    | none => some true
    | some smaller =>
    match (s.chains larger).forkingPoint with
    | none => some false
    | some forkingPointOfLarger =>
    match (s.chains smaller).forkingPoint with
    | none => some true
    | some forkingPointOfSmaller =>
      if p.slot forkingPointOfLarger = p.slot forkingPointOfSmaller ∧
          s.parentOf forkingPointOfLarger = s.parentOf forkingPointOfSmaller then
        some (decide (forkingPointOfLarger > forkingPointOfSmaller))
      else if p.slot forkingPointOfLarger > p.slot forkingPointOfSmaller then
        let largerChain := (s.chains larger).parentChain
        if largerChain = some smaller then
          (s.commitmentAt p n (some smaller) (p.slot forkingPointOfLarger)).map fun
            | none => true
            | some divergencePoint => decide (forkingPointOfLarger > divergencePoint)
        else s.lessLoop n largerChain (some smaller)
      else
        let smallerChain := (s.chains smaller).parentChain
        if smallerChain = some larger then
          (s.commitmentAt p n (some larger) (p.slot forkingPointOfSmaller)).map fun
            | none => false
            | some divergencePoint => decide (divergencePoint > forkingPointOfSmaller)
        else s.lessLoop n (some larger) smallerChain

/-- `Less`; a commitment may be nil. -/
def less (s : State ID) (n : Nat) (c other : Option ID) : Option Bool :=
  if c = other then some false
  else
    match c with
    | none => some true
    | some c =>
    match other with
    | none => some false
    | some other =>
      if s.chainOf other = s.chainOf c then some false
      else s.lessLoop p n (s.chainOf other) (s.chainOf c)

end State

end AxonCore.Chains

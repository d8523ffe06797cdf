import AxonCore.Lib.Keyed
import AxonCore.Lib.Ring

/-! # The buffer of the scheduler

    `BasicBuffer` keeps one queue of blocks for every active issuer.  The queues are the
    values of a ring (`container/ring`), so that they can be served in turn, and a map leads
    from an issuer to its element of the ring.  `b.ring` is the element whose turn it is.

    Cells of the ring are numbers; a new cell gets the next number.  An operation that
    panics gives `none`. -/

namespace AxonCore.Drr

open AxonCore.Lib Option

/-! ## Section 1: Queues -/

/-- `blocks.Block`, as far as the scheduler reads it. -/
structure Block (ID : Type) where
  blockID : Nat
  issuerID : ID
  workScore : Nat
  issuingTime : Nat
  isCommitted : Bool
  deriving DecidableEq, Repr

/-- `IssuerQueue`: the number of blocks that are not ready yet, and the ready ones in the
    order in which the heap gives them out. -/
structure IssuerQueue (ID : Type) where
  issuerID : ID
  nonReady : Nat
  ready : List (Block ID)
  deriving DecidableEq, Repr

namespace IssuerQueue

variable {ID : Type}

/-- `NewIssuerQueue`. -/
def new (issuerID : ID) : IssuerQueue ID := ⟨issuerID, 0, []⟩

variable (q : IssuerQueue ID)

/-- `Size`. -/
def size : Nat := q.nonReady + q.ready.length

/-- `Clear`. -/
def clear : IssuerQueue ID := { q with nonReady := 0, ready := [] }

/-- `Front`. -/
def front : Option (Block ID) := q.ready.head?

/-- `PopFront`, without the block. -/
def popFront : IssuerQueue ID := { q with ready := q.ready.tail }

end IssuerQueue

/-! ## Section 2: The buffer -/

/-- `BasicBuffer`, with the cells of its ring.  A value that is `none` is not an issuer
    queue. -/
structure BasicBuffer (ID : Type) where
  activeIssuers : Map ID Nat
  ring : Option Nat
  links : Links
  value : Nat → Option (IssuerQueue ID)
  /-- The number of cells created so far. -/
  created : Nat

namespace BasicBuffer

variable {ID : Type} {b b' : BasicBuffer ID} {r : Nat}

/-- `NewBasicBuffer`. -/
def new : BasicBuffer ID := ⟨∅, none, ⟨fun c => c, fun c => c⟩, fun _ => none, 0⟩

section

variable (b : BasicBuffer ID)

/-- The buffer with another value in a cell. -/
def setValue (cell : Nat) (q : IssuerQueue ID) : BasicBuffer ID :=
  { b with value := Function.update b.value cell (some q) }

/-- `ring.New(1)` with a value. -/
def newCell (q : IssuerQueue ID) : BasicBuffer ID :=
  { b with
    links := b.links.single b.created
    value := Function.update b.value b.created (some q)
    created := b.created + 1 }

/-- `ringInsert`, for the queue in a new cell. -/
def ringInsert (q : IssuerQueue ID) : BasicBuffer ID :=
  let p := b.created
  let b := b.newCell q
  match b.ring with
  | none => { b with ring := some p }
  | some current => { b with links := b.links.link p current }

/-- `ringRemove`.  Without a ring, `b.ring.Next()` panics. -/
def ringRemove (r : Nat) : Option (BasicBuffer ID) :=
  b.ring.map fun current =>
    let n := b.links.next current
    if r = current then
      if n = current then { b with ring := none }
      else { b with ring := some n, links := b.links.link (b.links.prev r) n }
    else { b with links := b.links.link (b.links.prev r) n }

end

theorem ringRemove_frame (h : b.ringRemove r = some b') :
    b'.activeIssuers = b.activeIssuers ∧ b'.value = b.value := by
  obtain ⟨current, _, rfl⟩ := map_eq_some_iff.mp h
  dsimp only
  split_ifs <;> exact ⟨rfl, rfl⟩

/-- `Next`. -/
def next (b : BasicBuffer ID) : BasicBuffer ID :=
  { b with ring := b.ring.map b.links.next }

/-- `Current`. -/
def current (b : BasicBuffer ID) : Option (IssuerQueue ID) := b.ring.bind b.value

/-- The cells from the current one on, once around the ring. -/
def cells (b : BasicBuffer ID) : Option (List Nat) :=
  match b.ring with
  | none => some []
  | some start => traverse b.links start b.created start

/-- The queues that `ForEach` hands to its consumer.  Its loop ends at the element at which it
    started, so that `b.ring` is unchanged. -/
def forEach (b : BasicBuffer ID) : Option (List (IssuerQueue ID)) :=
  b.cells.map fun cells => cells.filterMap b.value

/-- `IssuerIDs`: once around the ring with `Next`, which panics at a value that is not a
    queue. -/
def issuerIDs (b : BasicBuffer ID) : Option (List ID) :=
  b.cells.bind fun cells => (cells.mapM b.value).map fun queues => queues.map IssuerQueue.issuerID

/-- `PopFront`: the first ready block of the current queue, and the buffer without it. -/
def popFront (b : BasicBuffer ID) : Option (Block ID × BasicBuffer ID) :=
  b.ring.bind fun cell => (b.value cell).bind fun q =>
    q.front.map fun block => (block, b.setValue cell q.popFront)

variable [DecidableEq ID]

/-- `IssuerQueue`. -/
def issuerQueue (b : BasicBuffer ID) (issuerID : ID) : Option (IssuerQueue ID) :=
  (b.activeIssuers.lookup issuerID).bind b.value

/-- `CreateIssuerQueue`. -/
def createIssuerQueue (b : BasicBuffer ID) (issuerID : ID) : Option (BasicBuffer ID) :=
  match b.activeIssuers.lookup issuerID with
  | some _ => none
  | none =>
    some { b.ringInsert (IssuerQueue.new issuerID) with
      activeIssuers := b.activeIssuers.insert issuerID b.created }

theorem createIssuerQueue_frame {id : ID} (h : b.createIssuerQueue id = some b') :
    b'.activeIssuers = b.activeIssuers.insert id b.created ∧
      b'.value = Function.update b.value b.created (some (IssuerQueue.new id)) ∧
      b'.created = b.created + 1 := by
  unfold createIssuerQueue ringInsert newCell at h
  split at h
  · cases h
  · obtain rfl := some.inj h
    cases b.ring <;> exact ⟨rfl, rfl, rfl⟩

section

variable (b : BasicBuffer ID) (issuerID : ID)

/-- `GetOrCreateIssuerQueue`. -/
def getOrCreateIssuerQueue : Option (BasicBuffer ID) :=
  match b.activeIssuers.lookup issuerID with
  | none => b.createIssuerQueue issuerID
  | some element => (b.value element).map fun _ => b

/-- The issuer is no longer active. -/
def deactivate : BasicBuffer ID :=
  { b with activeIssuers := b.activeIssuers.erase issuerID }

/-- `RemoveIssuerQueue`. -/
def removeIssuerQueue : Option (BasicBuffer ID) :=
  match b.activeIssuers.lookup issuerID with
  | none => some b
  | some element =>
    (b.value element).bind fun q =>
      ((b.setValue element q.clear).ringRemove element).map fun b => b.deactivate issuerID

/-- `RemoveIssuerQueueIfEmpty`. -/
def removeIssuerQueueIfEmpty : Option (BasicBuffer ID) :=
  match b.activeIssuers.lookup issuerID with
  | none => some b
  | some element =>
    (b.value element).bind fun q =>
      if q.size = 0 then (b.ringRemove element).map fun b => b.deactivate issuerID else some b

end

theorem value_removeIssuerQueueIfEmpty {issuerID : ID}
    (h : b.removeIssuerQueueIfEmpty issuerID = some b') : b'.value = b.value := by
  unfold removeIssuerQueueIfEmpty at h
  split at h
  · obtain rfl := some.inj h
    rfl
  · obtain ⟨q, _, h⟩ := bind_eq_some_iff.mp h
    split at h
    · obtain ⟨b₁, hb₁, rfl⟩ := map_eq_some_iff.mp h
      exact (ringRemove_frame hb₁).2
    · obtain rfl := some.inj h
      rfl

/-- `Clear`.  `order` is the order in which the map of active issuers is iterated. -/
def clear (b : BasicBuffer ID) (order : List ID) : Option (BasicBuffer ID) :=
  run removeIssuerQueue b order

end BasicBuffer

end AxonCore.Drr

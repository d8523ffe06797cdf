import AxonCore.Lib.DeficitRoundRobin
import AxonCore.Lib.SafeMath
import AxonCore.Scheduler.RingIntegrity

/-! # The choice of the next basic block

    `selectBasicBlockWithoutLocking` looks for the issuer whose deficit covers its first block
    after the smallest number of rounds.  It then adds that many quanta to every deficit at
    once, walks from the current issuer to the chosen one with one more quantum for each issuer
    on the way, and takes the first block of the chosen issuer.  The walk removes empty queues
    whose issuers have the greatest deficit.

    A queue is known by its cell of the ring.  An operation that panics gives `none`. -/

namespace AxonCore.Drr

open AxonCore.Lib

/-! ## Section 1: Deficits -/

/-- The largest signed word. -/
def maxInt64 : Int := 2 ^ 63 - 1

/-- `maxDeficit`. -/
def maxDeficit : Int := maxInt64 / 2

/-- What the scheduler reads from other components during one selection. -/
structure Params (ID : Type) where
  /-- `quantumFunc` at the latest committed slot. -/
  quantum : ID → Int
  /-- `MaxBlockWork`. -/
  maxBlockWork : Nat
  maxBlockWork_pos : 0 < maxBlockWork
  now : Nat
  /-- `updateChildrenWithoutLocking`: children of a skipped block become ready. -/
  updateChildren : BasicBuffer ID → Block ID → BasicBuffer ID

/-- `deficitFromWork`, in unchecked arithmetic. -/
def Params.deficitFromWork {ID : Type} (p : Params ID) (work : Nat) : Int :=
  wrapInt64 (work * (maxDeficit / p.maxBlockWork))

/-- `Scheduler`, as far as it chooses basic blocks. -/
structure Scheduler (ID : Type) where
  basicBuffer : BasicBuffer ID
  deficits : Map ID Int
  /-- The block that waits to be scheduled. -/
  blockChan : Option (Block ID)

variable {ID : Type} [DecidableEq ID]

namespace Scheduler

/-- The deficit of an issuer is set. -/
def setDeficit (s : Scheduler ID) (accountID : ID) (deficit : Int) : Scheduler ID :=
  { s with deficits := s.deficits.insert accountID deficit }

/-- `updateDeficit`, with the updated deficit.  It panics without a deficit, and when the
    deficit would become negative. -/
def updateDeficit (s : Scheduler ID) (accountID : ID) (delta : Int) :
    Option (Scheduler ID × Int) :=
  (s.deficits.lookup accountID).bind fun currentValue =>
    match safeAddInt64 currentValue delta with
    | .error _ => some (s.setDeficit accountID maxDeficit, maxDeficit)
    | .ok newDeficit =>
      if maxDeficit ≤ newDeficit then some (s.setDeficit accountID maxDeficit, maxDeficit)
      else if newDeficit < 0 then none
      else some (s.setDeficit accountID newDeficit, newDeficit)

/-- `incrementDeficit`. -/
def incrementDeficit (p : Params ID) (s : Scheduler ID) (issuerID : ID) (rounds : Int) :
    Option (Scheduler ID × Int) :=
  let delta := match safeMulInt64 (p.quantum issuerID) rounds with
    | .error _ => maxDeficit
    | .ok delta => delta
  s.updateDeficit issuerID delta

/-! ## Section 2: The issuer to be served -/

/-- The rounds until a deficit covers a cost, by truncating division. -/
def rounds (quantum cost deficit : Int) : Option Int :=
  let remainingDeficit := wrapInt64 (cost - deficit)
  let numerator := match safeAddInt64 remainingDeficit (wrapInt64 (quantum - 1)) with
    | .error _ => maxInt64
    | .ok numerator => numerator
  match safeDivInt64 numerator quantum with
  | .error _ => none
  | .ok rounds => some rounds

/-- A committed block at the front of the queue in a cell is skipped. -/
def skip (p : Params ID) (s : Scheduler ID) (cell : Nat) (block : Block ID) : Scheduler ID :=
  let b := p.updateChildren s.basicBuffer block
  { s with basicBuffer := ((b.value cell).map fun q => b.setValue cell q.popFront).getD b }

/-- The loop over the blocks at the front of a queue: committed ones are skipped, the first
    other one is the result if its issuing time has passed. -/
def frontBlock (p : Params ID) : Nat → Scheduler ID → Nat →
    Option (Scheduler ID × Option (Block ID))
  | 0, _, _ => none
  | fuel + 1, s, cell =>
    match (s.basicBuffer.value cell).bind IssuerQueue.front with
    | none => some (s, none)
    | some block =>
      if block.issuingTime < p.now then
        if block.isCommitted then frontBlock p fuel (s.skip p cell block) cell
        else some (s, some block)
      else some (s, none)

/-- The state, the fewest rounds so far and the queue that needs them. -/
structure Best (ID : Type) where
  scheduler : Scheduler ID
  minRounds : Int
  schedulingIssuer : Option Nat

/-- The consumer of `ForEach` in `selectIssuer`.  Every block that is skipped leaves the
    queue, so that the loop over its blocks ends. -/
def consider (p : Params ID) (best : Best ID) (cell : Nat) : Option (Best ID) :=
  let size := ((best.scheduler.basicBuffer.value cell).map IssuerQueue.size).getD 0
  (frontBlock p (size + 1) best.scheduler cell).bind fun result =>
    match result.2 with
    | none => some { best with scheduler := result.1 }
    | some block =>
      (result.1.deficits.lookup block.issuerID).bind fun deficit =>
        (rounds (p.quantum block.issuerID) (p.deficitFromWork block.workScore) deficit).map
          fun rounds =>
            if rounds < best.minRounds then ⟨result.1, rounds, some cell⟩
            else { best with scheduler := result.1 }

/-- `selectIssuer`. -/
def selectIssuer (p : Params ID) (s : Scheduler ID) : Option (Best ID) :=
  s.basicBuffer.cells.bind fun cells =>
    run (consider p) ⟨s, maxInt64, none⟩
      (cells.filter fun cell => (s.basicBuffer.value cell).isSome)

/-! ## Section 3: The selection -/

/-- All issuers of the ring get the quanta of some rounds. -/
def incrementAll (p : Params ID) (rounds : Int) (s : Scheduler ID) : Option (Scheduler ID) :=
  s.basicBuffer.forEach.bind fun queues =>
    run (fun s (q : IssuerQueue ID) => (s.incrementDeficit p q.issuerID rounds).map Prod.fst)
      s queues

/-- One round of the loop that walks to the scheduling issuer: the current issuer gets a
    quantum, its queue is removed if it is empty and the deficit cannot grow, and the turn
    moves on. -/
def advance (p : Params ID) (s : Scheduler ID) : Option (Scheduler ID) :=
  s.basicBuffer.current.bind fun q =>
    (s.incrementDeficit p q.issuerID 1).bind fun result =>
      let s := result.1
      let removed := if result.2 = maxDeficit then s.basicBuffer.removeIssuerQueueIfEmpty q.issuerID
        else some s.basicBuffer
      removed.map fun b => { s with basicBuffer := b.next }

/-- The loop itself.  It panics when no queue is left. -/
def walk (p : Params ID) (schedulingIssuer : Nat) : Nat → Scheduler ID → Option (Scheduler ID)
  | 0, _ => none
  | fuel + 1, s =>
    if s.basicBuffer.ring = some schedulingIssuer then some s
    else (s.advance p).bind fun s => walk p schedulingIssuer fuel s

/-- The first block of the current queue is taken out and paid for. -/
def scheduleFront (p : Params ID) (s : Scheduler ID) : Option (Scheduler ID) :=
  s.basicBuffer.popFront.bind fun popped =>
    let s := { s with basicBuffer := popped.2 }
    (s.updateDeficit popped.1.issuerID (wrapInt64 (-p.deficitFromWork popped.1.workScore))).map
      fun result => { result.1 with blockChan := some popped.1 }

/-- `selectBasicBlockWithoutLocking`.  The walk goes around at most once for every queue that
    it removes. -/
def selectBasicBlockWithoutLocking (p : Params ID) (s : Scheduler ID) : Option (Scheduler ID) :=
  if s.blockChan.isSome then some s
  else
    (s.selectIssuer p).bind fun best =>
      match best.schedulingIssuer with
      | none => some best.scheduler
      | some schedulingIssuer =>
        let s := best.scheduler
        let incremented := if 0 < best.minRounds then s.incrementAll p best.minRounds else some s
        incremented.bind fun s =>
          if s.basicBuffer.current.isNone then some s
          else
            (s.walk p schedulingIssuer
              ((s.basicBuffer.created + 1) * (s.basicBuffer.created + 1))).bind
              fun s => s.scheduleFront p

end Scheduler

end AxonCore.Drr

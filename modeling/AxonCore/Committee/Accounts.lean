import Mathlib.Data.List.Sort
import AxonCore.Lib.Keyed
import AxonCore.Lib.SafeMath

/-! # Accounts and seats of a committee

    `Accounts` are the pools of the members of a committee, with the totals of their stakes.
    `SeatedAccounts` give every member a seat, an index of eight bits.

    A new committee is seated in two passes.  Members of the previous committee keep their
    seats; the others get the lowest seats that are left, in the order of their account IDs.

    Account IDs are compared as bytes; `ID` is any type with a linear order.  A loop of the
    source that skips taken seats is a recursion with fuel for the 256 seats that there
    are: if all of them are taken, the loop never ends. -/

namespace AxonCore.Committee

open AxonCore.Lib

/-! ## Section 1: Accounts -/

/-- `account.Pool`. -/
structure Pool where
  poolStake : Nat
  validatorStake : Nat
  fixedCost : Nat
  deriving DecidableEq, Repr

/-- `account.Accounts`. -/
structure Accounts (ID : Type) where
  accountPools : Map ID Pool
  totalStake : Nat
  totalValidatorStake : Nat

variable {ID : Type}

namespace Accounts

/-- `NewAccounts`. -/
def new : Accounts ID := ⟨∅, 0, 0⟩

variable [LinearOrder ID] (a : Accounts ID)

/-- `IDs`. -/
def ids : List ID := a.accountPools.keys

/-- `Has`. -/
def has (id : ID) : Bool := (a.accountPools.lookup id).isSome

/-- `Get`. -/
def get (id : ID) : Option Pool := a.accountPools.lookup id

/-- The totals without the stakes of a pool that is replaced. -/
def subtract : Option Pool → Except ArithmeticError (Nat × Nat)
  | none => .ok (a.totalStake, a.totalValidatorStake)
  | some value =>
    (safeSub a.totalStake value.poolStake).bind fun totalStake =>
      (safeSub a.totalValidatorStake value.validatorStake).bind fun totalValidatorStake =>
        .ok (totalStake, totalValidatorStake)

/-- `Set` (`setWithoutLocking`). -/
def set (id : ID) (pool : Pool) : Except ArithmeticError (Accounts ID) :=
  (a.subtract (a.get id)).bind fun totals =>
    (safeAdd totals.1 pool.poolStake).bind fun totalStake =>
      (safeAdd totals.2 pool.validatorStake).bind fun totalValidatorStake =>
        .ok ⟨a.accountPools.insert id pool, totalStake, totalValidatorStake⟩

end Accounts

/-! ## Section 2: Seated accounts -/

/-- `account.SeatIndex`. -/
abbrev SeatIndex := UInt8

/-- `account.SeatedAccounts`. -/
structure SeatedAccounts (ID : Type) where
  accounts : Accounts ID
  seatsByAccount : Map ID SeatIndex
  reused : Bool

/-- What stops an operation on committees. -/
inductive Failure where
  | arithmetic (e : ArithmeticError)
  /-- "candidates must not be empty". -/
  | noCandidates
  /-- "committee must not be empty". -/
  | emptyCommittee
  /-- A panic: the account of a seat or the committee of the current epoch is missing. -/
  | notFound
  /-- A loop that never ends. -/
  | diverges
  deriving DecidableEq, Repr

/-- An arithmetic error as a failure. -/
def liftArithmetic {α : Type} : Except ArithmeticError α → Except Failure α
  | .ok a => .ok a
  | .error e => .error (.arithmetic e)

namespace SeatedAccounts

/-- `NewSeatedAccounts` without members. -/
def new (accounts : Accounts ID) : SeatedAccounts ID := ⟨accounts, ∅, false⟩

variable [LinearOrder ID] (s : SeatedAccounts ID)

/-- `GetSeat`. -/
def getSeat (id : ID) : Option SeatIndex := s.seatsByAccount.lookup id

/-- `HasAccount`. -/
def hasAccount (id : ID) : Bool := (s.getSeat id).isSome

/-- `SeatCount`. -/
def seatCount : Nat := s.seatsByAccount.keys.length

/-- `IDs`. -/
def ids : List ID := s.accounts.ids

/-- `Set`: a seat for an account that exists and has no other seat. -/
def set (seat : SeatIndex) (id : ID) : SeatedAccounts ID :=
  if s.accounts.has id then
    match s.getSeat id with
    | none => { s with seatsByAccount := s.seatsByAccount.insert id seat }
    | some oldSeat =>
      if oldSeat ≠ seat then s else { s with seatsByAccount := s.seatsByAccount.insert id seat }
  else s

/-- One account of the loop in `accountsOf`. -/
def addAccount (accounts : Accounts ID) (id : ID) : Except Failure (Accounts ID) :=
  match s.accounts.get id with
  | none => .error .notFound
  | some pool => liftArithmetic (accounts.set id pool)

/-- `Accounts`: the accounts that have a seat. -/
def accountsOf : Except Failure (Accounts ID) :=
  s.seatsByAccount.keys.foldlM s.addAccount Accounts.new

/-- `Reuse`. -/
def reuse : Except Failure (SeatedAccounts ID) :=
  s.accountsOf.bind fun committeeAccounts =>
    .ok (s.seatsByAccount.entries.foldl (fun newCommittee e => newCommittee.set e.2 e.1)
      { new committeeAccounts with reused := true })

end SeatedAccounts

/-! ## Section 3: The assignment of seats -/

section Assignment

/-- The loop `for takenSeatIndices.Has(currentSeatIndex) { currentSeatIndex++ }`. -/
def skipTaken (takenSeatIndices : List SeatIndex) : Nat → SeatIndex → Option SeatIndex
  | 0, _ => none
  | fuel + 1, currentSeatIndex =>
    if currentSeatIndex ∈ takenSeatIndices then
      skipTaken takenSeatIndices fuel (currentSeatIndex + 1)
    else some currentSeatIndex

variable [LinearOrder ID]

/-- The seats of the members that were in the previous committee. -/
def takenSeats (a : Accounts ID) (prevCommittee : SeatedAccounts ID) : List SeatIndex :=
  a.ids.filterMap prevCommittee.getSeat

/-- The first pass: re-elected members keep their seats. -/
def keepSeat (prevCommittee newCommittee : SeatedAccounts ID) (id : ID) : SeatedAccounts ID :=
  match prevCommittee.getSeat id with
  | some seatIndex => newCommittee.set seatIndex id
  | none => newCommittee

/-- The second pass, for one member: the new committee and the next seat to hand out. -/
def assignSeat (prevCommittee : SeatedAccounts ID) (takenSeatIndices : List SeatIndex)
    (s : SeatedAccounts ID × SeatIndex) (memberID : ID) :
    Option (SeatedAccounts ID × SeatIndex) :=
  (skipTaken takenSeatIndices 256 s.2).map fun currentSeatIndex =>
    match prevCommittee.getSeat memberID with
    | none => (s.1.set currentSeatIndex memberID, currentSeatIndex + 1)
    | some _ => (s.1, currentSeatIndex)

/-- `Accounts.SeatedAccounts`; `none` if it does not return.  Without a previous committee,
    `prevCommittee` is a committee without accounts. -/
def Accounts.seatedAccounts (a : Accounts ID) (prevCommittee : SeatedAccounts ID) :
    Option (SeatedAccounts ID) :=
  let newCommittee := a.ids.foldl (keepSeat prevCommittee) (SeatedAccounts.new a)
  let committeeAccountIDs := a.ids.insertionSort (· ≤ ·)
  (run (assignSeat prevCommittee (takenSeats a prevCommittee)) (newCommittee, 0)
    committeeAccountIDs).map Prod.fst

end Assignment

end AxonCore.Committee

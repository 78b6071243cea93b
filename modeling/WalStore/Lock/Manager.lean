import WalStore.Error
import WalStore.Monitor
import WalStore.Lock.Deadline
import WalStore.Lock.Table

/-!
# The lock manager

The lock manager is a monitor over the lock table. A request that conflicts is queued and
sleeps; it is granted when its turn comes, or it fails because a deadline has passed, because
its token is cancelled, or because it was picked to break a deadlock. A request that fails
leaves nothing behind in the table.

**Which comes first.** A victim fails whatever else holds. A request whose turn it is is granted
although its lock timeout has passed or its token is cancelled, but not when its transaction's time
is over, unless the lock timeout had passed before that.
-/

namespace WalStore

/-- How a request was satisfied. -/
inductive Grant where
  /-- An equal or stronger lock was held already. -/
  | alreadyHeld
  | granted
  | afterWait (waited : Duration)
  deriving DecidableEq

/-- Whether the request added to the locks its owner holds. -/
def Grant.isNew : Grant → Bool
  | alreadyHeld => false
  | granted | afterWait _ => true

/-- What a call asks for. -/
structure LockRequest where
  txn : TxnId
  resource : Resource
  mode : Mode
  deadlines : Deadlines
  deriving DecidableEq

/-- A request that is queued, and since when. -/
structure Waiting where
  request : LockRequest
  since : Instant
  deriving DecidableEq

/-- How many requests there were, how many had to wait, and how many failed for each reason. -/
structure LockCounters where
  requests : Nat
  waits : Nat
  lockTimeouts : Nat
  txnTimeouts : Nat
  deadlocks : Nat
  interrupted : Nat
  deriving DecidableEq, Inhabited

def LockCounters.zero : LockCounters := ⟨0, 0, 0, 0, 0, 0⟩

/-- The counters under the names they are told by. -/
def LockCounters.figures (c : LockCounters) : List (String × Nat) :=
  [("requests", c.requests), ("waits", c.waits), ("lock_timeouts", c.lockTimeouts),
    ("txn_timeouts", c.txnTimeouts), ("deadlocks", c.deadlocks), ("interrupted", c.interrupted)]

/-- The state that lock requests look at. -/
structure LockState where
  /-- Whether deadlocks are looked for. -/
  detection : Bool
  table : LockTable
  counters : LockCounters
  deriving DecidableEq

namespace LockState

/-- No request has been made. -/
def fresh (detection : Bool) : LockState := ⟨detection, .empty, .zero⟩

/-- The result of a request. -/
abbrev Outcome := Except Error Grant

abbrev RequestLook := Monitor.Look LockState Waiting Outcome

/-! ## Looks -/

/-- The request was picked to break the deadlock `cycle`. -/
def sacrifice (s : LockState) (r : LockRequest) (cycle : List TxnId) : RequestLook where
  state := { s with
    table := s.table.abandon r.txn r.resource
    counters.deadlocks := s.counters.deadlocks + 1 }
  fate := .returns (.error (.deadlock r.txn cycle))
  notify := true

/-- The request gives up; `queued` says whether it has waited. -/
def giveUp (s : LockState) (r : LockRequest) (queued : Bool) (counters : LockCounters)
    (e : Error) : RequestLook where
  state := { s with table := s.table.abandon r.txn r.resource, counters }
  fate := .returns (.error e)
  notify := queued

/-- Why a request that cannot be granted fails, if it does, and the counters after that. -/
def failure? (s : LockState) (sight : Monitor.Sight) (r : LockRequest) (expiry : Option Expiry) :
    Option (LockCounters × Error) :=
  let c := s.counters
  if sight.cancelled then some ({ c with interrupted := c.interrupted + 1 }, .interrupted)
  else
    match expiry with
    | some (.lock limit) =>
      some ({ c with lockTimeouts := c.lockTimeouts + 1 }, .lockTimeout r.txn r.resource limit)
    | some (.txn limit) =>
      some ({ c with txnTimeouts := c.txnTimeouts + 1 }, .txnTimeout r.txn limit)
    | none => none

/-- The request stays queued: whom it is blocked behind is noted, and a deadlock that this
closes is broken. -/
def stay (s : LockState) (w : Waiting) : RequestLook :=
  let r := w.request
  let s := { s with table := s.table.noteWaits r.txn r.resource r.mode }
  let (table, victim) := if s.detection then s.table.breakCycle r.txn else (s.table, none)
  let s := { s with table }
  match s.table.victims.get? r.txn with
  | some cycle => s.sacrifice r cycle
  | none => ⟨s, .sleeps w, victim.isSome⟩

/-- Takes a request into the queue that has not been there. -/
def queueUp (s : LockState) (r : LockRequest) : LockState :=
  { s with
    table := s.table.enqueue r.txn r.resource r.mode
    counters.waits := s.counters.waits + 1 }

/-- One attempt at a request; `queued` says whether it has waited. -/
def attempt (queued : Bool) (sight : Monitor.Sight) (w : Waiting) (s : LockState) : RequestLook :=
  let r := w.request
  match s.table.victims.get? r.txn with
  | some cycle => s.sacrifice r cycle
  | none =>
    let expiry := r.deadlines.expired? sight.now
    let inTime := match expiry with
      | some (.txn _) => false
      | _ => true
    if inTime && (s.table.lock r.resource).grantable r.txn r.mode then
      { state := { s with table := s.table.grant r.txn r.resource r.mode }
        fate := .returns (.ok (if queued then .afterWait (sight.now - w.since) else .granted))
        notify := queued }
    else
      match s.failure? sight r expiry with
      | some (counters, e) => s.giveUp r queued counters e
      | none => (if queued then s else s.queueUp r).stay w

/-- The first look of a request. A request for what its owner holds already needs no lock. -/
def arrive (sight : Monitor.Sight) (r : LockRequest) (s : LockState) : RequestLook :=
  let s := { s with counters.requests := s.counters.requests + 1 }
  if ((s.table.lock r.resource).holders.get? r.txn).any (·.covers r.mode) then
    ⟨s, .returns (.ok .alreadyHeld), false⟩
  else s.attempt false sight ⟨r, sight.now⟩

/-- How requests enter and look again. -/
def discipline : Monitor.Discipline LockState LockRequest Waiting Outcome where
  arrive := fun sight r s => s.arrive sight r
  again := fun sight w s => s.attempt true sight w

/-! ## Actions -/

/-- Releases one lock; the requests asleep are woken if it was held. -/
def release (txn : TxnId) (res : Resource) (s : LockState) : Monitor.Change LockState Bool :=
  let (table, held) := s.table.release txn res
  ⟨{ s with table }, held, held⟩

/-- Releases every lock of an owner and wakes the requests asleep. -/
def releaseAll (txn : TxnId) (s : LockState) : Monitor.Change LockState Nat :=
  let (table, count) := s.table.releaseAll txn
  ⟨{ s with table }, count, true⟩

/-- The locks as debugging output shows them. -/
def describe (s : LockState) : String :=
  let figures := s.counters.figures.map fun f => f.1 ++ ": " ++ toString f.2
  "LockManager \x7b deadlock_detection: " ++ toString s.detection ++ ", stats: LockStats \x7b " ++
    ", ".intercalate figures ++ " \x7d, .. \x7d"

end LockState

/-- The lock manager: lock state, with the requests asleep on it. -/
abbrev LockManager := Monitor LockState Waiting

end WalStore

import WalStore.Environment.Op
import WalStore.Recovery
import WalStore.Transaction

/-!
# Environments

An environment keeps the log, the state that replaying the log gives, and the locks of the
transactions that are under way. Every change is logged first and then applied, so the state is
always that of the log.

**Opening.** Opening replays the log and aborts, in ascending order, the transactions it leaves
unresolved. A damaged log is refused and left as it is.
-/

namespace WalStore

namespace Environment

/-- What an environment has done, and what it found when it was opened. -/
structure Counters where
  begun : Nat
  committed : Nat
  aborted : Nat
  /-- Records logged since the environment was opened. -/
  logged : Nat
  /-- Records replayed at opening. -/
  replayed : Nat
  unknownResolutions : Nat
  /-- Transactions aborted at opening. -/
  recoveredAborts : Nat
  deriving DecidableEq, Inhabited

def Counters.zero : Counters := ⟨0, 0, 0, 0, 0, 0, 0⟩

end Environment

/-- An environment: the log it works on, the state that the records of the log amount to, and what
is going on in it. -/
structure Environment where
  config : Config
  log : Log
  state : Replay.State
  isOpen : Bool
  nextTxn : TxnId
  locks : LockManager
  tracker : Latency.Tracker
  counters : Environment.Counters
  /-- The transactions begun since the environment was opened. -/
  txns : SortedMap TxnId Transaction
  /-- The calls in progress, by number. -/
  calls : SortedMap Nat Environment.Call
  now : Instant

namespace Environment

/-! ## Opening -/

/-- Logs and applies an abort for each of the transactions. -/
def abortEach (log : Log) (state : Replay.State) :
    List TxnId → Except (Error × Store) (Log × Replay.State)
  | [] => .ok (log, state)
  | txn :: rest =>
    match log.append (.abort txn) with
    | (log, .error e) => .error (e, log.store)
    | (log, .ok lsn) =>
      match state.apply ⟨lsn, .abort txn⟩ with
      | .error e => .error (e, log.store)
      | .ok state => abortEach log state rest

/-- Makes the aborts durable, if there were any. -/
def syncAborts (log : Log) (unresolved : List TxnId) : Except (Error × Store) Log :=
  if unresolved.isEmpty then .ok log
  else
    match log.sync with
    | (log, .ok ()) => .ok log
    | (log, .error e) => .error (e, log.store)

/-- Opens an environment over a store. A failure hands the store back. -/
def openOn (config : Config) (store : Store) (now : Instant) :
    Except (Error × Store) Environment := do
  config.validate.mapError (·, store)
  let log ← Log.openOn store
  let recovery ← (log.recover none).mapError (·, log.store)
  let (log, state) ← abortEach log recovery.state recovery.unresolved
  let log ← syncAborts log recovery.unresolved
  return {
    config, log, state
    isOpen := true
    nextTxn := recovery.nextTxn
    locks := .ofState (LockState.fresh config.deadlockDetection)
    tracker := .fresh config.tracker
    counters := { Counters.zero with
      replayed := recovery.counters.records
      unknownResolutions := recovery.counters.unknownResolutions
      recoveredAborts := recovery.unresolved.length }
    txns := ∅
    calls := ∅
    now }

/-! ## Views -/

/-- What is committed. -/
def live (env : Environment) : LiveSet := env.state.live

/-- The transaction with an id. One that was never begun is not active. -/
def txn (env : Environment) (id : TxnId) : Transaction := env.txns.getD id (.unknown id)

/-- The locks, apart from the calls that sleep on them. -/
def lockState (env : Environment) : LockState := env.locks.shared

/-- The counters of the environment and of its locks, under the names they are told by. -/
def figures (env : Environment) : List (String × Nat) :=
  let c := env.counters
  let l := env.lockState.counters
  [("transactions_begun", c.begun), ("transactions_committed", c.committed),
    ("transactions_aborted", c.aborted), ("records_logged", c.logged),
    ("records_replayed", c.replayed), ("unknown_resolutions", c.unknownResolutions),
    ("recovered_aborts", c.recoveredAborts), ("lock_requests", l.requests),
    ("lock_waits", l.waits), ("lock_timeouts", l.lockTimeouts), ("txn_timeouts", l.txnTimeouts),
    ("deadlocks", l.deadlocks), ("interrupts", l.interrupted)]

/-- The environment as debugging output shows it. -/
def describe (env : Environment) : String :=
  "Environment \x7b config: " ++ env.config.describe ++ ", log: " ++ env.log.describe ++
    ", is_open: " ++ toString env.isOpen ++ ", .. \x7d"

/-- What a transaction reads under a key: its own writes over what is committed. -/
def valuesFor (env : Environment) (txn : TxnId) (key : Bytes) : List Bytes :=
  let committed := env.live.values key
  match env.state.pending.get? txn with
  | some work => work.view key committed
  | none => committed

/-! ## Small changes -/

/-- Refuses what a closed environment no longer does. -/
def checkOpen (env : Environment) : Except Error Unit :=
  if env.isOpen then .ok () else .error (.invalidOperation .closed)

/-- Takes the next id. Writes outside transactions take one too, for their lock. -/
def takeId (env : Environment) : Environment × TxnId :=
  ({ env with nextTxn := env.nextTxn.next }, env.nextTxn)

/-- Changes a transaction, if there is one with this id. -/
def modifyTxn (env : Environment) (id : TxnId) (f : Transaction → Transaction) : Environment :=
  match env.txns.get? id with
  | some t => { env with txns := env.txns.insert id (f t) }
  | none => env

/-- An operation begins to be timed. -/
def startTimer (env : Environment) (kind : OpKind) : Environment × Latency.Ticket :=
  let (tracker, ticket) := env.tracker.start env.now kind
  ({ env with tracker }, ticket)

/-- An operation that has been timed from its start is over. -/
def stopTimer (env : Environment) : Option Latency.Ticket → Environment
  | none => env
  | some ticket => { env with tracker := (env.tracker.finish env.now ticket).1 }

/-- Logs an entry and applies it. -/
def append (env : Environment) (entry : Entry) : Environment × Except Error Lsn :=
  match env.log.append entry with
  | (log, .error e) => ({ env with log }, .error e)
  | (log, .ok lsn) =>
    match env.state.apply ⟨lsn, entry⟩ with
    | .error e => ({ env with log }, .error e)
    | .ok state =>
      ({ env with log, state, counters.logged := env.counters.logged + 1 }, .ok lsn)

/-- Releases every lock of an owner. -/
def releaseAll (env : Environment) (owner : TxnId) : Environment :=
  { env with locks := (env.locks.act (LockState.releaseAll owner)).1 }

/-- Counts a transaction that is resolved. -/
def countResolved (env : Environment) : TxnState → Environment
  | .active => env
  | .committed => { env with counters.committed := env.counters.committed + 1 }
  | .aborted => { env with counters.aborted := env.counters.aborted + 1 }

/-! ## What never waits -/

/-- Begins a transaction, which gets the tighter of the timeouts on either side. Settings that are
not allowed use up no id. -/
def begin (env : Environment) (config : TxnConfig) : Environment × Except Error TxnId :=
  match env.checkOpen, config.validate with
  | .error e, _ | _, .error e => (env, .error e)
  | .ok (), .ok () =>
    let timeouts := (Timeouts.outermost env.config.lockTimeout env.config.txnTimeout).narrowed
      config.lockTimeout config.txnTimeout
    let (env, id) := env.takeId
    let t := Transaction.fresh id config.isolation env.now timeouts
    ({ env with
        txns := env.txns.insert id t
        counters.begun := env.counters.begun + 1 }, .ok id)

/-- Lets go of a transaction. One that is active is forgotten: nothing is logged, and the next
environment opened over the log aborts it. -/
def drop (env : Environment) (id : TxnId) : Environment :=
  if (env.txn id).isActive then
    let env := env.modifyTxn id ({ · with state := .aborted })
    let env := { env with state := env.state.discard id }
    (env.releaseAll id).countResolved .aborted
  else env

/-- Closes the environment, if it is open and its log can be made durable. -/
def close (env : Environment) : Environment × Except Error Unit :=
  if env.isOpen then
    match env.log.sync with
    | (log, .ok ()) => ({ env with log, isOpen := false }, .ok ())
    | (log, .error e) => ({ env with log }, .error e)
  else (env, .ok ())

/-- Cancels the token of a transaction. -/
def cancel (env : Environment) (id : TxnId) : Environment :=
  { env with locks := env.locks.cancel (Transaction.tokenOf id) }

end Environment
end WalStore

import WalStore.Replay
import WalStore.Log

/-!
# Recovery

What a log says about where to go on: the replayed state, the transactions to abort, and the
first id and position not in use. The records are all read before the first is replayed, so a
log that cannot be read up to the target recovers nothing.
-/

namespace WalStore

/-- What recovering a log gives. -/
structure Recovery where
  state : Replay.State
  deriving DecidableEq

namespace Recovery

/-- What the replay has counted. -/
def counters (r : Recovery) : Replay.Counters := r.state.counters

/-- Transactions with work in the log and no resolution, ascending. -/
def unresolved (r : Recovery) : List TxnId := r.state.unresolved

/-- The first id that no record names or is smaller than. -/
def nextTxn (r : Recovery) : TxnId :=
  match r.state.maxTxn with
  | some txn => txn.next
  | none => .ofNat 1

/-- The position behind the last record. -/
def nextLsn (r : Recovery) : Lsn := r.state.lastLsn.next

/-- Recovers from records that have been read. -/
def ofRecords (records : List Record) : Except Error Recovery :=
  (Replay.state records).map fun state => ⟨state⟩

end Recovery

/-- Recovers from the records up to a position, or from all of them. -/
def Log.recover (log : Log) (target : Option Lsn) : Except Error Recovery := do
  Recovery.ofRecords (← log.readUpTo target)

end WalStore

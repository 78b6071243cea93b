import WalStore.Store
import WalStore.Log.Scan

/-!
# The log manager

The log manager owns a store and hands out positions. Opening it scans the store, refuses a
damaged one and cuts off a torn tail, so that later records start on a frame boundary.

**Failed appends.** A failed append is cut back off the store, so no partial frame is ever left
in front of a later record. If that cut fails too, the manager refuses all further appends until
it is opened again, when the partial frame is a torn tail like any other.
-/

namespace WalStore

/-- A log on a store, and where it goes on. -/
structure Log where
  store : Store
  /-- The position of the next record. -/
  nextLsn : Lsn
  /-- Whether a partial frame is left behind that could not be cut off. -/
  poisoned : Bool
  deriving DecidableEq

namespace Log

/-- What the store holds as a log. -/
def scan (log : Log) : Scan := .ofBytes log.store.toList

/-- Opens a log over a store. A failure hands the store back. -/
def openOn (store : Store) : Except (Error × Store) Log :=
  let scan := Scan.ofBytes store.toList
  match scan.ending with
  | .damaged e => .error (e, store)
  | .clean => .ok ⟨store, scan.lastLsn.next, false⟩
  | .torn =>
    match store.truncate scan.validEnd with
    | (store, .ok ()) => .ok ⟨store, scan.lastLsn.next, false⟩
    | (store, .error e) => .error (.storage e, store)

/-- Appends an entry and answers its position. -/
def append (log : Log) (entry : Entry) : Log × Except Error Lsn :=
  if log.poisoned then (log, .error (.invalidOperation .partialRecord))
  else
    match Frame.ofRecord ⟨log.nextLsn, entry⟩ with
    | .error e => (log, .error e)
    | .ok frame =>
      let ⟨store, lsn, poisoned⟩ := log
      let prior := store.size
      match store.append frame with
      | (store, .ok _) => (⟨store, lsn.next, poisoned⟩, .ok lsn)
      | (store, .error e) =>
        match store.truncate prior with
        | (store, .ok ()) => (⟨store, lsn, poisoned⟩, .error (.storage e))
        | (store, .error _) => (⟨store, lsn, true⟩, .error (.storage e))

def flush (log : Log) : Log × Except Error Unit :=
  let (store, result) := log.store.flush
  ({ log with store }, result.mapError .storage)

/-- Makes what has been appended durable. -/
def sync (log : Log) : Log × Except Error Unit :=
  let (store, result) := log.store.sync
  ({ log with store }, result.mapError .storage)

/-- The records up to a position, or all of them. -/
def readUpTo (log : Log) (target : Option Lsn) : Except Error (List Record) := log.scan.read target

/-- The position of the last record, or zero. -/
def lastLsn (log : Log) : Lsn := log.nextLsn.prev

/-- The number of bytes. -/
def size (log : Log) : Nat := log.store.size

/-- Drops every record after `target`; positions go on behind the last record that stays. -/
def truncateAfter (log : Log) (target : Lsn) : Log × Except Error Unit :=
  match log.scan.cutAfter target with
  | .error e => (log, .error e)
  | .ok ⟨none, kept⟩ => ({ log with nextLsn := kept.next }, .ok ())
  | .ok ⟨some offset, kept⟩ =>
    match log.store.truncate offset with
    | (store, .ok ()) => ({ log with store, nextLsn := kept.next }, .ok ())
    | (store, .error e) => ({ log with store }, .error (.storage e))

/-- How a log manager describes itself. -/
def describe (log : Log) : String :=
  "LogManager \x7b next_lsn: Lsn(" ++ toString log.nextLsn.toNat ++ "), .. \x7d"

end Log
end WalStore

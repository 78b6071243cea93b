import WalStore.Record
import WalStore.SortedMap

/-!
# Workloads

A workload is a log of several transactions together with how each of them ends. It can be
altered: a transaction that commits can be made to abort, to stay open, or to have never been.
The records that are left are numbered anew.
-/

namespace WalStore

/-- How a transaction ends. -/
inductive Resolution where
  | commit
  | abort
  /-- The log ends with the transaction open. -/
  | unresolved
  deriving DecidableEq

/-- Records, and what is known about how they came about. -/
structure Workload where
  records : List Record
  /-- How each transaction that did work ends. -/
  resolutions : SortedMap TxnId Resolution
  deriving DecidableEq

namespace Workload

/-- The transactions that end in the given way, ascending. -/
def endingIn (w : Workload) (resolution : Resolution) : List TxnId :=
  (w.resolutions.entries.filter (·.2 = resolution)).map (·.1)

/-! ## Altering -/

/-- A commit of the transaction becomes an abort. -/
def turnCommit (txn : TxnId) (e : Entry) : Option Entry :=
  if e = .commit txn then some (.abort txn) else some e

/-- Commits and aborts of the transaction are left out. -/
def dropResolution (txn : TxnId) (e : Entry) : Option Entry :=
  if e = .commit txn ∨ e = .abort txn then none else some e

/-- Everything of the transaction is left out. -/
def dropTxn (txn : TxnId) (e : Entry) : Option Entry := if e.txn? = some txn then none else some e

/-- Alters each entry, or leaves it out, and numbers the rest. -/
def alter (w : Workload) (f : Entry → Option Entry) : List Record :=
  Record.number (w.records.filterMap fun r => f r.entry)

/-- Has a transaction abort where it commits. -/
def commitAsAbort (w : Workload) (txn : TxnId) : List Record := w.alter (turnCommit txn)

/-- Leaves a transaction open that is resolved. -/
def withoutResolution (w : Workload) (txn : TxnId) : List Record := w.alter (dropResolution txn)

/-- Leaves out all that a transaction did. -/
def withoutTxn (w : Workload) (txn : TxnId) : List Record := w.alter (dropTxn txn)

end Workload
end WalStore

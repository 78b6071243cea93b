import WalStore.Latency
import WalStore.Lock.Manager

/-!
# Operations

What can be asked of an environment that may have to wait, what it answers, and how far a call
has got. A call is admitted, takes one lock, works under it - reads, or logs and applies a record -
and releases locks; each of these is one step that other calls may come between. A resolution takes
no lock and works once it is admitted.
-/

namespace WalStore.Environment

/-- What can be asked. -/
inductive Op where
  | put (txn : TxnId) (key value : Bytes)
  | delete (txn : TxnId) (key : Bytes) (value : Option Bytes)
  | get (txn : TxnId) (key : Bytes)
  | lock (txn : TxnId) (key : Bytes) (mode : Mode) (timeout : Option Duration)
  | commit (txn : TxnId)
  | abort (txn : TxnId)
  /-- A write outside any transaction. -/
  | putNow (key value : Bytes)
  | deleteNow (key : Bytes) (value : Option Bytes)
  deriving DecidableEq

namespace Op

/-- The transaction an operation belongs to. -/
def txn? : Op → Option TxnId
  | put t .. | delete t .. | get t _ | lock t .. | commit t | abort t => some t
  | putNow .. | deleteNow .. => none

/-- The key it works on. -/
def key : Op → Bytes
  | put _ k _ | delete _ k _ | get _ k | lock _ k .. | putNow k _ | deleteNow k _ => k
  | commit _ | abort _ => []

/-- The mode in which it locks its key. -/
def mode : Op → Mode
  | get .. => .read
  | lock _ _ m _ => m
  | _ => .write

/-- The timeout it brings for its lock. -/
def timeout : Op → Option Duration
  | lock _ _ _ t => t
  | _ => none

/-- What it is timed as from its start. A commit and an abort are timed from where they have
been found possible, and an explicit lock is not timed but for its wait. -/
def timedAs? : Op → Option OpKind
  | put .. | putNow .. => some .put
  | delete .. | deleteNow .. => some .delete
  | get .. => some .get
  | lock .. | commit _ | abort _ => none

/-- The record it logs under its lock. -/
def entry? : Op → Option Entry
  | put t k v => some (.txnPut t k v)
  | delete t k v => some (.txnDelete t k v)
  | putNow k v => some (.put k v)
  | deleteNow k v => some (.delete k v)
  | get .. | lock .. | commit _ | abort _ => none

end Op

/-- What is answered when all went well. -/
inductive Answer where
  | done
  /-- The position of the record logged. -/
  | logged (lsn : Lsn)
  /-- The position of the commit record, if one was needed. -/
  | committed (lsn : Option Lsn)
  | values (vs : List Bytes)
  | grant (g : Grant)
  deriving DecidableEq

/-- How far a call has got. -/
inductive Stage where
  | entered
  /-- It has passed its checks. A commit that has to abort instead brings the cause with it. -/
  | admitted (cause : Option Error)
  /-- Its request is asleep in the lock manager. -/
  | waiting (owner : TxnId) (timer : Latency.Ticket)
  /-- It has its lock. -/
  | granted (owner : TxnId) (grant : Grant)
  /-- It has its result, and locks to release. -/
  | releasing (owner : TxnId) (result : Except Error Answer)

/-- A call that has not returned. -/
structure Call where
  op : Op
  timer : Option Latency.Ticket
  stage : Stage

end WalStore.Environment

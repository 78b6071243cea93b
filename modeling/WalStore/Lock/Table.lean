import WalStore.Lock.Mode
import WalStore.Lock.WaitGraph

/-!
# The lock table

Who holds what, and who is queued for what. A resource has an entry as long as it has a holder
or a queued request.

**Turns.** A request can be granted when no other holder conflicts with it and nothing queued in
front of it does. A holder that asks for more goes to the front of the queue and waits for
nobody but the other holders.
-/

namespace WalStore

/-- A request in the queue of a resource. -/
structure Queued where
  txn : TxnId
  mode : Mode
  deriving DecidableEq

/-- The locks on one resource. -/
structure ResourceLock where
  holders : SortedMap TxnId Mode
  queue : List Queued
  deriving DecidableEq

namespace ResourceLock

def empty : ResourceLock := ⟨∅, []⟩

instance : Inhabited ResourceLock := ⟨empty⟩

/-- Whether nobody holds the lock or waits for it. -/
def isIdle (l : ResourceLock) : Bool := l.holders.isEmpty && l.queue.isEmpty

/-- Whether an owner holds the lock, in either mode. -/
def isHolder (l : ResourceLock) (txn : TxnId) : Bool := l.holders.contains txn

/-- The other holders that `mode` conflicts with. -/
def conflictingHolders (l : ResourceLock) (txn : TxnId) (mode : Mode) : List TxnId :=
  (l.holders.entries.filter fun h => h.1 ≠ txn && !h.2.compatible mode).map (·.1)

/-- The requests queued in front of the first of `txn`, or all of them. -/
def ahead (l : ResourceLock) (txn : TxnId) : List Queued := l.queue.takeWhile (·.txn ≠ txn)

/-- The requests queued ahead that `mode` conflicts with. -/
def conflictingAhead (l : ResourceLock) (txn : TxnId) (mode : Mode) : List TxnId :=
  ((l.ahead txn).filter fun q => !q.mode.compatible mode).map (·.txn)

/-- Whom a request is blocked behind. -/
def blockers (l : ResourceLock) (txn : TxnId) (mode : Mode) : SortedSet TxnId :=
  .ofList (l.conflictingHolders txn mode ++ l.conflictingAhead txn mode)

/-- Whether a request is to be granted now. -/
def grantable (l : ResourceLock) (txn : TxnId) (mode : Mode) : Bool :=
  (l.conflictingHolders txn mode).isEmpty &&
    (l.isHolder txn || (l.conflictingAhead txn mode).isEmpty)

/-- Puts a request into the queue, that of a holder in front. -/
def enqueue (l : ResourceLock) (txn : TxnId) (mode : Mode) : ResourceLock :=
  if l.isHolder txn then { l with queue := ⟨txn, mode⟩ :: l.queue }
  else { l with queue := l.queue ++ [⟨txn, mode⟩] }

/-- Takes the requests of an owner out of the queue. -/
def dequeue (l : ResourceLock) (txn : TxnId) : ResourceLock :=
  { l with queue := l.queue.filter (·.txn ≠ txn) }

/-- Makes `txn` a holder of `mode` and of what it held before. -/
def hold (l : ResourceLock) (txn : TxnId) (mode : Mode) : ResourceLock :=
  { l with holders := l.holders.insert txn (mode.join (l.holders.getD txn mode)) }

/-- Takes the lock away from an owner. -/
def unhold (l : ResourceLock) (txn : TxnId) : ResourceLock :=
  { l with holders := l.holders.erase txn }

end ResourceLock

/-- The locks in use, and what is kept about owners. -/
structure LockTable where
  resources : SortedMap Resource ResourceLock
  /-- What each owner holds. Owners of nothing are not kept. -/
  held : SortedMap TxnId (SortedSet Resource)
  graph : WaitGraph
  /-- The owners picked to break a deadlock that have not been told, each with its cycle. -/
  victims : SortedMap TxnId (List TxnId)
  deriving DecidableEq

namespace LockTable

def empty : LockTable := ⟨∅, ∅, ∅, ∅⟩

instance : Inhabited LockTable := ⟨empty⟩

/-! ## Views -/

/-- The lock of a resource. One that is not in use is idle. -/
def lock (t : LockTable) (res : Resource) : ResourceLock := t.resources.getD res .empty

/-- The resources that an owner holds. -/
def heldBy (t : LockTable) (txn : TxnId) : SortedSet Resource := t.held.getD txn ∅

/-- The owners that hold a resource, each with its mode. -/
def holders (t : LockTable) (res : Resource) : List (TxnId × Mode) := (t.lock res).holders.entries

/-- How many requests are queued for a resource. -/
def waiting (t : LockTable) (res : Resource) : Nat := (t.lock res).queue.length

/-! ## Changes -/

/-- Keeps the entry of a resource, unless it is idle. -/
def setLock (t : LockTable) (res : Resource) (l : ResourceLock) : LockTable :=
  if l.isIdle then { t with resources := t.resources.erase res }
  else { t with resources := t.resources.insert res l }

/-- Keeps what an owner holds, unless that is nothing. -/
def setHeld (t : LockTable) (txn : TxnId) (resources : SortedSet Resource) : LockTable :=
  if resources.isEmpty then { t with held := t.held.erase txn }
  else { t with held := t.held.insert txn resources }

/-- Grants a request: its owner holds the mode and waits no longer. -/
def grant (t : LockTable) (txn : TxnId) (res : Resource) (mode : Mode) : LockTable :=
  let t := t.setLock res (((t.lock res).dequeue txn).hold txn mode)
  let t := t.setHeld txn ((t.heldBy txn).insert res)
  { t with graph := t.graph.clearWaits txn }

/-- Takes a request that failed out of the table; locks its owner holds stay. -/
def abandon (t : LockTable) (txn : TxnId) (res : Resource) : LockTable :=
  let t := t.setLock res ((t.lock res).dequeue txn)
  { t with graph := t.graph.clearWaits txn, victims := t.victims.erase txn }

/-- A request joins the queue of its resource. -/
def enqueue (t : LockTable) (txn : TxnId) (res : Resource) (mode : Mode) : LockTable :=
  t.setLock res ((t.lock res).enqueue txn mode)

/-- Notes whom a queued request is blocked behind. -/
def noteWaits (t : LockTable) (txn : TxnId) (res : Resource) (mode : Mode) : LockTable :=
  { t with graph := t.graph.setWaits txn ((t.lock res).blockers txn mode) }

/-- Picks a victim if `txn` is on a cycle, and answers it. The victim waits no longer. -/
def breakCycle (t : LockTable) (txn : TxnId) : LockTable × Option TxnId :=
  match t.graph.cycleThrough txn with
  | none => (t, none)
  | some cycle =>
    match WaitGraph.victim? cycle with
    | none => (t, none)
    | some victim =>
      ({ t with graph := t.graph.clearWaits victim, victims := t.victims.insert victim cycle },
        some victim)

/-- Releases one lock. Answers whether it was held. -/
def release (t : LockTable) (txn : TxnId) (res : Resource) : LockTable × Bool :=
  let l := t.lock res
  let t := t.setLock res (l.unhold txn)
  (t.setHeld txn ((t.heldBy txn).erase res), l.isHolder txn)

/-- Releases every lock of an owner and forgets it. Answers how many locks it held. -/
def releaseAll (t : LockTable) (txn : TxnId) : LockTable × Nat :=
  let held := t.heldBy txn
  let t := held.toList.foldl (fun t res => t.setLock res ((t.lock res).unhold txn)) t
  ({ t with
      held := t.held.erase txn
      graph := t.graph.remove txn
      victims := t.victims.erase txn }, held.size)

end LockTable
end WalStore

import WalStore.Duration

/-!
# Timeouts and deadlines

A lock timeout bounds one wait, a transaction timeout bounds a transaction's life. Both are set
in layers - environment, transaction, request - and an inner layer can shorten what it inherits
but not lengthen it. No timeout and a timeout of zero both leave a layer unbounded, and so does
a deadline that cannot be represented.

A wait races against both deadlines. Of two that have passed the earlier one counts, and of two
at the same instant the transaction's.
-/

namespace WalStore

/-! ## Layers -/

namespace Timeout

/-- A timeout of zero is none. -/
def bounded (t : Option Duration) : Option Duration := t.filter (· ≠ 0)

/-- What `inner` leaves of `outer`. -/
def narrow (outer inner : Option Duration) : Option Duration :=
  match bounded outer, bounded inner with
  | some o, some i => some (min o i)
  | o, none => o
  | none, i => i

end Timeout

/-- The timeouts of a layer and of all layers around it. -/
structure Timeouts where
  lock : Option Duration
  txn : Option Duration
  deriving DecidableEq, Inhabited

namespace Timeouts

/-- The outermost layer. -/
def outermost (lock txn : Option Duration) : Timeouts := ⟨Timeout.bounded lock, Timeout.bounded txn⟩

/-- The layer inside `t` that sets `lock` and `txn`. -/
def narrowed (t : Timeouts) (lock txn : Option Duration) : Timeouts :=
  ⟨Timeout.narrow t.lock lock, Timeout.narrow t.txn txn⟩

/-- The lock timeout of one request inside `t`. -/
def ofRequest (t : Timeouts) (request : Option Duration) : Option Duration :=
  Timeout.narrow t.lock request

end Timeouts

/-! ## Deadlines -/

/-- An instant, and the timeout that led to it. -/
structure Deadline where
  due : Instant
  limit : Duration
  deriving DecidableEq, Inhabited

/-- The end of a timeout that started at `start`. -/
def Deadline.after? (start : Instant) (limit : Option Duration) : Option Deadline := do
  let limit ← Timeout.bounded limit
  let due ← Instant.after? start limit
  return ⟨due, limit⟩

/-- A deadline that has passed, with the length of its timeout. -/
inductive Expiry where
  | lock (limit : Duration)
  | txn (limit : Duration)
  deriving DecidableEq

/-- The two deadlines of a wait. -/
structure Deadlines where
  lock : Option Deadline
  txn : Option Deadline
  deriving DecidableEq, Inhabited

namespace Deadlines

def unbounded : Deadlines := ⟨none, none⟩

/-- The deadlines of a wait that starts at `waitStart` in a transaction begun at `txnStart`. -/
def starting (waitStart : Instant) (lock : Option Duration) (txnStart : Instant)
    (txn : Option Duration) : Deadlines :=
  ⟨Deadline.after? waitStart lock, Deadline.after? txnStart txn⟩

/-- The earlier of the two. -/
def next? (d : Deadlines) : Option Instant :=
  match d.lock, d.txn with
  | some l, some t => some (min l.due t.due)
  | some l, none => some l.due
  | none, some t => some t.due
  | none, none => none

/-- The deadline that passed first, if one has passed by `now`. -/
def expired? (d : Deadlines) (now : Instant) : Option Expiry :=
  match d.lock.filter (·.due ≤ now), d.txn.filter (·.due ≤ now) with
  | some l, some t => some (if l.due < t.due then .lock l.limit else .txn t.limit)
  | none, some t => some (.txn t.limit)
  | some l, none => some (.lock l.limit)
  | none, none => none

end Deadlines
end WalStore

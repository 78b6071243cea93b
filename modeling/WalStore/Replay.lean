import WalStore.Error
import WalStore.Pending

/-!
# Replay

Records turn into a live set one after another. A write outside a transaction changes the live
set at once; a transaction's work is kept aside until a commit applies it or an abort drops it.

A record whose position does not follow the last one is refused before anything changes, so
replaying a list one by one and as a whole differ only in what happens after a refusal.
-/

namespace WalStore

namespace Replay

/-- What a replay has met. -/
structure Counters where
  records : Nat
  /-- Writes outside transactions. -/
  directWrites : Nat
  /-- Writes of transactions. -/
  txnWrites : Nat
  committed : Nat
  aborted : Nat
  /-- Commits and aborts of transactions without work at the time. -/
  unknownResolutions : Nat
  /-- Deletes that found nothing to remove. -/
  missedDeletes : Nat
  deriving DecidableEq, Inhabited

def Counters.zero : Counters := ⟨0, 0, 0, 0, 0, 0, 0⟩

/-- The counters under the names they are told by. -/
def Counters.figures (c : Counters) : List (String × Nat) :=
  [("records", c.records), ("non_txnal_ops", c.directWrites), ("txnal_ops", c.txnWrites),
    ("committed", c.committed), ("aborted", c.aborted),
    ("unknown_resolutions", c.unknownResolutions), ("missed_deletes", c.missedDeletes)]

/-- What the records so far amount to. -/
structure State where
  live : LiveSet
  /-- The work of every transaction that is not resolved. -/
  pending : SortedMap TxnId Pending
  lastLsn : Lsn
  /-- The largest id in any record. -/
  maxTxn : Option TxnId
  counters : Counters
  deriving DecidableEq

namespace State

def empty : State := ⟨∅, ∅, .zero, none, .zero⟩

instance : Inhabited State := ⟨empty⟩

/-- The transactions with work and no resolution, ascending. -/
def unresolved (s : State) : List TxnId := s.pending.keys

/-- The work of a transaction, empty if there is none. -/
def workOf (s : State) (txn : TxnId) : Pending := s.pending.getD txn ∅

/-- Forgets the work of a transaction. -/
def discard (s : State) (txn : TxnId) : State := { s with pending := s.pending.erase txn }

/-- One more commit or abort without work to resolve. -/
def countUnknown (s : State) : State :=
  { s with counters.unknownResolutions := s.counters.unknownResolutions + 1 }

/-- What an entry does, apart from where it stands. -/
def perform (s : State) : Entry → State
  | .put key value =>
    { s with
      live := s.live.insert key value
      counters.directWrites := s.counters.directWrites + 1 }
  | .delete key value =>
    let (live, found) := s.live.remove key value
    { s with
      live
      counters.directWrites := s.counters.directWrites + 1
      counters.missedDeletes := s.counters.missedDeletes + if found then 0 else 1 }
  | .txnPut txn key value =>
    { s with
      pending := s.pending.insert txn ((s.workOf txn).insert key value)
      counters.txnWrites := s.counters.txnWrites + 1 }
  | .txnDelete txn key value =>
    { s with
      pending := s.pending.insert txn ((s.workOf txn).delete key value)
      counters.txnWrites := s.counters.txnWrites + 1 }
  | .commit txn =>
    let s := { s with counters.committed := s.counters.committed + 1 }
    match s.pending.get? txn with
    | none => s.countUnknown
    | some work =>
      let applied := work.commitInto s.live
      { s.discard txn with
        live := applied.live
        counters.missedDeletes := s.counters.missedDeletes + applied.missed }
  | .abort txn =>
    let s := { s with counters.aborted := s.counters.aborted + 1 }
    match s.pending.get? txn with
    | none => s.countUnknown
    | some _ => s.discard txn

/-- The larger of the largest id so far and a record's. -/
def seenTxn (s : State) (txn? : Option TxnId) : Option TxnId :=
  match s.maxTxn, txn? with
  | some a, some b => some (max a b)
  | a, none => a
  | none, b => b

/-- Replays one record, which has to follow the last one. -/
def apply (s : State) (r : Record) : Except Error State :=
  if r.lsn ≤ s.lastLsn then .error (.corruption (.replayedAfter r.lsn s.lastLsn))
  else
    .ok { s.perform r.entry with
      lastLsn := r.lsn
      maxTxn := s.seenTxn r.entry.txn?
      counters.records := s.counters.records + 1 }

/-- Replays records one by one; a refused record is passed over. -/
def stream (s : State) (records : List Record) : State :=
  records.foldl (fun s r => (s.apply r).toOption.getD s) s

end State

/-- Replays records from nothing, up to the first refusal. -/
def state (records : List Record) : Except Error State :=
  records.foldlM State.apply .empty

/-- The live set after all of `records`. -/
def live (records : List Record) : Except Error LiveSet := (state records).map (·.live)

end Replay
end WalStore

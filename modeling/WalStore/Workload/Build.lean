import WalStore.Workload

/-!
# Building workloads

A workload is built from writes, each outside any transaction or in one of four, and from how
these four end. The record that ends a transaction is put somewhere behind the transaction's
last write. A transaction that writes nothing has no end.
-/

namespace WalStore

namespace Workload

/-- What an operation does. -/
inductive Write where
  | put (key value : Bytes)
  | delete (key : Bytes) (value : Option Bytes)
  deriving DecidableEq

/-- A write, outside any transaction or in one. -/
structure Operation where
  slot : Option TxnId
  write : Write
  deriving DecidableEq

/-- What is logged for an operation. -/
def Operation.entry : Operation → Entry
  | ⟨none, .put key value⟩ => .put key value
  | ⟨none, .delete key value⟩ => .delete key value
  | ⟨some txn, .put key value⟩ => .txnPut txn key value
  | ⟨some txn, .delete key value⟩ => .txnDelete txn key value

/-- How a transaction ends, and how far behind its last write. -/
structure Ending where
  resolution : Resolution
  position : Nat
  deriving DecidableEq

/-- The record that ends a transaction. -/
def Ending.entry? (e : Ending) (txn : TxnId) : Option Entry :=
  match e.resolution with
  | .commit => some (.commit txn)
  | .abort => some (.abort txn)
  | .unresolved => none

/-- How many transactions a workload has at most. -/
def maxTxns : Nat := 4

/-- The transactions of a workload. -/
def txns : List TxnId := (List.range maxTxns).map fun i => .ofNat (i + 1)

/-! ## Placing the ends -/

/-- The entries up to the last one of a transaction, and those behind it. -/
def splitLast? (txn : TxnId) : List Entry → Option (List Entry × List Entry)
  | [] => none
  | e :: rest =>
    match splitLast? txn rest with
    | some (before, behind) => some (e :: before, behind)
    | none => if e.txn? = some txn then some ([e], rest) else none

/-- Puts an entry at one of the places in, before or behind a list. -/
def place (e : Entry) (position : Nat) (l : List Entry) : List Entry :=
  l.insertIdx (position % (l.length + 1)) e

/-- Ends one transaction. -/
def resolve (w : List Entry × SortedMap TxnId Resolution) (txn : TxnId) (ending : Ending) :
    List Entry × SortedMap TxnId Resolution :=
  match splitLast? txn w.1 with
  | none => w
  | some (before, behind) =>
    let behind := match ending.entry? txn with
      | some e => place e ending.position behind
      | none => behind
    (before ++ behind, w.2.insert txn ending.resolution)

/-- The workload of the operations, whose transactions end as `endings` says, in order. -/
def build (ops : List Operation) (endings : List Ending) : Workload :=
  let (entries, resolutions) := (txns.zip endings).foldl (fun w e => resolve w e.1 e.2)
    (ops.map Operation.entry, ∅)
  ⟨Record.number entries, resolutions⟩

/-! ## Well-formed workloads -/

/-- Whether an entry ends a transaction. -/
def isResolution (e : Entry) : Bool :=
  match e with
  | .commit _ | .abort _ => true
  | _ => false

/-- How a transaction with these entries ends: once and behind all its work, or not at all.
Without work it has no end. -/
def endingOf? (own : List Entry) : Option (Option Resolution) :=
  match own.takeWhile (!isResolution ·), own.dropWhile (!isResolution ·) with
  | [], [] => some none
  | _ :: _, [] => some (some .unresolved)
  | _ :: _, [.commit _] => some (some .commit)
  | _ :: _, [.abort _] => some (some .abort)
  | _, _ => none

/-- Whether the records are numbered from one, all transactions are known and end as they
should, and there are at most `maxOps` writes. -/
def isWellFormed (w : Workload) (maxOps : Nat) : Bool :=
  let entries := w.records.map (·.entry)
  w.records = Record.number entries &&
    entries.all (fun e => e.txn?.all (txns.contains ·)) &&
    (entries.filter (!isResolution ·)).length ≤ maxOps &&
    w.resolutions.keys.all (txns.contains ·) &&
    txns.all fun t =>
      endingOf? (entries.filter (·.txn? = some t)) = some (w.resolutions.get? t)

end Workload
end WalStore

import WalStore.Draw
import WalStore.Log
import WalStore.SortedMap

/-!
# Sample logs

A log to try replay on: transactions of random puts, every tenth of which is taken back at once.
Of four transactions the last aborts.
-/

namespace WalStore.Log

def sampleKey (i : Nat) : Bytes := .ofText ("key_" ++ toString i)

/-- The entries of one put of a transaction, its `i`-th, on one of so many keys. -/
def samplePut (txn : TxnId) (keys i : Nat) : Draw (List Entry) := do
  let key := sampleKey (← Draw.below (max keys 1))
  let value ← Draw.bytes 32
  return .txnPut txn key value :: if i % 10 = 9 then [.txnDelete txn key (some value)] else []

/-- The entries of the `t`-th transaction, with so many puts. -/
def sampleTxn (puts keys t : Nat) : Draw (List Entry) := do
  let txn := TxnId.ofNat (t + 1)
  let work ← (List.range puts).mapM (samplePut txn keys)
  return work.flatten ++ [if t % 4 = 3 then .abort txn else .commit txn]

/-- Appends entries up to the first that is refused. -/
def appendAll (log : Log) : List Entry → Log × Except Error Unit
  | [] => (log, .ok ())
  | e :: rest =>
    match log.append e with
    | (log, .ok _) => log.appendAll rest
    | (log, .error e) => (log, .error e)

/-- A log of so many transactions of so many puts. -/
def sample (txns puts keys : Nat) : Draw (Except (Error × Store) Log) := do
  let entries ← (List.range txns).mapM (sampleTxn puts keys)
  return do
    match (← openOn .empty).appendAll entries.flatten with
    | (log, .ok ()) => return log
    | (log, .error e) => .error (e, log.store)

/-! ## What a log is made of -/

/-- What the records of a log have in common. -/
structure Profile where
  /-- The kinds of the records, in order. -/
  kinds : List Kind
  /-- The keys that are put. -/
  keys : SortedSet Bytes
  /-- The lengths of the values that are put. -/
  valueSizes : SortedSet Nat
  /-- The transactions. -/
  owners : SortedSet TxnId

/-- The profile that some records have. -/
def Profile.ofRecords (records : List Record) : Profile :=
  let puts := records.filterMap fun r =>
    match r.entry with
    | .put key value | .txnPut _ key value => some (key, value)
    | _ => none
  { kinds := records.map (·.entry.kind)
    keys := .ofList (puts.map (·.1))
    valueSizes := .ofList (puts.map (·.2.length))
    owners := .ofList (records.filterMap (·.entry.txn?)) }

/-- Whether all keys are among the first so many sample keys. -/
def Profile.isOnKeys (p : Profile) (keys : Nat) : Bool :=
  p.keys.toList.all (((List.range (max keys 1)).map sampleKey).contains ·)

end WalStore.Log

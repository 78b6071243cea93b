import WalStore.Replay

/-!
# Replay over a flat list

A second account of what records do, to hold replay against. The live records are one list in
the order in which they came, each transaction keeps the entries it logged, and a commit works
out from these what to add and what to remove. Nothing here goes through live sets or pending
work.

`check` compares the two accounts after every record, replaying one by one and as a whole.
-/

namespace WalStore.Replay

/-- `l` without the first element that `p` holds of. -/
def dropFirst {α : Type} (p : α → Bool) : List α → List α
  | [] => []
  | a :: rest => if p a then rest else a :: dropFirst p rest

/-- The live pairs in the order in which they came, and what is not resolved. -/
structure Flat where
  live : List (Bytes × Bytes)
  /-- The entries of the transactions that are not resolved. -/
  opened : SortedMap TxnId (List Entry)

namespace Flat

def empty : Flat := ⟨[], ∅⟩

instance : Inhabited Flat := ⟨empty⟩

/-- Whether a delete of `key` and `value` means this pair. -/
def isMeant (key : Bytes) (value : Option Bytes) (pair : Bytes × Bytes) : Bool :=
  pair.1 = key && value.all (pair.2 = ·)

/-- Removes the first pair that a delete means, if there is one. -/
def removeFirst (live : List (Bytes × Bytes)) (key : Bytes) (value : Option Bytes) :
    List (Bytes × Bytes) :=
  dropFirst (isMeant key value) live

/-! ## The parts of a transaction's entries -/

/-- The pair that a transaction inserts. -/
def insertOf? : Entry → Option (Bytes × Bytes)
  | .txnPut _ key value => some (key, value)
  | _ => none

/-- The pair that a transaction deletes by value. -/
def exactOf? : Entry → Option (Bytes × Bytes)
  | .txnDelete _ key (some value) => some (key, value)
  | _ => none

/-- The key that a transaction deletes a value of. -/
def keyOnlyOf? : Entry → Option Bytes
  | .txnDelete _ key none => some key
  | _ => none

/-- Commits the entries `ops` of one transaction. -/
def commit (live : List (Bytes × Bytes)) (ops : List Entry) : List (Bytes × Bytes) :=
  let inserts := (SortedSet.ofList (ops.filterMap insertOf?)).toList
  let exact := (SortedSet.ofList (ops.filterMap exactOf?)).toList
  let keyOnly := (SortedSet.ofList (ops.filterMap keyOnlyOf?)).toList
  let kept := inserts.filter (· ∉ exact)
  let firsts := keyOnly.filterMap fun key => kept.find? (·.1 = key)
  let added := live ++ kept.filter (· ∉ firsts)
  let exactLeft := exact.filter (· ∉ inserts)
  let keyOnlyLeft := keyOnly.filter fun key => kept.all (·.1 ≠ key)
  let lessExact := exactLeft.foldl (fun live pair => removeFirst live pair.1 (some pair.2)) added
  keyOnlyLeft.foldl (fun live key => removeFirst live key none) lessExact

/-! ## Entries -/

/-- One entry after the others. A transaction only keeps its entries until it is resolved. -/
def apply (f : Flat) : Entry → Flat
  | .put key value => { f with live := f.live ++ [(key, value)] }
  | .delete key value => { f with live := removeFirst f.live key value }
  | .txnPut txn key value =>
    { f with opened := f.opened.insert txn (f.opened.getD txn [] ++ [.txnPut txn key value]) }
  | .txnDelete txn key value =>
    { f with opened := f.opened.insert txn (f.opened.getD txn [] ++ [.txnDelete txn key value]) }
  | .commit txn => ⟨commit f.live (f.opened.getD txn []), f.opened.erase txn⟩
  | .abort txn => { f with opened := f.opened.erase txn }

/-- The account of a list of entries. -/
def ofEntries (entries : List Entry) : Flat := entries.foldl apply empty

/-- The live pairs in key order; those of one key stay in order. -/
def pairs (f : Flat) : List (Bytes × Bytes) :=
  f.live.mergeSort fun a b => (compare a.1 b.1).isLE

/-- Whether the two accounts have the same pairs. -/
def agrees (f : Flat) (live : LiveSet) : Bool := f.pairs = live.pairs

end Flat

/-! ## Holding replay against it -/

/-- A point at which the two accounts differ. -/
structure Divergence where
  lsn : Lsn
  expected : List (Bytes × Bytes)
  actual : List (Bytes × Bytes)
  deriving DecidableEq

/-- The divergence at `lsn`, if the accounts differ there. -/
def Flat.divergence? (lsn : Lsn) (flat : Flat) (live : LiveSet) : Option Divergence :=
  if flat.agrees live then none else some ⟨lsn, flat.pairs, live.pairs⟩

/-- Checks the records `todo`, which follow `done`. -/
def checkFrom (done : List Record) (state : State) (flat : Flat) :
    List Record → Except Error (Option Divergence)
  | [] => .ok none
  | r :: todo => do
    let state ← state.apply r
    let flat := flat.apply r.entry
    match flat.divergence? r.lsn state.live with
    | some d => return some d
    | none =>
      let done := done ++ [r]
      match flat.divergence? r.lsn (← live done) with
      | some d => return some d
      | none => checkFrom done state flat todo

/-- The first prefix of the records after which the two accounts differ. -/
def check (records : List Record) : Except Error (Option Divergence) :=
  match Flat.divergence? .zero .empty ∅ with
  | some d => .ok (some d)
  | none => checkFrom [] .empty .empty records

/-- How many prefixes `check` looks at. -/
def prefixCount (records : List Record) : Nat := records.length + 1

end WalStore.Replay

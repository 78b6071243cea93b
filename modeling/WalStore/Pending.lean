import WalStore.LiveSet

/-!
# Pending work

What a transaction has written and not yet committed: a set of inserts and a set of deletes. A
delete names a value, or it takes the first value of its key.

**Commit.** Each delete first cancels an insert of the same transaction, so that an insert and a
delete of one pair leave nothing in whatever order they came. Deletes that name a value choose
before those that do not. The inserts left over are added in ascending order; then each delete
left over removes the first match among the live records.

**Reading.** `view` is what commit would leave under a key, so a transaction reads its own
writes as they would be committed.
-/

namespace WalStore

open Std

instance : Ord (Bytes × Bytes) := lexOrd

instance : TransOrd (Bytes × Bytes) := instTransOrdProd

instance : LawfulEqOrd (Bytes × Bytes) := instLawfulEqOrdProd

instance : Ord (Bytes × Option Bytes) := lexOrd

instance : TransOrd (Bytes × Option Bytes) := instTransOrdProd

instance : LawfulEqOrd (Bytes × Option Bytes) := instLawfulEqOrdProd

/-- The inserts and deletes of one transaction. Neither has an order, and one given twice counts
once. -/
structure Pending where
  inserts : SortedSet (Bytes × Bytes)
  deletes : SortedSet (Bytes × Option Bytes)
  deriving DecidableEq

namespace Pending

def empty : Pending := ⟨∅, ∅⟩

instance : EmptyCollection Pending := ⟨empty⟩

instance : Inhabited Pending := ⟨empty⟩

def isEmpty (p : Pending) : Bool := p.inserts.isEmpty && p.deletes.isEmpty

/-- One more pair to insert. -/
def insert (p : Pending) (key value : Bytes) : Pending :=
  { p with inserts := p.inserts.insert (key, value) }

/-- One more delete, of one value or of the first. -/
def delete (p : Pending) (key : Bytes) (value : Option Bytes) : Pending :=
  { p with deletes := p.deletes.insert (key, value) }

/-- The part of the work under one key. -/
def restrict (p : Pending) (key : Bytes) : Pending :=
  ⟨p.inserts.filter (·.1 = key), p.deletes.filter (·.1 = key)⟩

/-! ## Commit -/

/-- The deletes in the order in which they choose: those that name a value come first. -/
def choosing (p : Pending) : List (Bytes × Option Bytes) :=
  p.deletes.toList.filter (·.2.isSome) ++ p.deletes.toList.filter (·.2.isNone)

/-- What is left of pending work once deletes have cancelled inserts. -/
structure Net where
  inserts : SortedSet (Bytes × Bytes)
  deletes : List (Bytes × Option Bytes)

namespace Net

/-- The insert that a delete cancels. -/
def cancelled? (inserts : SortedSet (Bytes × Bytes)) :
    Bytes × Option Bytes → Option (Bytes × Bytes)
  | (key, some value) => if (key, value) ∈ inserts then some (key, value) else none
  | (key, none) => inserts.toList.find? (·.1 = key)

/-- One delete cancels an insert or is left over. -/
def settle (n : Net) (delete : Bytes × Option Bytes) : Net :=
  match cancelled? n.inserts delete with
  | some insert => { n with inserts := n.inserts.erase insert }
  | none => { n with deletes := n.deletes ++ [delete] }

end Net

/-- What a commit has to do. -/
def net (p : Pending) : Net := p.choosing.foldl Net.settle ⟨p.inserts, []⟩

/-- A live set, and how many deletes found nothing to remove. -/
structure Applied where
  live : LiveSet
  missed : Nat

/-- One delete removes its first match among the live records. -/
def Applied.delete (a : Applied) (delete : Bytes × Option Bytes) : Applied :=
  match a.live.remove delete.1 delete.2 with
  | (live, true) => { a with live }
  | (live, false) => ⟨live, a.missed + 1⟩

/-- Commits the work to `live`. -/
def commitInto (p : Pending) (live : LiveSet) : Applied :=
  let n := p.net
  let added := n.inserts.toList.foldl (fun live pair => live.insert pair.1 pair.2) live
  n.deletes.foldl Applied.delete ⟨added, 0⟩

/-- The values that `key` would hold if the work were committed over `committed`. -/
def view (p : Pending) (key : Bytes) (committed : List Bytes) : List Bytes :=
  ((p.restrict key).commitInto (.ofPairs (committed.map (key, ·)))).live.values key

end Pending
end WalStore

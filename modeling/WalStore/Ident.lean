import WalStore.Bytes

/-!
# Identifiers

Transactions, positions in the log, replicas and lockable resources. The numbers are words of
fixed width, as the log stores them; all are ordered by value.
-/

namespace WalStore

open Std

/-- Names a transaction, or a caller that locks without one. A larger id is a younger owner. -/
structure TxnId where
  val : UInt64
  deriving DecidableEq, Inhabited

namespace TxnId

instance : Ord TxnId := ⟨fun a b => compare a.val b.val⟩

instance : TransOrd TxnId := inferInstanceAs (TransCmp (compareOn TxnId.val))

instance : LawfulEqOrd TxnId where
  eq_of_compare {a b} h := by
    have h : compare a.val b.val = .eq := h
    cases a
    cases b
    exact congrArg mk (LawfulEqCmp.eq_of_compare h)

instance : LT TxnId := ⟨fun a b => a.val < b.val⟩

instance : LE TxnId := ⟨fun a b => a.val ≤ b.val⟩

instance (a b : TxnId) : Decidable (a < b) := inferInstanceAs (Decidable (a.val < b.val))

instance (a b : TxnId) : Decidable (a ≤ b) := inferInstanceAs (Decidable (a.val ≤ b.val))

def ofNat (n : Nat) : TxnId := ⟨UInt64.ofNat n⟩

def toNat (t : TxnId) : Nat := t.val.toNat

instance : Max TxnId := maxOfLe

/-- The id handed out after `t`. -/
def next (t : TxnId) : TxnId := ⟨t.val + 1⟩

/-- The id as messages show it. -/
def text (t : TxnId) : String := "txn:" ++ toString t.toNat

end TxnId

/-- A position in the log. The first record stands at 1, and 0 is before all of them. -/
structure Lsn where
  val : UInt64
  deriving DecidableEq, Inhabited

namespace Lsn

instance : LT Lsn := ⟨fun a b => a.val < b.val⟩

instance : LE Lsn := ⟨fun a b => a.val ≤ b.val⟩

instance (a b : Lsn) : Decidable (a < b) := inferInstanceAs (Decidable (a.val < b.val))

instance (a b : Lsn) : Decidable (a ≤ b) := inferInstanceAs (Decidable (a.val ≤ b.val))

/-- In front of every record. -/
def zero : Lsn := ⟨0⟩

def ofNat (n : Nat) : Lsn := ⟨UInt64.ofNat n⟩

def toNat (l : Lsn) : Nat := l.val.toNat

/-- The position behind this one. -/
def next (l : Lsn) : Lsn := ⟨l.val + 1⟩

/-- The position in front of `l`. -/
def prev (l : Lsn) : Lsn := ⟨l.val - 1⟩

/-- The position as messages show it. -/
def text (l : Lsn) : String := "lsn:" ++ toString l.toNat

end Lsn

/-- Names a replica. -/
structure ReplicaId where
  val : UInt32
  deriving DecidableEq, Inhabited

namespace ReplicaId

instance : Ord ReplicaId := ⟨fun a b => compare a.val b.val⟩

instance : TransOrd ReplicaId := inferInstanceAs (TransCmp (compareOn ReplicaId.val))

instance : LawfulEqOrd ReplicaId where
  eq_of_compare {a b} h := by
    have h : compare a.val b.val = .eq := h
    cases a
    cases b
    exact congrArg mk (LawfulEqCmp.eq_of_compare h)

def ofNat (n : Nat) : ReplicaId := ⟨UInt32.ofNat n⟩

/-- The id as messages show it. -/
def text (r : ReplicaId) : String := "replica:" ++ toString r.val.toNat

end ReplicaId

/-- Something to lock. The environment locks keys, so a resource is a byte string. -/
structure Resource where
  bytes : Bytes
  deriving DecidableEq, Inhabited

namespace Resource

instance : Ord Resource := ⟨fun a b => compare a.bytes b.bytes⟩

instance : TransOrd Resource := inferInstanceAs (TransCmp (compareOn Resource.bytes))

instance : LawfulEqOrd Resource where
  eq_of_compare {a b} h := by
    have h : compare a.bytes b.bytes = .eq := h
    cases a
    cases b
    exact congrArg mk (LawfulEqCmp.eq_of_compare h)

/-- The resource that has a text for its name. -/
def ofText (name : String) : Resource := ⟨Bytes.ofText name⟩

/-- The bytes as text where they are text, else as a list of hexadecimal numbers. -/
def text (r : Resource) : String :=
  "res:" ++ match r.bytes.toText? with
    | some s => s
    | none => "[" ++ ", ".intercalate (r.bytes.map Bytes.hexByte) ++ "]"

end Resource
end WalStore

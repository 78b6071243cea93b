import WalStore.Ident

/-!
# Log records

What the log says, record by record. A write outside any transaction takes effect at once; a
write of a transaction takes effect when that transaction commits. A delete without a value
removes the oldest value under its key.
-/

namespace WalStore

/-- What a record does. -/
inductive Entry where
  | put (key value : Bytes)
  | delete (key : Bytes) (value : Option Bytes)
  | txnPut (txn : TxnId) (key value : Bytes)
  | txnDelete (txn : TxnId) (key : Bytes) (value : Option Bytes)
  | commit (txn : TxnId)
  | abort (txn : TxnId)
  deriving DecidableEq

/-- The kind of a record, as its frame names it. -/
inductive Kind where
  | put
  | delete
  | txnPut
  | txnDelete
  | commit
  | abort
  deriving DecidableEq, Inhabited

namespace Kind

/-- The byte that stands for a kind. -/
def toByte : Kind → UInt8
  | put => 1
  | delete => 2
  | txnPut => 3
  | txnDelete => 4
  | commit => 5
  | abort => 6

/-- The kind that a byte stands for. -/
def ofByte? (b : UInt8) : Option Kind :=
  if b = 1 then some put
  else if b = 2 then some delete
  else if b = 3 then some txnPut
  else if b = 4 then some txnDelete
  else if b = 5 then some commit
  else if b = 6 then some abort
  else none

theorem ofByte?_eq_some_iff {b : UInt8} {k : Kind} : ofByte? b = some k ↔ b = k.toByte := by
  constructor
  · intro h
    simp only [ofByte?] at h
    repeat' split at h
    all_goals first | (cases h; assumption) | cases h
  · rintro rfl
    cases k <;> decide

/-- The name of the kind in messages. -/
def text : Kind → String
  | put => "NonTxnalPut"
  | delete => "NonTxnalDelete"
  | txnPut => "TxnalPut"
  | txnDelete => "TxnalDelete"
  | commit => "Commit"
  | abort => "Abort"

end Kind

namespace Entry

/-- The kind of an entry. -/
def kind : Entry → Kind
  | put .. => .put
  | delete .. => .delete
  | txnPut .. => .txnPut
  | txnDelete .. => .txnDelete
  | commit _ => .commit
  | abort _ => .abort

/-- The transaction a record belongs to. -/
def txn? : Entry → Option TxnId
  | put .. | delete .. => none
  | txnPut t .. | txnDelete t .. | commit t | abort t => some t

end Entry

/-- An entry at its place in the log. -/
structure Record where
  lsn : Lsn
  entry : Entry
  deriving DecidableEq

/-- The entries as records 1, 2, .... -/
def Record.number (entries : List Entry) : List Record :=
  entries.zipIdx.map fun e => ⟨.ofNat (e.2 + 1), e.1⟩

end WalStore

import WalStore.Error

/-!
# Payloads

The part of a record that depends on its kind. Ids are eight little-endian bytes; a byte string
is its length in four little-endian bytes and then itself; an optional one has a flag byte in
front, 1 if it is there and 0 if not.

Reading is exact: a payload that ends early, has another flag or goes on behind its last field
is refused.
-/

namespace WalStore.Payload

/-! ## Writing -/

/-- Byte strings of this length or more have no encoding. -/
def limit : Nat := UInt32.size

/-- An id, in a fixed number of bytes. -/
def ofId (t : TxnId) : Bytes := .ofNatLE 8 t.toNat

/-- A byte string behind its length. One whose length does not fit has no encoding. -/
def ofField (bs : Bytes) : Except Error Bytes :=
  if bs.length < limit then .ok (.ofNatLE 4 bs.length ++ bs)
  else .error (.invalidOperation .fieldTooLong)

/-- A byte string or none, behind the flag that tells which. -/
def ofOptional : Option Bytes → Except Error Bytes
  | none => .ok [0]
  | some bs => do return 1 :: (← ofField bs)

/-- The payload of an entry. -/
def ofEntry : Entry → Except Error Bytes
  | .put key value => do
    let k ← ofField key
    let v ← ofField value
    return k ++ v
  | .delete key value => do
    let k ← ofField key
    let v ← ofOptional value
    return k ++ v
  | .txnPut txn key value => do
    let k ← ofField key
    let v ← ofField value
    return ofId txn ++ k ++ v
  | .txnDelete txn key value => do
    let k ← ofField key
    let v ← ofOptional value
    return ofId txn ++ k ++ v
  | .commit txn | .abort txn => .ok (ofId txn)

/-! ## Reading

A reader takes what it needs off the front and hands on the rest. -/

/-- Reads a value off the front and hands on the bytes behind it. -/
abbrev Reader (α : Type) := Bytes → Except PayloadFault (α × Bytes)

/-- So many bytes. All of them have to be there. -/
def take (n : Nat) : Reader Bytes := fun bs =>
  let taken := bs.take n
  if taken.length = n then .ok (taken, bs.drop n) else .error .endsEarly

/-- An id, whatever its bytes are. -/
def id? : Reader TxnId := fun bs => do
  let (raw, rest) ← take 8 bs
  return (.ofNat raw.toNatLE, rest)

/-- A byte string of the length in front of it. -/
def field : Reader Bytes := fun bs => do
  let (raw, rest) ← take 4 bs
  take raw.toNatLE rest

/-- A byte string or none; no flag but the two is allowed. -/
def optional : Reader (Option Bytes) := fun bs => do
  let (flag, rest) ← take 1 bs
  match flag with
  | [0] => return (none, rest)
  | [1] => do
    let (value, rest) ← field rest
    return (some value, rest)
  | b :: _ => .error (.badFlag b)
  | [] => .error .endsEarly

/-- The fields of an entry of a kind, in the order in which they are written. -/
def entry : Kind → Reader Entry
  | .put, bs => do
    let (key, bs) ← field bs
    let (value, bs) ← field bs
    return (.put key value, bs)
  | .delete, bs => do
    let (key, bs) ← field bs
    let (value, bs) ← optional bs
    return (.delete key value, bs)
  | .txnPut, bs => do
    let (txn, bs) ← id? bs
    let (key, bs) ← field bs
    let (value, bs) ← field bs
    return (.txnPut txn key value, bs)
  | .txnDelete, bs => do
    let (txn, bs) ← id? bs
    let (key, bs) ← field bs
    let (value, bs) ← optional bs
    return (.txnDelete txn key value, bs)
  | .commit, bs => do
    let (txn, bs) ← id? bs
    return (.commit txn, bs)
  | .abort, bs => do
    let (txn, bs) ← id? bs
    return (.abort txn, bs)

/-- Reads a whole payload. -/
def toEntry (kind : Kind) (payload : Bytes) : Except PayloadFault Entry := do
  match ← entry kind payload with
  | (e, []) => return e
  | (_, rest) => .error (.trailing (payload.length - rest.length) payload.length)

/-- Reads a whole payload of the log, where a fault is damage. -/
def decode (kind : Kind) (payload : Bytes) : Except Error Entry :=
  (toEntry kind payload).mapError fun fault => .corruption (.payload kind fault)

end WalStore.Payload

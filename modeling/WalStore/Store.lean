import WalStore.Error

/-!
# Byte stores

A store is a growing string of bytes. It can be told to fail: appends once a budget of written
bytes is spent, flushes and syncs, truncations. An append that crosses the budget writes the
bytes that fit and fails, which is what a crash in the middle of an append leaves behind.

Only `append` and `truncate` change the bytes; `corrupt` and `graft` are the hands of whoever
damages a store from outside.
-/

namespace WalStore

/-- Which calls are told to fail. -/
structure FaultPlan where
  /-- Appends fail once this many bytes have been written in total. -/
  budget : Option Nat
  failFlush : Bool
  failTruncate : Bool
  deriving DecidableEq

/-- No call is told to fail. -/
def FaultPlan.none : FaultPlan := ⟨.none, false, false⟩

/-- Bytes, and how writing more of them is to fail. -/
structure Store where
  bytes : Array UInt8
  /-- Whether failures can be planned at all. -/
  armed : Bool
  plan : FaultPlan
  /-- Bytes appended so far, counting those of failed appends. -/
  written : Nat
  /-- Whether a call has failed as planned. -/
  crashed : Bool
  deriving DecidableEq

namespace Store

/-- A store holding `bytes`, none of which count as written, for which no failure can be
planned. -/
def ofBytes (bytes : Bytes) : Store := ⟨bytes.toArray, false, .none, 0, false⟩

def empty : Store := ofBytes []

def toList (s : Store) : Bytes := s.bytes.toList

def size (s : Store) : Nat := s.bytes.size

/-- The failure of a call that was told to fail. -/
def planned (during : String) : StoreError := .io ("simulated crash during " ++ during)

/-- So many bytes from an offset on. All of them have to be there. -/
def readAt (s : Store) (offset length : Nat) : Except StoreError Bytes :=
  if offset + length ≤ s.size then .ok (s.bytes.extract offset (offset + length)).toList
  else .error (.readPastEnd offset length s.size)

/-- Adds `data` at the end, whatever the plan says. -/
def extend (s : Store) (data : Bytes) : Store :=
  { s with bytes := s.bytes ++ data, written := s.written + data.length }

/-- Appends `data` and answers where it starts. -/
def append (s : Store) (data : Bytes) : Store × Except StoreError Nat :=
  let offset := s.size
  match s.plan.budget with
  | none => (s.extend data, .ok offset)
  | some budget =>
    if budget ≤ s.written then ({ s with crashed := true }, .error (planned "write"))
    else if budget < s.written + data.length then
      ({ s.extend (data.take (budget - s.written)) with crashed := true },
        .error (planned "partial write"))
    else (s.extend data, .ok offset)

/-- Hands what was appended over to the operating system. -/
def flush (s : Store) : Store × Except StoreError Unit :=
  if s.plan.failFlush then ({ s with crashed := true }, .error (planned "flush")) else (s, .ok ())

/-- Makes what was appended durable. -/
def sync (s : Store) : Store × Except StoreError Unit :=
  if s.plan.failFlush then ({ s with crashed := true }, .error (planned "sync")) else (s, .ok ())

/-- Keeps the first `newSize` bytes. -/
def truncate (s : Store) (newSize : Nat) : Store × Except StoreError Unit :=
  if s.plan.failTruncate then ({ s with crashed := true }, .error (planned "truncate"))
  else if s.size < newSize then (s, .error (.truncateBeyondEnd newSize s.size))
  else ({ s with bytes := s.bytes.take newSize }, .ok ())

/-! ## From outside -/

/-- Overwrites one byte, if there is one at `offset`. -/
def corrupt (s : Store) (offset : Nat) (value : UInt8) : Store :=
  { s with bytes := s.bytes.setIfInBounds offset value }

/-- Adds bytes behind the back of the plan and the count. -/
def graft (s : Store) (data : Bytes) : Store := { s with bytes := s.bytes ++ data }

/-- Changes the plan of an armed store. -/
def replan (s : Store) (change : FaultPlan → FaultPlan) : Store :=
  if s.armed then { s with plan := change s.plan } else s

/-- Spends the budget once so many bytes have been written, or so many more than now. -/
def limit (s : Store) (count : Nat) (more : Bool) : Store :=
  s.replan fun plan => { plan with budget := some (if more then s.written + count else count) }

/-- No failure is planned any more, and none is remembered. -/
def heal (s : Store) : Store := { s with plan := .none, crashed := false }

/-- The same bytes in an armed store under a plan, with nothing written yet. -/
def rearmed (s : Store) (plan : FaultPlan) : Store := ⟨s.bytes, true, plan, 0, false⟩

/-- What is told about a store: how much has been written, and whether it has crashed. An
unarmed one does not count. -/
def incident (s : Store) : Nat × Bool := (if s.armed then s.written else 0, s.crashed)

end Store
end WalStore

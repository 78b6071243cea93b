import WalStore.Environment.Call

/-!
# Scripts

A script is a transaction run to its end in one go: its parts one after another, up to the first
that fails, and then a commit, or an abort if a part failed or the script is told to fail. It is
one call to its client; the operations it consists of are calls of the environment.
-/

namespace WalStore.Environment

/-- Something a transaction can be told to do. -/
inductive Part where
  | put (key value : Bytes)
  | delete (key : Bytes) (value : Option Bytes)
  | get (key : Bytes)
  | lock (key : Bytes) (mode : Mode) (timeout : Option Duration)
  | commit
  | abort
  deriving DecidableEq

/-- A part, as an operation of the transaction that the script runs. -/
def Part.op (txn : TxnId) : Part → Op
  | put key value => .put txn key value
  | delete key value => .delete txn key value
  | get key => .get txn key
  | lock key mode timeout => .lock txn key mode timeout
  | commit => .commit txn
  | abort => .abort txn

/-- Whether the answer to a part is one of the script's answers. -/
def Part.isListed : Part → Bool
  | commit | abort => false
  | _ => true

/-- Where a script is. -/
inductive Script.Place where
  | part (p : Part)
  | committing
  /-- It aborts because of an error. -/
  | aborting (cause : Error)
  deriving DecidableEq

/-- A script that is not over. -/
structure Script where
  txn : TxnId
  todo : List Part
  /-- The answers so far. -/
  answers : List Answer
  /-- The message to fail with after the last part, if it is to fail. -/
  failure : Option String
  place : Script.Place
  deriving DecidableEq

namespace Script

/-- What a script does next. -/
inductive Next where
  | call (script : Script) (op : Op)
  | over (result : Except Error TxnId)

/-- The script has failed. A transaction that is still active is aborted. -/
def fail (s : Script) (active : Bool) (e : Error) : Next :=
  if active then .call { s with place := .aborting e } (.abort s.txn) else .over (.error e)

/-- The script goes on with its next part, or to its end. -/
def proceed (s : Script) (active : Bool) : Next :=
  match s.todo, s.failure with
  | p :: rest, _ => .call { s with todo := rest, place := .part p } (p.op s.txn)
  | [], some message => s.fail active (.invalidOperation (.described message))
  | [], none => .call { s with place := .committing } (.commit s.txn)

/-- The script goes on from the result of its last operation; `active` says whether its
transaction still is. -/
def resume (s : Script) (active : Bool) (result : Result) : Next :=
  match s.place, result with
  | .part p, .ok answer =>
    let answers := if p.isListed then s.answers ++ [answer] else s.answers
    proceed { s with answers } active
  | .part _, .error e => s.fail active e
  | .committing, .ok _ => .over (.ok s.txn)
  | .aborting cause, .ok _ => .over (.error cause)
  | .committing, .error e | .aborting _, .error e => .over (.error e)

end Script
end WalStore.Environment

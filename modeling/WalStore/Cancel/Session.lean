import WalStore.Cancel

/-!
# Sessions with tokens

Tokens and wakers have names. A name stands for a token of its own from its first use on, until
it is bound to another. A waker counts how often it has been run, and is registered with one
token at a time.
-/

namespace WalStore.CancelToken

/-- Tokens, and what the names used so far stand for. -/
structure Session where
  tokens : List (CancelToken String)
  /-- The place of the token that a name stands for. -/
  names : SortedMap String Nat
  /-- The place of the token a waker is registered with, and the number it has there. -/
  registrations : SortedMap String (Nat × Nat)
  /-- How often each waker has been run. -/
  runs : SortedMap String Nat

namespace Session

def empty : Session := ⟨[], ∅, ∅, ∅⟩

def token (s : Session) (i : Nat) : CancelToken String := s.tokens.getD i .fresh

/-- Binds a name to a new token. -/
def create (s : Session) (name : String) : Session :=
  { s with tokens := s.tokens ++ [.fresh], names := s.names.insert name s.tokens.length }

/-- The place of the token that a name stands for. -/
def resolve (s : Session) (name : String) : Session × Nat :=
  match s.names.get? name with
  | some i => (s, i)
  | none => (s.create name, s.tokens.length)

/-- Binds a name to the token of another. -/
def share (s : Session) (name source : String) : Session :=
  let (s, i) := s.resolve source
  { s with names := s.names.insert name i }

/-- Cancels a token and runs the wakers registered with it. -/
def cancel (s : Session) (name : String) : Session :=
  let (s, i) := s.resolve name
  (s.token i).wakers.foldl
    (fun s waker => { s with runs := s.runs.insert waker (s.runs.getD waker 0 + 1) })
    { s with tokens := s.tokens.modify i raise }

/-- Takes a waker's registration back. -/
def drop (s : Session) (waker : String) : Session :=
  match s.registrations.get? waker with
  | none => s
  | some (i, id) =>
    { s with
      tokens := s.tokens.modify i (deregister · id)
      registrations := s.registrations.erase waker }

/-- Registers a waker with a token, and only then takes an earlier registration back. -/
def register (s : Session) (name waker : String) : Session :=
  let (s, i) := s.resolve name
  let (token, id) := (s.token i).register waker
  let s := { s with tokens := s.tokens.set i token }.drop waker
  { s with
    registrations := s.registrations.insert waker (i, id)
    runs := s.runs.insert waker (s.runs.getD waker 0) }

/-- The names in use, and whether their tokens are cancelled. -/
def flags (s : Session) : List (String × Bool) :=
  s.names.entries.map fun (name, i) => (name, (s.token i).cancelled)

end Session
end WalStore.CancelToken

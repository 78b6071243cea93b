import WalStore.SortedMap

/-!
# Cancellation

A token is cancelled once and for all. A call that may block registers with the token what
wakes it up, and takes that back when it returns.

Cancelling takes three steps that other calls may come between: `raise` sets the flag, then
`wakers` is looked at once, then each of them runs. A call that registers before it looks at the
flag is therefore never missed: either it sees the flag, or it is among the wakers.
-/

namespace WalStore

/-- Names a token. -/
structure TokenId where
  val : Nat
  deriving DecidableEq, Inhabited

namespace TokenId

open Std

instance : Ord TokenId := ⟨fun a b => compare a.val b.val⟩

instance : TransOrd TokenId := inferInstanceAs (TransCmp (compareOn TokenId.val))

instance : LawfulEqOrd TokenId where
  eq_of_compare {a b} h := by
    have h : compare a.val b.val = .eq := h
    cases a
    cases b
    exact congrArg mk (LawfulEqCmp.eq_of_compare h)

end TokenId

/-- A token whose wakers are of type `ω`. -/
structure CancelToken (ω : Type) where
  cancelled : Bool
  /-- The number of the next registration. -/
  nextId : Nat
  registered : SortedMap Nat ω

namespace CancelToken

variable {ω : Type}

/-- A token that is not cancelled and that nobody is registered with. -/
def fresh : CancelToken ω := ⟨false, 0, ∅⟩

instance : Inhabited (CancelToken ω) := ⟨fresh⟩

/-- Registers a waker and answers the number of the registration. -/
def register (t : CancelToken ω) (waker : ω) : CancelToken ω × Nat :=
  ({ t with nextId := t.nextId + 1, registered := t.registered.insert t.nextId waker }, t.nextId)

/-- Takes one waker out; the numbers of the others stay. -/
def deregister (t : CancelToken ω) (id : Nat) : CancelToken ω :=
  { t with registered := t.registered.erase id }

/-- Cancels the token, which is never taken back. -/
def raise (t : CancelToken ω) : CancelToken ω := { t with cancelled := true }

/-- The wakers to run, by the numbers they are registered under. -/
def wakers (t : CancelToken ω) : List ω := t.registered.values

/-- The token as debugging output shows it. -/
def describe (t : CancelToken ω) : String :=
  "CancelToken \x7b cancelled: " ++ toString t.cancelled ++ ", .. \x7d"

end CancelToken
end WalStore

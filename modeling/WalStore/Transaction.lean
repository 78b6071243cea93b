import WalStore.Config
import WalStore.Cancel
import WalStore.TxnState

/-!
# Transactions

What an environment keeps about a transaction it has begun. A transaction that meets a deadlock
or the end of its time is marked: from then on every use is refused with the reason of the
mark, and all that is left to it is to abort. The first mark stays.
-/

namespace WalStore

/-- What an environment knows about a transaction. -/
structure Transaction where
  id : TxnId
  state : TxnState
  isolation : Isolation
  started : Instant
  timeouts : Timeouts
  /-- Why it has to abort, if it has to. -/
  mustAbort : Option String
  /-- How many writes it has logged. -/
  writes : Nat
  deriving DecidableEq

namespace Transaction

/-- A transaction that has just begun. -/
def fresh (id : TxnId) (isolation : Isolation) (started : Instant) (timeouts : Timeouts) :
    Transaction :=
  ⟨id, .active, isolation, started, timeouts, none, 0⟩

/-- What stands for a transaction that was never begun. -/
def unknown (id : TxnId) : Transaction := ⟨id, .aborted, .serializable, 0, ⟨none, none⟩, none, 0⟩

def isActive (t : Transaction) : Bool := t.state = .active

/-- The token that interrupts the waits of a transaction. -/
def tokenOf (id : TxnId) : TokenId := ⟨id.toNat⟩

def elapsed (t : Transaction) (now : Instant) : Duration := now - t.started

/-- The deadlines of a wait that starts now, under the request's own timeout. -/
def deadlines (t : Transaction) (now : Instant) (request : Option Duration) : Deadlines :=
  .starting now (t.timeouts.ofRequest request) t.started t.timeouts.txn

/-! ## Marks -/

/-- Marks the transaction, unless it is marked already. -/
def mark (t : Transaction) (e : Error) : Transaction :=
  match t.mustAbort with
  | some _ => t
  | none => { t with mustAbort := some e.message }

/-- Marks the transaction if the error is one it cannot outlive. -/
def note (t : Transaction) (e : Error) : Transaction := if e.isFatal then t.mark e else t

/-- Marks the transaction if its time is over. -/
def checkTime (t : Transaction) (now : Instant) : Transaction :=
  match t.timeouts.txn with
  | some limit => if limit ≤ t.elapsed now then t.mark (.txnTimeout t.id limit) else t
  | none => t

/-! ## Checks -/

/-- Why a transaction that is not active is of no use. -/
def checkActive (t : Transaction) : Except Error Unit :=
  if t.isActive then .ok () else .error (.invalidOperation (.notActive t.id t.state))

/-- Checks that the transaction may go on, and marks it if its time is over. -/
def checkUsable (t : Transaction) (now : Instant) : Transaction × Except Error Unit :=
  match t.checkActive with
  | .error e => (t, .error e)
  | .ok () =>
    let t := t.checkTime now
    match t.mustAbort with
    | some reason => (t, .error (.mustAbort t.id reason))
    | none => (t, .ok ())

/-! ## Description -/

/-- How a transaction describes itself. -/
def describe (t : Transaction) (token : CancelToken Unit) : String :=
  "Transaction \x7b id: TransactionId(" ++ toString t.id.toNat ++ "), state: " ++ t.state.text ++
    ", isolation: " ++ t.isolation.text ++ ", timeouts: TimeoutLayers \x7b lock: " ++
    Duration.optionText t.timeouts.lock ++ ", txn: " ++ Duration.optionText t.timeouts.txn ++
    " \x7d, must_abort: " ++ (match t.mustAbort with
      | none => "None"
      | some reason => "Some(" ++ Text.quote reason ++ ")") ++
    ", cancel: " ++ token.describe ++ ", writes: " ++ toString t.writes ++
    ", release: Some(TxnRelease \x7b .. \x7d) \x7d"

end Transaction
end WalStore

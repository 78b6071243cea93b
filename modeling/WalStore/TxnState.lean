/-!
# The life of a transaction

A transaction is active until it commits or aborts, and neither is ever undone.
-/

namespace WalStore

/-- Where a transaction is in its life. -/
inductive TxnState where
  | active
  | committed
  | aborted
  deriving DecidableEq, Inhabited

/-- The name by which a state is shown. -/
def TxnState.text : TxnState → String
  | active => "Active"
  | committed => "Committed"
  | aborted => "Aborted"

end WalStore

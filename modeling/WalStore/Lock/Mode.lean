/-!
# Lock modes

Readers share a resource, a writer has it alone.
-/

namespace WalStore

/-- Readers share a lock; a writer has it alone. -/
inductive Mode where
  | read
  | write
  deriving DecidableEq, Inhabited

namespace Mode

/-- Whether two owners may hold these modes at once. -/
def compatible : Mode → Mode → Bool
  | read, read => true
  | _, _ => false

/-- Whether holding the first mode satisfies a request for the second. -/
def covers : Mode → Mode → Bool
  | write, _ => true
  | read, read => true
  | read, write => false

/-- The weakest mode that covers both. -/
def join : Mode → Mode → Mode
  | read, read => read
  | _, _ => write

/-- The name of a mode. -/
def text : Mode → String
  | read => "read"
  | write => "write"

end Mode
end WalStore

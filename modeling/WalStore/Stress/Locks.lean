import WalStore.Lock.Manager
import WalStore.Stress

/-!
# Stress on the lock manager

Each worker takes one lock after another, each for an owner of its own, and looks who else is
inside while it holds it. Nobody may be inside with a writer.
-/

namespace WalStore.Stress

/-- What a worker is doing. -/
inductive LockWorker.Phase where
  | idle
  | asleep (request : LockRequest)
  /-- It holds its lock. -/
  | inside (request : LockRequest)

/-- How far a worker has got. -/
structure LockWorker where
  /-- How many operations it has begun. -/
  begun : Nat
  phase : LockWorker.Phase

/-- How far a run has got. -/
structure LockRun where
  locks : LockManager
  workers : List LockWorker
  successful : Nat
  failed : Nat
  violations : Nat

namespace LockRun

def resource (i : Nat) : Resource := .ofText ("r" ++ toString i)

def start (s : Settings) : LockRun :=
  ⟨.ofState (.fresh true), List.replicate s.workers ⟨0, .idle⟩, 0, 0, 0⟩

/-- Whether an operation can be drawn at all. -/
def isPossible (s : Settings) : Bool := 0 < s.resources && s.readPercent ≤ 100

/-- A call goes by the id of its owner. -/
def callOf (r : LockRequest) : Nat := r.txn.toNat

/-- Whether a worker has something to do and need not wait to be woken. -/
def canMove (s : Settings) (r : LockRun) (w : LockWorker) : Bool :=
  match w.phase with
  | .idle => w.begun < s.operations
  | .asleep request => (r.locks.sleepers.get? (callOf request)).any (·.woken)
  | .inside _ => true

/-- The workers that can move. -/
def moves (s : Settings) (r : LockRun) : List Nat :=
  if isPossible s then (r.workers.zipIdx.filter (r.canMove s ·.1)).map (·.2) else []

def setPhase (r : LockRun) (worker : Nat) (phase : LockWorker.Phase) : LockRun :=
  { r with workers := r.workers.modify worker ({ · with phase }) }

/-- Whether somebody is inside who must not be, next to one who comes in. -/
def isCrowded (r : LockRun) (request : LockRequest) : Bool :=
  r.workers.any fun w =>
    match w.phase with
    | .inside other =>
      other.resource = request.resource && !(request.mode = .read && other.mode = .read)
    | _ => false

/-- A request has been looked at. -/
def looked (r : LockRun) (worker : Nat) (request : LockRequest)
    (result : LockManager × Option LockState.Outcome) : LockRun :=
  let r := { r with locks := result.1 }
  match result.2 with
  | none => r.setPhase worker (.asleep request)
  | some (.error _) => { r with failed := r.failed + 1 }.setPhase worker .idle
  | some (.ok _) =>
    let r := { r with violations := r.violations + if r.isCrowded request then 1 else 0 }
    r.setPhase worker (.inside request)

/-- The request for a worker's next operation. -/
def drawRequest (s : Settings) (worker begun : Nat) : Draw LockRequest := do
  let slot ← Draw.below s.resources
  let mode := if ← Draw.chance s.readPercent 100 then .read else .write
  return ⟨.ofNat (worker * s.operations + begun + 1), resource slot, mode,
    .starting 0 (some s.lockTimeout) 0 none⟩

/-- A worker makes its next move: it asks for a lock, looks again, or lets its lock go. -/
def move (s : Settings) (r : LockRun) (worker : Nat) : Draw LockRun := do
  let w := r.workers.getD worker ⟨0, .idle⟩
  match w.phase with
  | .idle =>
    let request ← drawRequest s worker w.begun
    let r := { r with workers := r.workers.set worker ⟨w.begun + 1, .idle⟩ }
    return r.looked worker request
      (r.locks.enter LockState.discipline 0 (callOf request) none request)
  | .asleep request =>
    return r.looked worker request (r.locks.recheck LockState.discipline 0 (callOf request))
  | .inside request =>
    return { r with
      locks := (r.locks.act (LockState.releaseAll request.txn)).1
      successful := r.successful + 1 }.setPhase worker .idle

def result (r : LockRun) : Result := ⟨r.successful, r.failed, r.violations, 0⟩

/-- Whether nobody holds or waits for any of the resources. -/
def isFree (r : LockRun) (s : Settings) : Bool :=
  (List.range s.resources).all fun i =>
    let table := r.locks.shared.table
    (table.holders (resource i)).isEmpty && table.waiting (resource i) = 0

end LockRun

/-- A run on a lock manager that looks for deadlocks. -/
def locks (s : Settings) : Draw LockRun :=
  schedule (LockRun.moves s) (LockRun.move s) (s.patience 4) (.start s)

end WalStore.Stress

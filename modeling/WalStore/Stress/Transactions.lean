import WalStore.Environment.Script
import WalStore.Fixture
import WalStore.Stress

/-!
# Stress on an environment

Each worker runs one transaction after another, each of which puts one value under two keys. A
transaction that has committed must have left both pairs behind.
-/

namespace WalStore.Stress

open Environment (Script)

/-- A transaction's pairs: one value under two keys. -/
structure PairWork where
  first : Bytes
  second : Bytes
  value : Bytes
  deriving DecidableEq

/-- Whether both pairs are live. -/
def PairWork.isIn (w : PairWork) (live : LiveSet) : Bool :=
  live.contains w.first w.value && live.contains w.second w.value

/-- How far a worker has got. -/
structure TxnWorker where
  /-- How many transactions it has begun. -/
  begun : Nat
  /-- The one under way. -/
  current : Option (Script × PairWork)

/-- How far a run has got. -/
structure TxnRun where
  env : Environment
  workers : List TxnWorker
  committed : List PairWork
  failed : Nat

namespace TxnRun

def start (s : Settings) (env : Environment) : TxnRun :=
  ⟨env, List.replicate s.workers ⟨0, none⟩, [], 0⟩

/-- A call goes by the number of its worker. -/
def canMove (s : Settings) (r : TxnRun) (worker : Nat) (w : TxnWorker) : Bool :=
  match w.current with
  | none => 0 < s.resources && w.begun < s.operations
  | some _ => (r.env.calls.get? worker).any (r.env.isReady worker)

/-- The workers that can move. -/
def moves (s : Settings) (r : TxnRun) : List Nat :=
  (r.workers.zipIdx.filter fun w => r.canMove s w.2 w.1).map (·.2)

def setCurrent (r : TxnRun) (worker : Nat) (current : Option (Script × PairWork)) : TxnRun :=
  { r with workers := r.workers.modify worker ({ · with current }) }

/-- A worker's script goes on, or is over. -/
def goOn (r : TxnRun) (worker : Nat) (work : PairWork) (txn : TxnId) : Script.Next → TxnRun
  | .call script op =>
    { r with env := r.env.start worker op }.setCurrent worker (some (script, work))
  | .over result =>
    let r := { r with env := r.env.drop txn }.setCurrent worker none
    match result with
    | .ok _ => { r with committed := work :: r.committed }
    | .error _ => { r with failed := r.failed + 1 }

def drawKey (s : Settings) : Draw Bytes :=
  return .ofText ("k" ++ toString (← Draw.below s.resources))

/-- What a worker's next transaction puts. -/
def drawWork (s : Settings) (worker begun : Nat) : Draw PairWork :=
  return ⟨← drawKey s, ← drawKey s,
    .ofText ("t" ++ toString worker ++ "-" ++ toString begun)⟩

/-- A worker begins its next transaction. -/
def beginNext (s : Settings) (r : TxnRun) (worker begun : Nat) : Draw TxnRun := do
  let work ← drawWork s worker begun
  let r := { r with workers := r.workers.set worker ⟨begun + 1, none⟩ }
  match r.env.begin (TxnConfig.standard.withLockTimeout s.lockTimeout) with
  | (env, .error _) => return { r with env, failed := r.failed + 1 }
  | (env, .ok txn) =>
    let parts := [.put work.first work.value, .put work.second work.value]
    let script : Script := ⟨txn, parts, [], none, .committing⟩
    return { r with env }.goOn worker work txn (script.proceed true)

/-- A worker makes its next move: it begins a transaction or goes on with one. -/
def move (s : Settings) (r : TxnRun) (worker : Nat) : Draw TxnRun := do
  let w := r.workers.getD worker ⟨0, none⟩
  match w.current with
  | none => r.beginNext s worker w.begun
  | some (script, work) =>
    let (env, result) := r.env.step worker
    let r := { r with env }
    match result with
    | none => return r
    | some result =>
      return r.goOn worker work script.txn (script.resume (env.txn script.txn).isActive result)

/-- What the run has counted. Pairs missing after a commit are violations. -/
def result (r : TxnRun) : Result :=
  ⟨r.committed.length, r.failed, (r.committed.filter (!·.isIn r.env.live)).length, 0⟩

end TxnRun

/-- A run on an environment with an empty log. -/
def transactions (s : Settings) : Except Error (Draw TxnRun) :=
  (Fixture.ofConfig .unsynced false).map fun f =>
    schedule (TxnRun.moves s) (TxnRun.move s) (s.patience 16) (.start s f.env)

end WalStore.Stress

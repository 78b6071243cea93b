import WalStore.Draw
import WalStore.Duration
import WalStore.Text

/-!
# Stress runs

Several workers use one thing at the same time, in an order drawn at random: at each turn one of
those that can move does. What a run counts is how many operations succeeded and failed, and how
often something was seen that must not be.
-/

namespace WalStore.Stress

/-- How much work there is, and how it is shared out. -/
structure Settings where
  /-- Operations of each worker. -/
  operations : Nat
  workers : Nat
  /-- Different resources or keys. -/
  resources : Nat
  /-- How many of a hundred locks are for reading. -/
  readPercent : Nat
  lockTimeout : Duration
  deriving DecidableEq

namespace Settings

def standard : Settings := ⟨500, 4, 8, 50, 200 * Duration.millisecond⟩

/-- The share of locks for reading. -/
def readRatio (s : Settings) : Float := s.readPercent.toFloat / 100.0

/-- All operations of all workers. -/
def total (s : Settings) : Nat := s.workers * s.operations

/-- More moves than the workers can make, where an operation takes at most `moves` of its own
and each of them may wake all others once. -/
def patience (s : Settings) (moves : Nat) : Nat := (s.total + s.workers) * moves * (s.workers + 1)

end Settings

/-! ## Results -/

/-- What a run has counted. -/
structure Result where
  successful : Nat
  failed : Nat
  /-- How often something was seen that must not be. -/
  violations : Nat
  duration : Duration
  deriving DecidableEq

namespace Result

def total (r : Result) : Nat := r.successful + r.failed

/-- The duration in seconds: whole seconds and the rest apart, each as a double. -/
def seconds (r : Result) : Float :=
  (r.duration / Duration.second).toFloat +
    (r.duration % Duration.second).toFloat / Duration.second.toFloat

/-- Operations per second; none if no time has passed. -/
def rate (r : Result) : Float := if 0.0 < r.seconds then r.total.toFloat / r.seconds else 0.0

/-- What is told about a run with a name. -/
def summary (r : Result) (name : String) : String :=
  "\n=== " ++ name ++ " ===\nTotal operations: " ++ toString r.total ++ "\nSuccessful: " ++
    toString r.successful ++ "\nFailed: " ++ toString r.failed ++ "\nViolations: " ++
    toString r.violations ++ "\nDuration: " ++ r.duration.text ++ "\nThroughput: " ++
    Text.fixed 2 r.rate ++ " ops/sec\n"

end Result

/-! ## Order -/

/-- At most `fuel` moves, each drawn from those that are possible, until none is. -/
def schedule {σ μ : Type} (moves : σ → List μ) (move : σ → μ → Draw σ) : Nat → σ → Draw σ
  | 0, s => return s
  | fuel + 1, s => do
    match moves s with
    | [] => return s
    | first :: rest =>
      let i ← Draw.below (rest.length + 1)
      schedule moves move fuel (← move s ((first :: rest).getD i first))

end WalStore.Stress

import WalStore.Gate
import WalStore.Stress

/-!
# Stress on the size gate

Each worker puts keys of its own, and as many others wait until all keys are there. A wait that
ends otherwise must not be.
-/

namespace WalStore.Stress

namespace GateRun

/-- How long a wait may take. -/
def limit : Duration := 30 * Duration.second

/-- What can happen next. -/
inductive Move where
  /-- One more call waits. -/
  | wait
  | put (worker : Nat)
  /-- A call that has been woken looks again. -/
  | look (call : Nat)

end GateRun

/-- How far a run has got. -/
structure GateRun where
  monitor : Monitor (Gate Nat Nat) SizeWaiting
  /-- How many calls wait or have waited. -/
  begun : Nat
  /-- How many keys each worker has put. -/
  puts : List Nat
  violations : Nat

namespace GateRun

def start (s : Settings) : GateRun := ⟨.ofState .empty, 0, List.replicate s.workers 0, 0⟩

/-- The calls that have been woken and not looked again. -/
def woken {σ ω : Type} (m : Monitor σ ω) : List Nat :=
  (m.sleepers.entries.filter (·.2.woken)).map (·.1)

/-- What can happen next: a wait, the next key of a worker, or a look. -/
def moves (s : Settings) (r : GateRun) : List Move :=
  (if r.begun < s.workers then [.wait] else []) ++
    (r.puts.zipIdx.filter (·.1 < s.operations)).map (.put ·.2) ++ (woken r.monitor).map .look

/-- A call has looked, and may have returned. -/
def judge (r : GateRun) (looked : Monitor (Gate Nat Nat) SizeWaiting × Option (Except Error Bool)) :
    GateRun :=
  let r := { r with monitor := looked.1 }
  match looked.2 with
  | none | some (.ok true) => r
  | some _ => { r with violations := r.violations + 1 }

def move (s : Settings) (r : GateRun) : Move → GateRun
  | .wait =>
    { r with begun := r.begun + 1 }.judge
      (r.monitor.enter Gate.discipline 0 r.begun none ⟨s.total, some limit⟩)
  | .put worker =>
    let i := r.puts.getD worker 0
    { r with
      monitor := (r.monitor.act (Gate.put (worker * s.operations + i) i)).1
      puts := r.puts.set worker (i + 1) }
  | .look call => r.judge (r.monitor.recheck Gate.discipline 0 call)

end GateRun

/-- A run on a gate. The keys that are there at its end count as successes. -/
def gate (s : Settings) : Draw Result := do
  let r ← schedule (GateRun.moves s) (fun r m => return r.move s m) (s.patience 2) (.start s)
  return ⟨r.monitor.shared.size, 0, r.violations, 0⟩

end WalStore.Stress

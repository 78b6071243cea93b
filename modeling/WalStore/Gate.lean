import WalStore.Error
import WalStore.Monitor

/-!
# The size gate

A map that calls can wait on until it holds enough keys. `put` of a new key wakes the waiting
calls, which look whether that was the key they needed.

**Giving up.** Abandoning the gate ends every wait begun before, with the cause of the latest
abandonment, and refuses new waits until it is reset. Each abandonment starts a new generation;
a call that finds the generation changed knows that it was abandoned, whatever else has
happened in between.
-/

namespace WalStore

/-- A map, and the state of the waits for its size. -/
structure Gate (κ ν : Type) [Ord κ] where
  entries : SortedMap κ ν
  /-- How often the gate has been abandoned. -/
  generation : Nat
  /-- Why new waits are refused, if they are. -/
  abandoned : Option String
  /-- The cause of the latest abandonment. -/
  lastCause : String
  /-- How many calls wait. -/
  waiters : Nat

/-- A call waits for `need` keys, for as long as `timeout` if there is one. -/
structure SizeWait where
  need : Nat
  timeout : Option Duration
  deriving DecidableEq

/-- What a waiting call remembers. -/
structure SizeWaiting where
  need : Nat
  deadline : Option Instant
  /-- The generation in which it began to wait. -/
  generation : Nat
  deriving DecidableEq

namespace Gate

variable {κ ν : Type} [Ord κ]

def empty : Gate κ ν := ⟨∅, 0, none, "", 0⟩

instance : Inhabited (Gate κ ν) := ⟨empty⟩

/-- The number of keys, which is what waits are for. -/
def size (g : Gate κ ν) : Nat := g.entries.size

/-! ## Looks -/

/-- Whether the gate is open, or why the call gives up; nothing while it has to wait. -/
def answer? (g : Gate κ ν) (sight : Monitor.Sight) (w : SizeWaiting) : Option (Except Error Bool) :=
  if g.generation ≠ w.generation then some (.error (.waitAbandoned g.lastCause))
  else if w.need ≤ g.size then some (.ok true)
  else if sight.cancelled then some (.error .interrupted)
  else if w.deadline.any (· ≤ sight.now) then some (.ok false)
  else none

/-- A call enters. While the gate is abandoned it is refused, and with nothing to wait for it is
answered at once. -/
def arrive (g : Gate κ ν) (sight : Monitor.Sight) (r : SizeWait) :
    Monitor.Look (Gate κ ν) SizeWaiting (Except Error Bool) :=
  match g.abandoned with
  | some cause => ⟨g, .returns (.error (.waitAbandoned cause)), false⟩
  | none =>
    let w : SizeWaiting := ⟨r.need, r.timeout.bind (Instant.after? sight.now), g.generation⟩
    match g.answer? sight w with
    | some result => ⟨g, .returns result, false⟩
    | none => ⟨{ g with waiters := g.waiters + 1 }, .sleeps w, false⟩

/-- A waiting call looks again. It is told of an abandonment that came while it slept even if the
gate has been reset since. -/
def again (g : Gate κ ν) (sight : Monitor.Sight) (w : SizeWaiting) :
    Monitor.Look (Gate κ ν) SizeWaiting (Except Error Bool) :=
  match g.answer? sight w with
  | some result => ⟨{ g with waiters := g.waiters - 1 }, .returns result, false⟩
  | none => ⟨g, .sleeps w, false⟩

def discipline : Monitor.Discipline (Gate κ ν) SizeWait SizeWaiting (Except Error Bool) where
  arrive := fun sight r g => g.arrive sight r
  again := fun sight w g => g.again sight w

/-! ## Actions -/

/-- Takes a key away and answers its value. A smaller map answers no wait, so nobody is woken. -/
def remove (key : κ) (g : Gate κ ν) : Monitor.Change (Gate κ ν) (Option ν) :=
  ⟨{ g with entries := g.entries.erase key }, g.entries.get? key, false⟩

/-- Takes every key away. -/
def clear (g : Gate κ ν) : Monitor.Change (Gate κ ν) Unit := ⟨{ g with entries := ∅ }, (), false⟩

/-- Ends every wait under way and refuses new ones. -/
def abandon (cause : String) (g : Gate κ ν) : Monitor.Change (Gate κ ν) Unit where
  state := { g with generation := g.generation + 1, abandoned := some cause, lastCause := cause }
  answer := ()
  notify := true

/-- Waits are accepted again. -/
def reset (g : Gate κ ν) : Monitor.Change (Gate κ ν) Unit :=
  ⟨{ g with abandoned := none }, (), false⟩

/-- Puts a value under a key and answers the value it replaces. -/
def put [Std.TransOrd κ] [Std.LawfulEqOrd κ] (key : κ) (value : ν) (g : Gate κ ν) :
    Monitor.Change (Gate κ ν) (Option ν) :=
  let old := g.entries.get? key
  ⟨{ g with entries := g.entries.insert key value }, old, old.isNone && 0 < g.waiters⟩

/-- The gate as debugging output shows it. -/
def describe (g : Gate κ ν) : String :=
  "SizeGatedMap \x7b len: " ++ toString g.size ++ ", waiters: " ++ toString g.waiters ++
    ", abandoned: " ++ (match g.abandoned with
      | none => "None"
      | some cause => "Some(" ++ Text.quote cause ++ ")") ++ " \x7d"

end Gate
end WalStore

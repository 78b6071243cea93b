import WalStore.Cancel
import WalStore.Duration

/-!
# Monitors

A monitor is a shared state with calls that may block on it. A call looks at the state, and
either returns or falls asleep; after it has been woken it looks again. Looks and actions happen
one at a time, and nothing happens to the state in between. What a look sees and does is the
`Discipline` of the monitor: the lock table and the size gate are two of them.

**Waking.** A change that may matter to others notifies: every call that sleeps at the time is
woken. Sleeping calls are also woken by a token that is cancelled and when time moves on. A woken
call looks again at some later moment, not necessarily at once and in no particular order;
`recheck` is one such look, and any order of rechecks, entries and actions is a run of the monitor.

**Settling.** `settle` lets woken calls look again, smallest number first, until all sleep.
-/

namespace WalStore.Monitor

/-! ## Disciplines -/

/-- What a call knows when it looks at the shared state. -/
structure Sight where
  now : Instant
  /-- Whether the call's token is cancelled. -/
  cancelled : Bool
  deriving DecidableEq

/-- What becomes of a call that has looked. -/
inductive Fate (ω ρ : Type) where
  | returns (result : ρ)
  /-- It sleeps, and remembers this for its next look. -/
  | sleeps (memory : ω)
  deriving DecidableEq

/-- What a look does. -/
structure Look (σ ω ρ : Type) where
  state : σ
  fate : Fate ω ρ
  /-- Whether the calls that sleep are woken. -/
  notify : Bool

/-- What an action that cannot block does. -/
structure Change (σ β : Type) where
  state : σ
  answer : β
  notify : Bool

/-- How calls with requests `κ`, memories `ω` and results `ρ` deal with a state `σ`. -/
structure Discipline (σ κ ω ρ : Type) where
  /-- The first look of a call. -/
  arrive : Sight → κ → σ → Look σ ω ρ
  /-- A look after it has been woken. -/
  again : Sight → ω → σ → Look σ ω ρ

/-! ## The calls asleep -/

/-- A call that waits, with what it has to remember. -/
structure Sleeper (ω : Type) where
  memory : ω
  /-- The token that interrupts the call, and its registration there. -/
  token : Option (TokenId × Nat)
  /-- Whether it has been woken and not looked again. -/
  woken : Bool
  deriving DecidableEq

end Monitor

/-- A shared state, the calls asleep on it by number, and the tokens they may use. -/
structure Monitor (σ ω : Type) where
  shared : σ
  sleepers : SortedMap Nat (Monitor.Sleeper ω)
  tokens : SortedMap TokenId (CancelToken Unit)

namespace Monitor

variable {σ κ ω ρ β : Type}

def ofState (shared : σ) : Monitor σ ω := ⟨shared, ∅, ∅⟩

/-! ## Tokens -/

/-- The token with a number; one that has not been used is fresh. -/
def token (m : Monitor σ ω) (t : TokenId) : CancelToken Unit := m.tokens.getD t .fresh

/-- Whether the token that a call brings, if any, is cancelled. -/
def isCancelled (m : Monitor σ ω) (t : Option TokenId) : Bool :=
  t.any fun t => (m.token t).cancelled

/-- Registers a call with its token. -/
def register (m : Monitor σ ω) : Option TokenId → Monitor σ ω × Option (TokenId × Nat)
  | none => (m, none)
  | some t =>
    let (token, id) := (m.token t).register ()
    ({ m with tokens := m.tokens.insert t token }, some (t, id))

/-- A call that leaves takes its registration back. -/
def deregister (m : Monitor σ ω) : Option (TokenId × Nat) → Monitor σ ω
  | none => m
  | some (t, id) => { m with tokens := m.tokens.insert t ((m.token t).deregister id) }

/-! ## Waking -/

/-- Wakes every call that sleeps. -/
def wakeAll (m : Monitor σ ω) : Monitor σ ω :=
  { m with sleepers := m.sleepers.mapValues fun s => { s with woken := true } }

/-- Wakes one call. -/
def wake (m : Monitor σ ω) (call : Nat) : Monitor σ ω :=
  match m.sleepers.get? call with
  | some s => { m with sleepers := m.sleepers.insert call { s with woken := true } }
  | none => m

def wakeIf (m : Monitor σ ω) (notify : Bool) : Monitor σ ω := if notify then m.wakeAll else m

/-- Sets a token's flag. -/
def raise (m : Monitor σ ω) (t : TokenId) : Monitor σ ω :=
  { m with tokens := m.tokens.insert t (m.token t).raise }

/-- Cancels a token: its flag is set, then each of its wakers wakes the calls that sleep. -/
def cancel (m : Monitor σ ω) (t : TokenId) : Monitor σ ω :=
  let m := m.raise t
  (m.token t).wakers.foldl (fun m _ => m.wakeAll) m

/-! ## Looks and actions -/

/-- Goes on from the look of the call with number `call`. A call that returns gives its
registration back; one that falls asleep is not among those a notification wakes. -/
def afterLook (m : Monitor σ ω) (call : Nat) (token : Option (TokenId × Nat)) (look : Look σ ω ρ) :
    Monitor σ ω × Option ρ :=
  let m := ({ m with shared := look.state, sleepers := m.sleepers.erase call }).wakeIf look.notify
  match look.fate with
  | .returns result => (m.deregister token, some result)
  | .sleeps memory => ({ m with sleepers := m.sleepers.insert call ⟨memory, token, false⟩ }, none)

/-- A call with a number of its own starts. Answers its result if it does not fall asleep. -/
def enter (d : Discipline σ κ ω ρ) (m : Monitor σ ω) (now : Instant) (call : Nat)
    (token : Option TokenId) (request : κ) : Monitor σ ω × Option ρ :=
  let (m, registration) := m.register token
  m.afterLook call registration (d.arrive ⟨now, m.isCancelled token⟩ request m.shared)

/-- A woken call looks again. -/
def recheck (d : Discipline σ κ ω ρ) (m : Monitor σ ω) (now : Instant) (call : Nat) :
    Monitor σ ω × Option ρ :=
  match m.sleepers.get? call with
  | none => (m, none)
  | some s =>
    if s.woken then
      m.afterLook call s.token
        (d.again ⟨now, m.isCancelled (s.token.map (·.1))⟩ s.memory m.shared)
    else (m, none)

/-- Something happens to the shared state. -/
def act (m : Monitor σ ω) (change : σ → Change σ β) : Monitor σ ω × β :=
  let c := change m.shared
  (({ m with shared := c.state }).wakeIf c.notify, c.answer)

/-! ## Settling -/

/-- The woken call with the smallest number. -/
def firstWoken? (m : Monitor σ ω) : Option Nat :=
  (m.sleepers.entries.find? (·.2.woken)).map (·.1)

/-- Whether every call that has been woken has looked again. -/
def isQuiet (m : Monitor σ ω) : Bool := m.firstWoken?.isNone

/-- At most `fuel` rechecks, and what returned. -/
def settleWithin (d : Discipline σ κ ω ρ) (now : Instant) :
    Nat → Monitor σ ω → Monitor σ ω × List (Nat × ρ)
  | 0, m => (m, [])
  | fuel + 1, m =>
    match m.firstWoken? with
    | none => (m, [])
    | some call =>
      let (m, result) := m.recheck d now call
      let (m, later) := settleWithin d now fuel m
      (m, (result.toList.map (call, ·)) ++ later)

/-- More rechecks than it takes until all calls sleep, where a look that wakes others without
returning makes some call return. -/
def patience (m : Monitor σ ω) : Nat := 2 * (m.sleepers.size + 1) * (m.sleepers.size + 1)

/-- Lets woken calls look again until all sleep. Answers the results of those that returned. -/
def settle (d : Discipline σ κ ω ρ) (m : Monitor σ ω) (now : Instant) :
    Monitor σ ω × List (Nat × ρ) :=
  settleWithin d now m.patience m

/-- Time has moved on to `now`: the calls asleep look again one after another, and all that one
of them sets off comes to rest before the next. -/
def elapse (d : Discipline σ κ ω ρ) (m : Monitor σ ω) (now : Instant) :
    Monitor σ ω × List (Nat × ρ) :=
  m.sleepers.keys.foldl (fun (m, results) call =>
    let (m, more) := (m.wake call).settle d now
    (m, results ++ more)) (m, [])

end Monitor
end WalStore

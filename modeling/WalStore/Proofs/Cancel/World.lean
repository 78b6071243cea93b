import Mathlib.Logic.Function.Basic
import WalStore.Gate
import WalStore.Lock.Manager
import WalStore.Proofs.Monitor

/-!
# Cancellations and calls step by step

A `Monitor` takes the look of a call for one step, and registers the call in the same step. Here
the parties are taken apart. A call registers with its token, takes the mutex of what it blocks on,
reads its token's flag, and then looks; when it falls asleep it gives the mutex back in the same
moment. A call that has its result gives the mutex back first and its registration later. A
cancellation raises the flag, then notes the wakers of the token, and then runs them one by one:
each takes the mutex and wakes all calls that sleep there.

The steps of any number of calls and cancellations come in any order (`Step`), on any number of lock
managers and size gates (`Primitive`). What else happens to these, happens while the mutex is free.
-/

namespace WalStore.Cancel

open Monitor

/-! ## What calls block on -/

inductive Primitive : Type 1 where
  | locks
  | gate (κ ν : Type) [Ord κ]

namespace Primitive

def State : Primitive → Type
  | locks => LockState
  | gate κ ν => Gate κ ν

def Request : Primitive → Type
  | locks => LockRequest
  | gate .. => SizeWait

def Memory : Primitive → Type
  | locks => Waiting
  | gate .. => SizeWaiting

def Result : Primitive → Type
  | locks => LockState.Outcome
  | gate .. => Except Error Bool

def discipline : (p : Primitive) → Discipline p.State p.Request p.Memory p.Result
  | locks => LockState.discipline
  | gate .. => Gate.discipline

end Primitive

/-! ## Parties -/

/-- What a call looks for. -/
inductive Intent (p : Primitive) where
  | first (request : p.Request)
  | again (memory : p.Memory)

def Intent.look {p : Primitive} (sight : Sight) (s : p.State) :
    Intent p → Look p.State p.Memory p.Result
  | first request => p.discipline.arrive sight request s
  | again memory => p.discipline.again sight memory s

/-- How far a call has come. -/
inductive Phase (p : Primitive) where
  /-- It is registered and does not have the mutex yet. -/
  | arriving (request : p.Request)
  | asleep (memory : p.Memory) (woken : Bool)
  /-- It has the mutex. -/
  | inside (intent : Intent p)
  /-- It has the mutex and has read its token's flag. -/
  | informed (intent : Intent p) (cancelled : Bool)
  /-- It has its result, has given the mutex back and is still registered. -/
  | leaving (result : p.Result)

namespace Phase

variable {p : Primitive}

/-- What the call looks for as soon as it gets the mutex. -/
def intent? : Phase p → Option (Intent p)
  | arriving request => some (.first request)
  | asleep memory true => some (.again memory)
  | asleep _ false | inside _ | informed .. | leaving _ => none

def hasMutex : Phase p → Bool
  | inside _ | informed .. => true
  | arriving _ | asleep .. | leaving _ => false

def isAsleep : Phase p → Bool
  | asleep .. => true
  | arriving _ | inside _ | informed .. | leaving _ => false

def nudged (notify : Bool) : Phase p → Phase p
  | asleep memory woken => asleep memory (woken || notify)
  | arriving request => arriving request
  | inside intent => inside intent
  | informed intent cancelled => informed intent cancelled
  | leaving result => leaving result

def ofFate : Fate p.Memory p.Result → Phase p
  | .returns result => leaving result
  | .sleeps memory => asleep memory false

end Phase

variable {ι : Type}

/-- A call that is under way. -/
structure Call (P : ι → Primitive) where
  place : ι
  /-- The token it uses, and its registration there. -/
  registration : Option (TokenId × Nat)
  phase : Phase (P place)

/-- How far a cancellation has come. -/
inductive Stage (ι : Type) where
  /-- It has raised the flag. -/
  | raised
  /-- It has still to run these wakers. -/
  | running (wakers : List ι)

structure Cancellation (ι : Type) where
  token : TokenId
  stage : Stage ι

/-- Who has a mutex. -/
inductive Holder where
  | call (number : Nat)
  | cancellation (number : Nat)

/-- A waker is named by the place where it wakes the calls asleep. -/
structure World (P : ι → Primitive) where
  shared : (place : ι) → (P place).State
  mutex : ι → Option Holder
  tokens : SortedMap TokenId (CancelToken ι)
  /-- The calls under way. -/
  calls : SortedMap Nat (Call P)
  /-- The number of the next call. -/
  nextCall : Nat
  /-- All cancellations so far. -/
  cancellations : SortedMap Nat (Cancellation ι)
  /-- The number of the next cancellation. -/
  nextCancellation : Nat

variable {P : ι → Primitive}

namespace Call

/-- The token it uses. -/
def token? (call : Call P) : Option TokenId := call.registration.map (·.1)

end Call

namespace World

/-- A world in which nobody has done anything. -/
def fresh (shared : (place : ι) → (P place).State) : World P :=
  ⟨shared, fun _ => none, ∅, ∅, 0, ∅, 0⟩

def token (w : World P) (t : TokenId) : CancelToken ι := w.tokens.getD t .fresh

def isCancelled (w : World P) (call : Call P) : Bool :=
  call.token?.any fun t => (w.token t).cancelled

/-- Registers a call that blocks at `place`. -/
def register (w : World P) (place : ι) :
    Option TokenId → SortedMap TokenId (CancelToken ι) × Option (TokenId × Nat)
  | none => (w.tokens, none)
  | some t =>
    let (token, id) := (w.token t).register place
    (w.tokens.insert t token, some (t, id))

def deregister (w : World P) : Option (TokenId × Nat) → SortedMap TokenId (CancelToken ι)
  | none => w.tokens
  | some (t, id) => w.tokens.insert t ((w.token t).deregister id)

/-- A cancellation with number `k` raises the flag. -/
def raise (w : World P) (k : Nat) (t : TokenId) : World P :=
  { w with
    tokens := w.tokens.insert t (w.token t).raise
    cancellations := w.cancellations.insert k ⟨t, .raised⟩
    nextCancellation := k + 1 }

/-- A cancellation notes the wakers. -/
def collect (w : World P) (k : Nat) (t : TokenId) : World P :=
  { w with cancellations := w.cancellations.insert k ⟨t, .running (w.token t).wakers⟩ }

variable [DecidableEq ι]

/-- The calls after those asleep at `place` have been woken, if they have. -/
def callsAfter (w : World P) (place : ι) (notify : Bool) : SortedMap Nat (Call P) :=
  w.calls.mapValues fun call =>
    { call with phase := call.phase.nudged (notify && call.place = place) }

end World

/-! ## Steps -/

variable [DecidableEq ι]

/-- A step of the call with number `c`. -/
inductive CallStep (w : World P) (c : Nat) : World P → Prop
  | enter {call : Call P} {intent : Intent (P call.place)} (hget : w.calls.get? c = some call)
      (hphase : call.phase.intent? = some intent) (hfree : w.mutex call.place = none) :
      CallStep w c { w with
        mutex := Function.update w.mutex call.place (some (.call c))
        calls := w.calls.insert c { call with phase := .inside intent } }
  | read {call : Call P} {intent : Intent (P call.place)} (hget : w.calls.get? c = some call)
      (hphase : call.phase = .inside intent) :
      CallStep w c { w with
        calls := w.calls.insert c { call with phase := .informed intent (w.isCancelled call) } }
  /-- It looks, and gives the mutex back. -/
  | look {call : Call P} {intent : Intent (P call.place)} {cancelled : Bool} (now : Instant)
      {look : Look (P call.place).State (P call.place).Memory (P call.place).Result}
      (hget : w.calls.get? c = some call) (hphase : call.phase = .informed intent cancelled)
      (hlook : look = intent.look ⟨now, cancelled⟩ (w.shared call.place)) :
      CallStep w c { w with
        shared := Function.update w.shared call.place look.state
        mutex := Function.update w.mutex call.place none
        calls := (w.callsAfter call.place look.notify).insert c
          { call with phase := .ofFate look.fate } }
  /-- It gives its registration back and returns. -/
  | leave {call : Call P} {result : (P call.place).Result} (hget : w.calls.get? c = some call)
      (hphase : call.phase = .leaving result) :
      CallStep w c { w with
        tokens := w.deregister call.registration
        calls := w.calls.erase c }
  /-- It is woken because its time has come, or for no reason. -/
  | wake {call : Call P} {memory : (P call.place).Memory} {woken : Bool}
      (hget : w.calls.get? c = some call) (hphase : call.phase = .asleep memory woken) :
      CallStep w c { w with
        calls := w.calls.insert c { call with phase := .asleep memory true } }

/-- A step of the cancellation of `t` with number `k`. -/
inductive CancelStep (w : World P) (k : Nat) (t : TokenId) : World P → Prop
  | raise (hnew : k = w.nextCancellation) : CancelStep w k t (w.raise k t)
  | collect (hget : w.cancellations.get? k = some ⟨t, .raised⟩) : CancelStep w k t (w.collect k t)
  | seize {wakers : List ι} (place : ι) (hget : w.cancellations.get? k = some ⟨t, .running wakers⟩)
      (hmem : place ∈ wakers) (hfree : w.mutex place = none) :
      CancelStep w k t { w with
        mutex := Function.update w.mutex place (some (.cancellation k)) }
  | notify {wakers : List ι} (place : ι)
      (hget : w.cancellations.get? k = some ⟨t, .running wakers⟩)
      (hmutex : w.mutex place = some (.cancellation k)) :
      CancelStep w k t { w with
        mutex := Function.update w.mutex place none
        calls := w.callsAfter place true
        cancellations := w.cancellations.insert k ⟨t, .running (wakers.erase place)⟩ }

inductive Step (w : World P) : World P → Prop
  /-- A call starts: it registers. -/
  | start (place : ι) (token : Option TokenId) (request : (P place).Request) :
      Step w { w with
        tokens := (w.register place token).1
        calls := w.calls.insert w.nextCall ⟨place, (w.register place token).2, .arriving request⟩
        nextCall := w.nextCall + 1 }
  | call {c : Nat} {w' : World P} (h : CallStep w c w') : Step w w'
  | cancel {k : Nat} {t : TokenId} {w' : World P} (h : CancelStep w k t w') : Step w w'
  /-- Something else happens at a place. -/
  | act (place : ι) (state : (P place).State) (notify : Bool) (hfree : w.mutex place = none) :
      Step w { w with
        shared := Function.update w.shared place state
        calls := w.callsAfter place notify }

/-- The worlds that are reached from one in which nobody has done anything. -/
inductive Reachable : World P → Prop
  | fresh (shared : (place : ι) → (P place).State) : Reachable (.fresh shared)
  | step {w w' : World P} (h : Reachable w) (hstep : Step w w') : Reachable w'

end WalStore.Cancel

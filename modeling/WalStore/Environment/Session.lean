import WalStore.Environment.Script
import WalStore.Monitor.Session

/-!
# Sessions with an environment

A session runs environments over one store, one step at a time. Steps are numbered, and a call
has the number of the step that starts it. After each step calls go on until all of them have
returned or sleep. Time stands still but for `advance`.

**Names.** Transactions have names. While a call of a transaction is in progress its name is
busy; when the call returns, the transaction is put back under its name. A transaction whose name
is taken by another is dropped.

**Opening.** Opening an environment first winds down the one before: calls that wait are
cancelled, all transactions are dropped, and nothing of that is reported.
-/

namespace WalStore.Environment

/-- What stands under a name. -/
inductive Slot where
  | idle (txn : TxnId)
  | busy
  deriving DecidableEq

/-- On whose behalf a call is made. -/
inductive Client where
  | nobody
  | named (name : String) (txn : TxnId)
  | script (s : Script)

/-- What becomes of a call. -/
inductive Outcome where
  | single (result : Result)
  | scripted (answers : List Answer) (result : Except Error TxnId)

abbrev Report := Monitor.Report Outcome

/-- What a step answers. -/
inductive Reply where
  /-- No environment is open. -/
  | noEnvironment
  /-- No transaction has this name. -/
  | noTransaction
  | busy
  | nothing
  | result (r : Except Error Unit)
  | begun (r : Except Error TxnId)
  /-- The outcome of the step's own call, if it has returned. -/
  | call

/-- The store and the environment on it, and what the names and numbers of a session stand for. -/
structure Session where
  env : Option Environment
  /-- The store, while no environment works on it. -/
  backing : Store
  /-- Whether the environment works on the store, and not on one of its own. -/
  attached : Bool
  /-- Whether the store is a plain file, for which no failure can be planned. -/
  plain : Bool
  now : Instant
  /-- The number of the next step. -/
  step : Nat
  slots : SortedMap String Slot
  /-- The transaction last begun under each name. -/
  latest : SortedMap String TxnId
  clients : SortedMap Nat Client

namespace Session

/-- No environment is open yet. -/
def ofBytes (bytes : Bytes) (plain : Bool) : Session :=
  ⟨none, .ofBytes bytes, false, plain, 0, 0, ∅, ∅, ∅⟩

/-- The store as it is now. -/
def store (s : Session) : Store :=
  match s.env with
  | some env => if s.attached then env.log.store else s.backing
  | none => s.backing

/-- Replaces the store behind the environment's back. -/
def setStore (s : Session) (store : Store) : Session :=
  match s.env with
  | some env =>
    if s.attached then { s with env := some { env with log := { env.log with store } } }
    else { s with backing := store }
  | none => { s with backing := store }

/-! ## Going on -/

/-- Lets go of the transaction under a name, if one stands there. -/
def vacate (s : Session) (env : Environment) (name : String) : Environment :=
  match s.slots.get? name with
  | some (.idle txn) => env.drop txn
  | _ => env

/-- A call has returned to its client. -/
def returned (s : Session) (env : Environment) (id : Nat) (result : Result) :
    Session × Option Outcome :=
  match s.clients.get? id with
  | none | some .nobody =>
    ({ s with env := some env, clients := s.clients.erase id }, some (.single result))
  | some (.named name txn) =>
    ({ s with
        env := some (s.vacate env name)
        slots := s.slots.insert name (.idle txn)
        clients := s.clients.erase id }, some (.single result))
  | some (.script script) =>
    match script.resume (env.txn script.txn).isActive result with
    | .call script op =>
      ({ s with env := some (env.start id op), clients := s.clients.insert id (.script script) },
        none)
    | .over result =>
      ({ s with env := some (env.drop script.txn), clients := s.clients.erase id },
        some (.scripted script.answers result))

/-- At most `fuel` steps of calls, and what returned. -/
def settleWithin : Nat → Session → Session × List (Nat × Outcome)
  | 0, s => (s, [])
  | fuel + 1, s =>
    match s.env.bind fun env => env.firstReady?.map (env, ·) with
    | none => (s, [])
    | some (env, id) =>
      let (env, result) := env.step id
      let (s, outcome) := match result with
        | none => ({ s with env := some env }, none)
        | some result => s.returned env id result
      let (s, later) := settleWithin fuel s
      (s, (outcome.toList.map (id, ·)) ++ later)

/-- How many operations a client may still start. -/
def Client.pending : Client → Nat
  | .script script => script.todo.length + 2
  | _ => 0

/-- More steps than it takes until all calls have returned or sleep. -/
def patience (s : Session) : Nat :=
  let work := s.clients.size + s.clients.total Client.pending + 2
  8 * work * work

/-- All calls go on until they have returned or sleep. -/
def settle (s : Session) : Session × List (Nat × Outcome) := settleWithin s.patience s

/-- Ends a step. -/
def rest (s : Session) (reply : Reply) : Session × Reply × Report :=
  let (s, results) := s.settle
  ({ s with step := s.step + 1 }, reply, .ofResults s.step results)

/-- Ends a step that did nothing. -/
def refuse (s : Session) (reply : Reply) : Session × Reply × Report :=
  ({ s with step := s.step + 1 }, reply, ⟨none, []⟩)

/-! ## Opening -/

/-- Cancels the transactions last begun under their names, and those of scripts. -/
def cancelAll (s : Session) (env : Environment) : Environment :=
  let scripts := s.clients.values.filterMap fun
    | .script script => some script.txn
    | _ => none
  (s.latest.values ++ scripts).foldl cancel env

/-- Drops the transactions that have names, and lets calls go on. -/
def dropAll (s : Session) : Session :=
  let env := s.env.map fun env => s.slots.keys.foldl (fun env name => s.vacate env name) env
  (settle { s with env, slots := ∅ }).1

/-- Ends what is under way and gives up the environment. A transaction whose call was waiting for
others is dropped when the call has returned. -/
def windDown (s : Session) : Session :=
  let s := (settle { s with env := s.env.map s.cancelAll }).1
  let s := s.clients.keys.foldl (fun s _ => s.dropAll) s.dropAll
  { s with
    env := none, backing := s.store, attached := false, slots := ∅, latest := ∅, clients := ∅ }

/-- Opens an environment over the store, with failures planned. -/
def openStored (s : Session) (config : Config) (plan : FaultPlan) : Session × Reply × Report :=
  let s := s.windDown
  let store := if s.plain then s.backing else s.backing.rearmed plan
  match openOn config store s.now with
  | .ok env => { s with env := some env, attached := true }.rest (.result (.ok ()))
  | .error (e, store) => { s with backing := store }.rest (.result (.error e))

/-- Opens an environment over an empty store of its own. -/
def openPrivate (s : Session) : Session × Reply × Report :=
  let s := s.windDown
  match openOn .standard .empty s.now with
  | .ok env => { s with env := some env }.rest (.result (.ok ()))
  | .error (e, _) => s.rest (.result (.error e))

/-! ## Steps of an open environment -/

/-- A step that needs an environment. -/
def withEnv (s : Session) (f : Environment → Session × Reply × Report) : Session × Reply × Report :=
  match s.env with
  | none => s.refuse .noEnvironment
  | some env => f env

/-- A step that needs the transaction under a name. -/
def withTxn (s : Session) (name : String) (f : Environment → TxnId → Session × Reply × Report) :
    Session × Reply × Report :=
  s.withEnv fun env =>
    match s.slots.get? name with
    | none => s.refuse .noTransaction
    | some .busy => s.refuse .busy
    | some (.idle txn) => f env txn

/-- Begins a transaction under a name. One that stands there is dropped after that. -/
def begin (s : Session) (name : String) (config : TxnConfig) : Session × Reply × Report :=
  s.withEnv fun env =>
    match env.begin config with
    | (env, .error e) => { s with env := some env }.rest (.begun (.error e))
    | (env, .ok txn) =>
      { s with
        env := some (s.vacate env name)
        slots := s.slots.insert name (.idle txn)
        latest := s.latest.insert name txn }.rest (.begun (.ok txn))

/-- Tells the transaction under a name to do something. -/
def use (s : Session) (name : String) (part : Part) : Session × Reply × Report :=
  s.withTxn name fun env txn =>
    { s with
      env := some (env.start s.step (part.op txn))
      slots := s.slots.insert name .busy
      clients := s.clients.insert s.step (.named name txn) }.rest .call

/-- Drops the transaction under a name. -/
def drop (s : Session) (name : String) : Session × Reply × Report :=
  s.withTxn name fun env txn =>
    { s with env := some (env.drop txn), slots := s.slots.erase name }.rest .nothing

/-- Cancels the token of the transaction last begun under a name. -/
def cancel (s : Session) (name : String) : Session × Reply × Report :=
  s.withEnv fun env =>
    { s with env := some ((s.latest.get? name).elim env env.cancel) }.rest .nothing

/-- Starts an operation outside any transaction. -/
def direct (s : Session) (op : Op) : Session × Reply × Report :=
  s.withEnv fun env =>
    { s with
      env := some (env.start s.step op)
      clients := s.clients.insert s.step .nobody }.rest .call

/-- Begins a transaction and runs it to its end. -/
def script (s : Session) (config : TxnConfig) (parts : List Part) (failure : Option String) :
    Session × Reply × Report :=
  s.withEnv fun env =>
    match env.begin config with
    | (env, .error e) =>
      let (s, reply, report) := { s with env := some env }.rest .call
      (s, reply, { report with own := some (.scripted [] (.error e)) })
    | (env, .ok txn) =>
      let script : Script := ⟨txn, parts, [], failure, .committing⟩
      match script.proceed true with
      | .call script op =>
        { s with
          env := some (env.start s.step op)
          clients := s.clients.insert s.step (.script script) }.rest .call
      | .over result =>
        let (s, reply, report) := { s with env := some (env.drop txn) }.rest .call
        (s, reply, { report with own := some (.scripted [] result) })

/-- Closes the environment. -/
def close (s : Session) : Session × Reply × Report :=
  s.withEnv fun env =>
    let (env, r) := env.close
    { s with env := some env }.rest (.result r)

/-- Wakes one call and lets all go on. -/
def nudge (s : Session) (results : List (Nat × Outcome)) (id : Nat) :
    Session × List (Nat × Outcome) :=
  let env := s.env.map fun env => { env with locks := env.locks.wake id }
  let (s, more) := { s with env }.settle
  (s, results ++ more)

/-- Time passes: the calls asleep look again one after another, and all that one of them sets
off comes to rest before the next. -/
def advance (s : Session) (length : Duration) : Session × Reply × Report :=
  s.withEnv fun env =>
    let now := s.now + length
    let asleep := env.locks.sleepers.keys
    let (s, results) := asleep.foldl (fun (s, results) id => s.nudge results id)
      ({ s with env := some { env with now }, now }, [])
    ({ s with step := s.step + 1 }, .nothing, .ofResults s.step results)

end Session
end WalStore.Environment

import WalStore.Environment

/-!
# Calls

How a call gets from its start to its result, step by step. `start` enters a call, and each
`step` takes it one stage further: it checks that it may go on, it asks for its lock, it looks
again for the lock it waits for, it reads or logs, it releases. Steps of different calls may
come in any order; a call has no step while it is asleep.

**Admission.** Whether the environment is open is asked once, before anything else is done. What
happens after that, the environment's closing included, does not take the admission back.

**Commit.** A commit logs its record, counts as committed from then on, is made durable if the
settings say so, and only then releases its locks. A transaction that has to abort is aborted
by its commit, which then reports why.
-/

namespace WalStore.Environment

/-- The result of a call. -/
abbrev Result := Except Error Answer

/-- A call has got as far as a stage and has no result yet. -/
def setStage (env : Environment) (id : Nat) (call : Call) (stage : Stage) :
    Environment × Option Result :=
  ({ env with calls := env.calls.insert id { call with stage } }, none)

/-- The call is over. -/
def finish (env : Environment) (id : Nat) (call : Call) (result : Result) :
    Environment × Option Result :=
  (({ env with calls := env.calls.erase id }).stopTimer call.timer, some result)

/-! ## Locks -/

/-- The request of a call has been answered. An error the transaction cannot outlive marks it. -/
def answered (env : Environment) (id : Nat) (call : Call) (owner : TxnId) (timer : Latency.Ticket) :
    LockState.Outcome → Environment × Option Result
  | .error e =>
    ((env.stopTimer (some timer)).modifyTxn owner (·.note e)).finish id call (.error e)
  | .ok grant =>
    let env := env.stopTimer (some timer)
    match call.op with
    | .lock .. => env.finish id call (.ok (.grant grant))
    | _ => env.setStage id call (.granted owner grant)

/-- A call asks for its lock. -/
def ask (env : Environment) (id : Nat) (call : Call) (owner : TxnId) (deadlines : Deadlines)
    (token : Option TokenId) : Environment × Option Result :=
  let (env, timer) := env.startTimer .lockWait
  let request := ⟨owner, ⟨call.op.key⟩, call.op.mode, deadlines⟩
  let (locks, outcome) := env.locks.enter LockState.discipline env.now id token request
  let env := { env with locks }
  match outcome with
  | none => env.setStage id call (.waiting owner timer)
  | some outcome => env.answered id call owner timer outcome

/-- A call whose request has been woken looks again. -/
def lookAgain (env : Environment) (id : Nat) (call : Call) (owner : TxnId)
    (timer : Latency.Ticket) : Environment × Option Result :=
  let (locks, outcome) := env.locks.recheck LockState.discipline env.now id
  let env := { env with locks }
  match outcome with
  | none => (env, none)
  | some outcome => env.answered id call owner timer outcome

/-! ## Resolutions -/

/-- An active transaction is aborted. The call reports `cause`, if there is one, unless the
abort could not be logged. -/
def enterAbort (env : Environment) (id : Nat) (call : Call) (t : Transaction)
    (cause : Option Error) : Environment × Option Result :=
  let (env, timer) := env.startTimer .abort
  let (env, logged) := if 0 < t.writes then env.append (.abort t.id) else (env, .ok .zero)
  let env := env.modifyTxn t.id ({ · with state := .aborted })
  let result : Result := match logged, cause with
    | .error e, _ => .error e
    | .ok _, some e => .error e
    | .ok _, none => .ok .done
  env.setStage id { call with timer := some timer } (.releasing t.id result)

/-- A transaction that may go on is committed. -/
def enterCommit (env : Environment) (id : Nat) (call : Call) (t : Transaction) :
    Environment × Option Result :=
  let (env, timer) := env.startTimer .commit
  let call := { call with timer := some timer }
  if 0 < t.writes then
    match env.append (.commit t.id) with
    | (env, .error e) => env.finish id call (.error e)
    | (env, .ok lsn) =>
      let env := env.modifyTxn t.id ({ · with state := .committed })
      let (log, synced) := if env.config.syncOnCommit then env.log.sync else (env.log, .ok ())
      ({ env with log }).setStage id call
        (.releasing t.id (synced.map fun _ => .committed (some lsn)))
  else
    (env.modifyTxn t.id ({ · with state := .committed })).setStage id call
      (.releasing t.id (.ok (.committed none)))

/-! ## Stages -/

/-- The first step of a call: it checks that it may go on. An abort asks no more than that its
transaction is active. -/
def enter (env : Environment) (id : Nat) (call : Call) : Environment × Option Result :=
  match call.op.txn? with
  | none =>
    match env.checkOpen with
    | .error e => env.finish id call (.error e)
    | .ok () => env.setStage id call (.admitted none)
  | some txn =>
    let t := env.txn txn
    match call.op with
    | .abort _ =>
      match t.checkActive with
      | .error e => env.finish id call (.error e)
      | .ok () => env.setStage id call (.admitted none)
    | op =>
      match env.checkOpen with
      | .error e => env.finish id call (.error e)
      | .ok () =>
        let (t, usable) := t.checkUsable env.now
        let env := env.modifyTxn txn fun _ => t
        match op, usable with
        | _, .ok () => env.setStage id call (.admitted none)
        | .commit _, .error e =>
          if t.isActive then env.setStage id call (.admitted (some e))
          else env.finish id call (.error e)
        | _, .error e => env.finish id call (.error e)

/-- What a call does that has been admitted: it resolves its transaction, or asks for its lock.
Whoever makes a call has the transaction for itself, so the transaction is active still. -/
def proceed (env : Environment) (id : Nat) (call : Call) (cause : Option Error) :
    Environment × Option Result :=
  match call.op.txn? with
  | none =>
    let (env, locker) := env.takeId
    env.ask id call locker (.starting env.now env.config.lockTimeout env.now none) none
  | some txn =>
    let t := env.txn txn
    match t.checkActive with
    | .error e => env.finish id call (.error e)
    | .ok () =>
      match call.op, cause with
      | .commit _, none => env.enterCommit id call t
      | .commit _, cause | .abort _, cause => env.enterAbort id call t cause
      | op, _ =>
        env.ask id call txn (t.deadlines env.now op.timeout) (some (Transaction.tokenOf txn))

/-- What a call does once it has its lock. -/
def work (env : Environment) (id : Nat) (call : Call) (owner : TxnId) (grant : Grant) :
    Environment × Option Result :=
  match call.op.entry?, call.op.txn? with
  | some entry, none =>
    let (env, logged) := env.append entry
    env.setStage id call (.releasing owner (logged.map .logged))
  | some entry, some txn =>
    match env.append entry with
    | (env, .error e) => env.finish id call (.error e)
    | (env, .ok lsn) =>
      (env.modifyTxn txn fun t => { t with writes := t.writes + 1 }).finish id call
        (.ok (.logged lsn))
  | none, _ =>
    let result := .ok (.values (env.valuesFor owner call.op.key))
    if (env.txn owner).isolation = .readCommitted ∧ grant.isNew then
      env.setStage id call (.releasing owner result)
    else env.finish id call result

/-- A call that has its result releases its locks: a read gives one lock back, a write outside
transactions and a resolution all that their owner holds. -/
def release (env : Environment) (id : Nat) (call : Call) (owner : TxnId) (result : Result) :
    Environment × Option Result :=
  match call.op with
  | .get _ key =>
    let env := { env with locks := (env.locks.act (LockState.release owner ⟨key⟩)).1 }
    env.finish id call result
  | .commit _ | .abort _ =>
    ((env.releaseAll owner).countResolved (env.txn owner).state).finish id call result
  | _ => (env.releaseAll owner).finish id call result

/-- Enters a call under a number of its own. -/
def start (env : Environment) (id : Nat) (op : Op) : Environment :=
  let (env, timer) := match op.timedAs? with
    | none => (env, none)
    | some kind =>
      let (env, ticket) := env.startTimer kind
      (env, some ticket)
  { env with calls := env.calls.insert id ⟨op, timer, .entered⟩ }

/-- One step of a call. Answers its result if that was the last one. -/
def step (env : Environment) (id : Nat) : Environment × Option Result :=
  match env.calls.get? id with
  | none => (env, none)
  | some call =>
    match call.stage with
    | .entered => env.enter id call
    | .admitted cause => env.proceed id call cause
    | .waiting owner timer => env.lookAgain id call owner timer
    | .granted owner grant => env.work id call owner grant
    | .releasing owner result => env.release id call owner result

/-! ## Who is next -/

/-- Whether a call can take a step. -/
def isReady (env : Environment) (id : Nat) (call : Call) : Bool :=
  match call.stage with
  | .waiting .. => (env.locks.sleepers.get? id).any (·.woken)
  | _ => true

/-- The call that goes on first if all are let run: of those that can take a step the one that
entered first, except that whoever has been woken looks for its lock before the others go on. -/
def firstReady? (env : Environment) : Option Nat :=
  let ready := env.calls.entries.filter fun e => env.isReady e.1 e.2
  let woken := ready.filter fun e => (env.locks.sleepers.get? e.1).isSome
  (woken.head?.or ready.head?).map (·.1)

end WalStore.Environment

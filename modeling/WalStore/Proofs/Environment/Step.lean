import WalStore.Environment.Call
import WalStore.Proofs.Monitor

/-!
# What a step of a call comes to

A call does one of seventeen things at a step (`Step`), and each of them is one constructor that
says what becomes of the environment and under which conditions it happens. The trackers and
counters play no part in anything else and are left open.

The transactions of an environment are found under their own ids (`Named`), which every step of a
call relies on and keeps.
-/

namespace WalStore

/-! ## Marks -/

namespace Transaction

/-- `t'` is `t`, or it is `t` with its first mark. -/
def MarkOf (t t' : Transaction) : Prop :=
  t' = t ∨ t.mustAbort = none ∧ ∃ reason, t' = { t with mustAbort := some reason }

variable (t : Transaction)

theorem markOf_mark (e : Error) : t.MarkOf (t.mark e) := by
  unfold mark
  split
  · exact .inl rfl
  · next h => exact .inr ⟨h, _, rfl⟩

theorem markOf_note (e : Error) : t.MarkOf (t.note e) := by
  unfold note
  split
  · exact t.markOf_mark e
  · exact .inl rfl

theorem markOf_checkTime (now : Instant) : t.MarkOf (t.checkTime now) := by
  unfold checkTime
  split
  · split
    · exact t.markOf_mark _
    · exact .inl rfl
  · exact .inl rfl

/-- A transaction is of no use because it is not active or has to abort, or it may go on. -/
theorem checkUsable_cases (now : Instant) :
    (t.isActive = false ∧ ∃ e, t.checkUsable now = (t, .error e)) ∨
      (t.isActive = true ∧ ∃ t' e, t.MarkOf t' ∧ t.checkUsable now = (t', .error e)) ∨
      t.isActive = true ∧ t.checkUsable now = (t, .ok ()) := by
  cases hactive : t.isActive with
  | false =>
    refine .inl ⟨rfl, .invalidOperation (.notActive t.id t.state), ?_⟩
    rw [checkUsable, checkActive, hactive]
    rfl
  | true =>
    have hcheck : t.checkActive = .ok () := by
      rw [checkActive, hactive]
      rfl
    right
    rw [checkUsable, hcheck]
    dsimp only
    rcases t.markOf_checkTime now with hmark | ⟨-, reason, hmark⟩
    · cases hreason : (t.checkTime now).mustAbort with
      | some reason => exact .inl ⟨rfl, _, _, .inl hmark, rfl⟩
      | none => exact .inr ⟨rfl, by rw [hmark]⟩
    · have hreason : (t.checkTime now).mustAbort = some reason := by rw [hmark]
      rw [hreason]
      exact .inl ⟨rfl, _, _, t.markOf_checkTime now, rfl⟩

end Transaction

namespace Environment

/-! ## Small changes -/

variable (env : Environment)

theorem startTimer_eq (kind : OpKind) : ∃ tracker ticket,
    env.startTimer kind = ({ env with tracker }, ticket) := ⟨_, _, rfl⟩

theorem stopTimer_eq (timer : Option Latency.Ticket) : ∃ tracker,
    env.stopTimer timer = { env with tracker } := by
  cases timer <;> exact ⟨_, rfl⟩

theorem finish_eq (id : Nat) (call : Call) (result : Result) : ∃ tracker,
    env.finish id call result =
      ({ env with calls := env.calls.erase id, tracker }, some result) := by
  obtain ⟨tracker, h⟩ := stopTimer_eq { env with calls := env.calls.erase id } call.timer
  exact ⟨tracker, by rw [finish, h]⟩

theorem countResolved_eq (state : TxnState) : ∃ counters,
    env.countResolved state = { env with counters } := by
  cases state <;> exact ⟨_, rfl⟩

theorem modifyTxn_eq (txn : TxnId) (f : Transaction → Transaction) :
    env.modifyTxn txn f = { env with txns := (env.modifyTxn txn f).txns } := by
  unfold modifyTxn
  split <;> rfl

theorem get?_modifyTxn (txn x : TxnId) (f : Transaction → Transaction) :
    (env.modifyTxn txn f).txns.get? x =
      if x = txn then (env.txns.get? x).map f else env.txns.get? x := by
  unfold modifyTxn
  split
  · next t ht =>
    rw [SortedMap.get?_insert]
    split
    · next h => rw [h, ht, Option.map_some]
    · rfl
  · next hnone =>
    split
    · next h => rw [h, hnone, Option.map_none]
    · rfl

theorem txn_eq_of_get? {env : Environment} {id : TxnId} {t : Transaction}
    (h : env.txns.get? id = some t) : env.txn id = t := by
  rw [txn, SortedMap.getD, h, Option.getD_some]

theorem txn_congr {env env' : Environment} {id : TxnId}
    (h : env'.txns.get? id = env.txns.get? id) : env'.txn id = env.txn id := by
  rw [txn, txn, SortedMap.getD, SortedMap.getD, h]

theorem get?_of_isActive {env : Environment} {id : TxnId} (h : (env.txn id).isActive = true) :
    env.txns.get? id = some (env.txn id) := by
  unfold txn SortedMap.getD at h ⊢
  cases hget : env.txns.get? id with
  | none =>
    rw [hget] at h
    cases h
  | some t => rfl

/-- Every transaction stands under its own id. -/
def Named (env : Environment) : Prop := ∀ id t, env.txns.get? id = some t → t.id = id

/-! ## Changes of transactions -/

/-- The transactions are the same, except that some that had no mark have got one. -/
def Marked (txns txns' : SortedMap TxnId Transaction) : Prop :=
  ∀ id, txns'.get? id = txns.get? id ∨
    ∃ t t', txns.get? id = some t ∧ t.MarkOf t' ∧ txns'.get? id = some t'

theorem Marked.refl (txns : SortedMap TxnId Transaction) : Marked txns txns := fun _ => .inl rfl

theorem marked_modifyTxn {txn : TxnId} {f : Transaction → Transaction}
    (hf : ∀ t, env.txns.get? txn = some t → t.MarkOf (f t)) :
    Marked env.txns (env.modifyTxn txn f).txns := by
  intro id
  rw [get?_modifyTxn]
  split
  · next h =>
    rw [h]
    cases hget : env.txns.get? txn with
    | none => exact .inl rfl
    | some t => exact .inr ⟨t, f t, rfl, hf t hget, rfl⟩
  · exact .inl rfl

theorem Marked.state_txn {env env' : Environment} (h : Marked env.txns env'.txns) (id : TxnId) :
    (env'.txn id).state = (env.txn id).state := by
  rcases h id with heq | ⟨t, t', ht, hmark, ht'⟩
  · rw [txn_congr heq]
  · rw [txn_eq_of_get? ht, txn_eq_of_get? ht']
    rcases hmark with rfl | ⟨-, reason, rfl⟩ <;> rfl

theorem Marked.named {env env' : Environment} (h : Marked env.txns env'.txns)
    (hnamed : env.Named) : env'.Named := by
  intro id t' ht'
  rcases h id with heq | ⟨t₀, t₁, ht₀, hmark, ht₁⟩
  · exact hnamed id t' (heq.symm.trans ht')
  · obtain rfl : t₁ = t' := Option.some.inj (ht₁.symm.trans ht')
    rw [← hnamed id t₀ ht₀]
    rcases hmark with rfl | ⟨-, reason, rfl⟩ <;> rfl

/-- Counting a write of a transaction leaves its state. -/
theorem state_txn_of_write {env env' : Environment} {txn : TxnId}
    (h : ∀ x, env'.txns.get? x = if x = txn then (env.txns.get? x).map fun t =>
      { t with writes := t.writes + 1 } else env.txns.get? x) (id : TxnId) :
    (env'.txn id).state = (env.txn id).state := by
  rw [Environment.txn, Environment.txn, SortedMap.getD, SortedMap.getD, h]
  split
  · cases env.txns.get? id <;> rfl
  · rfl

/-- The active transaction `txn` has got its final state, the others are the same. -/
def Resolves (txn : TxnId) (state : TxnState) (txns txns' : SortedMap TxnId Transaction) : Prop :=
  (∃ t t', txns.get? txn = some t ∧ t.state = .active ∧ t.MarkOf t' ∧
    txns'.get? txn = some { t' with state }) ∧
    ∀ id, id ≠ txn → txns'.get? id = txns.get? id

theorem modifyTxn_self (txn : TxnId) : env.modifyTxn txn (fun _ => env.txn txn) = env := by
  unfold modifyTxn
  split
  · next t ht =>
    have hself : env.txns.insert txn (env.txn txn) = env.txns := by
      refine SortedMap.ext_get? fun id => ?_
      rw [SortedMap.get?_insert, txn_eq_of_get? ht]
      split
      · next h => rw [h, ht]
      · rfl
    rw [hself]
  · rfl

theorem resolves_modifyTxn {env env₁ : Environment} {txn : TxnId} {t' : Transaction}
    {state : TxnState} (hactive : (env.txn txn).isActive = true)
    (hmark : (env.txn txn).MarkOf t')
    (htxns : env₁.txns = (env.modifyTxn txn fun _ => t').txns) :
    Resolves txn state env.txns (env₁.modifyTxn txn ({ · with state })).txns := by
  have hget := get?_of_isActive hactive
  refine ⟨⟨env.txn txn, t', hget, ?_, hmark, ?_⟩, fun id hid => ?_⟩
  · exact of_decide_eq_true hactive
  · rw [get?_modifyTxn, if_pos rfl, htxns, get?_modifyTxn, if_pos rfl, hget]
    rfl
  · rw [get?_modifyTxn, if_neg hid, htxns, get?_modifyTxn, if_neg hid]

/-! ## Logging -/

/-- What logging an entry comes to, for the log and the state. -/
inductive Logged (log : Log) (state : Replay.State) (entry : Entry) :
    Log → Replay.State → Except Error Lsn → Prop
  | failed {log' : Log} {e : Error} (happend : log.append entry = (log', .error e)) :
      Logged log state entry log' state (.error e)
  /-- The record does not follow the last one. -/
  | refused {log' : Log} {lsn : Lsn} {e : Error} (happend : log.append entry = (log', .ok lsn))
      (happly : state.apply ⟨lsn, entry⟩ = .error e) : Logged log state entry log' state (.error e)
  | applied {log' : Log} {lsn : Lsn} {state' : Replay.State}
      (happend : log.append entry = (log', .ok lsn))
      (happly : state.apply ⟨lsn, entry⟩ = .ok state') :
      Logged log state entry log' state' (.ok lsn)

/-- Logging an entry leaves the state as it is, or applies the entry. -/
theorem Logged.state_cases {log log' : Log} {state state' : Replay.State} {entry : Entry}
    {logged : Except Error Lsn} (h : Logged log state entry log' state' logged) :
    state' = state ∨ ∃ lsn, logged = .ok lsn ∧ state.apply ⟨lsn, entry⟩ = .ok state' := by
  cases h with
  | failed => exact .inl rfl
  | refused => exact .inl rfl
  | applied _ happly => exact .inr ⟨_, rfl, happly⟩

/-- What could not be logged changes no state. -/
theorem Logged.state_eq {log log' : Log} {state state' : Replay.State} {entry : Entry} {e : Error}
    (h : Logged log state entry log' state' (.error e)) : state' = state := by
  cases h <;> rfl

theorem append_spec (entry : Entry) : ∃ log state result counters,
    env.append entry = ({ env with log, state, counters }, result) ∧
      Logged env.log env.state entry log state result := by
  unfold append
  split
  · next happend => exact ⟨_, _, _, _, rfl, .failed happend⟩
  · next happend =>
    split
    · next happly => exact ⟨_, _, _, _, rfl, .refused happend happly⟩
    · next happly => exact ⟨_, _, _, _, rfl, .applied happend happly⟩

/-! ## Steps -/

/-- Whether an operation does nothing but lock. -/
def Op.isLock : Op → Bool
  | .lock .. => true
  | _ => false

/-- Whether an operation resolves its transaction. Such an operation asks for no lock. -/
def Op.resolves : Op → Bool
  | .commit _ | .abort _ => true
  | _ => false

/-- Whether a call has not asked for its lock yet, nor resolved its transaction. -/
def Stage.isEarly : Stage → Bool
  | .entered | .admitted _ => true
  | .waiting .. | .granted .. | .releasing .. => false

theorem Op.txn?_eq_of_entry? {op : Op} {entry : Entry} (h : op.entry? = some entry) :
    op.txn? = entry.txn? := by
  cases op <;> cases h <;> rfl

/-- How a call gets an answer from the lock manager, or none: it asks for its lock, or looks again.
With the owner of the lock come the next id, the locks and the answer. -/
inductive Asks (env : Environment) (id : Nat) (call : Call) :
    TxnId → TxnId → LockManager → Option LockState.Outcome → Prop
  /-- A write outside transactions asks for a locker of its own. -/
  | direct {cause : Option Error} {deadlines : Deadlines} (hstage : call.stage = .admitted cause)
      (htxn : call.op.txn? = none) :
      Asks env id call env.nextTxn env.nextTxn.next
        (env.locks.enter LockState.discipline env.now id none
          ⟨env.nextTxn, ⟨call.op.key⟩, call.op.mode, deadlines⟩).1
        (env.locks.enter LockState.discipline env.now id none
          ⟨env.nextTxn, ⟨call.op.key⟩, call.op.mode, deadlines⟩).2
  | inTxn {cause : Option Error} {txn : TxnId} {deadlines : Deadlines} {token : Option TokenId}
      (hstage : call.stage = .admitted cause) (htxn : call.op.txn? = some txn)
      (hactive : (env.txn txn).isActive = true) (hgoes : call.op.resolves = false) :
      Asks env id call txn env.nextTxn
        (env.locks.enter LockState.discipline env.now id token
          ⟨txn, ⟨call.op.key⟩, call.op.mode, deadlines⟩).1
        (env.locks.enter LockState.discipline env.now id token
          ⟨txn, ⟨call.op.key⟩, call.op.mode, deadlines⟩).2
  | again {owner : TxnId} {timer : Latency.Ticket} (hstage : call.stage = .waiting owner timer) :
      Asks env id call owner env.nextTxn (env.locks.recheck LockState.discipline env.now id).1
        (env.locks.recheck LockState.discipline env.now id).2

/-- What the step of the call with number `id` does, and its result. -/
inductive Step (env : Environment) (id : Nat) : Environment → Option Result → Prop
  | idle (hcall : env.calls.get? id = none) : Step env id env none
  /-- It may not go on. -/
  | refuse {call : Call} {e : Error} {txns : SortedMap TxnId Transaction}
      {tracker : Latency.Tracker} (hcall : env.calls.get? id = some call)
      (hstage : call.stage.isEarly = true) (htxns : Marked env.txns txns) :
      Step env id { env with txns, tracker, calls := env.calls.erase id } (some (.error e))
  /-- It may go on. -/
  | accept {call : Call} {cause : Option Error} {txns : SortedMap TxnId Transaction}
      (hcall : env.calls.get? id = some call) (hstage : call.stage = .entered)
      (hactive : ∀ txn, call.op.txn? = some txn → (env.txn txn).isActive = true)
      (htxns : Marked env.txns txns) :
      Step env id { env with
        txns, calls := env.calls.insert id { call with stage := .admitted cause } } none
  /-- Its request is asleep. -/
  | wait {call : Call} {owner nextTxn : TxnId} {locks : LockManager} {timer : Latency.Ticket}
      {tracker : Latency.Tracker} (hcall : env.calls.get? id = some call)
      (hasks : Asks env id call owner nextTxn locks none) :
      Step env id { env with
        nextTxn, locks, tracker
        calls := env.calls.insert id { call with stage := .waiting owner timer } } none
  /-- Its request failed. -/
  | deny {call : Call} {owner nextTxn : TxnId} {locks : LockManager} {e : Error}
      {txns : SortedMap TxnId Transaction} {tracker : Latency.Tracker}
      (hcall : env.calls.get? id = some call)
      (hasks : Asks env id call owner nextTxn locks (some (.error e)))
      (htxns : Marked env.txns txns) :
      Step env id { env with nextTxn, locks, txns, tracker, calls := env.calls.erase id }
        (some (.error e))
  /-- It has the lock that was all it asked for. -/
  | lock {call : Call} {owner nextTxn : TxnId} {locks : LockManager} {g : Grant}
      {tracker : Latency.Tracker} (hcall : env.calls.get? id = some call)
      (hop : call.op.isLock = true)
      (hasks : Asks env id call owner nextTxn locks (some (.ok g))) :
      Step env id { env with nextTxn, locks, tracker, calls := env.calls.erase id }
        (some (.ok (.grant g)))
  /-- It has the lock that it needs. -/
  | take {call : Call} {owner nextTxn : TxnId} {locks : LockManager} {g : Grant}
      {tracker : Latency.Tracker} (hcall : env.calls.get? id = some call)
      (hop : call.op.isLock = false)
      (hasks : Asks env id call owner nextTxn locks (some (.ok g))) :
      Step env id { env with
        nextTxn, locks, tracker
        calls := env.calls.insert id { call with stage := .granted owner g } } none
  /-- Its transaction is aborted, and the abort is logged if there is anything to abort. -/
  | abort {call : Call} {cause : Option Error} {txn : TxnId} {log : Log} {state : Replay.State}
      {result : Result} {timer : Option Latency.Ticket}
      {txns : SortedMap TxnId Transaction} {tracker : Latency.Tracker} {counters : Counters}
      (hcall : env.calls.get? id = some call) (hstage : call.stage = .admitted cause)
      (hop : call.op = .abort txn ∨ call.op = .commit txn ∧ cause ≠ none)
      (hactive : (env.txn txn).isActive = true)
      (hlogged : 0 < (env.txn txn).writes ∧
          (∃ logged, Logged env.log env.state (.abort txn) log state logged) ∨
        (env.txn txn).writes = 0 ∧ log = env.log ∧ state = env.state)
      (htxns : Resolves txn .aborted env.txns txns) :
      Step env id { env with
        log, state, txns, tracker, counters
        calls := env.calls.insert id { call with timer, stage := .releasing txn result } } none
  /-- Its commit could not be logged. -/
  | commitFail {call : Call} {txn : TxnId} {log : Log} {state : Replay.State} {e : Error}
      {tracker : Latency.Tracker} {counters : Counters} (hcall : env.calls.get? id = some call)
      (hstage : call.stage = .admitted none) (hop : call.op = .commit txn)
      (hactive : (env.txn txn).isActive = true) (hwrites : 0 < (env.txn txn).writes)
      (hlogged : Logged env.log env.state (.commit txn) log state (.error e)) :
      Step env id { env with log, state, tracker, counters, calls := env.calls.erase id }
        (some (.error e))
  /-- Its transaction is committed, and the commit is logged if there is anything to commit. -/
  | commit {call : Call} {txn : TxnId} {log log' : Log} {state : Replay.State} {result : Result}
      {timer : Option Latency.Ticket} {txns : SortedMap TxnId Transaction}
      {tracker : Latency.Tracker} {counters : Counters} (hcall : env.calls.get? id = some call)
      (hstage : call.stage = .admitted none) (hop : call.op = .commit txn)
      (hactive : (env.txn txn).isActive = true)
      (hlogged : 0 < (env.txn txn).writes ∧
          (∃ lsn, Logged env.log env.state (.commit txn) log state (.ok lsn)) ∨
        (env.txn txn).writes = 0 ∧ log = env.log ∧ state = env.state)
      (hsync : log' = log ∨ log' = log.sync.1) (htxns : Resolves txn .committed env.txns txns) :
      Step env id { env with
        log := log', state, txns, tracker, counters
        calls := env.calls.insert id { call with timer, stage := .releasing txn result } } none
  /-- A write outside transactions is logged, or fails to be. -/
  | writeNow {call : Call} {owner : TxnId} {g : Grant} {entry : Entry} {log : Log}
      {state : Replay.State} {logged : Except Error Lsn} {counters : Counters}
      (hcall : env.calls.get? id = some call) (hstage : call.stage = .granted owner g)
      (hentry : call.op.entry? = some entry) (htxn : call.op.txn? = none)
      (hlogged : Logged env.log env.state entry log state logged) :
      Step env id { env with
        log, state, counters
        calls := env.calls.insert id
          { call with stage := .releasing owner (logged.map .logged) } } none
  /-- A write of a transaction could not be logged. -/
  | writeFail {call : Call} {owner txn : TxnId} {g : Grant} {entry : Entry} {log : Log}
      {state : Replay.State} {e : Error} {tracker : Latency.Tracker} {counters : Counters}
      (hcall : env.calls.get? id = some call) (hstage : call.stage = .granted owner g)
      (hentry : call.op.entry? = some entry) (htxn : call.op.txn? = some txn)
      (hlogged : Logged env.log env.state entry log state (.error e)) :
      Step env id { env with log, state, tracker, counters, calls := env.calls.erase id }
        (some (.error e))
  /-- A write of a transaction is logged. -/
  | write {call : Call} {owner txn : TxnId} {g : Grant} {entry : Entry} {log : Log}
      {state : Replay.State} {lsn : Lsn} {txns : SortedMap TxnId Transaction}
      {tracker : Latency.Tracker} {counters : Counters} (hcall : env.calls.get? id = some call)
      (hstage : call.stage = .granted owner g) (hentry : call.op.entry? = some entry)
      (htxn : call.op.txn? = some txn)
      (hlogged : Logged env.log env.state entry log state (.ok lsn))
      (htxns : ∀ x, txns.get? x = if x = txn then (env.txns.get? x).map fun t =>
        { t with writes := t.writes + 1 } else env.txns.get? x) :
      Step env id { env with log, state, txns, tracker, counters, calls := env.calls.erase id }
        (some (.ok (.logged lsn)))
  /-- A transaction reads and keeps its lock. -/
  | read {call : Call} {owner : TxnId} {g : Grant} {tracker : Latency.Tracker}
      (hcall : env.calls.get? id = some call) (hstage : call.stage = .granted owner g)
      (hentry : call.op.entry? = none)
      (hkeeps : (env.txn owner).isolation = .readCommitted → g.isNew = false) :
      Step env id { env with tracker, calls := env.calls.erase id }
        (some (.ok (.values (env.valuesFor owner call.op.key))))
  /-- A transaction reads and will give its lock back. -/
  | readOnce {call : Call} {owner : TxnId} {g : Grant} (hcall : env.calls.get? id = some call)
      (hstage : call.stage = .granted owner g) (hentry : call.op.entry? = none)
      (hisolation : (env.txn owner).isolation = .readCommitted) (hnew : g.isNew = true) :
      Step env id { env with
        calls := env.calls.insert id
          { call with
            stage := .releasing owner (.ok (.values (env.valuesFor owner call.op.key))) } } none
  /-- A read gives its lock back. -/
  | giveBack {call : Call} {owner txn : TxnId} {key : Bytes} {result : Result}
      {tracker : Latency.Tracker} (hcall : env.calls.get? id = some call)
      (hstage : call.stage = .releasing owner result) (hop : call.op = .get txn key) :
      Step env id { env with
        locks := (env.locks.act (LockState.release owner ⟨key⟩)).1
        tracker
        calls := env.calls.erase id } (some result)
  /-- The owner is done with all its locks. -/
  | leave {call : Call} {owner : TxnId} {result : Result} {tracker : Latency.Tracker}
      {counters : Counters} (hcall : env.calls.get? id = some call)
      (hstage : call.stage = .releasing owner result)
      (hop : ∀ txn key, call.op ≠ .get txn key) :
      Step env id { env with
        locks := (env.locks.act (LockState.releaseAll owner)).1
        tracker, counters
        calls := env.calls.erase id } (some result)

/-! ## What admitted calls do -/

/-- What a call comes to that has been admitted. -/
inductive Proceeds (env : Environment) (id : Nat) (call : Call) :
    Option Error → Environment × Option Result → Prop
  /-- Its transaction is over. -/
  | ended {cause : Option Error} {txn : TxnId} (htxn : call.op.txn? = some txn)
      (hover : (env.txn txn).isActive = false) :
      Proceeds env id call cause (env.finish id call
        (.error (.invalidOperation (.notActive (env.txn txn).id (env.txn txn).state))))
  /-- It asks for a lock of its own. -/
  | direct {cause : Option Error} (htxn : call.op.txn? = none) :
      Proceeds env id call cause (env.takeId.1.ask id call env.nextTxn
        (.starting env.now env.config.lockTimeout env.now none) none)
  /-- It asks for a lock of its transaction. -/
  | inTxn {cause : Option Error} {txn : TxnId} (htxn : call.op.txn? = some txn)
      (hgoes : call.op.resolves = false) (hactive : (env.txn txn).isActive = true) :
      Proceeds env id call cause (env.ask id call txn
        ((env.txn txn).deadlines env.now call.op.timeout) (some (Transaction.tokenOf txn)))
  | abort {cause : Option Error} {txn : TxnId} (hop : call.op = .abort txn)
      (hactive : (env.txn txn).isActive = true) :
      Proceeds env id call cause (env.enterAbort id call (env.txn txn) cause)
  /-- It commits a transaction that has to abort. -/
  | giveUp {e : Error} {txn : TxnId} (hop : call.op = .commit txn)
      (hactive : (env.txn txn).isActive = true) :
      Proceeds env id call (some e) (env.enterAbort id call (env.txn txn) (some e))
  | commit {txn : TxnId} (hop : call.op = .commit txn) (hactive : (env.txn txn).isActive = true) :
      Proceeds env id call none (env.enterCommit id call (env.txn txn))

theorem proceeds (env : Environment) (id : Nat) (call : Call) (cause : Option Error) :
    Proceeds env id call cause (env.proceed id call cause) := by
  unfold proceed
  cases htxn : call.op.txn? with
  | none => exact .direct htxn
  | some txn =>
    dsimp only
    rw [Transaction.checkActive]
    cases hactive : (env.txn txn).isActive with
    | false => exact .ended htxn hactive
    | true =>
      rw [if_pos rfl]
      dsimp only
      cases hop : call.op with
      | putNow | deleteNow =>
        rw [hop] at htxn
        cases htxn
      | abort t =>
        obtain rfl : t = txn := by simpa [hop, Op.txn?] using htxn
        exact .abort hop hactive
      | commit t =>
        obtain rfl : t = txn := by simpa [hop, Op.txn?] using htxn
        cases cause with
        | none => exact .commit hop hactive
        | some e => exact .giveUp hop hactive
      | put | delete | get | lock =>
        have hasks : Proceeds env id call cause _ := .inTxn htxn (by rw [hop]; rfl) hactive
        rw [hop] at hasks
        exact hasks

/-! ## Every step is one of these -/

section Spec

variable {env : Environment} {id : Nat} {call : Call}

theorem answered_spec (hcall : env.calls.get? id = some call) {owner nextTxn : TxnId}
    {locks : LockManager} {outcome : LockState.Outcome}
    (hasks : Asks env id call owner nextTxn locks (some outcome)) (tracker : Latency.Tracker)
    (timer : Latency.Ticket) :
    Step env id (({ env with nextTxn, locks, tracker }).answered id call owner timer outcome).1
      (({ env with nextTxn, locks, tracker }).answered id call owner timer outcome).2 := by
  unfold answered
  obtain ⟨tracker', hstop⟩ := stopTimer_eq { env with nextTxn, locks, tracker } (some timer)
  rw [hstop]
  cases outcome with
  | error e =>
    dsimp only
    rw [modifyTxn_eq]
    obtain ⟨tracker'', hfinish⟩ := finish_eq { env with
      nextTxn, locks, tracker := tracker'
      txns := (modifyTxn { env with nextTxn, locks, tracker := tracker' } owner (·.note e)).txns }
      id call (.error e)
    rw [hfinish]
    exact .deny hcall hasks (marked_modifyTxn { env with nextTxn, locks, tracker := tracker' }
      fun t _ => t.markOf_note e)
  | ok grant =>
    dsimp only
    have hfinish (result : Result) := finish_eq { env with nextTxn, locks, tracker := tracker' } id
      call result
    cases hop : call.op with
    | lock =>
      obtain ⟨tracker'', hfinish⟩ := hfinish (.ok (.grant grant))
      dsimp only
      rw [hfinish]
      exact .lock hcall (by rw [hop]; rfl) hasks
    | _ => exact .take hcall (by rw [hop]; rfl) hasks

theorem ask_spec (hcall : env.calls.get? id = some call) {owner nextTxn : TxnId}
    {deadlines : Deadlines} {token : Option TokenId}
    (hasks : Asks env id call owner nextTxn
      (env.locks.enter LockState.discipline env.now id token
        ⟨owner, ⟨call.op.key⟩, call.op.mode, deadlines⟩).1
      (env.locks.enter LockState.discipline env.now id token
        ⟨owner, ⟨call.op.key⟩, call.op.mode, deadlines⟩).2) :
    Step env id (({ env with nextTxn }).ask id call owner deadlines token).1
      (({ env with nextTxn }).ask id call owner deadlines token).2 := by
  unfold ask
  obtain ⟨tracker, timer, hstart⟩ := startTimer_eq { env with nextTxn } .lockWait
  rw [hstart]
  dsimp only
  generalize env.locks.enter LockState.discipline env.now id token
    ⟨owner, ⟨call.op.key⟩, call.op.mode, deadlines⟩ = entered at hasks
  obtain ⟨locks, _ | outcome⟩ := entered
  · exact .wait hcall hasks
  · exact answered_spec hcall hasks tracker timer

theorem lookAgain_spec (hcall : env.calls.get? id = some call) {owner : TxnId}
    {timer : Latency.Ticket} (hstage : call.stage = .waiting owner timer) :
    Step env id (env.lookAgain id call owner timer).1 (env.lookAgain id call owner timer).2 := by
  have hasks : Asks env id call owner env.nextTxn _ _ := .again hstage
  unfold lookAgain
  generalize env.locks.recheck LockState.discipline env.now id = looked at hasks
  obtain ⟨locks, _ | outcome⟩ := looked
  · -- The call is where it was.
    have hcalls : env.calls = env.calls.insert id { call with stage := .waiting owner timer } := by
      refine SortedMap.ext_get? fun id' => ?_
      rw [SortedMap.get?_insert, ← hstage]
      split
      · next h => rw [h, hcall]
      · rfl
    have hstep : Step env id { env with
        locks, calls := env.calls.insert id { call with stage := .waiting owner timer } } none :=
      .wait hcall hasks
    rw [← hcalls] at hstep
    exact hstep
  · exact answered_spec hcall hasks env.tracker timer

theorem enterAbort_spec (hcall : env.calls.get? id = some call) {cause : Option Error}
    (hstage : call.stage = .admitted cause) {txn : TxnId}
    (hop : call.op = .abort txn ∨ call.op = .commit txn ∧ cause ≠ none) (hnamed : env.Named)
    (hactive : (env.txn txn).isActive = true) :
    Step env id (env.enterAbort id call (env.txn txn) cause).1
      (env.enterAbort id call (env.txn txn) cause).2 := by
  have hid : (env.txn txn).id = txn := hnamed txn _ (get?_of_isActive hactive)
  have htxns : env.txns = (env.modifyTxn txn fun _ => env.txn txn).txns := by rw [modifyTxn_self]
  unfold enterAbort setStage
  obtain ⟨tracker, timer, hstart⟩ := startTimer_eq env .abort
  rw [hstart, hid]
  dsimp only
  by_cases hwrites : 0 < (env.txn txn).writes
  · rw [if_pos hwrites]
    obtain ⟨log, state, logged, counters, happend, hlogged⟩ :=
      append_spec { env with tracker } (.abort txn)
    rw [happend]
    dsimp only
    rw [modifyTxn_eq]
    exact .abort hcall hstage hop hactive (.inl ⟨hwrites, _, hlogged⟩)
      (resolves_modifyTxn hactive (.inl rfl) htxns)
  · rw [if_neg hwrites]
    dsimp only
    rw [modifyTxn_eq]
    exact .abort hcall hstage hop hactive (.inr ⟨by omega, rfl, rfl⟩)
      (resolves_modifyTxn hactive (.inl rfl) htxns)

theorem enterCommit_spec (hcall : env.calls.get? id = some call)
    (hstage : call.stage = .admitted none) {txn : TxnId} (hop : call.op = .commit txn)
    (hnamed : env.Named)
    (hactive : (env.txn txn).isActive = true) :
    Step env id (env.enterCommit id call (env.txn txn)).1
      (env.enterCommit id call (env.txn txn)).2 := by
  have hid : (env.txn txn).id = txn := hnamed txn _ (get?_of_isActive hactive)
  have htxns : env.txns = (env.modifyTxn txn fun _ => env.txn txn).txns := by rw [modifyTxn_self]
  unfold enterCommit setStage
  obtain ⟨tracker, timer, hstart⟩ := startTimer_eq env .commit
  rw [hstart, hid]
  dsimp only
  by_cases hwrites : 0 < (env.txn txn).writes
  · rw [if_pos hwrites]
    obtain ⟨log, state, logged, counters, happend, hlogged⟩ :=
      append_spec { env with tracker } (.commit txn)
    rw [happend]
    dsimp only
    cases logged with
    | error e =>
      obtain ⟨tracker', hfinish⟩ := finish_eq { env with log, state, tracker, counters } id
        { call with timer := some timer } (.error e)
      dsimp only
      rw [hfinish]
      exact .commitFail hcall hstage hop hactive hwrites hlogged
    | ok lsn =>
      dsimp only
      rw [modifyTxn_eq]
      dsimp only
      by_cases hsync : env.config.syncOnCommit = true
      · rw [if_pos hsync]
        exact .commit hcall hstage hop hactive (.inl ⟨hwrites, _, hlogged⟩) (.inr rfl)
          (resolves_modifyTxn hactive (.inl rfl) htxns)
      · rw [if_neg hsync]
        exact .commit hcall hstage hop hactive (.inl ⟨hwrites, _, hlogged⟩) (.inl rfl)
          (resolves_modifyTxn hactive (.inl rfl) htxns)
  · rw [if_neg hwrites, modifyTxn_eq]
    dsimp only
    exact .commit hcall hstage hop hactive (.inr ⟨by omega, rfl, rfl⟩) (.inl rfl)
      (resolves_modifyTxn hactive (.inl rfl) htxns)

theorem refuse_spec (hcall : env.calls.get? id = some call) (hstage : call.stage.isEarly = true)
    {txns : SortedMap TxnId Transaction} (htxns : Marked env.txns txns) (e : Error) :
    Step env id (({ env with txns }).finish id call (.error e)).1
      (({ env with txns }).finish id call (.error e)).2 := by
  obtain ⟨tracker, hfinish⟩ := finish_eq { env with txns } id call (.error e)
  rw [hfinish]
  exact .refuse hcall hstage htxns

theorem enter_spec (hcall : env.calls.get? id = some call) (hstage : call.stage = .entered) :
    Step env id (env.enter id call).1 (env.enter id call).2 := by
  have hearly : call.stage.isEarly = true := by rw [hstage, Stage.isEarly]
  have hmarked {t : Transaction} {txn : TxnId} (hmark : (env.txn txn).MarkOf t) :
      Marked env.txns (env.modifyTxn txn fun _ => t).txns := by
    refine marked_modifyTxn env fun t' ht' => ?_
    rw [← txn_eq_of_get? ht']
    exact hmark
  have hof {txn : TxnId} (htxn : call.op.txn? = some txn)
      (hactive : (env.txn txn).isActive = true) (x : TxnId) (hx : call.op.txn? = some x) :
      (env.txn x).isActive = true := by
    rwa [← Option.some.inj (htxn.symm.trans hx)]
  unfold enter
  cases htxn : call.op.txn? with
  | none =>
    dsimp only
    split
    · exact refuse_spec hcall hearly (.refl _) _
    · exact .accept hcall hstage (by rw [htxn]; nofun) (.refl _)
  | some txn =>
    dsimp only
    cases hop : call.op with
    | putNow | deleteNow =>
      rw [hop] at htxn
      cases htxn
    | abort t =>
      dsimp only
      unfold Transaction.checkActive
      by_cases hactive : (env.txn txn).isActive = true
      · rw [if_pos hactive]
        exact .accept hcall hstage (hof htxn hactive) (.refl _)
      · rw [if_neg hactive]
        exact refuse_spec hcall hearly (.refl _) _
    | commit t =>
      dsimp only
      split
      · exact refuse_spec hcall hearly (.refl _) _
      rcases (env.txn txn).checkUsable_cases env.now with
        ⟨hactive, e, hcheck⟩ | ⟨hactive, t', e, hmark, hcheck⟩ | ⟨hactive, hcheck⟩ <;>
        rw [hcheck] <;> dsimp only
      · rw [hactive, modifyTxn_self]
        exact refuse_spec hcall hearly (.refl _) _
      · have hactive' : t'.isActive = true := by
          rcases hmark with rfl | ⟨-, reason, rfl⟩ <;> exact hactive
        rw [if_pos hactive', modifyTxn_eq]
        exact .accept hcall hstage (hof htxn hactive) (hmarked hmark)
      · rw [modifyTxn_self]
        exact .accept hcall hstage (hof htxn hactive) (.refl _)
    | put | delete | get | lock =>
      dsimp only
      split
      · exact refuse_spec hcall hearly (.refl _) _
      rcases (env.txn txn).checkUsable_cases env.now with
        ⟨hactive, e, hcheck⟩ | ⟨hactive, t', e, hmark, hcheck⟩ | ⟨hactive, hcheck⟩ <;>
        rw [hcheck] <;> dsimp only
      · rw [modifyTxn_self]
        exact refuse_spec hcall hearly (.refl _) _
      · rw [modifyTxn_eq]
        exact refuse_spec hcall hearly (hmarked hmark) _
      · rw [modifyTxn_self]
        exact .accept hcall hstage (hof htxn hactive) (.refl _)

theorem proceed_spec (hcall : env.calls.get? id = some call) {cause : Option Error}
    (hstage : call.stage = .admitted cause) (hnamed : env.Named) :
    Step env id (env.proceed id call cause).1 (env.proceed id call cause).2 := by
  have h := env.proceeds id call cause
  generalize env.proceed id call cause = result at h ⊢
  cases h with
  | ended => exact refuse_spec hcall (by rw [hstage, Stage.isEarly]) (.refl _) _
  | direct htxn => exact ask_spec hcall (.direct hstage htxn)
  | inTxn htxn hgoes hactive => exact ask_spec hcall (.inTxn hstage htxn hactive hgoes)
  | abort hop hactive => exact enterAbort_spec hcall hstage (.inl hop) hnamed hactive
  | giveUp hop hactive => exact enterAbort_spec hcall hstage (.inr ⟨hop, nofun⟩) hnamed hactive
  | commit hop hactive => exact enterCommit_spec hcall hstage hop hnamed hactive

theorem work_spec (hcall : env.calls.get? id = some call) {owner : TxnId} {grant : Grant}
    (hstage : call.stage = .granted owner grant) :
    Step env id (env.work id call owner grant).1 (env.work id call owner grant).2 := by
  unfold work setStage
  cases hentry : call.op.entry? with
  | none =>
    dsimp only
    split
    · next honce => exact .readOnce hcall hstage hentry honce.1 honce.2
    · next hkeeps =>
      obtain ⟨tracker, hfinish⟩ :=
        finish_eq env id call (.ok (.values (env.valuesFor owner call.op.key)))
      rw [hfinish]
      exact .read hcall hstage hentry fun hisolation =>
        Bool.eq_false_iff.2 fun hnew => hkeeps ⟨hisolation, hnew⟩
  | some entry =>
    obtain ⟨log, state, logged, counters, happend, hlogged⟩ := append_spec env entry
    cases htxn : call.op.txn? with
    | none =>
      dsimp only
      rw [happend]
      exact .writeNow hcall hstage hentry htxn hlogged
    | some txn =>
      dsimp only
      rw [happend]
      cases logged with
      | error e =>
        obtain ⟨tracker, hfinish⟩ :=
          finish_eq { env with log, state, counters } id call (.error e)
        dsimp only
        rw [hfinish]
        exact .writeFail hcall hstage hentry htxn hlogged
      | ok lsn =>
        dsimp only
        rw [modifyTxn_eq]
        obtain ⟨tracker, hfinish⟩ := finish_eq { env with
          log, state, counters
          txns := (modifyTxn { env with log, state, counters } txn
            fun t => { t with writes := t.writes + 1 }).txns } id call (.ok (.logged lsn))
        rw [hfinish]
        exact .write hcall hstage hentry htxn hlogged fun x => get?_modifyTxn _ txn x _

theorem release_spec (hcall : env.calls.get? id = some call) {owner : TxnId} {result : Result}
    (hstage : call.stage = .releasing owner result) :
    Step env id (env.release id call owner result).1 (env.release id call owner result).2 := by
  unfold release
  have hleave (hop : ∀ txn key, call.op ≠ .get txn key) (counters : Counters) :
      Step env id (({ env.releaseAll owner with counters }).finish id call result).1
        (({ env.releaseAll owner with counters }).finish id call result).2 := by
    obtain ⟨tracker, hfinish⟩ := finish_eq { env.releaseAll owner with counters } id call result
    rw [hfinish]
    exact .leave hcall hstage hop
  cases hop : call.op with
  | get txn key =>
    obtain ⟨tracker, hfinish⟩ := finish_eq
      { env with locks := (env.locks.act (LockState.release owner ⟨key⟩)).1 } id call result
    dsimp only
    rw [hfinish]
    exact .giveBack hcall hstage hop
  | commit | abort =>
    obtain ⟨counters, hcount⟩ := countResolved_eq (env.releaseAll owner) (env.txn owner).state
    dsimp only
    rw [hcount]
    exact hleave (by rw [hop]; nofun) counters
  | _ => exact hleave (by rw [hop]; nofun) env.counters

/-- Every step of a call is one of those above. -/
theorem step_spec (hnamed : env.Named) (id : Nat) :
    Step env id (env.step id).1 (env.step id).2 := by
  unfold step
  split
  · next hcall => exact .idle hcall
  · next call hcall =>
    split
    · next hstage => exact enter_spec hcall hstage
    · next cause hstage => exact proceed_spec hcall hstage hnamed
    · next owner timer hstage => exact lookAgain_spec hcall hstage
    · next owner grant hstage => exact work_spec hcall hstage
    · next owner result hstage => exact release_spec hcall hstage

end Spec

/-! ## Other calls -/

/-- A step of a call leaves the other calls where they are. -/
theorem Step.get?_calls_of_ne {env env' : Environment} {id id' : Nat} {result : Option Result}
    (h : Step env id env' result) (hne : id' ≠ id) :
    env'.calls.get? id' = env.calls.get? id' := by
  cases h with
  | idle => rfl
  | accept | wait | take | abort | commit | writeNow | readOnce =>
    exact (SortedMap.get?_insert _ _ _ _).trans (if_neg hne)
  | _ => exact (SortedMap.get?_erase _ _ _).trans (if_neg hne)

end Environment
end WalStore

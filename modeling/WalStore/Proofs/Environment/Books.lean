import WalStore.Proofs.Environment.Run
import WalStore.Proofs.Lock.Tally

/-!
# What an event enters in the books

What an event means for the lock manager and for the counters can be said without going into what
it does to anything else. For the lock manager it is a list of events of its own (`lockEvents`),
most often none or one. The counters of the environment change in three places: where a transaction
begins, where a record is logged, and where a transaction is over and has given its locks back
(`settles?`). Most of what a step is made of does none of this (`Still`), and a step logs one record
at most (`Writes`).

**Theorem (`books_after`).** Whatever fails at an event, this is all that it enters.
-/

namespace WalStore

namespace Environment

variable {env env' env'' : Environment} {id : Nat} {call : Call} {owner : TxnId}

/-! ## For the lock manager -/

/-- The request with which an admitted call asks for its lock, and the token that it listens to.
There is none if the call needs no lock, or its transaction is over. -/
def request? (env : Environment) (call : Call) : Option (Option TokenId × LockRequest) :=
  match call.op.txn? with
  | none => some (none, ⟨env.nextTxn, ⟨call.op.key⟩, call.op.mode,
      .starting env.now env.config.lockTimeout env.now none⟩)
  | some txn =>
    if (env.txn txn).isActive ∧ ¬call.op.resolves then
      some (some (Transaction.tokenOf txn), ⟨txn, ⟨call.op.key⟩, call.op.mode,
        (env.txn txn).deadlines env.now call.op.timeout⟩)
    else none

/-- What a step of a call is for the lock manager. -/
def lockEventsOf (env : Environment) (id : Nat) (call : Call) : List LockManager.Event :=
  match call.stage with
  | .admitted _ => ((env.request? call).map fun (token, r) => .acquire env.now id token r).toList
  | .waiting .. => [.recheck env.now id]
  | .entered | .granted .. => []
  | .releasing owner _ =>
    match call.op with
    | .get _ key => [.release owner ⟨key⟩]
    | _ => [.releaseAll owner]

/-- What an event is for the lock manager. -/
def lockEvents (env : Environment) : Event → List LockManager.Event
  | .step id => (env.calls.get? id).elim [] (env.lockEventsOf id)
  | .drop txn => if (env.txn txn).isActive then [.releaseAll txn] else []
  | .cancel txn => .raise (Transaction.tokenOf txn) ::
      .replicate (env.locks.token (Transaction.tokenOf txn)).raise.wakers.length .notify
  | .wake id => [.wake id]
  | .begin _ | .start .. | .close | .tick _ | .plan _ => []

/-! ## For the counters -/

/-- The transaction that a call has resolved and gives the locks of back. -/
def Call.resolving? (call : Call) : Option TxnId :=
  match call.stage with
  | .releasing owner _ => if call.op.resolves then some owner else none
  | .entered | .admitted _ | .waiting .. | .granted .. => none

/-- The transaction that is over and done with by an event, and how it has ended. -/
def settles? (env : Environment) : Event → Option (TxnId × TxnState)
  | .step id => ((env.calls.get? id).bind Call.resolving?).map fun txn => (txn, (env.txn txn).state)
  | .drop txn => if (env.txn txn).isActive then some (txn, .aborted) else none
  | .begin _ | .start .. | .close | .cancel _ | .tick _ | .wake _ | .plan _ => none

/-- How many transactions are counted to have ended so. -/
def Counters.ended (c : Counters) : TxnState → Nat
  | .active => 0
  | .committed => c.committed
  | .aborted => c.aborted

/-! ## What a step is made of -/

/-- Locks and counters are the same, and no record has been logged. -/
structure Still (env env' : Environment) : Prop where
  locks : env'.locks = env.locks
  lastLsn : env'.state.lastLsn = env.state.lastLsn
  counters : env'.counters = env.counters

/-- No record has been logged and applied, or one has, and that is counted. -/
def LogsOne (env env' : Environment) : Prop :=
  env'.state.lastLsn = env.state.lastLsn ∧ env'.counters.logged = env.counters.logged ∨
    env.state.lastLsn < env'.state.lastLsn ∧ env'.counters.logged = env.counters.logged + 1

/-- Locks and counters are the same, but for one record at most. -/
structure Writes (env env' : Environment) : Prop where
  locks : env'.locks = env.locks
  counters : env'.counters = { env.counters with logged := env'.counters.logged }
  logged : env.LogsOne env'

theorem Still.trans (h : env.Still env') (h' : env'.Still env'') : env.Still env'' :=
  ⟨h'.locks.trans h.locks, h'.lastLsn.trans h.lastLsn, h'.counters.trans h.counters⟩

theorem Still.writes (h : env.Still env') : env.Writes env' := by
  refine ⟨h.locks, ?_, .inl ⟨h.lastLsn, by rw [h.counters]⟩⟩
  rw [h.counters]

theorem Still.trans_writes (h : env.Still env') (h' : env'.Writes env'') : env.Writes env'' := by
  obtain ⟨hlocks, hcounters, hlogged⟩ := h'
  rw [h.locks] at hlocks
  rw [h.counters] at hcounters
  rw [LogsOne, h.lastLsn, h.counters] at hlogged
  exact ⟨hlocks, hcounters, hlogged⟩

theorem Writes.trans_still (h : env.Writes env') (h' : env'.Still env'') : env.Writes env'' := by
  obtain ⟨hlocks, hcounters, hlogged⟩ := h
  rw [← h'.locks] at hlocks
  rw [← h'.counters] at hcounters
  rw [LogsOne, ← h'.lastLsn, ← h'.counters] at hlogged
  exact ⟨hlocks, hcounters, hlogged⟩

theorem still_startTimer (env : Environment) (kind : OpKind) :
    env.Still (env.startTimer kind).1 := ⟨rfl, rfl, rfl⟩

theorem still_stopTimer (env : Environment) (timer : Option Latency.Ticket) :
    env.Still (env.stopTimer timer) := by
  obtain ⟨tracker, h⟩ := env.stopTimer_eq timer
  rw [h]
  exact ⟨rfl, rfl, rfl⟩

theorem still_setStage (env : Environment) (id : Nat) (call : Call) (stage : Stage) :
    env.Still (env.setStage id call stage).1 := ⟨rfl, rfl, rfl⟩

theorem still_finish (env : Environment) (id : Nat) (call : Call) (result : Result) :
    env.Still (env.finish id call result).1 := by
  obtain ⟨tracker, h⟩ := env.finish_eq id call result
  rw [h]
  exact ⟨rfl, rfl, rfl⟩

theorem still_modifyTxn (env : Environment) (txn : TxnId) (f : Transaction → Transaction) :
    env.Still (env.modifyTxn txn f) := by
  rw [modifyTxn_eq]
  exact ⟨rfl, rfl, rfl⟩

theorem writes_append (env : Environment) (entry : Entry) : env.Writes (env.append entry).1 := by
  unfold append
  split
  · exact ⟨rfl, rfl, .inl ⟨rfl, rfl⟩⟩
  · split
    · exact ⟨rfl, rfl, .inl ⟨rfl, rfl⟩⟩
    · next happly =>
      obtain ⟨hlt, hlsn, -⟩ := Replay.State.views_apply happly
      exact ⟨rfl, rfl, .inr ⟨hlsn ▸ hlt, rfl⟩⟩

/-! ## Stages -/

theorem still_answered (env : Environment) (id : Nat) (call : Call) (owner : TxnId)
    (timer : Latency.Ticket) (outcome : LockState.Outcome) :
    env.Still (env.answered id call owner timer outcome).1 := by
  have hstop := env.still_stopTimer (some timer)
  unfold answered
  cases outcome with
  | error e => exact (hstop.trans (still_modifyTxn ..)).trans (still_finish ..)
  | ok grant =>
    dsimp only
    cases call.op with
    | lock => exact hstop.trans (still_finish ..)
    | _ => exact hstop.trans (still_setStage ..)

/-- A call that asks for its lock does what the request does. -/
theorem still_ask (env : Environment) (id : Nat) (call : Call) (owner : TxnId)
    (deadlines : Deadlines) (token : Option TokenId) :
    ({ env with locks := env.locks.step (.acquire env.now id token
      ⟨owner, ⟨call.op.key⟩, call.op.mode, deadlines⟩) }).Still
      (env.ask id call owner deadlines token).1 := by
  unfold ask
  dsimp only
  split
  · exact ⟨rfl, rfl, rfl⟩
  · obtain ⟨hlocks, hlsn, hcounters⟩ := still_answered { (env.startTimer .lockWait).1 with
      locks := env.locks.step (.acquire env.now id token
        ⟨owner, ⟨call.op.key⟩, call.op.mode, deadlines⟩) } id call owner
      (env.startTimer .lockWait).2 _
    exact ⟨hlocks, hlsn, hcounters⟩

theorem still_lookAgain (env : Environment) (timer : Latency.Ticket) :
    ({ env with locks := env.locks.step (.recheck env.now id) }).Still
      (env.lookAgain id call owner timer).1 := by
  unfold lookAgain
  dsimp only
  split
  · exact ⟨rfl, rfl, rfl⟩
  · exact still_answered ..

theorem writes_enterAbort (env : Environment) (t : Transaction) (cause : Option Error) :
    env.Writes (env.enterAbort id call t cause).1 := by
  have hstart := env.still_startTimer .abort
  have hlogged : ∃ env₁ logged,
      (if 0 < t.writes then (env.startTimer .abort).1.append (.abort t.id)
        else ((env.startTimer .abort).1, .ok .zero)) = (env₁, logged) ∧ env.Writes env₁ := by
    split
    · exact ⟨_, _, rfl, hstart.trans_writes (writes_append ..)⟩
    · exact ⟨_, _, rfl, hstart.writes⟩
  obtain ⟨env₁, logged, heq, hwrites⟩ := hlogged
  unfold enterAbort
  dsimp only
  rw [heq]
  exact (hwrites.trans_still (still_modifyTxn ..)).trans_still (still_setStage ..)

theorem writes_enterCommit (env : Environment) (t : Transaction) :
    env.Writes (env.enterCommit id call t).1 := by
  have hstart := env.still_startTimer .commit
  unfold enterCommit
  dsimp only
  split
  · have hwrites := hstart.trans_writes (writes_append _ (.commit t.id))
    split
    · next heq =>
      rw [heq] at hwrites
      exact hwrites.trans_still (still_finish ..)
    · next heq =>
      rw [heq] at hwrites
      obtain ⟨hlocks, hcounters, hlogged⟩ :=
        hwrites.trans_still (still_modifyTxn _ t.id ({ · with state := .committed }))
      exact ⟨hlocks, hcounters, hlogged⟩
  · exact ((hstart.trans (still_modifyTxn ..)).trans (still_setStage ..)).writes

/-- A call that checks whether it may go on leaves the books alone. -/
theorem still_enter (env : Environment) (id : Nat) (call : Call) :
    env.Still (env.enter id call).1 := by
  unfold enter
  cases call.op.txn? with
  | none =>
    dsimp only
    split
    · exact still_finish ..
    · exact still_setStage ..
  | some txn =>
    dsimp only
    split
    · split
      · exact still_finish ..
      · exact still_setStage ..
    split
    · exact still_finish ..
    have hmodify := env.still_modifyTxn txn fun _ => ((env.txn txn).checkUsable env.now).1
    split
    · exact hmodify.trans (still_setStage ..)
    · split
      · exact hmodify.trans (still_setStage ..)
      · exact hmodify.trans (still_finish ..)
    · exact hmodify.trans (still_finish ..)

theorem request?_of_resolves {txn : TxnId} (htxn : call.op.txn? = some txn)
    (hresolves : call.op.resolves = true) : env.request? call = none := by
  simp only [request?, htxn, hresolves, not_true_eq_false, and_false, if_false]

theorem request?_of_isActive {txn : TxnId} (htxn : call.op.txn? = some txn)
    (hactive : (env.txn txn).isActive = true) (hgoes : call.op.resolves = false) :
    env.request? call = some (some (Transaction.tokenOf txn), ⟨txn, ⟨call.op.key⟩, call.op.mode,
      (env.txn txn).deadlines env.now call.op.timeout⟩) := by
  simp only [request?, htxn, hactive, hgoes, Bool.false_eq_true, not_false_eq_true, and_self,
    if_true]

theorem request?_of_over {txn : TxnId} (htxn : call.op.txn? = some txn)
    (hover : (env.txn txn).isActive = false) : env.request? call = none := by
  simp only [request?, htxn, hover, Bool.false_eq_true, false_and, if_false]

/-- What an admitted call does is the request for its lock, or one record at most. -/
theorem writes_proceed (env : Environment) {cause : Option Error}
    (hstage : call.stage = .admitted cause) :
    ({ env with locks := env.locks.run (env.lockEventsOf id call) }).Writes
      (env.proceed id call cause).1 := by
  have hnone (hrequest : env.request? call = none) {env' : Environment} (h : env.Writes env') :
      ({ env with locks := env.locks.run (env.lockEventsOf id call) }).Writes env' := by
    rw [lockEventsOf, hstage, hrequest]
    exact ⟨h.locks, h.counters, h.logged⟩
  have hsome {token : Option TokenId} {r : LockRequest}
      (hrequest : env.request? call = some (token, r))
      {env' : Environment}
      (h : ({ env with locks := env.locks.step (.acquire env.now id token r) }).Still env') :
      ({ env with locks := env.locks.run (env.lockEventsOf id call) }).Writes env' := by
    rw [lockEventsOf, hstage, hrequest]
    exact Still.writes ⟨h.locks, h.lastLsn, h.counters⟩
  have hresolves {txn : TxnId} (hop : call.op = .abort txn ∨ call.op = .commit txn) :
      env.request? call = none := by
    rcases hop with hop | hop <;> exact request?_of_resolves (by rw [hop]; rfl) (by rw [hop]; rfl)
  have h := env.proceeds id call cause
  generalize env.proceed id call cause = stepped at h ⊢
  cases h with
  | ended htxn hover => exact hnone (request?_of_over htxn hover) (still_finish ..).writes
  | direct htxn =>
    obtain ⟨hlocks, hlsn, hcounters⟩ := still_ask env.takeId.1 id call env.nextTxn
      (.starting env.now env.config.lockTimeout env.now none) none
    exact hsome (by rw [request?, htxn]) ⟨hlocks, hlsn, hcounters⟩
  | inTxn htxn hgoes hactive =>
    exact hsome (request?_of_isActive htxn hactive hgoes) (still_ask ..)
  | abort hop => exact hnone (hresolves (.inl hop)) (writes_enterAbort ..)
  | giveUp hop => exact hnone (hresolves (.inr hop)) (writes_enterAbort ..)
  | commit hop => exact hnone (hresolves (.inr hop)) (writes_enterCommit ..)

theorem writes_work (env : Environment) (grant : Grant) :
    env.Writes (env.work id call owner grant).1 := by
  unfold work
  cases call.op.entry? with
  | none =>
    dsimp only
    split
    · exact (still_setStage ..).writes
    · exact (still_finish ..).writes
  | some entry =>
    have hwrites := env.writes_append entry
    cases call.op.txn? with
    | none => exact hwrites.trans_still (still_setStage ..)
    | some txn =>
      dsimp only
      split
      · next heq =>
        rw [heq] at hwrites
        exact hwrites.trans_still (still_finish ..)
      · next heq =>
        rw [heq] at hwrites
        exact (hwrites.trans_still (still_modifyTxn ..)).trans_still (still_finish ..)

/-- What ends a resolution is counted by how the transaction has ended. -/
theorem still_release (env : Environment) (id : Nat) {result : Result}
    (hstage : call.stage = .releasing owner result) :
    (({ env with locks := env.locks.run (env.lockEventsOf id call) }).countResolved
      (if call.op.resolves then (env.txn owner).state else .active)).Still
      (env.release id call owner result).1 := by
  rw [lockEventsOf, hstage]
  unfold release
  cases call.op <;> exact still_finish ..

/-! ## Events -/

/-- What an event enters in the books: besides what is said of it above, one record at most, and a
transaction if it begins one. -/
structure Books (env : Environment) (e : Event) (env' : Environment) : Prop where
  locks : env'.locks = env.locks.run (env.lockEvents e)
  ended : ∀ state, env'.counters.ended state =
    env.counters.ended state + if (env.settles? e).map (·.2) = some state then 1 else 0
  begun : (∀ config, e ≠ .begin config) → env'.counters.begun = env.counters.begun
  logged : env.LogsOne env'

theorem Writes.books {e : Event} (ending : TxnState)
    (h : (({ env with locks := env.locks.run (env.lockEvents e) }).countResolved ending).Writes
      env')
    (hending : (env.settles? e).map (·.2) = if ending = .active then none else some ending) :
    env.Books e env' := by
  obtain ⟨hlocks, hcounters, hlogged⟩ := h
  refine ⟨?_, fun state => ?_, fun _ => ?_, ?_⟩
  · rw [hlocks]
    cases ending <;> rfl
  · rw [hcounters, hending]
    cases ending <;> cases state <;> rfl
  · rw [hcounters]
    cases ending <;> rfl
  · cases ending <;> exact hlogged

/-- An event that settles nothing. -/
theorem Writes.books_of_none {e : Event}
    (h : ({ env with locks := env.locks.run (env.lockEvents e) }).Writes env')
    (hsettles : env.settles? e = none) : env.Books e env' :=
  Writes.books .active h (by rw [hsettles]; rfl)

theorem books_step (env : Environment) (id : Nat)
    (hover : ∀ call txn, env.calls.get? id = some call → call.resolving? = some txn →
      (env.txn txn).state ≠ .active) : env.Books (.step id) (env.step id).1 := by
  cases hcall : env.calls.get? id with
  | none =>
    rw [step, hcall]
    exact Writes.books_of_none ⟨by rw [lockEvents, hcall]; rfl, rfl, .inl ⟨rfl, rfl⟩⟩
      (by rw [settles?, hcall]; rfl)
  | some call =>
    have hlocks : env.lockEvents (.step id) = env.lockEventsOf id call := by
      rw [lockEvents, hcall]
      rfl
    have hsettles : env.settles? (.step id) =
        call.resolving?.map fun txn => (txn, (env.txn txn).state) := by
      rw [settles?, hcall]
      rfl
    rw [step, hcall]
    dsimp only
    cases hstage : call.stage with
    | entered =>
      refine Writes.books_of_none ?_ (by rw [hsettles, Call.resolving?, hstage]; rfl)
      rw [hlocks, lockEventsOf, hstage]
      exact (still_enter env id call).writes
    | admitted cause =>
      refine Writes.books_of_none ?_ (by rw [hsettles, Call.resolving?, hstage]; rfl)
      rw [hlocks]
      exact writes_proceed env hstage
    | waiting owner timer =>
      refine Writes.books_of_none ?_ (by rw [hsettles, Call.resolving?, hstage]; rfl)
      rw [hlocks, lockEventsOf, hstage]
      exact (still_lookAgain env timer).writes
    | granted owner grant =>
      refine Writes.books_of_none ?_ (by rw [hsettles, Call.resolving?, hstage]; rfl)
      rw [hlocks, lockEventsOf, hstage]
      exact writes_work env grant
    | releasing owner result =>
      have hstill := env.still_release id hstage
      rw [← hlocks] at hstill
      refine Writes.books _ hstill.writes ?_
      rw [hsettles, Call.resolving?, hstage]
      cases hresolves : call.op.resolves with
      | false => rfl
      | true =>
        have hstate := hover call owner hcall (by rw [Call.resolving?, hstage, hresolves]; rfl)
        rw [if_pos rfl, if_neg hstate]
        rfl

/-- **What an event enters in the books.** Whatever fails, the lock manager has gone through its
part of the event, a transaction that is over is counted by how it has ended, and a record is
counted if it is logged. -/
theorem books_after (env : Environment) (e : Event)
    (hover : ∀ id call txn, env.calls.get? id = some call → call.resolving? = some txn →
      (env.txn txn).state ≠ .active) : env.Books e (env.after e) := by
  cases e with
  | begin config =>
    have hbooks (env' : Environment) (hlocks : env'.locks = env.locks)
        (hended : ∀ state, env'.counters.ended state = env.counters.ended state)
        (hlogged : env.LogsOne env') : env.Books (.begin config) env' :=
      ⟨hlocks, hended, fun h => absurd rfl (h config), hlogged⟩
    rw [after]
    unfold begin
    split
    · exact hbooks _ rfl (fun _ => rfl) (.inl ⟨rfl, rfl⟩)
    · exact hbooks _ rfl (fun _ => rfl) (.inl ⟨rfl, rfl⟩)
    · exact hbooks _ rfl (fun state => by cases state <;> rfl) (.inl ⟨rfl, rfl⟩)
  | start id op =>
    obtain ⟨tracker, timer, h⟩ := env.start_eq id op
    rw [after, h]
    exact Writes.books_of_none ⟨rfl, rfl, .inl ⟨rfl, rfl⟩⟩ rfl
  | step id => exact env.books_step id (hover id)
  | drop txn =>
    rw [after]
    unfold drop
    cases hactive : (env.txn txn).isActive with
    | false =>
      rw [if_neg Bool.false_ne_true]
      exact Writes.books_of_none ⟨by rw [lockEvents, hactive]; rfl, rfl, .inl ⟨rfl, rfl⟩⟩
        (by rw [settles?, hactive]; rfl)
    | true =>
      rw [if_pos rfl, modifyTxn_eq]
      refine Writes.books .aborted ⟨?_, rfl, .inl ⟨rfl, rfl⟩⟩
        (by rw [settles?, hactive]; rfl)
      rw [lockEvents, hactive]
      rfl
  | close =>
    obtain ⟨log, isOpen, -, h⟩ := env.close_cases
    rw [after, h]
    exact Writes.books_of_none ⟨rfl, rfl, .inl ⟨rfl, rfl⟩⟩ rfl
  | cancel txn =>
    refine Writes.books_of_none ⟨?_, rfl, .inl ⟨rfl, rfl⟩⟩ rfl
    exact LockManager.cancel_eq_run env.locks (Transaction.tokenOf txn)
  | tick | wake | plan => exact Writes.books_of_none ⟨rfl, rfl, .inl ⟨rfl, rfl⟩⟩ rfl

end Environment
end WalStore

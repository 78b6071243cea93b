import WalStore.Proofs.Environment.Failure

/-!
# Commits that are tried again

**Theorem (`failure_atomic`).** Operations that fail have no effect. A commit that could not be
logged can be tried again, and if the failed append has been cut off the log the outcome is the same
as if the call had only now come to its first step.

A failed append leaves its mark on what the store counts as written, and the call on the timers.
Once no budget asks for the count, environments that differ in these alone go through the same
events in the same way (`Resembles`), and the number of the call may be taken by the next attempt.
-/

namespace WalStore

/-! ## Stores and logs -/

/-- What an append that failed has written is cut off. -/
theorem Store.truncate_of_append_error {s s' cut : Store} {data : Bytes} {e : StoreError}
    (happend : s.append data = (s', .error e)) (hcut : s'.truncate s.size = (cut, .ok ())) :
    ∃ written crashed, cut = { s with written, crashed } := by
  have hgrown : ∃ bytes written, s' = { s with bytes, written, crashed := true } ∧
      bytes.take s.size = s.bytes := by
    unfold append at happend
    dsimp only at happend
    split at happend
    · cases happend
    split at happend
    · cases happend
      exact ⟨_, _, rfl, by simp [size]⟩
    split at happend <;> cases happend
    refine ⟨_, _, rfl, Array.toList_inj.1 ?_⟩
    simp [extend, size]
  obtain ⟨bytes, written, rfl, hbytes⟩ := hgrown
  unfold truncate at hcut
  split at hcut
  · cases hcut
  split at hcut <;> cases hcut
  refine ⟨written, true, ?_⟩
  dsimp only
  rw [hbytes]

namespace Log

/-- The logs differ in what their stores count as written at most, and no budget asks for that. -/
structure Resembles (log log' : Log) : Prop where
  eq : ∃ written crashed,
    log' = { log with store.written := written, store.crashed := crashed }
  budget : log.store.plan.budget = none

/-- Logs that `R` relates give the same answers, and `R` relates what they come to. -/
structure Lockstep (R : Log → Log → Prop) : Prop where
  append : ∀ {log log'}, R log log' → ∀ entry, R (log.append entry).1 (log'.append entry).1 ∧
    (log'.append entry).2 = (log.append entry).2
  sync : ∀ {log log'}, R log log' → R log.sync.1 log'.sync.1 ∧ log'.sync.2 = log.sync.2

theorem lockstep_eq : Lockstep Eq where
  append h _ := by
    rw [h]
    exact ⟨rfl, rfl⟩
  sync h := by
    rw [h]
    exact ⟨rfl, rfl⟩

variable {log log' : Log}

theorem Resembles.append (h : log.Resembles log') (entry : Entry) :
    (log.append entry).1.Resembles (log'.append entry).1 ∧
      (log'.append entry).2 = (log.append entry).2 := by
  obtain ⟨⟨written, crashed, rfl⟩, hbudget⟩ := h
  unfold Log.append
  dsimp only
  split
  · exact ⟨⟨⟨_, _, rfl⟩, hbudget⟩, rfl⟩
  split
  · exact ⟨⟨⟨_, _, rfl⟩, hbudget⟩, rfl⟩
  · unfold Store.append
    dsimp only
    rw [hbudget]
    exact ⟨⟨⟨_, _, rfl⟩, hbudget⟩, rfl⟩

theorem Resembles.sync (h : log.Resembles log') :
    log.sync.1.Resembles log'.sync.1 ∧ log'.sync.2 = log.sync.2 := by
  obtain ⟨⟨written, crashed, rfl⟩, hbudget⟩ := h
  unfold Log.sync Store.sync
  dsimp only
  cases log.store.plan.failFlush <;> exact ⟨⟨⟨_, _, rfl⟩, hbudget⟩, rfl⟩

theorem lockstep_resembles : Lockstep Resembles where
  append := Resembles.append
  sync := Resembles.sync

/-- A failed append that leaves nothing behind. -/
theorem resembles_of_append_error {entry : Entry} {e : Error}
    (happend : (log.append entry).2 = .error e)
    (hsound : (log.append entry).1.poisoned = false) {plan : FaultPlan}
    (hplan : plan.budget = none) :
    Resembles { log with store.plan := plan } { (log.append entry).1 with store.plan := plan } := by
  rcases log.append_cases entry with ⟨e', heq⟩ | ⟨frame, hpoisoned, -, hcut | ⟨_, _, -, heq⟩⟩
  · rw [heq]
    exact ⟨⟨_, _, rfl⟩, hplan⟩
  · obtain ⟨store, e', cut, poisoned, hstore, heq, ⟨hcut, rfl⟩ | ⟨e'', -, rfl⟩⟩ := hcut
    · obtain ⟨written, crashed, rfl⟩ := Store.truncate_of_append_error hstore hcut
      rw [heq]
      refine ⟨⟨written, crashed, ?_⟩, hplan⟩
      dsimp only
      rw [hpoisoned]
    · rw [heq] at hsound
      cases hsound
  · rw [heq] at happend
    cases happend

end Log

namespace Environment

/-! ## Environments -/

/-- The stages differ in their timers at most. -/
inductive Stage.Resembles : Stage → Stage → Prop
  | waiting (owner : TxnId) (timer timer' : Latency.Ticket) :
      Resembles (.waiting owner timer) (.waiting owner timer')
  | same (stage : Stage) : Resembles stage stage

/-- The calls differ in their timers at most. -/
structure Call.Resembles (call call' : Call) : Prop where
  op : call'.op = call.op
  stage : call.stage.Resembles call'.stage

/-- The environments differ at most in their timers, in their logs, which `R` relates, and in the
calls with numbers that are not in `P`. -/
structure Resembles (R : Log → Log → Prop) (P : Nat → Prop) (env env' : Environment) : Prop where
  eq : ∃ log tracker calls, env' = { env with log, tracker, calls }
  log : R env.log env'.log
  calls : ∀ id, P id → Option.Rel Call.Resembles (env.calls.get? id) (env'.calls.get? id)

variable {R : Log → Log → Prop} {P : Nat → Prop} {env env' : Environment} {id : Nat}
  {call call' : Call}

theorem rel_insert {calls calls' : SortedMap Nat Call}
    (h : ∀ id, P id → Option.Rel Call.Resembles (calls.get? id) (calls'.get? id))
    (hcall : call.Resembles call') (id id' : Nat) (hid : P id') :
    Option.Rel Call.Resembles ((calls.insert id call).get? id')
      ((calls'.insert id call').get? id') := by
  rw [SortedMap.get?_insert, SortedMap.get?_insert]
  split
  · exact .some hcall
  · exact h id' hid

theorem rel_erase {calls calls' : SortedMap Nat Call}
    (h : ∀ id, P id → Option.Rel Call.Resembles (calls.get? id) (calls'.get? id))
    (id id' : Nat) (hid : P id') :
    Option.Rel Call.Resembles ((calls.erase id).get? id') ((calls'.erase id).get? id') := by
  rw [SortedMap.get?_erase, SortedMap.get?_erase]
  split
  · exact .none
  · exact h id' hid

/-! ## Parts of steps -/

theorem Resembles.config (h : env.Resembles R P env') : env'.config = env.config := by
  obtain ⟨⟨log, tracker, calls, rfl⟩, -⟩ := h
  rfl

theorem Resembles.now (h : env.Resembles R P env') : env'.now = env.now := by
  obtain ⟨⟨log, tracker, calls, rfl⟩, -⟩ := h
  rfl

theorem Resembles.txn (h : env.Resembles R P env') (txn : TxnId) : env'.txn txn = env.txn txn := by
  obtain ⟨⟨log, tracker, calls, rfl⟩, -⟩ := h
  rfl

theorem Resembles.checkOpen (h : env.Resembles R P env') : env'.checkOpen = env.checkOpen := by
  obtain ⟨⟨log, tracker, calls, rfl⟩, -⟩ := h
  rfl

theorem Resembles.valuesFor (h : env.Resembles R P env') (txn : TxnId) (key : Bytes) :
    env'.valuesFor txn key = env.valuesFor txn key := by
  obtain ⟨⟨log, tracker, calls, rfl⟩, -⟩ := h
  rfl

theorem Resembles.relog (h : env.Resembles R P env') {log log' : Log} (hlog : R log log') :
    Resembles R P { env with log } { env' with log := log' } := by
  obtain ⟨⟨_, tracker, calls, rfl⟩, -, hcalls⟩ := h
  exact ⟨⟨_, _, _, rfl⟩, hlog, hcalls⟩

theorem Resembles.setStage (h : env.Resembles R P env') (hop : call'.op = call.op)
    {stage stage' : Stage} (hstage : stage.Resembles stage') :
    Resembles R P (env.setStage id call stage).1 (env'.setStage id call' stage').1 := by
  obtain ⟨⟨log, tracker, calls, rfl⟩, hlog, hcalls⟩ := h
  have hcall : Call.Resembles { call with stage } { call' with stage := stage' } := ⟨hop, hstage⟩
  exact ⟨⟨_, _, _, rfl⟩, hlog, rel_insert hcalls hcall id⟩

theorem Resembles.finish (h : env.Resembles R P env') (result result' : Result) :
    Resembles R P (env.finish id call result).1 (env'.finish id call' result').1 := by
  obtain ⟨tracker, heq⟩ := env.finish_eq id call result
  obtain ⟨tracker', heq'⟩ := env'.finish_eq id call' result'
  rw [heq, heq']
  obtain ⟨⟨log, tracker, calls, rfl⟩, hlog, hcalls⟩ := h
  exact ⟨⟨_, _, _, rfl⟩, hlog, rel_erase hcalls id⟩

theorem Resembles.stopTimer (h : env.Resembles R P env') (timer timer' : Option Latency.Ticket) :
    Resembles R P (env.stopTimer timer) (env'.stopTimer timer') := by
  obtain ⟨tracker, heq⟩ := env.stopTimer_eq timer
  obtain ⟨tracker', heq'⟩ := env'.stopTimer_eq timer'
  rw [heq, heq']
  obtain ⟨⟨log, tracker, calls, rfl⟩, hlog, hcalls⟩ := h
  exact ⟨⟨_, _, _, rfl⟩, hlog, hcalls⟩

theorem Resembles.modifyTxn (h : env.Resembles R P env') (txn : TxnId)
    (f : Transaction → Transaction) :
    Resembles R P (env.modifyTxn txn f) (env'.modifyTxn txn f) := by
  obtain ⟨⟨log, tracker, calls, rfl⟩, hlog, hcalls⟩ := h
  unfold Environment.modifyTxn
  dsimp only
  split <;> exact ⟨⟨_, _, _, rfl⟩, hlog, hcalls⟩

theorem Resembles.countResolved (h : env.Resembles R P env') (state : TxnState) :
    Resembles R P (env.countResolved state) (env'.countResolved state) := by
  obtain ⟨⟨log, tracker, calls, rfl⟩, hlog, hcalls⟩ := h
  cases state <;> exact ⟨⟨_, _, _, rfl⟩, hlog, hcalls⟩

theorem Resembles.startTimer (h : env.Resembles R P env') (kind : OpKind) :
    Resembles R P (env.startTimer kind).1 (env'.startTimer kind).1 := by
  obtain ⟨⟨log, tracker, calls, rfl⟩, hlog, hcalls⟩ := h
  exact ⟨⟨_, _, _, rfl⟩, hlog, hcalls⟩

theorem Resembles.append (h : env.Resembles R P env') (hR : Log.Lockstep R) (entry : Entry) :
    ∃ env₁ env₂ result, env.append entry = (env₁, result) ∧ env'.append entry = (env₂, result) ∧
      Resembles R P env₁ env₂ := by
  obtain ⟨⟨log, tracker, calls, rfl⟩, hlog, hcalls⟩ := h
  obtain ⟨happend, hresult⟩ := hR.append hlog entry
  unfold Environment.append
  dsimp only at happend hresult ⊢
  generalize env.log.append entry = appended at happend hresult ⊢
  generalize log.append entry = appended' at happend hresult ⊢
  obtain ⟨log₁, result⟩ := appended
  obtain ⟨log₂, result'⟩ := appended'
  obtain rfl : result' = result := hresult
  cases result' with
  | error e => exact ⟨_, _, _, rfl, rfl, ⟨_, _, _, rfl⟩, happend, hcalls⟩
  | ok lsn =>
    dsimp only
    split <;> exact ⟨_, _, _, rfl, rfl, ⟨_, _, _, rfl⟩, happend, hcalls⟩

/-! ## Steps -/

theorem Resembles.answered (h : env.Resembles R P env') (hop : call'.op = call.op)
    (owner : TxnId) (timer timer' : Latency.Ticket) (outcome : LockState.Outcome) :
    Resembles R P (env.answered id call owner timer outcome).1
      (env'.answered id call' owner timer' outcome).1 := by
  have hstop := h.stopTimer (some timer) (some timer')
  unfold Environment.answered
  cases outcome with
  | error e => exact (hstop.modifyTxn owner _).finish _ _
  | ok grant =>
    dsimp only
    rw [hop]
    split
    · exact hstop.finish _ _
    · exact hstop.setStage hop (.same _)

theorem Resembles.ask (h : env.Resembles R P env') (hop : call'.op = call.op) (owner : TxnId)
    (deadlines : Deadlines) (token : Option TokenId) :
    Resembles R P (env.ask id call owner deadlines token).1
      (env'.ask id call' owner deadlines token).1 := by
  obtain ⟨⟨log, tracker, calls, rfl⟩, hlog, hcalls⟩ := h
  have hlocks (locks : LockManager) (tracker₁ tracker₂ : Latency.Tracker) :
      Resembles R P { env with locks, tracker := tracker₁ }
        { env with log, locks, tracker := tracker₂, calls } := ⟨⟨_, _, _, rfl⟩, hlog, hcalls⟩
  unfold Environment.ask Environment.startTimer
  dsimp only
  rw [hop]
  generalize env.locks.enter LockState.discipline env.now id token
    ⟨owner, ⟨call.op.key⟩, call.op.mode, deadlines⟩ = entered
  obtain ⟨locks, _ | outcome⟩ := entered
  · exact (hlocks ..).setStage hop (.waiting ..)
  · exact (hlocks ..).answered hop ..

theorem Resembles.lookAgain (h : env.Resembles R P env') (hop : call'.op = call.op)
    (owner : TxnId) (timer timer' : Latency.Ticket) :
    Resembles R P (env.lookAgain id call owner timer).1
      (env'.lookAgain id call' owner timer').1 := by
  obtain ⟨⟨log, tracker, calls, rfl⟩, hlog, hcalls⟩ := h
  have hlocks (locks : LockManager) :
      Resembles R P { env with locks } { env with log, locks, tracker, calls } :=
    ⟨⟨_, _, _, rfl⟩, hlog, hcalls⟩
  unfold Environment.lookAgain
  dsimp only
  generalize env.locks.recheck LockState.discipline env.now id = looked
  obtain ⟨locks, _ | outcome⟩ := looked
  · exact hlocks locks
  · exact (hlocks locks).answered hop ..

theorem Resembles.enterAbort (h : env.Resembles R P env') (hR : Log.Lockstep R)
    (hop : call'.op = call.op) (t : Transaction) (cause : Option Error) :
    Resembles R P (env.enterAbort id call t cause).1 (env'.enterAbort id call' t cause).1 := by
  have hstart := h.startTimer .abort
  obtain ⟨env₁, env₂, result, hlogged, hlogged', happend⟩ := hstart.append hR (.abort t.id)
  unfold Environment.enterAbort
  dsimp only
  split
  · rw [hlogged, hlogged']
    refine (happend.modifyTxn t.id _).setStage ?_ (.same _)
    exact hop
  · refine (hstart.modifyTxn t.id _).setStage ?_ (.same _)
    exact hop

theorem Resembles.enterCommit (h : env.Resembles R P env') (hR : Log.Lockstep R)
    (hop : call'.op = call.op) (t : Transaction) :
    Resembles R P (env.enterCommit id call t).1 (env'.enterCommit id call' t).1 := by
  have hstart := h.startTimer .commit
  obtain ⟨env₁, env₂, result, hlogged, hlogged', happend⟩ := hstart.append hR (.commit t.id)
  unfold Environment.enterCommit
  dsimp only
  split
  · rw [hlogged, hlogged']
    cases result with
    | error e => exact happend.finish _ _
    | ok lsn =>
      have hover := happend.modifyTxn t.id ({ · with state := .committed })
      dsimp only at hover ⊢
      rw [congrArg Config.syncOnCommit hover.config]
      split
      · obtain ⟨hsync, hsynced⟩ := hR.sync hover.log
        rw [hsynced]
        refine (hover.relog hsync).setStage ?_ (.same _)
        exact hop
      · refine (hover.relog hover.log).setStage ?_ (.same _)
        exact hop
  · refine (hstart.modifyTxn t.id _).setStage ?_ (.same _)
    exact hop

theorem Resembles.enter (h : env.Resembles R P env') (hop : call'.op = call.op) :
    Resembles R P (env.enter id call).1 (env'.enter id call').1 := by
  unfold Environment.enter
  simp only [hop, h.checkOpen, h.txn, h.now]
  split
  · split
    · exact h.finish _ _
    · exact h.setStage hop (.same _)
  · next txn _ =>
    split
    · split
      · exact h.finish _ _
      · exact h.setStage hop (.same _)
    · split
      · exact h.finish _ _
      · have hmarked := h.modifyTxn txn fun _ => ((env.txn txn).checkUsable env.now).1
        split
        · exact hmarked.setStage hop (.same _)
        · split
          · exact hmarked.setStage hop (.same _)
          · exact hmarked.finish _ _
        · exact hmarked.finish _ _

theorem Resembles.proceed (h : env.Resembles R P env') (hR : Log.Lockstep R)
    (hop : call'.op = call.op) (cause : Option Error) :
    Resembles R P (env.proceed id call cause).1 (env'.proceed id call' cause).1 := by
  unfold Environment.proceed
  simp only [hop, h.txn, h.now]
  split
  · obtain ⟨⟨log, tracker, calls, rfl⟩, hlog, hcalls⟩ := h
    have htaken : Resembles R P env.takeId.1 { env with log, tracker, calls }.takeId.1 :=
      ⟨⟨_, _, _, rfl⟩, hlog, hcalls⟩
    exact htaken.ask hop ..
  · split
    · exact h.finish _ _
    · split
      · exact h.enterCommit hR hop _
      · exact h.enterAbort hR hop ..
      · exact h.enterAbort hR hop ..
      · exact h.ask hop ..

theorem Resembles.work (h : env.Resembles R P env') (hR : Log.Lockstep R)
    (hop : call'.op = call.op) (owner : TxnId) (grant : Grant) :
    Resembles R P (env.work id call owner grant).1 (env'.work id call' owner grant).1 := by
  unfold Environment.work
  rw [hop]
  split
  · next entry _ _ =>
    obtain ⟨env₁, env₂, result, hlogged, hlogged', happend⟩ := h.append hR entry
    rw [hlogged, hlogged']
    exact happend.setStage hop (.same _)
  · next entry txn _ _ =>
    obtain ⟨env₁, env₂, result, hlogged, hlogged', happend⟩ := h.append hR entry
    rw [hlogged, hlogged']
    cases result with
    | error e => exact happend.finish _ _
    | ok lsn => exact (happend.modifyTxn txn _).finish _ _
  · dsimp only
    rw [h.txn, h.valuesFor]
    split
    · exact h.setStage hop (.same _)
    · exact h.finish _ _

theorem Resembles.release (h : env.Resembles R P env') (hop : call'.op = call.op) (owner : TxnId)
    (result : Result) :
    Resembles R P (env.release id call owner result).1 (env'.release id call' owner result).1 := by
  have hlocks (act : LockManager → LockManager) :
      Resembles R P { env with locks := act env.locks } { env' with locks := act env'.locks } := by
    obtain ⟨⟨log, tracker, calls, rfl⟩, hlog, hcalls⟩ := h
    exact ⟨⟨_, _, _, rfl⟩, hlog, hcalls⟩
  have hall : Resembles R P (env.releaseAll owner) (env'.releaseAll owner) :=
    hlocks fun locks => (locks.act (LockState.releaseAll owner)).1
  unfold Environment.release
  rw [hop]
  split
  · next key _ =>
    exact (hlocks fun locks => (locks.act (LockState.release owner ⟨key⟩)).1).finish _ _
  · rw [h.txn]
    exact (hall.countResolved _).finish _ _
  · rw [h.txn]
    exact (hall.countResolved _).finish _ _
  · exact hall.finish _ _

theorem Resembles.step (h : env.Resembles R P env') (hR : Log.Lockstep R) (hid : P id) :
    Resembles R P (env.step id).1 (env'.step id).1 := by
  have hcall := h.calls id hid
  unfold Environment.step
  generalize env.calls.get? id = found at hcall ⊢
  generalize env'.calls.get? id = found' at hcall ⊢
  cases hcall with
  | none => exact h
  | @some call call' hcall =>
    dsimp only
    have hstage := hcall.stage
    generalize call.stage = stage at hstage ⊢
    generalize call'.stage = stage' at hstage ⊢
    cases hstage with
    | waiting owner timer timer' => exact h.lookAgain hcall.op ..
    | same =>
      cases stage with
      | entered => exact h.enter hcall.op
      | admitted cause => exact h.proceed hR hcall.op cause
      | waiting owner timer => exact h.lookAgain hcall.op ..
      | granted owner grant => exact h.work hR hcall.op ..
      | releasing owner result => exact h.release hcall.op ..

/-! ## Runs -/

theorem Resembles.start (h : env.Resembles R P env') (id : Nat) (op : Op) :
    Resembles R P (env.start id op) (env'.start id op) := by
  obtain ⟨tracker, timer, heq⟩ := env.start_eq id op
  obtain ⟨tracker', timer', heq'⟩ := env'.start_eq id op
  rw [heq, heq']
  obtain ⟨⟨log, tracker, calls, rfl⟩, hlog, hcalls⟩ := h
  have hcall : Call.Resembles ⟨op, timer, .entered⟩ ⟨op, timer', .entered⟩ := ⟨rfl, .same _⟩
  exact ⟨⟨_, _, _, rfl⟩, hlog, rel_insert hcalls hcall id⟩

/-- The event does not plan for a budget to run out. -/
def Event.Works : Event → Prop
  | .plan p => p.budget = none
  | _ => True

/-- What the event plans for the store is no reason for related logs to differ. -/
def Event.Keeps (R : Log → Log → Prop) : Event → Prop
  | .plan p => ∀ log log', R log log' → R { log with store.plan := p } { log' with store.plan := p }
  | _ => True

theorem Event.Works.keeps {e : Event} (h : e.Works) : e.Keeps Log.Resembles := by
  cases e with
  | plan plan =>
    rintro log _ ⟨⟨written, crashed, rfl⟩, -⟩
    exact ⟨⟨_, _, rfl⟩, h⟩
  | _ => trivial

theorem Event.keeps_eq (e : Event) : e.Keeps Eq := by
  cases e with
  | plan plan =>
    rintro log _ rfl
    rfl
  | _ => trivial

theorem Resembles.after (h : env.Resembles R P env') (hR : Log.Lockstep R) {e : Event}
    (hkeeps : e.Keeps R) (hstep : ∀ id, e = .step id → P id) :
    Resembles R P (env.after e) (env'.after e) := by
  cases e with
  | begin config =>
    rw [Environment.after, Environment.after]
    unfold Environment.begin
    rw [h.checkOpen]
    obtain ⟨⟨log, tracker, calls, rfl⟩, hlog, hcalls⟩ := h
    split <;> exact ⟨⟨_, _, _, rfl⟩, hlog, hcalls⟩
  | start id op => exact h.start id op
  | step id => exact h.step hR (hstep id rfl)
  | drop txn =>
    rw [Environment.after, Environment.after]
    unfold Environment.drop
    rw [h.txn]
    split
    · refine Resembles.countResolved ?_ .aborted
      obtain ⟨⟨log, tracker, calls, heq⟩, hlog, hcalls⟩ :=
        h.modifyTxn txn ({ · with state := .aborted })
      rw [heq] at hlog hcalls ⊢
      exact ⟨⟨_, _, _, rfl⟩, hlog, hcalls⟩
    · exact h
  | close =>
    have hsync := hR.sync h.log
    obtain ⟨⟨log, tracker, calls, rfl⟩, hlog, hcalls⟩ := h
    obtain ⟨hsync, hresult⟩ := hsync
    rw [Environment.after, Environment.after]
    unfold Environment.close
    dsimp only at hsync hresult ⊢
    split
    · generalize env.log.sync = synced at hsync hresult ⊢
      generalize log.sync = synced' at hsync hresult ⊢
      obtain ⟨log₁, result⟩ := synced
      obtain ⟨log₂, result'⟩ := synced'
      obtain rfl : result' = result := hresult
      cases result' <;> exact ⟨⟨_, _, _, rfl⟩, hsync, hcalls⟩
    · exact ⟨⟨_, _, _, rfl⟩, hlog, hcalls⟩
  | cancel | tick | wake =>
    obtain ⟨⟨log, tracker, calls, rfl⟩, hlog, hcalls⟩ := h
    exact ⟨⟨_, _, _, rfl⟩, hlog, hcalls⟩
  | plan plan =>
    obtain ⟨⟨log, tracker, calls, rfl⟩, hlog, hcalls⟩ := h
    exact ⟨⟨_, _, _, rfl⟩, hkeeps _ _ hlog, hcalls⟩

theorem Resembles.run (h : env.Resembles R P env') (hR : Log.Lockstep R) {events : List Event}
    (hkeeps : ∀ e ∈ events, e.Keeps R) (hstep : ∀ id, .step id ∈ events → P id) :
    Resembles R P (env.run events) (env'.run events) := by
  induction events generalizing env env' with
  | nil => exact h
  | cons e events ih =>
    refine ih (h.after hR (hkeeps e List.mem_cons_self) ?_)
      (fun e' he' => hkeeps e' (List.mem_cons_of_mem e he'))
      fun id hid => hstep id (List.mem_cons_of_mem e hid)
    rintro id rfl
    exact hstep id List.mem_cons_self

/-! ## Trying again -/

theorem rel_refl (found : Option Call) : Option.Rel Call.Resembles found found := by
  cases found with
  | none => exact .none
  | some call => exact .some ⟨rfl, .same _⟩

/-- A call stays where it is as long as it takes no step. -/
theorem get?_calls_run {base : TxnId} (hnumbered : env.Numbered base) {events : List Event}
    (hroom : base.since env.nextTxn + events.length < UInt64.size)
    (hother : ∀ e ∈ events, ¬e.IsOf id) :
    (env.run events).calls.get? id = env.calls.get? id := by
  induction events generalizing env with
  | nil => rfl
  | cons e events ih =>
    rw [List.length_cons] at hroom
    have hnext := (since_nextTxn_after hnumbered (by omega) e).2
    have he := hother e List.mem_cons_self
    rw [run_cons, ih (hnumbered.after (by omega) e) (by omega)
      fun e' he' => hother e' (List.mem_cons_of_mem e he')]
    refine get?_calls_after hnumbered.named ?_ fun op => ?_
    · rintro rfl
      exact he rfl
    · rintro rfl
      exact he rfl

/-- A commit that has been admitted meanwhile and could not be logged (`env'`), and that is tried
again once no budget is left to run out. In `env` it has not come to its first step yet. -/
theorem resembles_retry {base : TxnId} (hnumbered : env.Numbered base) {ready : Environment}
    {txn : TxnId} {e : Error} {tracker : Latency.Tracker} (hready : env.Resembles Eq (· ≠ id) ready)
    (hcall : env.calls.get? id = some call) (hstage : call.stage = .entered)
    (hop : call.op = .commit txn) (happend : (ready.log.append (.commit txn)).2 = .error e)
    (hfailed : env' = { ready with
      tracker, log := (ready.log.append (.commit txn)).1, calls := ready.calls.erase id })
    (hsound : env'.log.poisoned = false) {plan : FaultPlan} (hplan : plan.budget = none)
    {mid later : List Event} (hroom : base.since env.nextTxn + (mid.length + 1) < UInt64.size)
    (hmid : ∀ e ∈ mid, e.Works ∧ ¬e.IsOf id) (hlater : ∀ e ∈ later, e.Works) :
    Resembles Log.Resembles (fun _ => True) (env.run (.plan plan :: mid ++ later))
      (env'.run (.plan plan :: mid ++ .start id (.commit txn) :: later)) := by
  have hplanned : Resembles Log.Resembles (· ≠ id) (env.after (.plan plan))
      (env'.after (.plan plan)) := by
    obtain ⟨⟨log, tracker', calls, rfl⟩, rfl, hcalls⟩ := hready
    subst hfailed
    refine ⟨⟨_, _, _, rfl⟩, Log.resembles_of_append_error happend hsound hplan, fun k hk => ?_⟩
    have hget : (calls.erase id).get? k = calls.get? k :=
      (SortedMap.get?_erase ..).trans (if_neg hk)
    exact hget ▸ hcalls k hk
  have hwaits := hplanned.run Log.lockstep_resembles (fun e he => (hmid e he).1.keeps)
    fun k hk heq => (hmid _ hk).2 heq
  have hnext : (env.after (.plan plan)).nextTxn = env.nextTxn := rfl
  have hstill : ((env.after (.plan plan)).run mid).calls.get? id = some call :=
    (get?_calls_run (hnumbered.after (by omega) (.plan plan)) (by rw [hnext]; omega)
      fun e he => (hmid e he).2).trans hcall
  rw [List.cons_append, List.cons_append, run_cons, run_cons, run_append, run_append, run_cons]
  generalize (env.after (.plan plan)).run mid = env₁ at hwaits hstill ⊢
  generalize (env'.after (.plan plan)).run mid = env₂ at hwaits ⊢
  -- From here on the call has its number again.
  have hagain : Resembles Log.Resembles (fun _ => True) env₁
      (env₂.after (.start id (.commit txn))) := by
    obtain ⟨tracker', timer, heq⟩ := env₂.start_eq id (.commit txn)
    rw [after, heq]
    obtain ⟨⟨log, tracker, calls, rfl⟩, hlog, hcalls⟩ := hwaits
    refine ⟨⟨_, _, _, rfl⟩, hlog, fun k _ => ?_⟩
    dsimp only
    rw [SortedMap.get?_insert]
    split
    · next heq =>
      rw [heq, hstill]
      exact .some ⟨hop.symm, hstage ▸ .same _⟩
    · next hne => exact hcalls k hne
  exact hagain.run Log.lockstep_resembles (fun e he => (hlater e he).keeps) fun _ _ => trivial

/-- Letting a call in that goes no further changes nothing for the others. -/
theorem resembles_setStage (env : Environment) (id : Nat) (call : Call) (stage : Stage) :
    env.Resembles Eq (· ≠ id) (env.setStage id call stage).1 := by
  refine ⟨⟨_, _, _, rfl⟩, rfl, fun k hk => ?_⟩
  rw [setStage, SortedMap.get?_insert, if_neg hk]
  exact rel_refl _

theorem Accounted.resembles_retry {base : TxnId} (hacc : env.Accounted base)
    {ready : Environment} {txn : TxnId} {e : Error} (hcall : env.calls.get? id = some call)
    (hstage : call.stage = .entered) (hop : call.op = .commit txn) (hopen : env.isOpen = true)
    (hactive : (env.txn txn).isActive = true)
    (hfit : ((env.txn txn).checkTime env.now).mustAbort = none) {wait : List Event}
    (horderly : env.Orderly (.step id :: wait)) (hwait : ∀ e ∈ wait, ¬e.IsOf id)
    (hready : env.run (.step id :: wait) = ready) (hwrites : 0 < (ready.txn txn).writes)
    (happend : (ready.log.append (.commit txn)).2 = .error e)
    (hsound : (ready.step id).1.log.poisoned = false) {plan : FaultPlan}
    (hplan : plan.budget = none) {mid later : List Event}
    (hroom : base.since env.nextTxn + (wait.length + 1 + (mid.length + 1)) < UInt64.size)
    (hmid : ∀ e ∈ mid, e.Works ∧ ¬e.IsOf id) (hlater : ∀ e ∈ later, e.Works) :
    Resembles Log.Resembles (fun _ => True) (env.run (wait ++ .plan plan :: mid ++ later))
      ((ready.step id).1.run (.plan plan :: mid ++ .start id (.commit txn) :: later)) := by
  have hnumbered := hacc.covered.numbered
  have hadmitted : env.after (.step id) = (env.setStage id call (.admitted none)).1 := by
    rw [Environment.after, step_eq_enter hcall hstage,
      enter_eq_admitted id hop hopen hactive hfit]
  have hresembles : Resembles Eq (· ≠ id) (env.run wait) ready := by
    rw [← hready, run_cons, hadmitted]
    exact (env.resembles_setStage id call _).run Log.lockstep_eq (fun e _ => e.keeps_eq)
      fun k hk heq => hwait _ hk heq
  -- In `ready` the call is where its first step has taken it.
  have hcall' : ready.calls.get? id = some { call with stage := .admitted none } := by
    have hnext := (since_nextTxn_after hnumbered (by omega) (.step id)).2
    rw [← hready, run_cons, get?_calls_run (hnumbered.after (by omega) _) (by omega) hwait,
      hadmitted, setStage, SortedMap.get?_insert, if_pos rfl]
  obtain ⟨hacc', -⟩ := hacc.run horderly (by rw [List.length_cons]; omega)
  rw [hready] at hacc'
  have hactive' := hacc'.checked id _ txn hcall' (by rw [hop, Op.txn?]) rfl
  obtain ⟨tracker, hstep⟩ :=
    commit_error hcall' rfl hop hacc'.covered.numbered.named hactive' hwrites happend
  obtain ⟨hnumbered', hnext'⟩ := hnumbered.run wait (by omega)
  have hstill : (env.run wait).calls.get? id = some call :=
    (get?_calls_run hnumbered (by omega) hwait).trans hcall
  rw [List.append_assoc, run_append]
  exact Environment.resembles_retry hnumbered' hresembles hstill hstage hop happend
    (congrArg Prod.fst hstep) hsound hplan (by omega) hmid hlater

theorem Resembles.live (h : env.Resembles R P env') : env'.live = env.live := by
  obtain ⟨⟨log, tracker, calls, rfl⟩, -⟩ := h
  rfl

theorem Resembles.bytes (h : env.Resembles Log.Resembles P env') :
    env'.log.store.bytes = env.log.store.bytes := by
  obtain ⟨written, crashed, hlog⟩ := h.log.eq
  rw [hlog]

/-! ## Failing is all or nothing -/

/-- **Failed operations are atomic.** Whatever an environment has done, and whatever fails: a
transaction that cannot begin changes nothing. No part of a call that fails in the end changes the
records of the log, the live set or the work of a transaction, or resolves a transaction, and a
write outside transactions leaves no lock. The same goes for a commit whose record cannot be logged,
whatever has happened since it was admitted; and if nothing is left behind of the record, then
trying again comes to what the commit would have come to. -/
theorem failure_atomic {config : Config} {store : Store} {now : Instant}
    (hopen : openOn config store now = .ok env) {before : List Event}
    (horderly : env.Orderly before) {cur : Environment} (hcur : env.run before = cur)
    (hroom : env.state.lastLsn.toNat + before.length + 1 < UInt64.size) :
    (∀ config' e, (cur.begin config').2 = .error e → (cur.begin config').1 = cur) ∧
    (∀ id op later e, op.resolves = false → cur.Orderly (.start id op :: later) →
      env.state.lastLsn.toNat + (before.length + 1 + later.length) < UInt64.size →
      Answers id (.error e) cur (.start id op :: later) →
      (∀ past own rest, .start id op :: later = past ++ own :: rest → own.IsOf id →
        (cur.run past).Spares ((cur.run past).after own)) ∧
      (op.txn? = none → ∀ past rest call cause, .start id op :: later = past ++ .step id :: rest →
        (cur.run past).calls.get? id = some call → call.stage = .admitted cause →
        (cur.run (.start id op :: later)).Free (cur.run past).nextTxn)) ∧
    (∀ id call, cur.calls.get? id = some call → call.stage = .entered →
      cur.Spares (cur.step id).1) ∧
    (∀ id call txn e, cur.calls.get? id = some call → call.stage = .admitted none →
      call.op = .commit txn → 0 < (cur.txn txn).writes →
      (cur.log.append (.commit txn)).2 = .error e →
      (cur.step id).2 = some (.error e) ∧ cur.Spares (cur.step id).1 ∧
      (cur.step id).1.txns = cur.txns ∧ (cur.step id).1.locks = cur.locks) ∧
    ∀ id call txn e wait ready, cur.calls.get? id = some call → call.stage = .entered →
      call.op = .commit txn → cur.isOpen = true → (cur.txn txn).isActive = true →
      ((cur.txn txn).checkTime cur.now).mustAbort = none → cur.Orderly (.step id :: wait) →
      (∀ e ∈ wait, ¬e.IsOf id) → cur.run (.step id :: wait) = ready →
      0 < (ready.txn txn).writes → (ready.log.append (.commit txn)).2 = .error e →
      (ready.step id).1.log.poisoned = false → ∀ plan mid later, plan.budget = none →
      before.length + 1 + wait.length + 1 + mid.length < UInt64.size →
      (∀ e ∈ mid, e.Works ∧ ¬e.IsOf id) → (∀ e ∈ later, e.Works) →
      ((ready.step id).1.run (.plan plan :: mid ++ .start id (.commit txn) :: later)).live =
          (cur.run (wait ++ .plan plan :: mid ++ later)).live ∧
        ((ready.step id).1.run
            (.plan plan :: mid ++ .start id (.commit txn) :: later)).log.store.bytes =
          (cur.run (wait ++ .plan plan :: mid ++ later)).log.store.bytes := by
  obtain ⟨rs₀, hopened⟩ := openOn_ok hopen
  rw [hopened.tracks.lastLsn] at hroom ⊢
  have hself : env.nextTxn.since env.nextTxn = 0 := TxnId.since_self _
  obtain ⟨rs, htracks, -, hend, -⟩ := hopened.tracks.run before (by omega) (by omega)
  obtain ⟨hacc, hnext⟩ := hopened.accounted.run horderly (by omega)
  rw [hcur] at htracks hacc hnext
  refine ⟨fun config' e => begin_error, fun id op later e hgoes horderly hroom hanswers => ?_,
    fun id call hcall hstage => ?_, fun id call txn e hcall hstage hop hwrites happend => ?_,
    fun id call txn e wait ready hcall hstage hop hisOpen hactive hfit horderly hwait hready hwrites
      happend hsound plan mid later hplan hshort hmid hlater => ?_⟩
  · refine ⟨fun past own rest heq hown => ?_, fun hnone past rest call cause heq hcall hstage => ?_⟩
    · exact spares_of_isOf hanswers htracks horderly hgoes (by omega) (by omega) heq hown
    · exact free_of_start hanswers hacc horderly hnone (by omega) heq hcall hstage
  · obtain ⟨txns, tracker, calls, htxns, heq⟩ :=
      (step_spec htracks.numbered.named id).of_entered hcall hstage
    rw [heq]
    exact spares_of_holds htracks.holds htracks.holds rfl fun _ => htxns.isActive rfl
  · have hactive := hacc.checked id call txn hcall (by rw [hop, Op.txn?]) (by rw [hstage]; rfl)
    obtain ⟨tracker, hstep⟩ :=
      commit_error hcall hstage hop htracks.numbered.named hactive hwrites happend
    have hholds : (cur.log.append (.commit txn)).1.Holds rs :=
      htracks.holds.append_error (Prod.ext rfl happend)
    refine ⟨by rw [hstep], ?_, by rw [hstep], by rw [hstep]⟩
    rw [hstep]
    exact spares_of_holds htracks.holds hholds rfl fun _ hactive => hactive
  · have hresembles := hacc.resembles_retry hcall hstage hop hisOpen hactive hfit horderly hwait
      hready hwrites happend hsound hplan (by omega) hmid hlater
    exact ⟨hresembles.live, hresembles.bytes⟩

/-- A transaction has put a record, and is about to commit. The store breaks off within the next
record. -/
def faltering : List Event :=
  [.begin .standard, .start 0 (.put ⟨1⟩ [1] [2]), .step 0, .step 0, .step 0,
    .plan ⟨some 60, false, false⟩, .start 1 (.commit ⟨1⟩)]

/-- The commit has been admitted. -/
def faltered : List Event := faltering ++ [.step 1, .tick 1]

/-- What a store answers that breaks off within a record. -/
def brokenOff : Error := .storage (Store.planned "partial write")

theorem failure_atomic_faltering : blank.Orderly faltered ∧
    blank.state.lastLsn.toNat + faltered.length + 1 < UInt64.size ∧
    ((blank.run faltering).begin ⟨.serializable, some (2 * Setting.maxTimeout), none⟩).1 =
      blank.run faltering ∧
    ((blank.run faltering).run [.start 2 (.putNow [3] [4]), .step 2, .step 2]).Spares
      ((blank.run faltering).run [.start 2 (.putNow [3] [4]), .step 2, .step 2, .step 2]) ∧
    ((blank.run faltering).run
      [.start 2 (.putNow [3] [4]), .step 2, .step 2, .step 2, .step 2]).Free ⟨2⟩ ∧
    (blank.run faltering).Spares ((blank.run faltering).step 1).1 ∧
    (blank.run faltered).Spares
      ((blank.run faltered).step 1).1 ∧
    (((blank.run faltered).step 1).1.run
      [.plan .none, .tick 2, .start 1 (.commit ⟨1⟩), .step 1, .step 1]).live.pairs =
        [([1], [2])] := by
  have horderly : blank.Orderly faltered := by decide +kernel
  have hroom : blank.state.lastLsn.toNat + faltered.length + 1 <
      UInt64.size := by
    decide +kernel
  obtain ⟨ready, hready⟩ : ∃ ready, blank.run faltered = ready := ⟨_, rfl⟩
  obtain ⟨cur, hcur⟩ : ∃ cur, blank.run faltering = cur := ⟨_, rfl⟩
  have hwait : cur.run [.step 1, .tick 1] = ready := by rw [← hready, ← hcur, faltered, run_append]
  obtain ⟨hbegin, hcalls, hentered, -, hretry⟩ :=
    failure_atomic openOn_empty (orderly_append.1 horderly).1 hcur (by decide +kernel)
  obtain ⟨-, -, -, hcommit, -⟩ := failure_atomic openOn_empty horderly hready hroom
  have hrefused : (cur.begin ⟨.serializable, some (2 * Setting.maxTimeout), none⟩).2 =
      .error (.invalidSetting Setting.lockTimeoutName
        (.tooLong (2 * Setting.maxTimeout) Setting.maxTimeout)) := by
    subst hcur
    decide +kernel
  have horderly' : cur.Orderly
      [.start 2 (.putNow [3] [4]), .step 2, .step 2, .step 2, .step 2] := by
    subst hcur
    decide +kernel
  have hanswers : Answers 2 (.error brokenOff) cur
      [.start 2 (.putNow [3] [4]), .step 2, .step 2, .step 2, .step 2] := by
    subst hcur
    exact .later rfl (.later (by decide +kernel) (.later (by decide +kernel)
      (.later (by decide +kernel) (.last (by decide +kernel)))))
  obtain ⟨call, hcall, hadmitted⟩ : ∃ call,
      (cur.run [.start 2 (.putNow [3] [4]), .step 2]).calls.get? 2 = some call ∧
        call.stage = .admitted none := by
    subst hcur
    exact ⟨_, rfl, rfl⟩
  have hlocker : (cur.run [.start 2 (.putNow [3] [4]), .step 2]).nextTxn = ⟨2⟩ := by
    subst hcur
    decide +kernel
  have hcommits : cur.calls.get? 1 = some ⟨.commit ⟨1⟩, none, .entered⟩ := by
    subst hcur
    exact (SortedMap.get?_insert ..).trans (if_pos rfl)
  have hcommits' : ready.calls.get? 1 = some ⟨.commit ⟨1⟩, none, .admitted none⟩ := by
    subst hready
    rfl
  have hfit : cur.isOpen = true ∧ (cur.txn ⟨1⟩).isActive = true ∧
      ((cur.txn ⟨1⟩).checkTime cur.now).mustAbort = none := by
    subst hcur
    decide +kernel
  have hfails : 0 < (ready.txn ⟨1⟩).writes ∧
      (ready.log.append (.commit ⟨1⟩)).2 = .error brokenOff ∧
      (ready.step 1).1.log.poisoned = false := by
    subst hready
    decide +kernel
  have hlive : (cur.run [.tick 1, .plan .none, .tick 2, .step 1, .step 1]).live.pairs =
      [([1], [2])] := by
    subst hcur
    decide +kernel
  obtain ⟨hopen, hactive, hfit⟩ := hfit
  obtain ⟨hwrites, happend, hsound⟩ := hfails
  obtain ⟨hspares, hfree⟩ := hcalls 2 (.putNow [3] [4]) [.step 2, .step 2, .step 2, .step 2]
    brokenOff rfl horderly' (by decide +kernel) hanswers
  obtain ⟨-, hspared, -⟩ := hcommit 1 _ ⟨1⟩ brokenOff hcommits' rfl rfl hwrites happend
  obtain ⟨hlive', -⟩ := hretry 1 _ ⟨1⟩ brokenOff [.tick 1] ready hcommits rfl rfl hopen hactive hfit
    (hcur ▸ (orderly_append.1 horderly).2) (by simp [Event.IsOf]) hwait hwrites happend hsound .none
    [.tick 2] [.step 1, .step 1] rfl (by decide) (by simp [Event.Works, Event.IsOf])
    (by simp [Event.Works])
  have hfree := hlocker ▸ hfree rfl [_, _] [_, _] call none rfl hcall hadmitted
  rw [hcur, hready]
  exact ⟨horderly, hroom, hbegin _ _ hrefused, hspares [_, _, _] _ [_] rfl rfl, hfree,
    hentered 1 _ hcommits rfl, hspared, (congrArg LiveSet.pairs hlive').trans hlive⟩

end Environment
end WalStore

import WalStore.Proofs.Environment.Run
import WalStore.Proofs.Latency

/-!
# Calls that are alone

A run is lone if every call has returned before the next one starts. Nobody else is at work then
when a call is slow, but the call may have two operations under way: a read or a write lasts as
long as its wait for a lock, and longer.

**Invariant (`Alone`).** At most one call is in progress, and what the tracker has under way are
the operations of this call, the wait within the call.

**Theorem (`dumps_of_lone`).** So the only dumps of a lone run are those taken at the end of a slow
wait for a lock, and they find nothing but the very read or write that has waited. There are none
unless one overlapping operation is enough for a dump.
-/

namespace WalStore

namespace Environment

variable {env env' : Environment} {id : Nat} {call : Call} {settings : Latency.Settings}

/-! ## Lone runs -/

/-- No call is in progress when the event starts one. -/
def Event.Lone (env : Environment) : Event → Prop
  | .start _ _ => env.calls.isEmpty = true
  | _ => True

instance (env : Environment) : (e : Event) → Decidable (e.Lone env)
  | .start _ _ => inferInstanceAs (Decidable (env.calls.isEmpty = true))
  | .begin _ | .step _ | .drop _ | .close | .cancel _ | .tick _ | .wake _ | .plan _ =>
    inferInstanceAs (Decidable True)

/-- A run in which every call has returned before the next one starts. -/
def Lone (env : Environment) : List Event → Prop
  | [] => True
  | e :: events => e.Lone env ∧ Lone (env.after e) events

instance decidableLone :
    (env : Environment) → (events : List Event) → Decidable (env.Lone events)
  | _, [] => inferInstanceAs (Decidable True)
  | env, e :: events =>
    have := decidableLone (env.after e) events
    inferInstanceAs (Decidable (e.Lone env ∧ Lone (env.after e) events))

/-! ## The operations of a call -/

/-- The wait for its lock that a call is in. -/
def Stage.wait? : Stage → Option Latency.Ticket
  | waiting _ timer => some timer
  | entered | admitted _ | granted .. | releasing .. => none

/-- The operations that a call has under way: itself, if it is timed, and its wait. -/
def Call.tickets (call : Call) : List Latency.Ticket :=
  call.timer.toList ++ call.stage.wait?.toList

/-- Until it has its lock, the call is timed as its operation says, and so is its wait. -/
def Call.Timed (call : Call) : Prop :=
  match call.stage with
  | .entered | .admitted _ => call.timer.map (·.kind) = call.op.timedAs?
  | .waiting _ timer => call.timer.map (·.kind) = call.op.timedAs? ∧ timer.kind = .lockWait
  | .granted .. | .releasing .. => True

/-- No call is in progress but, maybe, the one with this number, and the given operations are under
way. -/
structure Sole (settings : Latency.Settings) (id : Nat) (tickets : List Latency.Ticket)
    (env : Environment) : Prop where
  calls : ∃ call, env.calls = (∅ : SortedMap Nat Call).insert id call
  settings : env.tracker.settings = settings
  nests : env.tracker.Nests tickets

/-- At most one call is in progress, and the operations under way are its own. -/
inductive Alone (settings : Latency.Settings) (env : Environment) : Prop
  | idle (hcalls : env.calls = ∅) (hsettings : env.tracker.settings = settings)
      (hnests : env.tracker.Nests [])
  | busy {id : Nat} {call : Call} (hcalls : env.calls = (∅ : SortedMap Nat Call).insert id call)
      (hsettings : env.tracker.settings = settings) (hnests : env.tracker.Nests call.tickets)
      (htimed : call.Timed)

/-- A dump at the moment `now`, when a slow wait of the call for its lock has ended. All it finds
overlapping is the operation that the call is timed as. -/
structure Own (settings : Latency.Settings) (now : Instant) (call : Call) (d : Latency.Dump) :
    Prop where
  one : settings.threshold = 1
  trigger : d.trigger = .lockWait
  slow : settings.slow ≤ d.duration
  overlapping : ∃ outer, call.timer = some outer ∧ call.op.timedAs? = some outer.kind ∧
    d.overlapping = [⟨outer.kind, now - outer.started⟩]

/-- The environment has the dumps that there were, or one more that the call has caused. -/
def Adds (settings : Latency.Settings) (now : Instant) (call : Call) (dumps : List Latency.Dump)
    (env : Environment) : Prop :=
  env.tracker.dumps = dumps ∨ ∃ d, env.tracker.dumps = dumps ++ [d] ∧ Own settings now call d

/-- A call in progress is the only one. -/
theorem Alone.of_get? (h : env.Alone settings) (hget : env.calls.get? id = some call) :
    env.calls = (∅ : SortedMap Nat Call).insert id call ∧ env.tracker.settings = settings ∧
      env.tracker.Nests call.tickets ∧ call.Timed := by
  cases h with
  | idle hcalls =>
    rw [hcalls] at hget
    cases hget
  | busy hcalls hsettings hnests htimed =>
    rw [hcalls, SortedMap.get?_insert] at hget
    split at hget
    · next heq =>
      cases heq
      cases hget
      exact ⟨hcalls, hsettings, hnests, htimed⟩
    · cases hget

/-! ## What a step is made of -/

theorem insert_sole (m : SortedMap Nat Call) {call call' : Call}
    (h : m = (∅ : SortedMap Nat Call).insert id call) :
    m.insert id call' = (∅ : SortedMap Nat Call).insert id call' := by
  rw [h, SortedMap.insert_insert]

theorem erase_sole (m : SortedMap Nat Call) (h : m = (∅ : SortedMap Nat Call).insert id call) :
    m.erase id = ∅ := by
  rw [h, SortedMap.erase_insert]
  rfl

namespace Sole

variable {tickets : List Latency.Ticket}

theorem congr (h : env.Sole settings id tickets) (hcalls : env'.calls = env.calls)
    (htracker : env'.tracker = env.tracker) : env'.Sole settings id tickets := by
  obtain ⟨⟨call, hcall⟩, hsettings, hnests⟩ := h
  exact ⟨⟨call, hcalls.trans hcall⟩, htracker ▸ hsettings, htracker ▸ hnests⟩

theorem startTimer (h : env.Sole settings id tickets) (kind : OpKind) :
    (env.startTimer kind).1.Sole settings id (tickets ++ [(env.startTimer kind).2]) :=
  ⟨h.calls, h.settings, h.nests.start env.now kind⟩

/-- The call is over. -/
theorem finish (h : env.Sole settings id call.timer.toList) (hpositive : 0 < settings.threshold)
    (result : Result) :
    (env.finish id call result).1.Alone settings ∧
      (env.finish id call result).1.tracker.dumps = env.tracker.dumps := by
  obtain ⟨⟨call', hcalls⟩, hsettings, hnests⟩ := h
  have hnone : env.calls.erase id = ∅ := erase_sole _ hcalls
  rw [Environment.finish]
  cases htimer : call.timer with
  | none =>
    rw [htimer] at hnests
    exact ⟨.idle hnone hsettings hnests, rfl⟩
  | some timer =>
    rw [htimer] at hnests
    obtain ⟨hnests', hdumps⟩ := Latency.Tracker.Nests.finish_nil hnests (by rwa [hsettings]) env.now
    exact ⟨.idle hnone ((Latency.Tracker.settings_finish ..).trans hsettings) hnests', hdumps⟩

/-- The call goes on. -/
theorem setStage {stage : Stage} (h : env.Sole settings id ({ call with stage } : Call).tickets)
    (htimed : ({ call with stage } : Call).Timed) :
    (env.setStage id call stage).1.Alone settings := by
  obtain ⟨⟨call', hcalls⟩, hsettings, hnests⟩ := h
  exact .busy (insert_sole _ hcalls) hsettings hnests htimed

/-- The call has waited for its lock. -/
theorem stopWait {timer : Latency.Ticket}
    (h : env.Sole settings id (call.timer.toList ++ [timer])) (hpositive : 0 < settings.threshold)
    (htimed : call.timer.map (·.kind) = call.op.timedAs?) (hwait : timer.kind = .lockWait) :
    (env.stopTimer (some timer)).Sole settings id call.timer.toList ∧
      (env.stopTimer (some timer)).Adds settings env.now call env.tracker.dumps := by
  obtain ⟨hcalls, hsettings, hnests⟩ := h
  have hsettings' : (env.stopTimer (some timer)).tracker.settings = settings :=
    (Latency.Tracker.settings_finish ..).trans hsettings
  have hpositive' : 0 < env.tracker.settings.threshold := by rwa [hsettings]
  cases htimer : call.timer with
  | none =>
    rw [htimer] at hnests
    obtain ⟨hnests', hdumps⟩ := Latency.Tracker.Nests.finish_nil hnests hpositive' env.now
    exact ⟨⟨hcalls, hsettings', hnests'⟩, .inl hdumps⟩
  | some outer =>
    rw [htimer] at hnests htimed
    obtain ⟨hnests', hdumps⟩ := Latency.Tracker.Nests.finish_singleton hnests hpositive' env.now
    refine ⟨⟨hcalls, hsettings', hnests'⟩, hdumps.imp_right ?_⟩
    rintro ⟨d, hdumps, hone, hdump⟩
    rw [hsettings] at hone
    refine ⟨d, hdumps, hone, hdump.trigger.trans hwait, ?_, outer, htimer, htimed.symm,
      hdump.overlapping⟩
    rw [hdump.duration, ← hsettings]
    exact hdump.slow

theorem withLocks (h : env.Sole settings id tickets) (locks : LockManager) :
    ({ env with locks }).Sole settings id tickets := h.congr rfl rfl

theorem withLog (h : env.Sole settings id tickets) (log : Log) :
    ({ env with log }).Sole settings id tickets := h.congr rfl rfl

theorem takeId (h : env.Sole settings id tickets) : env.takeId.1.Sole settings id tickets :=
  h.congr rfl rfl

theorem modifyTxn (h : env.Sole settings id tickets) (txn : TxnId)
    (f : Transaction → Transaction) : (env.modifyTxn txn f).Sole settings id tickets ∧
      (env.modifyTxn txn f).tracker.dumps = env.tracker.dumps := by
  rw [modifyTxn_eq]
  exact ⟨h.congr rfl rfl, rfl⟩

theorem append (h : env.Sole settings id tickets) (entry : Entry) :
    (env.append entry).1.Sole settings id tickets ∧
      (env.append entry).1.tracker.dumps = env.tracker.dumps := by
  obtain ⟨log, state, result, counters, happend, -⟩ := env.append_spec entry
  rw [happend]
  exact ⟨h.congr rfl rfl, rfl⟩

/-- The call has passed its checks. -/
theorem accept (h : env.Sole settings id call.timer.toList)
    (htimed : call.timer.map (·.kind) = call.op.timedAs?) (cause : Option Error) :
    (env.setStage id call (.admitted cause)).1.Alone settings := by
  have htickets : ({ call with stage := .admitted cause } : Call).tickets = call.timer.toList :=
    List.append_nil _
  exact setStage (htickets ▸ h) htimed

/-- The call has its lock or its result, and goes on. -/
theorem goOn {owner : TxnId} (h : env.Sole settings id call.timer.toList) (stage : Stage)
    (hstage : (∃ g, stage = .granted owner g) ∨ ∃ result, stage = .releasing owner result) :
    (env.setStage id call stage).1.Alone settings := by
  have htickets : ({ call with stage } : Call).tickets = call.timer.toList := by
    rcases hstage with ⟨g, rfl⟩ | ⟨result, rfl⟩ <;> exact List.append_nil _
  refine setStage (htickets ▸ h) ?_
  rcases hstage with ⟨g, rfl⟩ | ⟨result, rfl⟩ <;> trivial

end Sole

theorem Adds.of_eq {dumps : List Latency.Dump} {now : Instant}
    (h : env.Adds settings now call dumps)
    (hdumps : env'.tracker.dumps = env.tracker.dumps) : env'.Adds settings now call dumps := by
  rwa [Adds, hdumps]

theorem Adds.congr {dumps dumps' : List Latency.Dump} {now now' : Instant}
    (h : env.Adds settings now call dumps) (hnow : now = now') (hdumps : dumps = dumps') :
    env.Adds settings now' call dumps' := hnow ▸ hdumps ▸ h

/-! ## Steps -/

section Steps

variable (hpositive : 0 < settings.threshold)

include hpositive

/-- The request of the call has been answered. -/
theorem Sole.answered {owner : TxnId} {timer : Latency.Ticket} {outcome : LockState.Outcome}
    (h : env.Sole settings id (call.timer.toList ++ [timer]))
    (htimed : call.timer.map (·.kind) = call.op.timedAs?) (hwait : timer.kind = .lockWait) :
    (env.answered id call owner timer outcome).1.Alone settings ∧
      (env.answered id call owner timer outcome).1.Adds settings env.now call
        env.tracker.dumps := by
  obtain ⟨hsole, hadds⟩ := h.stopWait hpositive htimed hwait
  unfold Environment.answered
  cases outcome with
  | error e =>
    obtain ⟨hsole', hmodify⟩ := hsole.modifyTxn owner (·.note e)
    obtain ⟨halone, hdumps⟩ := hsole'.finish hpositive (.error e)
    exact ⟨halone, hadds.of_eq (hdumps.trans hmodify)⟩
  | ok grant =>
    dsimp only
    cases call.op with
    | lock =>
      obtain ⟨halone, hdumps⟩ := hsole.finish hpositive (.ok (.grant grant))
      exact ⟨halone, hadds.of_eq hdumps⟩
    | _ => exact ⟨hsole.goOn (.granted owner grant) (.inl ⟨grant, rfl⟩), hadds⟩

/-- The call asks for its lock. -/
theorem Sole.ask {owner : TxnId} {deadlines : Deadlines} {token : Option TokenId}
    (h : env.Sole settings id call.timer.toList)
    (htimed : call.timer.map (·.kind) = call.op.timedAs?) :
    (env.ask id call owner deadlines token).1.Alone settings ∧
      (env.ask id call owner deadlines token).1.Adds settings env.now call env.tracker.dumps := by
  have hstart := h.startTimer .lockWait
  unfold Environment.ask
  dsimp only
  split
  · exact ⟨(hstart.withLocks _).setStage ⟨htimed, rfl⟩, .inl rfl⟩
  · exact (hstart.withLocks _).answered hpositive htimed rfl

/-- The call looks again for its lock. -/
theorem Sole.lookAgain {owner : TxnId} {timer : Latency.Ticket}
    (hcalls : env.calls = (∅ : SortedMap Nat Call).insert id call)
    (hsettings : env.tracker.settings = settings) (hnests : env.tracker.Nests call.tickets)
    (hstage : call.stage = .waiting owner timer) (htimed : call.Timed) :
    (env.lookAgain id call owner timer).1.Alone settings ∧
      (env.lookAgain id call owner timer).1.Adds settings env.now call env.tracker.dumps := by
  have htickets : call.tickets = call.timer.toList ++ [timer] := by
    rw [Call.tickets, hstage]
    rfl
  have hsole : env.Sole settings id (call.timer.toList ++ [timer]) :=
    ⟨⟨call, hcalls⟩, hsettings, htickets ▸ hnests⟩
  have hkinds : call.timer.map (·.kind) = call.op.timedAs? ∧ timer.kind = .lockWait := by
    rwa [Call.Timed, hstage] at htimed
  unfold Environment.lookAgain
  dsimp only
  split
  · exact ⟨.busy hcalls hsettings hnests htimed, .inl rfl⟩
  · exact (hsole.withLocks _).answered hpositive hkinds.1 hkinds.2

omit hpositive in
/-- The abort of a call that is not timed yet. -/
theorem Sole.enterAbort (h : env.Sole settings id []) (t : Transaction) (cause : Option Error) :
    (env.enterAbort id call t cause).1.Alone settings ∧
      (env.enterAbort id call t cause).1.tracker.dumps = env.tracker.dumps := by
  have hstart := h.startTimer .abort
  have hlogged : ∃ env₁ logged,
      (if 0 < t.writes then (env.startTimer .abort).1.append (.abort t.id)
        else ((env.startTimer .abort).1, .ok .zero)) = (env₁, logged) ∧
      env₁.Sole settings id [(env.startTimer .abort).2] ∧
      env₁.tracker.dumps = env.tracker.dumps := by
    split
    · exact ⟨_, _, rfl, hstart.append _⟩
    · exact ⟨_, _, rfl, hstart, rfl⟩
  obtain ⟨env₁, logged, heq, hsole, hdumps⟩ := hlogged
  obtain ⟨hsole', hmodify⟩ := hsole.modifyTxn t.id ({ · with state := .aborted })
  unfold Environment.enterAbort
  dsimp only
  rw [heq]
  exact ⟨hsole'.goOn _ (.inr ⟨_, rfl⟩), hmodify.trans hdumps⟩

/-- The commit of a call that is not timed yet. -/
theorem Sole.enterCommit (h : env.Sole settings id []) (t : Transaction) :
    (env.enterCommit id call t).1.Alone settings ∧
      (env.enterCommit id call t).1.tracker.dumps = env.tracker.dumps := by
  have hstart := h.startTimer .commit
  unfold Environment.enterCommit
  dsimp only
  split
  · obtain ⟨hsole, hdumps⟩ := hstart.append (.commit t.id)
    split
    · next env₁ e heq =>
      rw [heq] at hsole hdumps
      have hsole' : env₁.Sole settings id
          ({ call with timer := some (env.startTimer .commit).2 } : Call).timer.toList := hsole
      obtain ⟨halone, hdumps'⟩ := hsole'.finish hpositive (.error e)
      exact ⟨halone, hdumps'.trans hdumps⟩
    · next env₁ lsn heq =>
      rw [heq] at hsole hdumps
      obtain ⟨hsole', hmodify⟩ := hsole.modifyTxn t.id ({ · with state := .committed })
      exact ⟨(hsole'.withLog _).goOn _ (.inr ⟨_, rfl⟩), hmodify.trans hdumps⟩
  · obtain ⟨hsole', hmodify⟩ := hstart.modifyTxn t.id ({ · with state := .committed })
    exact ⟨hsole'.goOn _ (.inr ⟨_, rfl⟩), hmodify⟩

/-- The first step of the call. -/
theorem Sole.enter (h : env.Sole settings id call.timer.toList)
    (htimed : call.timer.map (·.kind) = call.op.timedAs?) :
    (env.enter id call).1.Alone settings ∧
      (env.enter id call).1.tracker.dumps = env.tracker.dumps := by
  unfold Environment.enter
  cases call.op.txn? with
  | none =>
    dsimp only
    split
    · exact h.finish hpositive _
    · exact ⟨h.accept htimed none, rfl⟩
  | some txn =>
    dsimp only
    split
    · split
      · exact h.finish hpositive _
      · exact ⟨h.accept htimed none, rfl⟩
    split
    · exact h.finish hpositive _
    cases (env.txn txn).checkUsable env.now with
    | mk t' usable =>
      obtain ⟨hsole, hmodify⟩ := h.modifyTxn txn fun _ => t'
      have hrefuse (e : Error) := (hsole.finish hpositive (.error e)).imp_right (·.trans hmodify)
      dsimp only
      split
      · exact ⟨hsole.accept htimed none, hmodify⟩
      · split
        · exact ⟨hsole.accept htimed (some _), hmodify⟩
        · exact hrefuse _
      · exact hrefuse _

/-- The step of the call that has been admitted. -/
theorem Sole.proceed {cause : Option Error} (h : env.Sole settings id call.timer.toList)
    (htimed : call.timer.map (·.kind) = call.op.timedAs?) :
    (env.proceed id call cause).1.Alone settings ∧
      (env.proceed id call cause).1.Adds settings env.now call env.tracker.dumps := by
  have huntimed (hnone : call.op.timedAs? = none) : env.Sole settings id [] := by
    rw [hnone, Option.map_eq_none_iff] at htimed
    rwa [htimed] at h
  have h' := env.proceeds id call cause
  generalize env.proceed id call cause = stepped at h' ⊢
  cases h' with
  | ended => exact And.imp_right .inl (h.finish hpositive _)
  | direct => exact h.takeId.ask hpositive htimed
  | inTxn => exact h.ask hpositive htimed
  | abort hop => exact And.imp_right .inl ((huntimed (by rw [hop]; rfl)).enterAbort _ _)
  | giveUp hop => exact And.imp_right .inl ((huntimed (by rw [hop]; rfl)).enterAbort _ _)
  | commit hop => exact And.imp_right .inl ((huntimed (by rw [hop]; rfl)).enterCommit hpositive _)

/-- The call reads or writes under its lock. -/
theorem Sole.work {owner : TxnId} {grant : Grant} (h : env.Sole settings id call.timer.toList) :
    (env.work id call owner grant).1.Alone settings ∧
      (env.work id call owner grant).1.tracker.dumps = env.tracker.dumps := by
  unfold Environment.work
  cases call.op.entry? with
  | none =>
    dsimp only
    split
    · exact ⟨h.goOn _ (.inr ⟨_, rfl⟩), rfl⟩
    · exact h.finish hpositive _
  | some entry =>
    obtain ⟨hsole, hdumps⟩ := h.append entry
    cases call.op.txn? with
    | none => exact ⟨hsole.goOn _ (.inr ⟨_, rfl⟩), hdumps⟩
    | some txn =>
      dsimp only
      split
      · next env₁ e heq =>
        rw [heq] at hsole hdumps
        obtain ⟨halone, hdumps'⟩ := hsole.finish hpositive (.error e)
        exact ⟨halone, hdumps'.trans hdumps⟩
      · next env₁ lsn heq =>
        rw [heq] at hsole hdumps
        obtain ⟨hsole', hmodify⟩ := hsole.modifyTxn txn fun t => { t with writes := t.writes + 1 }
        obtain ⟨halone, hdumps'⟩ := hsole'.finish hpositive (.ok (.logged lsn))
        exact ⟨halone, hdumps'.trans (hmodify.trans hdumps)⟩

/-- The call releases its locks. -/
theorem Sole.release {owner : TxnId} {result : Result}
    (h : env.Sole settings id call.timer.toList) :
    (env.release id call owner result).1.Alone settings ∧
      (env.release id call owner result).1.tracker.dumps = env.tracker.dumps := by
  have hcounted (state : TxnState) :
      ((env.releaseAll owner).countResolved state).Sole settings id call.timer.toList ∧
        ((env.releaseAll owner).countResolved state).tracker.dumps = env.tracker.dumps := by
    obtain ⟨counters, hcount⟩ := (env.releaseAll owner).countResolved_eq state
    rw [hcount]
    exact ⟨h.congr rfl rfl, rfl⟩
  unfold Environment.release
  cases call.op with
  | get => exact (h.withLocks _).finish hpositive result
  | commit | abort =>
    obtain ⟨hsole, hdumps⟩ := hcounted (env.txn owner).state
    obtain ⟨halone, hdumps'⟩ := hsole.finish hpositive result
    exact ⟨halone, hdumps'.trans hdumps⟩
  | _ => exact (h.withLocks _).finish hpositive result

/-- A step of the call in progress. -/
theorem Alone.step (h : env.Alone settings) (hget : env.calls.get? id = some call) :
    (env.step id).1.Alone settings ∧
      (env.step id).1.Adds settings env.now call env.tracker.dumps := by
  obtain ⟨hcalls, hsettings, hnests, htimed⟩ := h.of_get? hget
  have hsole (hwait : call.stage.wait? = none) : env.Sole settings id call.timer.toList := by
    rw [Call.tickets, hwait] at hnests
    exact ⟨⟨call, hcalls⟩, hsettings, List.append_nil call.timer.toList ▸ hnests⟩
  rw [Environment.step, hget]
  dsimp only
  cases hstage : call.stage with
  | entered =>
    rw [Call.Timed, hstage] at htimed
    obtain ⟨halone, hdumps⟩ := (hsole (by rw [hstage]; rfl)).enter hpositive htimed
    exact ⟨halone, .inl hdumps⟩
  | admitted cause =>
    rw [Call.Timed, hstage] at htimed
    exact (hsole (by rw [hstage]; rfl)).proceed hpositive htimed
  | waiting owner timer =>
    exact Sole.lookAgain hpositive hcalls hsettings hnests hstage htimed
  | granted owner grant =>
    obtain ⟨halone, hdumps⟩ := (hsole (by rw [hstage]; rfl)).work hpositive
    exact ⟨halone, .inl hdumps⟩
  | releasing owner result =>
    obtain ⟨halone, hdumps⟩ := (hsole (by rw [hstage]; rfl)).release hpositive
    exact ⟨halone, .inl hdumps⟩

end Steps

/-! ## Runs -/

theorem Alone.congr (h : env.Alone settings) (hcalls : env'.calls = env.calls)
    (htracker : env'.tracker = env.tracker) : env'.Alone settings := by
  cases h with
  | idle hcalls' hsettings hnests =>
    exact .idle (hcalls.trans hcalls') (htracker ▸ hsettings) (htracker ▸ hnests)
  | busy hcalls' hsettings hnests htimed =>
    exact .busy (hcalls.trans hcalls') (htracker ▸ hsettings) (htracker ▸ hnests) htimed

theorem Alone.of_isEmpty (h : env.Alone settings) (hempty : env.calls.isEmpty = true) :
    env.calls = ∅ ∧ env.tracker.settings = settings ∧ env.tracker.Nests [] := by
  cases h with
  | idle hcalls hsettings hnests => exact ⟨hcalls, hsettings, hnests⟩
  | @busy id call hcalls =>
    have hnone := SortedMap.isEmpty_iff.1 hempty id
    rw [hcalls, SortedMap.get?_insert, if_pos rfl] at hnone
    cases hnone

/-- A call starts when no other is in progress. -/
theorem Alone.start (h : env.Alone settings) (hempty : env.calls.isEmpty = true) (id : Nat)
    (op : Op) : (env.start id op).Alone settings ∧
      (env.start id op).tracker.dumps = env.tracker.dumps := by
  obtain ⟨hcalls, hsettings, hnests⟩ := h.of_isEmpty hempty
  have hsole (call : Call) :
      env.calls.insert id call = (∅ : SortedMap Nat Call).insert id call := by
    rw [hcalls]
  unfold Environment.start
  cases hkind : op.timedAs? with
  | none => exact ⟨.busy (hsole _) hsettings hnests hkind.symm, rfl⟩
  | some kind => exact ⟨.busy (hsole _) hsettings (hnests.start env.now kind) hkind.symm, rfl⟩

/-- Events that are neither the start nor a step of a call leave calls and operations alone. -/
theorem frame_after (env : Environment) {e : Event} (hstart : ∀ id op, e ≠ .start id op)
    (hstep : ∀ id, e ≠ .step id) :
    (env.after e).calls = env.calls ∧ (env.after e).tracker = env.tracker := by
  cases e with
  | begin config =>
    rcases env.begin_cases config with ⟨e, h⟩ | ⟨timeouts, counters, h⟩ <;> rw [after, h] <;>
      exact ⟨rfl, rfl⟩
  | start id op => exact absurd rfl (hstart id op)
  | step id => exact absurd rfl (hstep id)
  | drop txn =>
    rcases env.drop_cases txn with h | ⟨txns, counters, -, h⟩ <;> rw [after, h] <;>
      exact ⟨rfl, rfl⟩
  | close =>
    obtain ⟨log, isOpen, -, h⟩ := env.close_cases
    rw [after, h]
    exact ⟨rfl, rfl⟩
  | _ => exact ⟨rfl, rfl⟩

/-- An event of a lone run adds a dump at most where the call in progress takes a step. -/
theorem Alone.after (hpositive : 0 < settings.threshold) (h : env.Alone settings) {e : Event}
    (hlone : e.Lone env) :
    (env.after e).Alone settings ∧
      ((env.after e).tracker.dumps = env.tracker.dumps ∨
        ∃ id call d, e = .step id ∧ env.calls.get? id = some call ∧
          (env.after e).tracker.dumps = env.tracker.dumps ++ [d] ∧
          Own settings env.now call d) := by
  by_cases hstart : ∃ id op, e = .start id op
  · obtain ⟨id, op, rfl⟩ := hstart
    obtain ⟨halone, hdumps⟩ := h.start hlone id op
    exact ⟨halone, .inl hdumps⟩
  by_cases hstep : ∃ id, e = .step id
  · obtain ⟨id, rfl⟩ := hstep
    rw [Environment.after]
    cases hget : env.calls.get? id with
    | none =>
      rw [Environment.step, hget]
      exact ⟨h, .inl rfl⟩
    | some call =>
      obtain ⟨halone, hdumps | ⟨d, hdumps, hown⟩⟩ := h.step hpositive hget
      · exact ⟨halone, .inl hdumps⟩
      · exact ⟨halone, .inr ⟨id, call, d, rfl, hget, hdumps, hown⟩⟩
  · obtain ⟨hcalls, htracker⟩ := env.frame_after (fun id op he => hstart ⟨id, op, he⟩)
      fun id he => hstep ⟨id, he⟩
    exact ⟨h.congr hcalls htracker, .inl (by rw [htracker])⟩

theorem Alone.run (hpositive : 0 < settings.threshold) (h : env.Alone settings)
    {events : List Event} (hlone : env.Lone events) {d : Latency.Dump}
    (hd : d ∈ (env.run events).tracker.dumps) :
    d ∈ env.tracker.dumps ∨ ∃ earlier id later call, events = earlier ++ .step id :: later ∧
      (env.run earlier).calls.get? id = some call ∧ Own settings (env.run earlier).now call d := by
  induction events generalizing env with
  | nil => exact .inl hd
  | cons e events ih =>
    obtain ⟨halone, hdumps⟩ := h.after hpositive hlone.1
    rcases ih halone hlone.2 hd with hd | ⟨earlier, id, later, call, rfl, hget, hown⟩
    · rcases hdumps with hdumps | ⟨id, call, d', rfl, hget, hdumps, hown⟩
      · exact .inl (hdumps ▸ hd)
      · rw [hdumps] at hd
        rcases List.mem_append.1 hd with hd | hd
        · exact .inl hd
        · obtain rfl := List.mem_singleton.1 hd
          exact .inr ⟨[], id, events, call, rfl, hget, hown⟩
    · exact .inr ⟨e :: earlier, id, later, call, rfl, hget, hown⟩

/-- Valid settings ask for some overlap. -/
theorem threshold_pos_of_validate {config : Config} (h : config.validate = .ok ()) :
    0 < config.tracker.threshold := by
  obtain ⟨-, -, htracker⟩ := Except.exists_of_bind_eq_ok h
  rw [Latency.Settings.validate] at htracker
  split at htracker
  · cases htracker
  · next hne => exact Nat.pos_of_ne_zero hne

/-- An environment opens with nothing under way and without dumps. -/
theorem alone_of_openOn {config : Config} {store : Store} {now : Instant}
    (hopen : openOn config store now = .ok env) :
    env.Alone config.tracker ∧ env.tracker.dumps = [] ∧ 0 < config.tracker.threshold := by
  obtain ⟨hvalid, _, _, _, _, _, -, -, -, -, rfl⟩ := openOn_eq_ok_iff.1 hopen
  exact ⟨.idle rfl rfl (Latency.Tracker.nests_fresh _), rfl, threshold_pos_of_validate hvalid⟩

/-- **A call that is alone overlaps with nothing but itself.** If every call returns before the
next one starts, then a dump is taken only at a step of a call that ends a slow wait for its lock,
and all it finds overlapping is the read or write that the call is. If more than one overlapping
operation is needed for a dump, there is none. -/
theorem dumps_of_lone {config : Config} {store : Store} {now : Instant}
    (hopen : openOn config store now = .ok env) {events : List Event} (hlone : env.Lone events) :
    (1 < config.tracker.threshold → (env.run events).tracker.dumps = []) ∧
      ∀ d ∈ (env.run events).tracker.dumps, ∃ earlier id later call,
        events = earlier ++ .step id :: later ∧
        (env.run earlier).calls.get? id = some call ∧
        Own config.tracker (env.run earlier).now call d := by
  obtain ⟨halone, hnone, hpositive⟩ := alone_of_openOn hopen
  have hown (d : Latency.Dump) (hd : d ∈ (env.run events).tracker.dumps) :=
    (halone.run hpositive hlone hd).resolve_left (hnone ▸ List.not_mem_nil)
  refine ⟨fun hmany => List.eq_nil_iff_forall_not_mem.2 fun d hd => ?_, hown⟩
  obtain ⟨_, _, _, _, _, _, hone, -⟩ := hown d hd
  omega

/-! ## One overlapping operation is enough -/

/-- What opens under some settings opens under all valid ones. -/
theorem openOn_of_openOn {config config' : Config} {store : Store} {now : Instant}
    (h : openOn config store now = .ok env) (hvalid : config'.validate = .ok ()) :
    openOn config' store now = .ok { env with
      config := config'
      locks := .ofState (LockState.fresh config'.deadlockDetection)
      tracker := .fresh config'.tracker } := by
  obtain ⟨-, log, recovery, log₁, state, log₂, hlog, hrecover, habort, hsync, rfl⟩ :=
    openOn_eq_ok_iff.1 h
  exact openOn_eq_ok_iff.2
    ⟨hvalid, log, recovery, log₁, state, log₂, hlog, hrecover, habort, hsync, rfl⟩

/-- Settings under which one overlapping operation is enough for a dump. -/
def watchful : Config := { Config.standard with tracker.threshold := 1 }

/-- The environment that opens over an empty store under these settings. -/
def watched : Environment := { blank with config := watchful, tracker := .fresh watchful.tracker }

theorem openOn_watchful : openOn watchful .empty 0 = .ok watched :=
  openOn_of_openOn openOn_empty rfl

/-- One transaction writes a key and keeps its lock. When this call has returned, another
transaction wants to write the key, and gives up after half a second. -/
def blocked : List Event :=
  [.begin .standard, .start 0 (.put ⟨1⟩ [1] [170]), .step 0, .step 0, .step 0, .begin .standard,
    .start 1 (.put ⟨2⟩ [1] [187]), .step 1, .step 1, .tick 500000000, .wake 1, .step 1]

theorem dumps_of_lone_blocked : openOn watchful .empty 0 = .ok watched ∧ watched.Lone blocked ∧
    ∃ d ∈ (watched.run blocked).tracker.dumps, ∃ earlier id later call,
      blocked = earlier ++ .step id :: later ∧
      (watched.run earlier).calls.get? id = some call ∧
      Own watchful.tracker (watched.run earlier).now call d := by
  have hlone : watched.Lone blocked := by decide +kernel
  have hdumps : (watched.run blocked).tracker.dumps ≠ [] := by decide +kernel
  obtain ⟨d, hd⟩ := List.exists_mem_of_ne_nil _ hdumps
  exact ⟨openOn_watchful, hlone, d, hd, (dumps_of_lone openOn_watchful hlone).2 d hd⟩

/-- A slow call that is alone may cause a dump. -/
theorem exists_dump_of_lone : ∃ config env events, openOn config .empty 0 = .ok env ∧
    env.Lone events ∧ (env.run events).calls.isEmpty = true ∧
    (env.run events).tracker.dumps ≠ [] :=
  ⟨watchful, watched, blocked, openOn_watchful, by decide +kernel, by decide +kernel,
    by decide +kernel⟩

end Environment
end WalStore

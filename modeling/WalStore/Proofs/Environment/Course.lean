import WalStore.Proofs.Environment.Accounted
import WalStore.Proofs.Environment.Admission
import WalStore.Proofs.Log.Errors

/-!
# What becomes of a transaction

A step of a call of a transaction changes the transaction, answers the call or takes it further, and
what becomes of these three together is said once (`Fares`): the grounds on which a call gets in
(`Enters`) are kept, and so is which errors can be answered. An error of the log does not end a
transaction, and of the errors that a lock request fails with a timeout of the transaction and a
deadlock do (`Error.dooms`).
-/

namespace WalStore

/-! ## Errors -/

/-- A transaction timeout or a deadlock. -/
def Error.dooms : Error → Bool
  | .txnTimeout .. | .deadlock .. => true
  | _ => false

theorem Error.dooms_of_isFatal {e : Error} (h : e.isFatal = false) : e.dooms = false := by
  cases e <;> first | rfl | cases h

namespace LockState

/-- The error is one that the lock manager has for requests. -/
def IsDenial (e : Error) : Prop := e.isFatal = e.dooms

theorem failure?_isDenial {s : LockState} {sight : Monitor.Sight} {r : LockRequest}
    {expiry : Option Expiry} {counters : LockCounters} {e : Error}
    (h : s.failure? sight r expiry = some (counters, e)) : IsDenial e := by
  unfold failure? at h
  dsimp only at h
  split at h
  · cases h
    rfl
  · split at h <;> cases h <;> rfl

theorem Attempt.isDenial {queued : Bool} {sight : Monitor.Sight} {w : Waiting} {s : LockState}
    {look : RequestLook} (h : Attempt queued sight w s look) {e : Error}
    (herror : look.fate.result? = some (.error e)) : IsDenial e := by
  cases h with
  | victim =>
    cases herror
    rfl
  | grant => cases herror
  | fail _ _ hfailure =>
    cases herror
    exact failure?_isDenial hfailure
  | stay _ _ _ _ hstay =>
    cases hstay <;> cases herror
    rfl

theorem Arrival.isDenial {sight : Monitor.Sight} {r : LockRequest} {s : LockState}
    {look : RequestLook} (h : Arrival sight r s look) {e : Error}
    (herror : look.fate.result? = some (.error e)) : IsDenial e := by
  cases h with
  | held => cases herror
  | attempt _ hattempt => exact hattempt.isDenial herror

end LockState

namespace LockManager

variable (m : LockManager) (now : Instant) (call : Nat)

theorem isDenial_of_enter (token : Option TokenId) (r : LockRequest) (e : Error)
    (h : (m.enter LockState.discipline now call token r).2 = some (.error e)) :
    LockState.IsDenial e := by
  obtain ⟨cancelled, look, harrival, -, hresult⟩ := m.enter_spec now call token r
  rw [hresult] at h
  exact harrival.isDenial h

theorem isDenial_of_recheck (e : Error)
    (h : (m.recheck LockState.discipline now call).2 = some (.error e)) :
    LockState.IsDenial e := by
  rcases m.recheck_spec now call with hrest | ⟨s, cancelled, look, -, -, hattempt, -, hresult⟩
  · rw [hrest] at h
    cases h
  · rw [hresult] at h
    exact hattempt.isDenial h

end LockManager

namespace Environment

variable {env env' : Environment} {base : TxnId} {id : Nat} {call : Call} {txn : TxnId}

theorem isFatal_of_append (env : Environment) (entry : Entry) (e : Error)
    (h : (env.append entry).2 = .error e) :
    e.isFatal = false := by
  obtain ⟨log, state, result, counters, heq, hlogged⟩ := env.append_spec entry
  rw [heq] at h
  obtain rfl : result = .error e := h
  cases hlogged with
  | failed happend => exact Error.isFatal_of_isOfLog (Log.isOfLog_of_append happend)
  | refused _ happly => exact Error.isFatal_of_isOfLog (Replay.State.isOfLog_of_apply happly)

/-! ## What becomes of a transaction -/

/-- The error that a call at this stage is going to answer. -/
def Stage.error? : Stage → Option Error
  | admitted cause => cause
  | releasing _ (.error e) => some e
  | entered | waiting .. | granted .. | releasing _ (.ok _) => none

/-- The call asks for a lock of its transaction, or looks again for it. -/
inductive Call.Asks (call : Call) (txn : TxnId) : Prop
  | first {cause : Option Error} (hgoes : call.op.resolves = false)
      (hstage : call.stage = .admitted cause) : Asks call txn
  | again {timer : Latency.Ticket} (hgoes : call.op.resolves = false)
      (hstage : call.stage = .waiting txn timer) : Asks call txn

theorem Call.Asks.goes (h : call.Asks txn) : call.op.resolves = false := by
  cases h <;> assumption

theorem Call.Asks.not_entered (h : call.Asks txn) : call.stage ≠ .entered := by
  cases h with
  | first _ hstage | again _ hstage =>
    rw [hstage]
    nofun

theorem Call.Asks.not_granted (h : call.Asks txn) (owner : TxnId) (g : Grant) :
    call.stage ≠ .granted owner g := by
  cases h with
  | first _ hstage | again _ hstage =>
    rw [hstage]
    nofun

theorem Call.Asks.not_releasing (h : call.Asks txn) (owner : TxnId) (result : Result) :
    call.stage ≠ .releasing owner result := by
  cases h with
  | first _ hstage | again _ hstage =>
    rw [hstage]
    nofun

/-- What becomes of the transaction `txn` at a step of `call`, which belongs to it: the transaction
after the step, the result of the call if it has one, and the stage it goes on from if not. -/
inductive Fares (env : Environment) (txn : TxnId) (call : Call) :
    Transaction → Option Result → Option Stage → Prop
  /-- It is refused, or the log fails it. -/
  | fail {e : Error} (he : e.isFatal = false)
      (hfit : call.stage = .entered → env.isOpen = true → (env.txn txn).isActive = true →
        ((env.txn txn).checkTime env.now).mustAbort = none) :
      Fares env txn call (env.txn txn) (some (.error e)) none
  /-- Its transaction has to abort. -/
  | spent {reason : String} (hstage : call.stage = .entered) (hopen : env.isOpen = true)
      (hgoes : call.op.resolves = false) (hactive : (env.txn txn).isActive = true)
      (hmust : ((env.txn txn).checkTime env.now).mustAbort = some reason) :
      Fares env txn call ((env.txn txn).checkTime env.now)
        (some (.error (.mustAbort (env.txn txn).id reason))) none
  /-- It may go on. -/
  | accept (hstage : call.stage = .entered) (hactive : (env.txn txn).isActive = true)
      (hfit : call.op = .abort txn ∨ ((env.txn txn).checkTime env.now).mustAbort = none) :
      Fares env txn call (env.txn txn) none (some (.admitted none))
  /-- It may go on to abort its transaction, which it was to commit. -/
  | giveUp {reason : String} (hstage : call.stage = .entered) (hopen : env.isOpen = true)
      (hop : call.op = .commit txn) (hactive : (env.txn txn).isActive = true)
      (hmust : ((env.txn txn).checkTime env.now).mustAbort = some reason) :
      Fares env txn call ((env.txn txn).checkTime env.now) none
        (some (.admitted (some (.mustAbort (env.txn txn).id reason))))
  /-- Its request is refused. -/
  | deny {e : Error} (hactive : (env.txn txn).isActive = true) (hasks : call.Asks txn)
      (he : LockState.IsDenial e) :
      Fares env txn call ((env.txn txn).note e) (some (.error e)) none
  /-- Its request is granted, or waits. -/
  | ask {result : Option Result} {stage : Option Stage} (hactive : (env.txn txn).isActive = true)
      (hasks : call.Asks txn) (hresult : ∀ e, result ≠ some (.error e))
      (hnext : ∀ next, stage = some next → next.error? = none) :
      Fares env txn call (env.txn txn) result stage
  /-- It reads or writes. -/
  | work {owner : TxnId} {g : Grant} {answer : Answer} (hstage : call.stage = .granted owner g)
      (hactive : (env.txn txn).isActive = true) (writes : Nat) :
      Fares env txn call { env.txn txn with writes } (some (.ok answer)) none
  /-- It reads and will give its lock back. -/
  | borrow {owner : TxnId} {g : Grant} {answer : Answer} (hstage : call.stage = .granted owner g)
      (hgoes : call.op.resolves = false) :
      Fares env txn call (env.txn txn) none (some (.releasing owner (.ok answer)))
  | abort {cause : Option Error} {result : Result} (hstage : call.stage = .admitted cause)
      (hop : call.op = .abort txn ∨ call.op = .commit txn ∧ cause ≠ none)
      (hactive : (env.txn txn).isActive = true)
      (hresult : ∀ e, result = .error e → e.isFatal = false ∨ cause = some e)
      (hcause : cause ≠ none → ∃ e, result = .error e) :
      Fares env txn call { env.txn txn with state := .aborted } none
        (some (.releasing txn result))
  | commit {result : Result} (hstage : call.stage = .admitted none) (hop : call.op = .commit txn)
      (hactive : (env.txn txn).isActive = true)
      (hresult : ∀ e, result = .error e → e.isFatal = false) :
      Fares env txn call { env.txn txn with state := .committed } none
        (some (.releasing txn result))
  | release {owner : TxnId} {result : Result} (hstage : call.stage = .releasing owner result) :
      Fares env txn call (env.txn txn) (some result) none

section Fares

theorem txn_modifyTxn {f : Transaction → Transaction} (hactive : (env.txn txn).isActive = true) :
    (env.modifyTxn txn f).txn txn = f (env.txn txn) := by
  refine txn_eq_of_get? ?_
  rw [get?_modifyTxn, if_pos rfl, get?_of_isActive hactive]
  rfl

/-- What a step comes to, seen from the transaction `txn` of its call. -/
def Shows (env : Environment) (txn : TxnId) (call : Call) (id : Nat)
    (stepped : Environment × Option Result) : Prop :=
  Fares env txn call (stepped.1.txn txn) stepped.2 ((stepped.1.calls.get? id).map (·.stage))

variable {env₁ : Environment} {call₁ : Call} {t : Transaction}

theorem Fares.finish {result : Result} (h : Fares env txn call t (some result) none)
    (ht : env₁.txn txn = t) : env.Shows txn call id (env₁.finish id call₁ result) := by
  obtain ⟨tracker, hfinish⟩ := env₁.finish_eq id call₁ result
  rw [Shows, hfinish, SortedMap.get?_erase, if_pos rfl]
  rw [← ht] at h
  exact h

theorem Fares.setStage {stage : Stage} (h : Fares env txn call t none (some stage))
    (ht : env₁.txn txn = t) : env.Shows txn call id (env₁.setStage id call₁ stage) := by
  rw [Shows, Environment.setStage, SortedMap.get?_insert, if_pos rfl]
  rw [← ht] at h
  exact h

section Asking

variable (hactive : (env.txn txn).isActive = true) (hasks : call.Asks txn)

include hactive hasks

theorem shows_answered {outcome : LockState.Outcome} (htxns : env₁.txns = env.txns)
    (hdenial : ∀ e, outcome = .error e → LockState.IsDenial e) (timer : Latency.Ticket) :
    env.Shows txn call id (env₁.answered id call txn timer outcome) := by
  obtain ⟨tracker, hstop⟩ := env₁.stopTimer_eq (some timer)
  have hsame : ({ env₁ with tracker }).txn txn = env.txn txn := by
    rw [Environment.txn, Environment.txn, htxns]
  unfold answered
  rw [hstop]
  cases outcome with
  | error e =>
    refine (Fares.deny hactive hasks (hdenial e rfl)).finish ?_
    rw [txn_modifyTxn (hsame ▸ hactive), hsame]
  | ok g =>
    have hfinish : Fares env txn call (env.txn txn) (some (.ok (.grant g))) none :=
      .ask hactive hasks (by simp) (by simp)
    have hgoes : Fares env txn call (env.txn txn) none (some (.granted txn g)) :=
      .ask hactive hasks (by simp) (by rintro _ ⟨⟩; rfl)
    dsimp only
    split
    · exact hfinish.finish hsame
    · exact hgoes.setStage hsame

theorem shows_ask (deadlines : Deadlines) (token : Option TokenId) :
    env.Shows txn call id (env.ask id call txn deadlines token) := by
  obtain ⟨tracker, timer, hstart⟩ := env.startTimer_eq .lockWait
  have hdenial (e : Error) := env.locks.isDenial_of_enter env.now id token
    ⟨txn, ⟨call.op.key⟩, call.op.mode, deadlines⟩ e
  unfold ask
  rw [hstart]
  dsimp only
  generalize env.locks.enter LockState.discipline env.now id token
    ⟨txn, ⟨call.op.key⟩, call.op.mode, deadlines⟩ = entered at hdenial ⊢
  obtain ⟨locks, _ | outcome⟩ := entered
  · have hgoes : Fares env txn call (env.txn txn) none (some (.waiting txn timer)) :=
      .ask hactive hasks (by simp) (by rintro _ ⟨⟩; rfl)
    exact hgoes.setStage rfl
  · refine shows_answered hactive hasks ?_ (fun e he => hdenial e (congrArg some he)) timer
    rfl

theorem shows_lookAgain (timer : Latency.Ticket)
    (hcall : env.calls.get? id = some call) (hwaits : call.stage = .waiting txn timer) :
    env.Shows txn call id (env.lookAgain id call txn timer) := by
  have hdenial (e : Error) := env.locks.isDenial_of_recheck env.now id e
  unfold lookAgain
  generalize env.locks.recheck LockState.discipline env.now id = looked at hdenial ⊢
  obtain ⟨locks, _ | outcome⟩ := looked
  · rw [Shows, hcall, Option.map_some, hwaits]
    exact .ask hactive hasks (by simp) (by rintro _ ⟨⟩; rfl)
  · refine shows_answered hactive hasks ?_ (fun e he => hdenial e (congrArg some he)) timer
    rfl

end Asking

theorem txn_append (env : Environment) (txn : TxnId) (entry : Entry) :
    (env.append entry).1.txn txn = env.txn txn :=
  txn_congr (by rw [txns_append])

/-- A transaction is aborted. The call reports that the abort could not be logged, or `cause`. -/
theorem exists_enterAbort (id : Nat) (call : Call) (cause : Option Error)
    (hid : (env.txn txn).id = txn) (hactive : (env.txn txn).isActive = true) :
    ∃ result : Result, (∀ e, result = .error e → e.isFatal = false ∨ cause = some e) ∧
      (cause ≠ none → ∃ e, result = .error e) ∧ ∃ (env₂ : Environment) (call₂ : Call),
        env.enterAbort id call (env.txn txn) cause =
            env₂.setStage id call₂ (.releasing txn result) ∧
          env₂.txn txn = { env.txn txn with state := .aborted } := by
  unfold enterAbort
  obtain ⟨tracker, timer, hstart⟩ := env.startTimer_eq .abort
  rw [hstart, hid]
  dsimp only
  obtain ⟨logged, hlogged, hsame, hfatal⟩ : ∃ logged : Environment × Except Error Lsn,
      (if 0 < (env.txn txn).writes then ({ env with tracker }).append (.abort txn)
        else ({ env with tracker }, .ok .zero)) = logged ∧
        logged.1.txn txn = env.txn txn ∧ ∀ e, logged.2 = .error e → e.isFatal = false := by
    refine ⟨_, rfl, ?_, fun e he => ?_⟩
    · split
      · exact ({ env with tracker }).txn_append _ _
      · rfl
    · split at he
      · exact ({ env with tracker }).isFatal_of_append _ e he
      · cases he
  rw [hlogged]
  obtain ⟨env₂, logged⟩ := logged
  have hover : (env₂.modifyTxn txn ({ · with state := .aborted })).txn txn =
      { env.txn txn with state := .aborted } := by
    rw [txn_modifyTxn (hsame.symm ▸ hactive), hsame]
  cases logged with
  | error e =>
    refine ⟨.error e, fun e' he' => ?_, fun _ => ⟨e, rfl⟩, _, _, rfl, hover⟩
    cases he'
    exact .inl (hfatal e rfl)
  | ok lsn =>
    cases cause with
    | none => exact ⟨.ok .done, nofun, fun hcause => absurd rfl hcause, _, _, rfl, hover⟩
    | some e =>
      refine ⟨.error e, fun e' he' => ?_, fun _ => ⟨e, rfl⟩, _, _, rfl, hover⟩
      cases he'
      exact .inr rfl

theorem shows_enterAbort (id : Nat) {cause : Option Error} (hstage : call.stage = .admitted cause)
    (hop : call.op = .abort txn ∨ call.op = .commit txn ∧ cause ≠ none)
    (hid : (env.txn txn).id = txn) (hactive : (env.txn txn).isActive = true) :
    env.Shows txn call id (env.enterAbort id call (env.txn txn) cause) := by
  obtain ⟨result, hresult, hcause, env₂, call₂, habort, htxn₂⟩ :=
    exists_enterAbort id call cause hid hactive
  rw [habort]
  exact (Fares.abort hstage hop hactive hresult hcause).setStage htxn₂

theorem shows_enterCommit (id : Nat) (hstage : call.stage = .admitted none)
    (hop : call.op = .commit txn) (hid : (env.txn txn).id = txn)
    (hactive : (env.txn txn).isActive = true) :
    env.Shows txn call id (env.enterCommit id call (env.txn txn)) := by
  have hover {env₁ : Environment} (ht : env₁.txn txn = env.txn txn) :
      (env₁.modifyTxn txn ({ · with state := .committed })).txn txn =
        { env.txn txn with state := .committed } := by
    rw [txn_modifyTxn (ht.symm ▸ hactive), ht]
  obtain ⟨tracker, timer, hstart⟩ := env.startTimer_eq .commit
  unfold enterCommit
  rw [hstart, hid]
  dsimp only
  split
  · have hsame := ({ env with tracker }).txn_append txn (.commit txn)
    have hfatal := ({ env with tracker }).isFatal_of_append (.commit txn)
    generalize ({ env with tracker }).append (.commit txn) = appended at hsame hfatal ⊢
    obtain ⟨env₂, e | lsn⟩ := appended
    · refine (Fares.fail (hfatal e rfl) fun hentered => ?_).finish hsame
      rw [hstage] at hentered
      cases hentered
    · dsimp only
      refine (Fares.commit hstage hop hactive fun e he => ?_).setStage (hover hsame)
      split at he
      · exact Error.isFatal_of_isOfLog (Log.isOfLog_of_sync he)
      · cases he
  · refine (Fares.commit hstage hop hactive fun e he => ?_).setStage (hover rfl)
    cases he

theorem shows_work (id : Nat) {owner : TxnId} {g : Grant} (hstage : call.stage = .granted owner g)
    (htxn : call.op.txn? = some txn) (hactive : (env.txn txn).isActive = true)
    (hgoes : call.op.resolves = false) :
    env.Shows txn call id (env.work id call owner g) := by
  unfold work
  rw [htxn]
  cases hentry : call.op.entry? with
  | some entry =>
    dsimp only
    have hsame := env.txn_append txn entry
    have hfatal := env.isFatal_of_append entry
    generalize env.append entry = appended at hsame hfatal ⊢
    obtain ⟨env₂, e | lsn⟩ := appended
    · refine (Fares.fail (hfatal e rfl) fun hentered => ?_).finish hsame
      rw [hstage] at hentered
      cases hentered
    · refine (Fares.work hstage hactive ((env.txn txn).writes + 1)).finish ?_
      rw [txn_modifyTxn (hsame.symm ▸ hactive), hsame]
  | none =>
    dsimp only
    split
    · exact (Fares.borrow hstage hgoes).setStage rfl
    · exact (Fares.work hstage hactive (env.txn txn).writes).finish rfl

theorem shows_release (id : Nat) {owner : TxnId} {result : Result}
    (hstage : call.stage = .releasing owner result) :
    env.Shows txn call id (env.release id call owner result) := by
  have hleave (state : TxnState) {env₁ : Environment} (htxns : env₁.txns = env.txns) :
      env.Shows txn call id ((env₁.countResolved state).finish id call result) := by
    obtain ⟨counters, hcount⟩ := env₁.countResolved_eq state
    rw [hcount]
    exact (Fares.release hstage).finish (txn_congr (by rw [htxns]))
  unfold release
  split
  · exact (Fares.release hstage).finish rfl
  · exact hleave _ rfl
  · exact hleave _ rfl
  · exact (Fares.release hstage).finish rfl

theorem shows_enter (id : Nat) (hstage : call.stage = .entered)
    (htxn : call.op.txn? = some txn) : env.Shows txn call id (env.enter id call) := by
  have hsame {x : TxnId} (hx : call.op.txn? = some x) : x = txn :=
    Option.some.inj (hx.symm.trans htxn)
  have h := env.enters id call
  generalize env.enter id call = stepped at h ⊢
  cases h with
  | closed hclosed =>
    refine (Fares.fail rfl fun _ hopen => ?_).finish rfl
    rw [hclosed] at hopen
    cases hopen
  | ended htxn' hover =>
    refine (Fares.fail rfl fun _ _ hactive => ?_).finish rfl
    rw [← hsame htxn', hover] at hactive
    cases hactive
  | spent hopen htxn' hgoes hactive hmust =>
    obtain rfl := hsame htxn'
    refine (Fares.spent hstage hopen hgoes hactive hmust).finish ?_
    rw [txn_modifyTxn hactive]
  | direct _ hnone =>
    rw [htxn] at hnone
    cases hnone
  | inTxn _ htxn' _ hactive hfit =>
    obtain rfl := hsame htxn'
    exact (Fares.accept hstage hactive (.inr hfit)).setStage rfl
  | abort hop hactive =>
    obtain rfl := hsame (by rw [hop, Op.txn?])
    exact (Fares.accept hstage hactive (.inl hop)).setStage rfl
  | giveUp hopen hop hactive hmust =>
    obtain rfl := hsame (by rw [hop, Op.txn?])
    refine (Fares.giveUp hstage hopen hop hactive hmust).setStage ?_
    rw [txn_modifyTxn hactive]

theorem shows_proceed (id : Nat) {cause : Option Error} (hstage : call.stage = .admitted cause)
    (htxn : call.op.txn? = some txn) (hnamed : env.Named) :
    env.Shows txn call id (env.proceed id call cause) := by
  have hsame {x : TxnId} (hx : call.op.txn? = some x) : x = txn :=
    Option.some.inj (hx.symm.trans htxn)
  have hid (hactive : (env.txn txn).isActive = true) : (env.txn txn).id = txn :=
    hnamed txn _ (get?_of_isActive hactive)
  have h := env.proceeds id call cause
  generalize env.proceed id call cause = stepped at h ⊢
  cases h with
  | ended =>
    refine (Fares.fail rfl fun hentered => ?_).finish rfl
    rw [hstage] at hentered
    cases hentered
  | direct hnone =>
    rw [htxn] at hnone
    cases hnone
  | inTxn htxn' hgoes hactive =>
    obtain rfl := hsame htxn'
    exact shows_ask hactive (.first hgoes hstage) ..
  | abort hop hactive =>
    obtain rfl := hsame (by rw [hop, Op.txn?])
    exact shows_enterAbort id hstage (.inl hop) (hid hactive) hactive
  | giveUp hop hactive =>
    obtain rfl := hsame (by rw [hop, Op.txn?])
    exact shows_enterAbort id hstage (.inr ⟨hop, Option.some_ne_none _⟩) (hid hactive)
      hactive
  | commit hop hactive =>
    obtain rfl := hsame (by rw [hop, Op.txn?])
    exact shows_enterCommit id hstage hop (hid hactive) hactive

/-- What becomes of a transaction at a step of its call is one of the above. -/
theorem Accounted.fares (h : env.Accounted base) (hcall : env.calls.get? id = some call)
    (htxn : call.op.txn? = some txn) :
    Fares env txn call ((env.step id).1.txn txn) (env.step id).2
      (((env.step id).1.calls.get? id).map (·.stage)) := by
  have howner {owner : TxnId} (howner : call.stage.owner? = some owner) : owner = txn :=
    (((h.covered.calls id call hcall).owns owner howner).of_txn htxn).1
  have hactive (hchecked : call.stage.isChecked = true) : (env.txn txn).isActive = true :=
    h.checked id call txn hcall htxn hchecked
  show env.Shows txn call id (env.step id)
  unfold step
  rw [hcall]
  dsimp only
  cases hstage : call.stage with
  | entered => exact shows_enter id hstage htxn
  | admitted cause => exact shows_proceed id hstage htxn h.covered.numbered.named
  | waiting owner timer =>
    obtain rfl := howner (by rw [hstage, Stage.owner?])
    have hgoes := (h.covered.calls id call hcall).asks owner timer hstage
    exact shows_lookAgain (hactive (by rw [hstage]; rfl)) (.again hgoes hstage) timer hcall hstage
  | granted owner g =>
    exact shows_work id hstage htxn (hactive (by rw [hstage]; rfl))
      ((h.covered.calls id call hcall).goes_of_granted hstage)
  | releasing owner result => exact shows_release id hstage

end Fares

end Environment
end WalStore

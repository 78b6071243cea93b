import WalStore.Proofs.Environment.Covered

/-!
# How calls get in

The first step of a call decides whether it may go on, and `Enters` says on which grounds: whether
the environment is open, whether the transaction is active, whether it has to abort. `Step` leaves
these grounds out, since most of what follows from a step does not depend on them.

A step changes the transaction of its call and no other (`get?_txns_step_of_ne`).
-/

namespace WalStore

namespace Transaction

variable {t : Transaction} {now : Instant}

theorem checkUsable_of_not_isActive (h : t.isActive = false) :
    t.checkUsable now = (t, .error (.invalidOperation (.notActive t.id t.state))) := by
  rw [checkUsable, checkActive, h]
  rfl

/-- An active transaction is usable, unless it is marked already or its time is over. -/
theorem checkUsable_of_isActive (h : t.isActive = true) :
    t.checkUsable now = (t.checkTime now, match (t.checkTime now).mustAbort with
      | some reason => .error (.mustAbort (t.checkTime now).id reason)
      | none => .ok ()) := by
  rw [checkUsable, checkActive, h, if_pos rfl]
  dsimp only
  cases (t.checkTime now).mustAbort <;> rfl

/-- A check of the time that leaves no mark changes nothing. -/
theorem checkTime_eq_self (h : (t.checkTime now).mustAbort = none) : t.checkTime now = t := by
  rcases t.markOf_checkTime now with heq | ⟨-, reason, heq⟩
  · exact heq
  · rw [heq] at h
    cases h

theorem id_checkTime (t : Transaction) (now : Instant) : (t.checkTime now).id = t.id := by
  rcases t.markOf_checkTime now with heq | ⟨-, reason, heq⟩ <;> rw [heq]

theorem isActive_checkTime (t : Transaction) (now : Instant) :
    (t.checkTime now).isActive = t.isActive := by
  rcases t.markOf_checkTime now with heq | ⟨-, reason, heq⟩ <;> rw [heq]
  rfl

end Transaction

namespace Environment

variable {env env' : Environment} {id : Nat} {call : Call}

/-! ## Grounds -/

/-- What the first step of a call comes to, and why. -/
inductive Enters (env : Environment) (id : Nat) (call : Call) :
    Environment × Option Result → Prop
  /-- The environment is closed. -/
  | closed (hclosed : env.isOpen = false) (hop : ∀ txn, call.op ≠ .abort txn) :
      Enters env id call (env.finish id call (.error (.invalidOperation .closed)))
  /-- Its transaction is over. -/
  | ended {txn : TxnId} (htxn : call.op.txn? = some txn)
      (hover : (env.txn txn).isActive = false) :
      Enters env id call (env.finish id call
        (.error (.invalidOperation (.notActive (env.txn txn).id (env.txn txn).state))))
  /-- Its transaction has to abort, and the call does not resolve it. -/
  | spent {txn : TxnId} {reason : String} (hopen : env.isOpen = true)
      (htxn : call.op.txn? = some txn) (hgoes : call.op.resolves = false)
      (hactive : (env.txn txn).isActive = true)
      (hmust : ((env.txn txn).checkTime env.now).mustAbort = some reason) :
      Enters env id call ((env.modifyTxn txn fun _ => (env.txn txn).checkTime env.now).finish id
        call (.error (.mustAbort (env.txn txn).id reason)))
  /-- It may write outside transactions. -/
  | direct (hopen : env.isOpen = true) (htxn : call.op.txn? = none) :
      Enters env id call (env.setStage id call (.admitted none))
  /-- Its transaction may go on. -/
  | inTxn {txn : TxnId} (hopen : env.isOpen = true) (htxn : call.op.txn? = some txn)
      (hop : ∀ txn, call.op ≠ .abort txn) (hactive : (env.txn txn).isActive = true)
      (hfit : ((env.txn txn).checkTime env.now).mustAbort = none) :
      Enters env id call (env.setStage id call (.admitted none))
  | abort {txn : TxnId} (hop : call.op = .abort txn) (hactive : (env.txn txn).isActive = true) :
      Enters env id call (env.setStage id call (.admitted none))
  /-- It commits a transaction that has to abort. -/
  | giveUp {txn : TxnId} {reason : String} (hopen : env.isOpen = true)
      (hop : call.op = .commit txn) (hactive : (env.txn txn).isActive = true)
      (hmust : ((env.txn txn).checkTime env.now).mustAbort = some reason) :
      Enters env id call ((env.modifyTxn txn fun _ => (env.txn txn).checkTime env.now).setStage id
        call (.admitted (some (.mustAbort (env.txn txn).id reason))))

theorem checkOpen_cases (env : Environment) :
    (env.isOpen = false ∧ env.checkOpen = .error (.invalidOperation .closed)) ∨
      env.isOpen = true ∧ env.checkOpen = .ok () := by
  unfold checkOpen
  cases env.isOpen
  · exact .inl ⟨rfl, rfl⟩
  · exact .inr ⟨rfl, rfl⟩

theorem enters (env : Environment) (id : Nat) (call : Call) :
    Enters env id call (env.enter id call) := by
  unfold enter
  cases htxn : call.op.txn? with
  | none =>
    have hop : ∀ txn, call.op ≠ .abort txn := fun txn hop => by
      rw [hop] at htxn
      cases htxn
    rcases env.checkOpen_cases with ⟨hclosed, hcheck⟩ | ⟨hopen, hcheck⟩ <;> rw [hcheck]
    · exact .closed hclosed hop
    · exact .direct hopen htxn
  | some txn =>
    dsimp only
    cases hop : call.op with
    | putNow | deleteNow =>
      rw [hop] at htxn
      cases htxn
    | abort t =>
      obtain rfl : t = txn := by simpa [hop, Op.txn?] using htxn
      dsimp only
      rw [Transaction.checkActive]
      cases hactive : (env.txn t).isActive with
      | false => exact .ended htxn hactive
      | true => exact .abort hop hactive
    -- All but an abort need an open environment, and a transaction that is fit for use.
    | commit t =>
      obtain rfl : t = txn := by simpa [hop, Op.txn?] using htxn
      dsimp only
      rcases env.checkOpen_cases with ⟨hclosed, hcheck⟩ | ⟨hopen, hcheck⟩ <;> rw [hcheck]
      · exact .closed hclosed (by simp [hop])
      dsimp only
      cases hactive : (env.txn t).isActive with
      | false =>
        rw [Transaction.checkUsable_of_not_isActive hactive]
        dsimp only
        rw [hactive, modifyTxn_self]
        exact .ended htxn hactive
      | true =>
        rw [Transaction.checkUsable_of_isActive hactive]
        dsimp only
        cases hmust : ((env.txn t).checkTime env.now).mustAbort with
        | some reason =>
          dsimp only
          rw [Transaction.isActive_checkTime, if_pos hactive, Transaction.id_checkTime]
          exact .giveUp hopen hop hactive hmust
        | none =>
          dsimp only
          rw [Transaction.checkTime_eq_self hmust, modifyTxn_self]
          exact .inTxn hopen htxn (by simp [hop]) hactive hmust
    | put | delete | get | lock =>
      have hgoes : call.op.resolves = false := by rw [hop]; rfl
      dsimp only
      rcases env.checkOpen_cases with ⟨hclosed, hcheck⟩ | ⟨hopen, hcheck⟩ <;> rw [hcheck]
      · exact .closed hclosed (by simp [hop])
      dsimp only
      cases hactive : (env.txn txn).isActive with
      | false =>
        rw [Transaction.checkUsable_of_not_isActive hactive, modifyTxn_self]
        exact .ended htxn hactive
      | true =>
        rw [Transaction.checkUsable_of_isActive hactive]
        dsimp only
        cases hmust : ((env.txn txn).checkTime env.now).mustAbort with
        | some reason =>
          dsimp only
          rw [Transaction.id_checkTime]
          exact .spent hopen htxn hgoes hactive hmust
        | none =>
          dsimp only
          rw [Transaction.checkTime_eq_self hmust, modifyTxn_self]
          exact .inTxn hopen htxn (by simp [hop]) hactive hmust

theorem step_eq_enter (hcall : env.calls.get? id = some call) (hstage : call.stage = .entered) :
    env.step id = env.enter id call := by
  rw [step, hcall]
  dsimp only
  rw [hstage]

theorem step_eq_proceed {cause : Option Error} (hcall : env.calls.get? id = some call)
    (hstage : call.stage = .admitted cause) : env.step id = env.proceed id call cause := by
  rw [step, hcall]
  dsimp only
  rw [hstage]

theorem step_eq_lookAgain {owner : TxnId} {timer : Latency.Ticket}
    (hcall : env.calls.get? id = some call) (hstage : call.stage = .waiting owner timer) :
    env.step id = env.lookAgain id call owner timer := by
  rw [step, hcall]
  dsimp only
  rw [hstage]

/-- The first step of a call checks whether it may go on, and does no more than to mark its
transaction. -/
theorem Step.of_entered {env' : Environment} {result : Option Result} (h : Step env id env' result)
    (hcall : env.calls.get? id = some call) (hstage : call.stage = .entered) :
    ∃ txns tracker calls, Marked env.txns txns ∧ env' = { env with txns, tracker, calls } := by
  have hother {call' : Call} (hcall' : env.calls.get? id = some call') :
      call'.stage = .entered := by
    rw [Option.some.inj (hcall'.symm.trans hcall), hstage]
  have hasks {call' : Call} {owner nextTxn : TxnId} {locks : LockManager}
      {outcome : Option LockState.Outcome} (hcall' : env.calls.get? id = some call')
      (hasks : Asks env id call' owner nextTxn locks outcome) : False := by
    have hentered := hother hcall'
    cases hasks with
    | direct hstage' | inTxn hstage' | again hstage' =>
      rw [hstage'] at hentered
      cases hentered
  cases h with
  | idle => exact ⟨_, _, _, .refl _, rfl⟩
  | refuse _ _ htxns | accept _ _ _ htxns => exact ⟨_, _, _, htxns, rfl⟩
  | wait hcall' hasks' | deny hcall' hasks' | lock hcall' _ hasks' | take hcall' _ hasks' =>
    exact (hasks hcall' hasks').elim
  | abort hcall' hstage' | commitFail hcall' hstage' | commit hcall' hstage'
  | writeNow hcall' hstage' | writeFail hcall' hstage' | write hcall' hstage'
  | read hcall' hstage' | readOnce hcall' hstage' | giveBack hcall' hstage'
  | leave hcall' hstage' =>
    rw [hother hcall'] at hstage'
    cases hstage'

/-- A call that is refused is over, and nothing else has happened. -/
theorem step_of_refused (call : Call)
    (hrefused : ∃ e, env.step id = env.finish id call (.error e)) : ∃ tracker e,
      env.step id = ({ env with calls := env.calls.erase id, tracker }, some (.error e)) := by
  obtain ⟨e, hstep⟩ := hrefused
  obtain ⟨tracker, hfinish⟩ := env.finish_eq id call (.error e)
  exact ⟨tracker, e, hstep.trans hfinish⟩

/-! ## Other transactions -/

section Others

variable {owner x : TxnId} {timer : Latency.Ticket} {result : Result}

@[simp] theorem txns_stopTimer (timer : Option Latency.Ticket) :
    (env.stopTimer timer).txns = env.txns := by
  obtain ⟨tracker, h⟩ := env.stopTimer_eq timer
  rw [h]

@[simp] theorem txns_finish : (env.finish id call result).1.txns = env.txns := by
  obtain ⟨tracker, h⟩ := env.finish_eq id call result
  rw [h]

@[simp] theorem txns_setStage (stage : Stage) :
    (env.setStage id call stage).1.txns = env.txns := rfl

@[simp] theorem txns_append (entry : Entry) : (env.append entry).1.txns = env.txns := by
  obtain ⟨log, state, result, counters, h, -⟩ := env.append_spec entry
  rw [h]

theorem get?_modifyTxn_of_ne (f : Transaction → Transaction) (hne : x ≠ owner) :
    (env.modifyTxn owner f).txns.get? x = env.txns.get? x := by
  rw [get?_modifyTxn, if_neg hne]

theorem get?_txns_answered_of_ne (outcome : LockState.Outcome) (hne : x ≠ owner) :
    (env.answered id call owner timer outcome).1.txns.get? x = env.txns.get? x := by
  unfold answered
  cases outcome with
  | error e =>
    dsimp only
    rw [txns_finish, get?_modifyTxn_of_ne _ hne, txns_stopTimer]
  | ok grant =>
    cases call.op <;> simp

theorem get?_txns_ask_of_ne (deadlines : Deadlines) (token : Option TokenId) (hne : x ≠ owner) :
    (env.ask id call owner deadlines token).1.txns.get? x = env.txns.get? x := by
  unfold ask
  dsimp only
  split
  · rfl
  · rw [get?_txns_answered_of_ne _ hne]
    rfl

theorem get?_txns_lookAgain_of_ne (hne : x ≠ owner) :
    (env.lookAgain id call owner timer).1.txns.get? x = env.txns.get? x := by
  unfold lookAgain
  dsimp only
  split
  · rfl
  · rw [get?_txns_answered_of_ne _ hne]

theorem get?_txns_enterAbort_of_ne {t : Transaction} (cause : Option Error) (hne : x ≠ t.id) :
    (env.enterAbort id call t cause).1.txns.get? x = env.txns.get? x := by
  unfold enterAbort
  dsimp only
  rw [txns_setStage, get?_modifyTxn_of_ne _ hne]
  split
  · rw [txns_append]
    rfl
  · rfl

theorem get?_txns_enterCommit_of_ne {t : Transaction} (hne : x ≠ t.id) :
    (env.enterCommit id call t).1.txns.get? x = env.txns.get? x := by
  have happend : ((env.startTimer .commit).1.append (.commit t.id)).1.txns = env.txns :=
    txns_append _
  unfold enterCommit
  dsimp only
  split
  · split
    · next h =>
      rw [h] at happend
      rw [txns_finish, happend]
    · next h =>
      rw [h] at happend
      rw [txns_setStage]
      dsimp only
      rw [get?_modifyTxn_of_ne _ hne, happend]
  · rw [txns_setStage, get?_modifyTxn_of_ne _ hne]
    rfl

theorem get?_txns_enter_of_ne (hop : call.op.txn? ≠ some x) :
    (env.enter id call).1.txns.get? x = env.txns.get? x := by
  have hne {txn : TxnId} (htxn : call.op.txn? = some txn) : x ≠ txn := by
    rintro rfl
    exact hop htxn
  have h := env.enters id call
  generalize env.enter id call = result at h ⊢
  cases h with
  | closed | ended => rw [txns_finish]
  | spent _ htxn => rw [txns_finish, get?_modifyTxn_of_ne _ (hne htxn)]
  | direct | inTxn | abort => rw [txns_setStage]
  | giveUp _ hop =>
    rw [txns_setStage, get?_modifyTxn_of_ne _ (hne (by rw [hop, Op.txn?]))]

theorem get?_txns_proceed_of_ne {cause : Option Error} (hnamed : env.Named)
    (hop : call.op.txn? ≠ some x) (hnext : x ≠ env.nextTxn) :
    (env.proceed id call cause).1.txns.get? x = env.txns.get? x := by
  have hne {txn : TxnId} (htxn : call.op.txn? = some txn) : x ≠ txn := by
    rintro rfl
    exact hop htxn
  have hid {txn : TxnId} (htxn : call.op.txn? = some txn)
      (hactive : (env.txn txn).isActive = true) : x ≠ (env.txn txn).id := by
    rw [hnamed txn _ (get?_of_isActive hactive)]
    exact hne htxn
  have h := env.proceeds id call cause
  generalize env.proceed id call cause = result at h ⊢
  cases h with
  | ended => rw [txns_finish]
  | direct =>
    rw [get?_txns_ask_of_ne _ _ hnext]
    rfl
  | inTxn htxn => rw [get?_txns_ask_of_ne _ _ (hne htxn)]
  | abort hop hactive | giveUp hop hactive =>
    exact get?_txns_enterAbort_of_ne _ (hid (by rw [hop, Op.txn?]) hactive)
  | commit hop hactive =>
    exact get?_txns_enterCommit_of_ne (hid (by rw [hop, Op.txn?]) hactive)

theorem get?_txns_work_of_ne (grant : Grant) (hop : call.op.txn? ≠ some x) :
    (env.work id call owner grant).1.txns.get? x = env.txns.get? x := by
  unfold work
  split
  · rw [txns_setStage, txns_append]
  · next entry txn _ htxn =>
    have happend : (env.append entry).1.txns = env.txns := txns_append entry
    split
    · next h =>
      rw [h] at happend
      rw [txns_finish, happend]
    · next h =>
      rw [h] at happend
      rw [txns_finish, get?_modifyTxn_of_ne _ (by rintro rfl; exact hop htxn), happend]
  · dsimp only
    split
    · rfl
    · rw [txns_finish]

@[simp] theorem txns_release : (env.release id call owner result).1.txns = env.txns := by
  unfold release
  split
  · rw [txns_finish]
  · obtain ⟨counters, h⟩ := (env.releaseAll owner).countResolved_eq (env.txn owner).state
    rw [txns_finish, h]
    rfl
  · obtain ⟨counters, h⟩ := (env.releaseAll owner).countResolved_eq (env.txn owner).state
    rw [txns_finish, h]
    rfl
  · rw [txns_finish]
    rfl

/-- The step of a call leaves the transactions alone that the call does not belong to. -/
theorem get?_txns_step_of_ne (hnamed : env.Named) (hnext : x ≠ env.nextTxn)
    (hother : ∀ call, env.calls.get? id = some call →
      call.op.txn? ≠ some x ∧ call.stage.owner? ≠ some x) :
    (env.step id).1.txns.get? x = env.txns.get? x := by
  unfold step
  split
  · rfl
  next call hcall =>
  obtain ⟨hop, howner⟩ := hother call hcall
  split
  · exact get?_txns_enter_of_ne hop
  · exact get?_txns_proceed_of_ne hnamed hop hnext
  · next owner timer hstage =>
    refine get?_txns_lookAgain_of_ne fun heq => howner ?_
    rw [hstage, heq, Stage.owner?]
  · exact get?_txns_work_of_ne _ hop
  · rw [txns_release]

end Others

/-- An event leaves a transaction as it is, unless it concerns it. -/
theorem Covered.get?_txns_after {base : TxnId} (h : env.Covered base) {e : Event} {txn : TxnId}
    (hsome : (env.txns.get? txn).isSome = true) (hother : ¬e.Concerns env txn) :
    (env.after e).txns.get? txn = env.txns.get? txn := by
  have hnext : txn ≠ env.nextTxn := by
    rintro rfl
    rw [h.numbered.get?_nextTxn] at hsome
    cases hsome
  by_cases hstep : ∃ id, e = .step id
  · obtain ⟨id, rfl⟩ := hstep
    refine get?_txns_step_of_ne h.numbered.named hnext fun call hcall => ?_
    have hop : call.op.txn? ≠ some txn := fun htxn => hother ⟨call, hcall, htxn⟩
    exact ⟨hop, fun howner =>
      (h.calls id call hcall).owner_ne hsome hop howner rfl⟩
  have hoccurs := env.occurs h.numbered.named e
  generalize env.after e = env' at hoccurs ⊢
  cases hoccurs with
  | begin => exact (SortedMap.get?_insert ..).trans (if_neg hnext)
  | step => exact absurd ⟨_, rfl⟩ hstep
  | drop htxns => exact htxns.2 txn fun heq => hother heq.symm
  | _ => rfl

end Environment
end WalStore

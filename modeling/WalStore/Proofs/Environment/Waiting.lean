import WalStore.Proofs.Environment.Tally
import WalStore.Proofs.Environment.Timeouts
import WalStore.Proofs.Lock.Behind

/-!
# Calls that wait

A call that waits is asleep in the lock manager, under the owner it asked for (`Informed.asleep`).
If it is a write outside transactions, its owner holds nothing, for it has asked for nothing else,
and nobody can have waited for this owner before. So whoever waits for it now is queued behind it
(`Informed.trailed`).

All this is one invariant of a run, `Informed`. For the lock manager an event of the environment is
one of its own, or does no more than to wake calls (`Accounted.locks_cases`), so the step is that of
the lock manager in the one case and trivial in the other.
-/

namespace WalStore

open Monitor

namespace LockManager

variable {m : LockManager} {now : Instant} {call : Nat} {r : LockRequest}

/-- A call that gets no result when it looks is asleep. -/
theorem Looked.isSome {look : LockState.RequestLook} {m' : LockManager} (h : m.Looked call look m')
    (hnone : look.fate.result? = none) : (m'.sleepers.get? call).isSome = true := by
  obtain ⟨-, token, hsleepers⟩ := h
  rw [hsleepers, if_pos rfl]
  cases hfate : look.fate with
  | returns =>
    rw [hfate] at hnone
    cases hnone
  | sleeps => rfl

/-- Looks leave the calls that do not look as they are, but for waking them. -/
theorem Consistent.isSome_step {e : Event} (h : m.Consistent) (he : e.Orderly m)
    (hsome : (m.sleepers.get? call).isSome = true) (hother : e.call? ≠ some call) :
    ((m.step e).sleepers.get? call).isSome = true := by
  obtain ⟨s, hget⟩ := Option.isSome_iff_exists.1 hsome
  obtain ⟨⟨notify, hget'⟩, -⟩ := h.holders_step he hget fun now heq => hother (by rw [heq]; rfl)
  rw [hget']
  rfl

end LockManager

namespace Environment

variable {env env' : Environment} {base locker : TxnId} {id : Nat} {call : Call} {e : Event}

/-! ## Events of the lock manager -/

/-- A call asks for its lock under the id of its transaction, which is active, or under the next. -/
theorem owner_of_request? {token : Option TokenId} {r : LockRequest}
    (h : env.request? call = some (token, r)) :
    (call.op.txn? = none ∧ r.txn = env.nextTxn) ∨
      call.op.txn? = some r.txn ∧ (env.txn r.txn).isActive = true := by
  unfold request? at h
  split at h
  · next htxn =>
    cases h
    exact .inl ⟨htxn, rfl⟩
  · next txn htxn =>
    split at h
    · next hasks =>
      cases h
      exact .inr ⟨htxn, hasks.1⟩
    · cases h

/-- **An event is in order for the lock manager.** -/
theorem Accounted.orderly_lockEvents (h : env.Accounted base) (he : e.Orderly env) :
    LockManager.Orderly env.locks (env.lockEvents e) := by
  cases e with
  | step id =>
    rw [lockEvents]
    cases hcall : env.calls.get? id with
    | none => trivial
    | some call =>
      rw [Option.elim_some, lockEventsOf]
      cases hstage : call.stage with
      | entered => trivial
      | admitted cause =>
        have hearly : call.stage.isEarly = true := by rw [hstage, Stage.isEarly]
        dsimp only
        cases hrequest : env.request? call with
        | none => trivial
        | some request =>
          obtain ⟨token, r⟩ := request
          refine ⟨⟨h.awake_of_isEarly hcall hearly, ?_⟩, trivial⟩
          rcases owner_of_request? hrequest with ⟨-, howner⟩ | ⟨htxn, hactive⟩
          · rw [howner]
            exact h.not_isAsleep_nextTxn
          · exact h.not_isAsleep_of_isEarly hcall hearly htxn
              (Option.isSome_iff_exists.2 ⟨_, get?_of_isActive hactive⟩)
      | waiting => exact ⟨trivial, trivial⟩
      | granted => trivial
      | releasing owner result =>
        have hawake := h.not_isAsleep hcall (by rw [hstage, Stage.holder?])
        cases call.op <;> exact ⟨hawake, trivial⟩
  | drop txn =>
    rw [lockEvents]
    split
    · next hactive =>
      refine ⟨h.not_isAsleep_txn (by rw [get?_of_isActive hactive]; rfl) ?_, trivial⟩
      exact fun id call timer hcall htxn _ => he ⟨id, call, hcall, htxn⟩
    · trivial
  | cancel txn => exact ⟨trivial, LockManager.orderly_replicate_notify _ _⟩
  | wake id => exact ⟨trivial, trivial⟩
  | _ => trivial

theorem lockEvents_cases (env : Environment) (e : Event) :
    env.lockEvents e = [] ∨ (∃ x, env.lockEvents e = [x]) ∨ ∃ txn, e = .cancel txn := by
  cases e with
  | step id =>
    rw [lockEvents]
    cases env.calls.get? id with
    | none => exact .inl rfl
    | some call =>
      rw [Option.elim_some, lockEventsOf]
      cases call.stage with
      | admitted =>
        dsimp only
        cases env.request? call with
        | none => exact .inl rfl
        | some request => exact .inr (.inl ⟨_, rfl⟩)
      | waiting => exact .inr (.inl ⟨_, rfl⟩)
      | entered | granted => exact .inl rfl
      | releasing => cases call.op <;> exact .inr (.inl ⟨_, rfl⟩)
  | drop txn =>
    rw [lockEvents]
    split
    · exact .inr (.inl ⟨_, rfl⟩)
    · exact .inl rfl
  | cancel txn => exact .inr (.inr ⟨txn, rfl⟩)
  | wake id => exact .inr (.inl ⟨_, rfl⟩)
  | _ => exact .inl rfl

/-- For the lock manager an event is one of its own, or does no more than to wake calls. -/
theorem Accounted.locks_cases (h : env.Accounted base) (he : e.Orderly env) :
    (∃ x, env.lockEvents e = [x] ∧ x.Orderly env.locks ∧
        (env.after e).locks = env.locks.step x) ∨
      (env.after e).locks.shared = env.locks.shared ∧ ∃ nudge : Nat → Bool, ∀ c,
        (env.after e).locks.sleepers.get? c =
          (env.locks.sleepers.get? c).map (·.nudged (nudge c)) := by
  have hlocks := (h.books e).locks
  have horderly := h.orderly_lockEvents he
  rcases env.lockEvents_cases e with hnone | ⟨x, hone⟩ | ⟨txn, rfl⟩
  · rw [hlocks, hnone]
    exact .inr ⟨rfl, fun _ => false, fun c => by simp [LockManager.run]⟩
  · rw [hone] at hlocks horderly
    exact .inl ⟨x, hone, horderly.1, hlocks⟩
  · have hwoken (c : Nat) := get?_cancel env.locks c (Transaction.tokenOf txn)
    choose nudge hnudge using hwoken
    exact .inr ⟨shared_cancel .., nudge, hnudge⟩

/-- Who looks in an event is the call that takes the step. -/
theorem eq_step_of_lockEvents {x : LockManager.Event} (h : env.lockEvents e = [x])
    (hcall : x.call? = some id) : e = .step id := by
  have hof {id' : Nat} {call : Call} (h : env.lockEventsOf id' call = [x]) : id' = id := by
    unfold lockEventsOf at h
    split at h
    · cases hrequest : env.request? call <;> rw [hrequest] at h <;> cases h
      exact Option.some.inj hcall
    · cases h
      exact Option.some.inj hcall
    · cases h
    · cases h
    · split at h <;> cases h <;> cases hcall
  cases e with
  | step id' =>
    rw [lockEvents] at h
    cases hget : env.calls.get? id' with
    | none =>
      rw [hget] at h
      cases h
    | some call =>
      rw [hget, Option.elim_some] at h
      rw [hof h]
  | drop txn =>
    rw [lockEvents] at h
    split at h <;> cases h
    cases hcall
  | cancel txn =>
    rw [lockEvents, List.cons.injEq] at h
    rw [← h.1] at hcall
    cases hcall
  | wake id' =>
    cases h
    cases hcall
  | _ => cases h

/-! ## The invariant -/

/-- The id of a call's owner has been given out. -/
theorem Accounted.since_lt (h : env.Accounted base) (hcall : env.calls.get? id = some call)
    {owner : TxnId} (howner : call.stage.owner? = some owner) :
    base.since owner < base.since env.nextTxn := by
  have howns := (h.covered.calls id call hcall).owns owner howner
  cases htxn : call.op.txn? with
  | some txn =>
    obtain ⟨rfl, hsome⟩ := howns.of_txn htxn
    obtain ⟨t, ht⟩ := Option.isSome_iff_exists.1 hsome
    exact h.covered.numbered.lt owner t ht
  | none => exact (howns.of_none htxn).2

/-- Whoever a request is blocked behind has an id that has been given out. -/
theorem Accounted.since_lt_of_mem_blockers (h : env.Accounted base) {r : LockRequest}
    {owner : TxnId}
    (hblocked : owner ∈ (env.locks.shared.table.lock r.resource).blockers r.txn r.mode) :
    base.since owner < base.since env.nextTxn := by
  rcases ResourceLock.mem_blockers.1 hblocked with hholder | hahead
  · obtain ⟨held, hheld, -⟩ := ResourceLock.mem_conflictingHolders.1 hholder
    have hholding : env.locks.shared.table.holding owner r.resource ≠ none := by
      rw [LockTable.holding, hheld]
      exact Option.some_ne_none held
    rcases h.held owner r.resource hholding with hactive | ⟨id, call, hcall, howner⟩
    · exact h.covered.numbered.lt owner _ (get?_of_isActive hactive)
    · exact h.since_lt hcall (Stage.owner?_of_holder? howner)
  · obtain ⟨asked, hmem, -⟩ := ResourceLock.mem_conflictingAhead.1 hahead
    obtain ⟨first, hfirst, -, heq⟩ := (h.consistent.queued _ _).1 (List.takeWhile_subset _ hmem)
    have howner : owner = first.txn := congrArg Queued.txn heq
    obtain ⟨id, call, timer, hcall, hstage⟩ := h.exists_waiting hfirst.isAsleep
    rw [howner]
    exact h.since_lt hcall (by rw [hstage, Stage.owner?])

/-- While a write outside transactions waits, it holds no lock. -/
theorem Accounted.holding_of_waiting (h : env.Accounted base)
    (hcall : env.calls.get? id = some call) (htxn : call.op.txn? = none) {timer : Latency.Ticket}
    (hstage : call.stage = .waiting locker timer) (res : Resource) :
    env.locks.shared.table.holding locker res = none := by
  have howner : call.stage.owner? = some locker := by rw [hstage, Stage.owner?]
  by_contra hheld
  rcases h.held locker res hheld with hactive | ⟨id', call', hcall', hholder⟩
  · have hnone := (((h.covered.calls id call hcall).owns locker howner).of_none htxn).1
    rw [get?_of_isActive hactive] at hnone
    cases hnone
  · obtain rfl := h.owner_unique hcall hcall' howner (Stage.owner?_of_holder? hholder)
    rw [hcall, Option.some.injEq] at hcall'
    rw [← hcall', hstage] at hholder
    cases hholder

/-- What a call asleep has asked for. -/
theorem Accounted.exists_sleeper (h : env.Accounted base) (hcall : env.calls.get? id = some call)
    {owner : TxnId} {timer : Latency.Ticket} (hstage : call.stage = .waiting owner timer)
    (hsome : (env.locks.sleepers.get? id).isSome = true) :
    ∃ s, env.locks.sleepers.get? id = some s ∧ s.memory.request.txn = owner ∧
      s.memory.request.resource = ⟨call.op.key⟩ := by
  obtain ⟨s, hs⟩ := Option.isSome_iff_exists.1 hsome
  obtain ⟨howner, hres, -⟩ := (h.covered.calls id call hcall).waiting owner timer s hstage hs
  exact ⟨s, hs, howner, hres⟩

/-- The lock manager knows of every call that waits, and of nobody who is not there. -/
structure Informed (env : Environment) (base : TxnId) : Prop where
  attentive : env.Attentive base
  detection : env.locks.shared.detection = env.config.deadlockDetection
  truthful : env.locks.Truthful
  youngest : env.locks.shared.MarksYoungest
  /-- A call that waits is asleep in the lock manager. -/
  asleep : ∀ id call owner timer, env.calls.get? id = some call →
    call.stage = .waiting owner timer → (env.locks.sleepers.get? id).isSome = true
  /-- Edges lead to ids that have been given out. -/
  known : ∀ a b, env.locks.shared.table.graph.Edge a b → base.since b < base.since env.nextTxn
  /-- Who waits for a write outside transactions that waits itself is queued behind it. -/
  trailed : ∀ id call locker timer, env.calls.get? id = some call → call.op.txn? = none →
    call.stage = .waiting locker timer → env.locks.Trailed locker

theorem Opened.informed {config : Config} {rs : List Record} (h : env.Opened config rs)
    (hconfig : env.config = config) : env.Informed env.nextTxn where
  attentive := h.attentive
  detection := by
    rw [h.locks, hconfig]
    rfl
  truthful := by
    rw [h.locks]
    exact LockManager.truthful_of_not_resting fun r ⟨_, _, hget, _⟩ => nomatch hget
  youngest := by
    rw [h.locks]
    exact nofun
  asleep id call owner timer hcall := by
    rw [h.calls] at hcall
    cases hcall
  known a b hedge := by
    rw [h.locks] at hedge
    exact absurd hedge SortedSet.not_mem_empty
  trailed id call locker timer hcall := by
    rw [h.calls] at hcall
    cases hcall

/-! ## Steps -/

theorem get?_calls_finish (env : Environment) (id : Nat) (call : Call) (r : Result) :
    (env.finish id call r).1.calls.get? id = none := by
  obtain ⟨tracker, heq⟩ := env.finish_eq id call r
  rw [heq, SortedMap.get?_erase, if_pos rfl]

/-- A call that has been answered does not wait. -/
theorem not_waiting_of_answered {before : Call} {owner owner' : TxnId}
    {timer timer' : Latency.Ticket} {outcome : LockState.Outcome}
    (hcall : (env.answered id before owner timer outcome).1.calls.get? id = some call) :
    call.stage ≠ .waiting owner' timer' := by
  unfold answered at hcall
  cases outcome with
  | error e =>
    dsimp only at hcall
    rw [get?_calls_finish] at hcall
    cases hcall
  | ok grant =>
    dsimp only at hcall
    split at hcall
    · rw [get?_calls_finish] at hcall
      cases hcall
    · rw [setStage, SortedMap.get?_insert, if_pos rfl] at hcall
      cases hcall
      nofun

/-- A call that waits after a step of its own has just asked for its lock, or has not changed. -/
theorem call_of_waiting_step (hnamed : env.Named) {owner : TxnId} {timer : Latency.Ticket}
    (hcall : (env.step id).1.calls.get? id = some call)
    (hstage : call.stage = .waiting owner timer) :
    (∃ before cause, env.calls.get? id = some before ∧ before.op = call.op ∧
        before.stage = .admitted cause) ∨
      env.calls.get? id = some call := by
  obtain ⟨before, hbefore, hop, ⟨cause, hadmitted⟩ | ⟨owner', timer', hwaits⟩⟩ :=
    (step_spec hnamed id).asks_of_waiting hcall hstage
  · exact .inl ⟨before, cause, hbefore, hop.symm, hadmitted⟩
  right
  rw [step_eq_lookAgain hbefore hwaits] at hcall
  unfold lookAgain at hcall
  dsimp only at hcall
  split at hcall
  · exact hcall
  · exact absurd hstage (not_waiting_of_answered hcall)

/-- A call that waits after an event has just asked for its lock, or has not changed. -/
theorem call_of_waiting_after (hnamed : env.Named) {owner : TxnId} {timer : Latency.Ticket}
    (hcall : (env.after e).calls.get? id = some call)
    (hstage : call.stage = .waiting owner timer) :
    (e = .step id ∧ ∃ before cause, env.calls.get? id = some before ∧ before.op = call.op ∧
        before.stage = .admitted cause) ∨
      env.calls.get? id = some call := by
  rcases call_cases hnamed hcall with ⟨op, _, -, rfl⟩ | rfl | ⟨-, hbefore⟩
  · cases hstage
  · exact (call_of_waiting_step hnamed hcall hstage).imp_left fun hasked => ⟨rfl, hasked⟩
  · exact .inr hbefore

/-- A call whose step has left it waiting is asleep. -/
theorem Asks.isSome_of_none {owner nextTxn : TxnId} {locks : LockManager}
    (h : Asks env id call owner nextTxn locks none)
    (hbefore : ∀ owner timer, call.stage = .waiting owner timer →
      (env.locks.sleepers.get? id).isSome = true) : (locks.sleepers.get? id).isSome = true := by
  generalize hnone : (none : Option LockState.Outcome) = answer at h
  cases h with
  | direct | inTxn =>
    obtain ⟨-, look, -, hlooked, hresult⟩ := env.locks.enter_spec env.now id _ _
    exact hlooked.isSome (hresult.symm.trans hnone.symm)
  | again hstage =>
    rcases env.locks.recheck_spec env.now id with hrest | ⟨-, -, look, -, -, -, hlooked, hresult⟩
    · rw [hrest]
      exact hbefore _ _ hstage
    · exact hlooked.isSome (hresult.symm.trans hnone.symm)

theorem Step.isSome_of_waiting {result : Option Result} (h : Step env id env' result)
    (hcall : env'.calls.get? id = some call) {owner : TxnId} {timer : Latency.Ticket}
    (hstage : call.stage = .waiting owner timer)
    (hbefore : ∀ call owner timer, env.calls.get? id = some call →
      call.stage = .waiting owner timer → (env.locks.sleepers.get? id).isSome = true) :
    (env'.locks.sleepers.get? id).isSome = true := by
  cases h with
  | idle hnone =>
    rw [hnone] at hcall
    cases hcall
  | wait hget hasks => exact hasks.isSome_of_none fun owner timer => hbefore _ owner timer hget
  | accept | take | abort | commit | writeNow | readOnce =>
    rw [SortedMap.get?_insert, if_pos rfl] at hcall
    cases hcall
    cases hstage
  | _ =>
    rw [SortedMap.get?_erase, if_pos rfl] at hcall
    cases hcall

theorem Informed.asleep_after (h : env.Informed base) (he : e.Orderly env) {owner : TxnId}
    {timer : Latency.Ticket} (hcall : (env.after e).calls.get? id = some call)
    (hstage : call.stage = .waiting owner timer) :
    ((env.after e).locks.sleepers.get? id).isSome = true := by
  have hnamed := h.attentive.acc.covered.numbered.named
  rcases Environment.call_cases hnamed hcall with ⟨op, _, -, rfl⟩ | rfl | ⟨hstep, hbefore⟩
  · cases hstage
  · exact (step_spec hnamed id).isSome_of_waiting hcall hstage (h.asleep id)
  · have hsome := h.asleep id call owner timer hbefore hstage
    rcases h.attentive.acc.locks_cases he with ⟨x, hx, hxorderly, hlocks⟩ | ⟨-, nudge, hnudge⟩
    · rw [hlocks]
      exact h.attentive.acc.consistent.isSome_step hxorderly hsome
        fun hlooks => hstep (eq_step_of_lockEvents hx hlooks)
    · rw [hnudge, Option.isSome_map]
      exact hsome

theorem Informed.known_after (h : env.Informed base) (hacc' : (env.after e).Accounted base)
    (he : e.Orderly env) (hroom : base.since env.nextTxn + 1 < UInt64.size) {a b : TxnId}
    (hedge : (env.after e).locks.shared.table.graph.Edge a b) :
    base.since b < base.since (env.after e).nextTxn := by
  have hnext := (since_nextTxn_after h.attentive.acc.covered.numbered hroom e).1
  rcases h.attentive.acc.locks_cases he with ⟨x, -, -, hlocks⟩ | ⟨hshared, -⟩
  · rw [hlocks] at hedge
    rcases LockManager.edge_step hedge with hold | ⟨r, -, -, hblocked⟩
    · exact (h.known a b hold).trans_le hnext
    · rw [← hlocks] at hblocked
      exact hacc'.since_lt_of_mem_blockers hblocked
  · rw [hshared] at hedge
    exact (h.known a b hedge).trans_le hnext

/-- Nobody waits for the owner that the next write outside transactions will have. -/
theorem Informed.not_edge_nextTxn (h : env.Informed base) (a : TxnId) :
    ¬env.locks.shared.table.graph.Edge a env.nextTxn :=
  fun hedge => Nat.lt_irrefl _ (h.known a _ hedge)

theorem Informed.trailed_after (h : env.Informed base) (hacc' : (env.after e).Accounted base)
    (he : e.Orderly env) (hcall : (env.after e).calls.get? id = some call)
    (htxn : call.op.txn? = none) {timer : Latency.Ticket}
    (hstage : call.stage = .waiting locker timer) : (env.after e).locks.Trailed locker := by
  have hacc := h.attentive.acc
  have hnamed := hacc.covered.numbered.named
  have hbefore : env.locks.Trailed locker := by
    rcases call_of_waiting_after hnamed hcall hstage with
      ⟨rfl, before, cause, hbefore, -, hadmitted⟩ | hbefore
    · -- It has just got its locker.
      rcases (step_spec hnamed id).locker hacc.covered hcall htxn (by rw [hstage, Stage.owner?])
        with rfl | ⟨call₀, hcall₀, -, howner⟩
      · exact fun a hedge => absurd hedge (h.not_edge_nextTxn a)
      · rw [hbefore, Option.some.injEq] at hcall₀
        rw [← hcall₀, hadmitted] at howner
        cases howner
    · exact h.trailed id call locker timer hbefore htxn hstage
  rcases hacc.locks_cases he with ⟨x, hx, hxorderly, hlocks⟩ | ⟨hshared, nudge, hnudge⟩
  · have hfree := hacc'.holding_of_waiting hcall htxn hstage
    obtain ⟨s, hs, howner, -⟩ := hacc'.exists_sleeper hcall hstage (h.asleep_after he hcall hstage)
    rw [hlocks] at hfree hs ⊢
    exact hbefore.step hacc.consistent hxorderly ⟨id, s, hs, howner⟩ hfree
  · intro a hedge
    rw [hshared] at hedge ⊢
    obtain ⟨r, hr, hra, hbehind⟩ := hbefore a hedge
    exact ⟨r, (LockManager.asleep_nudged hnudge).2 hr, hra, hbehind⟩

theorem Informed.after (h : env.Informed base) (he : e.Orderly env)
    (hroom : base.since env.nextTxn + 1 < UInt64.size) : (env.after e).Informed base := by
  have hacc := h.attentive.acc
  have hattentive' := h.attentive.after he hroom
  have hconfig := config_after hacc.covered.numbered.named e
  refine ⟨hattentive', ?_, ?_, ?_, fun id call owner timer hcall => h.asleep_after he hcall,
    fun a b => h.known_after hattentive'.acc he hroom,
    fun id call locker timer hcall htxn => h.trailed_after hattentive'.acc he hcall htxn⟩
  · rw [hconfig]
    rcases hacc.locks_cases he with ⟨x, -, -, hlocks⟩ | ⟨hshared, -⟩
    · rw [hlocks, LockManager.detection_step, h.detection]
    · rw [hshared, h.detection]
  · rw [(hacc.books e).locks]
    exact LockManager.truthful_of_run h.truthful hacc.consistent (hacc.orderly_lockEvents he)
  · rcases hacc.locks_cases he with ⟨x, -, -, hlocks⟩ | ⟨hshared, -⟩
    · rw [hlocks]
      exact (LockManager.marksYoungest_step h.youngest x).1
    · rw [hshared]
      exact h.youngest

theorem Informed.run (h : env.Informed base) {events : List Event}
    (horderly : env.Orderly events)
    (hroom : base.since env.nextTxn + events.length < UInt64.size) :
    (env.run events).Informed base :=
  h.attentive.acc.covered.numbered.run_induction (·.Informed base) horderly hroom
    (fun _ he hnext h => h.after he hnext) h

end Environment
end WalStore

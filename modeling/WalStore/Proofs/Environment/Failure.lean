import WalStore.Proofs.Environment.Accounted
import WalStore.Proofs.Environment.Admission

/-!
# Calls that fail

A call that fails does nothing but fail: each step of it leaves the records of the log and the whole
state as they were, and active transactions active (`spares_of_answers_error`). What has logged a
record answers its position in the end (`answer_of_releasing`), so a call that fails has logged
none. A commit whose record cannot be logged is no exception (`commit_error`).

A write outside transactions gives back all locks of the id it has taken, whether it fails or not
(`free_of_answers`).
-/

namespace WalStore

open Record (endLsn)

namespace Environment

variable {env env' : Environment} {base : TxnId} {id : Nat} {result : Option Result}
  {rs : List Record}

/-! ## What failing leaves alone -/

/-- There are no other records in the log of `env'` than in that of `env`, all transactions have the
same work and the same is live, and no transaction has been resolved. -/
structure Spares (env env' : Environment) : Prop where
  records : env'.log.scan.records = env.log.scan.records
  lastLsn : env'.log.lastLsn = env.log.lastLsn
  state : env'.state = env.state
  active : ∀ txn, (env.txn txn).isActive = true → (env'.txn txn).isActive = true

theorem spares_of_holds (hholds : env.log.Holds rs) (hholds' : env'.log.Holds rs)
    (hstate : env'.state = env.state)
    (hactive : ∀ txn, (env.txn txn).isActive = true → (env'.txn txn).isActive = true) :
    env.Spares env' where
  records := hholds'.records_scan.trans hholds.records_scan.symm
  lastLsn := by rw [Log.lastLsn, Log.lastLsn, hholds'.next, hholds.next]
  state := hstate
  active := hactive

theorem begin_error {config : TxnConfig} {e : Error} (h : (env.begin config).2 = .error e) :
    (env.begin config).1 = env := by
  rcases env.begin_cases config with ⟨e', heq⟩ | ⟨timeouts, counters, heq⟩
  · rw [heq]
  · rw [heq] at h
    cases h

/-! ## Steps -/

/-- What a step of a call leaves, unless it has logged a record and answers its position, at once or
in the end. -/
theorem Step.spares (h : Step env id env' result) (hholds : env.log.Holds rs)
    (hlast : env.state.lastLsn = endLsn .zero rs)
    (hroom : (endLsn .zero rs).toNat + 1 < UInt64.size)
    {call : Call} (hcall : env.calls.get? id = some call) (hgoes : call.op.resolves = false) :
    env.Spares env' ∨ (∃ lsn, result = some (.ok (.logged lsn))) ∨
      result = none ∧ ∃ call' owner lsn, env'.calls.get? id = some call' ∧
        call'.stage = .releasing owner (.ok (.logged lsn)) := by
  have hsame {call' : Call} (hcall' : env.calls.get? id = some call') : call' = call :=
    Option.some.inj (hcall'.symm.trans hcall)
  cases h with
  | refuse _ _ htxns | accept _ _ _ htxns | deny _ _ htxns =>
    exact .inl (spares_of_holds hholds hholds rfl fun _ => htxns.isActive rfl)
  | abort hcall' _ hop =>
    rw [← hsame hcall'] at hgoes
    rcases hop with hop | ⟨hop, -⟩ <;> rw [hop] at hgoes <;> cases hgoes
  | commitFail hcall' _ hop | commit hcall' _ hop =>
    rw [← hsame hcall', hop] at hgoes
    cases hgoes
  | writeNow hcall' _ _ _ hlogged =>
    rcases hlogged.cases hholds hlast hroom with
      ⟨e, -, hholds', hstate⟩ | ⟨lsn, rfl, -⟩
    · exact .inl (spares_of_holds hholds hholds' hstate fun _ hactive => hactive)
    · exact .inr (.inr ⟨rfl, _, _, lsn, (SortedMap.get?_insert ..).trans (if_pos rfl), rfl⟩)
  | writeFail _ _ _ _ hlogged =>
    rcases hlogged.cases hholds hlast hroom with ⟨e, -, hholds', hstate⟩ | ⟨lsn, hlsn, -⟩
    · exact .inl (spares_of_holds hholds hholds' hstate fun _ hactive => hactive)
    · cases hlsn
  | write => exact .inr (.inl ⟨_, rfl⟩)
  | _ => exact .inl (spares_of_holds hholds hholds rfl fun _ hactive => hactive)

/-- A call that releases has its result. -/
theorem Step.result_of_releasing (h : Step env id env' result) {call : Call} {owner : TxnId}
    {r : Result} (hcall : env.calls.get? id = some call)
    (hstage : call.stage = .releasing owner r) :
    result = some r := by
  have hother {call' : Call} (hcall' : env.calls.get? id = some call') :
      call'.stage = .releasing owner r := by
    rw [Option.some.inj (hcall'.symm.trans hcall), hstage]
  have hasks {call' : Call} {owner' nextTxn : TxnId} {locks : LockManager}
      {outcome : Option LockState.Outcome} (hcall' : env.calls.get? id = some call')
      (hasks : Asks env id call' owner' nextTxn locks outcome) : False := by
    have := hother hcall'
    cases hasks with
    | direct hstage' | inTxn hstage' | again hstage' =>
      rw [hstage'] at this
      cases this
  cases h with
  | idle hnone =>
    rw [hnone] at hcall
    cases hcall
  | wait hcall' hasks' | deny hcall' hasks' | lock hcall' _ hasks' | take hcall' _ hasks' =>
    exact (hasks hcall' hasks').elim
  | giveBack hcall' hstage' | leave hcall' hstage' =>
    rw [hother hcall'] at hstage'
    cases hstage'
    rfl
  | refuse hcall' hstage' | accept hcall' hstage' | abort hcall' hstage' | commitFail hcall' hstage'
  | commit hcall' hstage' | writeNow hcall' hstage' | writeFail hcall' hstage'
  | write hcall' hstage' | read hcall' hstage' | readOnce hcall' hstage' =>
    rw [hother hcall'] at hstage'
    cases hstage'

/-- A call that has no result yet goes on, and from its second step on it has the owner of its
lock. -/
theorem Step.goes_on (h : Step env id env' none) {call : Call}
    (hcall : env.calls.get? id = some call) : ∃ call', env'.calls.get? id = some call' ∧
      call'.op = call.op ∧ (call.stage ≠ .entered → call'.stage.owner?.isSome = true) ∧
      (call.stage.owner?.isSome = true → call'.stage.owner? = call.stage.owner?) := by
  have hasks {call' : Call} {u nextTxn : TxnId} {locks : LockManager}
      {outcome : Option LockState.Outcome} (hasks : Asks env id call' u nextTxn locks outcome) :
      call'.stage.owner?.isSome = true → some u = call'.stage.owner? := by
    cases hasks with
    | direct hstage | inTxn hstage =>
      rw [hstage]
      exact fun h => nomatch h
    | again hstage =>
      rw [hstage]
      exact fun _ => rfl
  cases h with
  | idle hnone =>
    rw [hnone] at hcall
    cases hcall
  | accept hcall' hstage =>
    obtain rfl := Option.some.inj (hcall'.symm.trans hcall)
    refine ⟨_, (SortedMap.get?_insert ..).trans (if_pos rfl), rfl, fun h => absurd hstage h, ?_⟩
    rw [hstage]
    exact fun h => nomatch h
  | wait hcall' hasks' | take hcall' _ hasks' =>
    obtain rfl := Option.some.inj (hcall'.symm.trans hcall)
    exact ⟨_, (SortedMap.get?_insert ..).trans (if_pos rfl), rfl, fun _ => rfl, hasks hasks'⟩
  | abort hcall' hstage | commit hcall' hstage =>
    obtain rfl := Option.some.inj (hcall'.symm.trans hcall)
    refine ⟨_, (SortedMap.get?_insert ..).trans (if_pos rfl), rfl, fun _ => rfl, ?_⟩
    rw [hstage]
    exact fun h => nomatch h
  | writeNow hcall' hstage | readOnce hcall' hstage =>
    obtain rfl := Option.some.inj (hcall'.symm.trans hcall)
    refine ⟨_, (SortedMap.get?_insert ..).trans (if_pos rfl), rfl, fun _ => rfl, ?_⟩
    rw [hstage]
    exact fun _ => rfl

/-! ## Calls until they are answered -/

/-- An event in an orderly run that does not answer a call leaves it in progress. -/
theorem call_goes_on (hnamed : env.Named) {e : Event} (he : e.Orderly env)
    (hnone : env.resultOf? id e = none) {call : Call} (hcall : env.calls.get? id = some call) :
    ∃ call', (env.after e).calls.get? id = some call' ∧ call'.op = call.op ∧
      (call.stage.owner?.isSome = true → call'.stage.owner? = call.stage.owner?) := by
  by_cases hstep : e = .step id
  · subst hstep
    rw [resultOf?, if_pos rfl] at hnone
    have h := step_spec hnamed id
    rw [hnone] at h
    obtain ⟨call', hcall', hop, -, hsame⟩ := h.goes_on hcall
    exact ⟨call', hcall', hop, hsame⟩
  · refine ⟨call, ?_, rfl, fun _ => rfl⟩
    rw [get?_calls_after hnamed hstep, hcall]
    rintro op rfl
    have hfree := he.1
    rw [hcall] at hfree
    cases hfree

/-- A call that has its result answers it. -/
theorem answer_of_releasing {r r' : Result} {events : List Event}
    (hanswers : Answers id r env events) (hnumbered : env.Numbered base)
    (horderly : env.Orderly events)
    (hroom : base.since env.nextTxn + events.length < UInt64.size) {call : Call} {owner : TxnId}
    (hcall : env.calls.get? id = some call) (hstage : call.stage = .releasing owner r') :
    r = r' := by
  induction hanswers with
  | last hresult =>
    obtain ⟨-, hresult⟩ := eq_step_of_resultOf? hresult
    have h := (step_spec hnumbered.named id).result_of_releasing hcall hstage
    rw [hresult] at h
    exact Option.some.inj h
  | @later env e events hnone _ ih =>
    rw [List.length_cons] at hroom
    have hnext := (since_nextTxn_after hnumbered (by omega) e).2
    refine ih (hnumbered.after (by omega) e) horderly.2 (by omega) ?_
    have hstep : e ≠ .step id := by
      rintro rfl
      rw [resultOf?, if_pos rfl,
        (step_spec hnumbered.named id).result_of_releasing hcall hstage] at hnone
      cases hnone
    rw [get?_calls_after hnumbered.named hstep, hcall]
    rintro op rfl
    have hfree := horderly.1.1
    rw [hcall] at hfree
    cases hfree

/-- What answers a call at the end of a run answers it at the end of the rest, and until then the
call is in progress. -/
theorem Answers.drop {r : Result} {past rest : List Event}
    (h : Answers id r env (past ++ rest)) (hrest : rest ≠ []) (hnumbered : env.Numbered base)
    (horderly : env.Orderly (past ++ rest))
    (hroom : base.since env.nextTxn + past.length < UInt64.size) {call : Call}
    (hcall : env.calls.get? id = some call) :
    Answers id r (env.run past) rest ∧ ∃ call', (env.run past).calls.get? id = some call' ∧
      call'.op = call.op ∧
      (call.stage.owner?.isSome = true → call'.stage.owner? = call.stage.owner?) := by
  induction past generalizing env call with
  | nil => exact ⟨h, call, hcall, rfl, fun _ => rfl⟩
  | cons e past ih =>
    rw [List.length_cons] at hroom
    rw [List.cons_append] at h horderly
    generalize hevents : past ++ rest = events at h horderly
    cases h with
    | last =>
      rw [List.append_eq_nil_iff] at hevents
      exact absurd hevents.2 hrest
    | later hnone hlater =>
      subst hevents
      have hnext := (since_nextTxn_after hnumbered (by omega) e).2
      obtain ⟨call₁, hcall₁, hop₁, howner₁⟩ :=
        call_goes_on hnumbered.named horderly.1 hnone hcall
      obtain ⟨hanswers, call', hcall', hop', howner'⟩ :=
        ih hlater (hnumbered.after (by omega) e) horderly.2 (by omega) hcall₁
      refine ⟨hanswers, call', hcall', hop'.trans hop₁, fun hsome => ?_⟩
      have howner := howner₁ hsome
      exact (howner' (howner ▸ hsome)).trans howner

/-- From the start of a call on. -/
theorem Answers.drop_start {r : Result} {op : Op} {past rest : List Event}
    (h : Answers id r env (.start id op :: past ++ rest)) (hrest : rest ≠ [])
    (hnumbered : env.Numbered base) (horderly : env.Orderly (.start id op :: past ++ rest))
    (hroom : base.since env.nextTxn + (past.length + 1) < UInt64.size) :
    Answers id r (env.run (.start id op :: past)) rest ∧
      ∃ call, (env.run (.start id op :: past)).calls.get? id = some call ∧ call.op = op := by
  obtain ⟨tracker, timer, hstart⟩ := env.start_eq id op
  have hcall : (env.after (.start id op)).calls.get? id = some ⟨op, timer, .entered⟩ := by
    rw [after, hstart]
    exact (SortedMap.get?_insert ..).trans (if_pos rfl)
  have hnext := (since_nextTxn_after hnumbered (by omega) (.start id op)).2
  rw [List.cons_append] at h horderly
  generalize hevents : past ++ rest = events at h
  cases h with
  | last hresult => cases hresult
  | later _ hlater =>
    subst hevents
    obtain ⟨hanswers, call, hcall', hop, -⟩ := hlater.drop hrest
      (hnumbered.after (by omega) (.start id op)) horderly.2 (by omega) hcall
    exact ⟨hanswers, call, hcall', hop⟩

/-! ## Calls that fail -/

/-- A step of a call that will fail. -/
theorem spares_of_answers_error {e : Error} {events : List Event}
    (hanswers : Answers id (.error e) env (.step id :: events)) (htracks : env.Tracks base rs)
    (horderly : env.Orderly (.step id :: events))
    (hlsn : (endLsn .zero rs).toNat + 1 < UInt64.size)
    (htxn : base.since env.nextTxn + (events.length + 1) < UInt64.size) {call : Call}
    (hcall : env.calls.get? id = some call) (hgoes : call.op.resolves = false) :
    env.Spares (env.after (.step id)) := by
  have hnumbered := htracks.numbered
  rcases (step_spec hnumbered.named id).spares htracks.holds htracks.lastLsn hlsn hcall hgoes with
    hspares | ⟨lsn, hresult⟩ | ⟨-, call', owner, lsn, hcall', hstage⟩
  · exact hspares
  · cases hanswers with
    | last hresult' | later hresult' =>
      rw [resultOf?, if_pos rfl, hresult] at hresult'
      cases hresult'
  · cases hanswers with
    | last hresult' =>
      rw [resultOf?, if_pos rfl] at hresult'
      have h := step_spec hnumbered.named id
      rw [hresult'] at h
      generalize (env.step id).1 = env' at h hcall'
      cases h <;> rw [SortedMap.get?_erase, if_pos rfl] at hcall' <;> cases hcall'
    | later _ hlater =>
      have hnext := (since_nextTxn_after hnumbered (by omega) (.step id)).2
      cases answer_of_releasing hlater (hnumbered.after (by omega) _) horderly.2 (by omega) hcall'
        hstage

/-- The event starts the call with number `id`, or takes a step of it. -/
def Event.IsOf (id : Nat) : Event → Prop
  | .start id' _ | .step id' => id' = id
  | _ => False

/-- Each part of a call that fails in the end. -/
theorem spares_of_isOf {op : Op} {e : Error} {later past rest : List Event} {own : Event}
    (hanswers : Answers id (.error e) env (.start id op :: later)) (htracks : env.Tracks base rs)
    (horderly : env.Orderly (.start id op :: later)) (hgoes : op.resolves = false)
    (hlsn : (endLsn .zero rs).toNat + (later.length + 1) < UInt64.size)
    (htxn : base.since env.nextTxn + (later.length + 1) < UInt64.size)
    (heq : .start id op :: later = past ++ own :: rest) (hown : own.IsOf id) :
    (env.run past).Spares ((env.run past).after own) := by
  rcases past with _ | ⟨first, past⟩
  · cases heq
    obtain ⟨tracker, timer, hstart⟩ := env.start_eq id op
    rw [run_nil, after, hstart]
    exact ⟨rfl, rfl, rfl, fun _ hactive => hactive⟩
  · obtain ⟨rfl, rfl⟩ := List.cons.inj heq
    rw [heq] at hanswers horderly
    rw [List.append_eq, List.length_append, List.length_cons] at hlsn htxn
    obtain ⟨hanswers', call, hcall, hop⟩ := hanswers.drop_start (List.cons_ne_nil own rest)
      htracks.numbered horderly (by omega)
    have hpast : (Event.start id op :: past).length = past.length + 1 := rfl
    obtain ⟨rs', htracks', -, hend, -⟩ :=
      htracks.run (.start id op :: past) (by omega) (by omega)
    obtain ⟨-, horderly'⟩ := orderly_append.1 horderly
    have hnext := (htracks.numbered.run (.start id op :: past) (by omega)).2
    cases own with
    | start id' op' =>
      obtain rfl : id' = id := hown
      have hfree := horderly'.1.1
      rw [hcall] at hfree
      cases hfree
    | step id' =>
      obtain rfl : id' = id := hown
      exact spares_of_answers_error hanswers' htracks' horderly' (by omega) (by omega) hcall
        (hop ▸ hgoes)
    | _ => exact hown.elim

/-- A commit that is let in. -/
theorem enter_eq_admitted (id : Nat) {call : Call} {txn : TxnId} (hop : call.op = .commit txn)
    (hopen : env.isOpen = true) (hactive : (env.txn txn).isActive = true)
    (hfit : ((env.txn txn).checkTime env.now).mustAbort = none) :
    env.enter id call = env.setStage id call (.admitted none) := by
  have h := env.enters id call
  generalize env.enter id call = result at h ⊢
  cases h with
  | closed hclosed =>
    rw [hclosed] at hopen
    cases hopen
  | ended ht hover =>
    rw [hop] at ht
    cases ht
    rw [hactive] at hover
    cases hover
  | spent _ _ hgoes =>
    rw [hop] at hgoes
    cases hgoes
  | giveUp _ hop' _ hmust =>
    rw [hop] at hop'
    cases hop'
    rw [hfit] at hmust
    cases hmust
  | direct | inTxn | abort => rfl

/-- A commit that has been admitted. -/
theorem proceed_eq_enterCommit (id : Nat) {call : Call} {txn : TxnId}
    (hop : call.op = .commit txn) (hactive : (env.txn txn).isActive = true) :
    env.proceed id call none = env.enterCommit id call (env.txn txn) := by
  simp only [proceed, hop, Op.txn?, Transaction.checkActive, hactive, if_true]

/-- A commit whose record cannot be logged. -/
theorem commit_error {call : Call} {txn : TxnId} {e : Error}
    (hcall : env.calls.get? id = some call) (hstage : call.stage = .admitted none)
    (hop : call.op = .commit txn) (hnamed : env.Named) (hactive : (env.txn txn).isActive = true)
    (hwrites : 0 < (env.txn txn).writes) (happend : (env.log.append (.commit txn)).2 = .error e) :
    ∃ tracker, env.step id = ({ env with
      tracker, log := (env.log.append (.commit txn)).1, calls := env.calls.erase id },
      some (.error e)) := by
  have hcommits := proceed_eq_enterCommit id hop hactive
  have hid : (env.txn txn).id = txn := hnamed txn _ (get?_of_isActive hactive)
  obtain ⟨tracker, timer, hstart⟩ := env.startTimer_eq .commit
  obtain ⟨tracker', hfinish⟩ := finish_eq
    { env with tracker, log := (env.log.append (.commit txn)).1 } id
    { call with timer := some timer } (.error e)
  have hfails : { env with tracker }.append (.commit txn) =
      ({ env with tracker, log := (env.log.append (.commit txn)).1 }, .error e) := by
    unfold append
    dsimp only
    rcases hlogged : env.log.append (.commit txn) with ⟨log, e' | lsn⟩ <;>
      rw [hlogged] at happend <;> cases happend
    rfl
  refine ⟨tracker', ?_⟩
  rw [step_eq_proceed hcall hstage, hcommits]
  unfold enterCommit
  rw [hstart]
  dsimp only
  rw [if_pos hwrites, hid, hfails]
  exact hfinish

/-! ## Locks that are left -/

/-- A call with a result is over. -/
theorem Step.get?_calls_of_some {r : Result} (h : Step env id env' (some r)) :
    env'.calls.get? id = none := by
  cases h <;> exact (SortedMap.get?_erase ..).trans (if_pos rfl)

/-- The step that answers a write outside transactions leaves nothing of its locker. -/
theorem Step.free {r : Result} (h : Step env id env' (some r)) (hacc' : env'.Accounted base)
    {locker : TxnId} (hnone : env.txns.get? locker = none)
    (hown : ∀ id' call, id' ≠ id → env.calls.get? id' = some call →
      call.stage.owner? ≠ some locker) : env'.Free locker := by
  refine hacc'.free ?_ fun id' call hcall howner => ?_
  · rw [txn_eq_of_get?_none (h.inherits.get?_eq_none hnone)]
    rfl
  · by_cases hid : id' = id
    · rw [hid, h.get?_calls_of_some] at hcall
      cases hcall
    · exact hown id' call hid ((h.get?_calls_of_ne hid).symm.trans hcall) howner

/-- Once a write outside transactions is answered, nothing of its locker is left. -/
theorem free_of_answers {r : Result} {events : List Event} (hanswers : Answers id r env events)
    (hacc : env.Accounted base) (horderly : env.Orderly events)
    (hroom : base.since env.nextTxn + events.length < UInt64.size) {call : Call} {locker : TxnId}
    (hcall : env.calls.get? id = some call) (htxn : call.op.txn? = none)
    (howner : call.stage.owner? = some locker) : (env.run events).Free locker := by
  induction hanswers generalizing call with
  | @last env e hresult =>
    obtain ⟨rfl, hanswer⟩ := eq_step_of_resultOf? hresult
    have h := step_spec hacc.covered.numbered.named id
    rw [hanswer] at h
    have howns := (hacc.covered.calls id call hcall).owns locker howner
    refine h.free (hacc.after horderly.1 hroom) (howns.of_none htxn).1
      fun id' call' hid hcall' howner' => ?_
    exact hid (hacc.owner_unique hcall' hcall howner' howner)
  | @later env e events hnone _ ih =>
    rw [List.length_cons] at hroom
    have hnumbered := hacc.covered.numbered
    have hnext := (since_nextTxn_after hnumbered (by omega) e).2
    obtain ⟨call', hcall', hop, hsame⟩ := call_goes_on hnumbered.named horderly.1 hnone hcall
    refine ih (hacc.after horderly.1 (by omega)) horderly.2 (by omega) hcall' (hop ▸ htxn) ?_
    rw [hsame (by rw [howner]; rfl), howner]

/-- The locker is the id that comes next when the write asks for its lock. -/
theorem free_nextTxn_of_answers {r : Result} {events : List Event}
    (hanswers : Answers id r env (.step id :: events)) (hacc : env.Accounted base)
    (horderly : env.Orderly (.step id :: events))
    (hroom : base.since env.nextTxn + (events.length + 1) < UInt64.size) {call : Call}
    {cause : Option Error} (hcall : env.calls.get? id = some call) (htxn : call.op.txn? = none)
    (hstage : call.stage = .admitted cause) :
    (env.run (.step id :: events)).Free env.nextTxn := by
  have hnumbered := hacc.covered.numbered
  have hacc' := hacc.after horderly.1 (by omega)
  have h := step_spec hnumbered.named id
  cases hanswers with
  | last hresult =>
    rw [resultOf?, if_pos rfl] at hresult
    rw [hresult] at h
    refine h.free hacc' hnumbered.get?_nextTxn fun id' call' hid hcall' howner => ?_
    have howns := (hacc.covered.calls id' call' hcall').owns _ howner
    -- The next id belongs to nobody yet.
    cases htxn' : call'.op.txn? with
    | some txn =>
      obtain ⟨rfl, hsome⟩ := howns.of_txn htxn'
      rw [hnumbered.get?_nextTxn] at hsome
      cases hsome
    | none => exact Nat.lt_irrefl _ (howns.of_none htxn').2
  | later hnone hlater =>
    rw [resultOf?, if_pos rfl] at hnone
    have hnext := (since_nextTxn_after hnumbered (by omega) (.step id)).2
    rw [hnone] at h
    obtain ⟨call', hcall', hop, hsome, -⟩ := h.goes_on hcall
    obtain ⟨owner, howner⟩ := Option.isSome_iff_exists.1 (hsome (by simp [hstage]))
    obtain rfl : owner = env.nextTxn := by
      rcases h.locker hacc.covered hcall' (hop ▸ htxn) howner with
        hnew | ⟨before, hbefore, -, hbefore'⟩
      · exact hnew
      · rw [hcall] at hbefore
        cases hbefore
        rw [hstage] at hbefore'
        cases hbefore'
    exact free_of_answers hlater hacc' horderly.2 (by omega) hcall' (hop ▸ htxn) howner

/-- From the start of the write on. -/
theorem free_of_start {op : Op} {r : Result} {later past rest : List Event}
    (hanswers : Answers id r env (.start id op :: later)) (hacc : env.Accounted base)
    (horderly : env.Orderly (.start id op :: later)) (hnone : op.txn? = none)
    (hroom : base.since env.nextTxn + (later.length + 1) < UInt64.size)
    (heq : .start id op :: later = past ++ .step id :: rest) {call : Call} {cause : Option Error}
    (hcall : (env.run past).calls.get? id = some call) (hstage : call.stage = .admitted cause) :
    (env.run (.start id op :: later)).Free (env.run past).nextTxn := by
  rcases past with _ | ⟨first, past⟩
  · cases heq
  · obtain ⟨rfl, rfl⟩ := List.cons.inj heq
    rw [heq] at hanswers horderly ⊢
    rw [List.append_eq, List.length_append, List.length_cons] at hroom
    obtain ⟨hanswers', call', hcall', hop⟩ := hanswers.drop_start (List.cons_ne_nil _ _)
      hacc.covered.numbered horderly (by omega)
    obtain rfl := Option.some.inj (hcall'.symm.trans hcall)
    have hpast : (Event.start id op :: past).length = past.length + 1 := rfl
    obtain ⟨horderly₁, horderly₂⟩ := orderly_append.1 horderly
    obtain ⟨hacc', hnext⟩ := hacc.run horderly₁ (by omega)
    rw [run_append]
    exact free_nextTxn_of_answers hanswers' hacc' horderly₂ (by omega) hcall (hop ▸ hnone) hstage

end Environment
end WalStore

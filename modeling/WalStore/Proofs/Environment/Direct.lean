import WalStore.Proofs.Environment.Failure
import WalStore.Proofs.Environment.Leftover
import WalStore.Proofs.Environment.Waiting

/-!
# Why writes outside transactions fail

**Theorem (`directFails_of_error`).** While it waits, a write outside transactions holds no lock. It
fails only because the environment is closed when it begins, because it has waited as long as the
settings allow, because the log refuses its record, or because it was picked as the youngest on a
cycle of owners that wait for one another.

It is no victim when it arrives: its locker is new, so nobody waits for it, and no cycle leads
through it (`Consistent.timesOut_of_enter`). It becomes one while it sleeps, although it holds
nothing, for others queue behind it (`Informed.givesWay`, `overtaken`). It need not be its own look
that picks it, and the mark may be old when it looks; `Informed.exists_givesWay` goes back along the
run to the event that set it.
-/

namespace WalStore

open Monitor

open Record (endLsn)

/-! ## Requests without a transaction -/

theorem ResourceLock.not_mem_blockers_self (l : ResourceLock) (txn : TxnId) (mode : Mode) :
    txn ∉ l.blockers txn mode := by
  intro hmem
  rcases mem_blockers.1 hmem with hholder | hahead
  · obtain ⟨-, -, hne, -⟩ := mem_conflictingHolders.1 hholder
    exact hne rfl
  · obtain ⟨asked, hmem, -⟩ := mem_conflictingAhead.1 hahead
    simpa using List.mem_takeWhile_imp hmem

namespace LockState

variable {s : LockState} {r : LockRequest} {now : Instant} {e : Error}

/-- The lock timeout of the request has passed, and this is what it reports. -/
def TimesOut (r : LockRequest) (now : Instant) (e : Error) : Prop :=
  ∃ l, r.deadlines.lock = some l ∧ l.due ≤ now ∧ e = .lockTimeout r.txn r.resource l.limit

/-- A request that nothing cancels and no transaction bounds gives up at its lock timeout only. -/
theorem timesOut_of_failure? (htxn : r.deadlines.txn = none) {counters : LockCounters}
    (h : s.failure? ⟨now, false⟩ r (r.deadlines.expired? now) = some (counters, e)) :
    TimesOut r now e := by
  unfold failure? at h
  dsimp only at h
  rw [if_neg Bool.false_ne_true] at h
  split at h
  · next hexpired =>
    cases h
    obtain ⟨l, hlock, rfl, hdue, -⟩ := Deadlines.expired?_eq_lock_iff.1 hexpired
    exact ⟨l, hlock, hdue, rfl⟩
  · next hexpired =>
    obtain ⟨t, ht, -⟩ := Deadlines.expired?_eq_txn_iff.1 hexpired
    rw [htxn] at ht
    cases ht
  · cases h

theorem Attempt.error_cases {queued : Bool} {w : Waiting} {look : RequestLook}
    (h : Attempt queued ⟨now, false⟩ w s look) (htxn : w.request.deadlines.txn = none)
    (herror : look.fate.result? = some (.error e)) :
    (∃ cycle, e = .deadlock w.request.txn cycle) ∨ TimesOut w.request now e := by
  cases h with
  | victim =>
    cases herror
    exact .inl ⟨_, rfl⟩
  | grant => cases herror
  | fail _ _ hfailure =>
    cases herror
    exact .inr (timesOut_of_failure? htxn hfailure)
  | stay _ _ _ _ hstay =>
    cases hstay <;> cases herror
    exact .inl ⟨_, rfl⟩

/-- Who falls asleep is not marked. -/
theorem Attempt.unmarked {queued : Bool} {sight : Sight} {w memory : Waiting} {look : RequestLook}
    (h : Attempt queued sight w s look) (hfate : look.fate = .sleeps memory) :
    look.state.table.victims.get? w.request.txn = none := by
  obtain ⟨rfl, hnone, -, hstay⟩ := h.sleeps hfate
  have hnoted : ((if queued then s else s.queueUp memory.request).noted
      memory.request).victims.get? memory.request.txn = none := by
    rw [noted, LockTable.victims_noteWaits, victims_queueUp, hnone]
  cases hstay with
  | sleep => exact hnoted
  | spare _ _ hne =>
    rw [LockTable.markVictim, SortedMap.get?_insert, if_neg hne.symm]
    exact hnoted
  | yield => cases hfate

end LockState

namespace LockManager

variable {m : LockManager} {r : LockRequest} {now : Instant} {call : Nat} {e : Error}

/-- A request that arrives is no victim if nobody waits for its owner. -/
theorem Consistent.timesOut_of_enter (hc : m.Consistent) (hfree : ¬m.IsAsleep r.txn)
    (hedges : ∀ a, ¬m.shared.table.graph.Edge a r.txn) (htxn : r.deadlines.txn = none)
    (h : (m.enter LockState.discipline now call none r).2 = some (.error e)) :
    LockState.TimesOut r now e := by
  have harrival := LockState.arrive_spec ⟨now, false⟩ r m.shared
  have hresult : (m.shared.arrive ⟨now, false⟩ r).fate.result? = some (.error e) := by
    rw [← h, enter_eq, result_afterLook]
    rfl
  generalize m.shared.arrive ⟨now, false⟩ r = look at harrival hresult
  cases harrival with
  | held => cases hresult
  | attempt _ hattempt =>
    rcases hattempt.error_cases htxn hresult with ⟨cycle, rfl⟩ | htimeout
    · have hnew : m.shared.table.victims.get? r.txn ≠ some cycle := fun hmark => by
        obtain ⟨c, s, hget, howner, -⟩ := hc.victims _ _ hmark
        exact hfree ⟨c, s, hget, howner⟩
      obtain ⟨hmem, hcycle⟩ := hattempt.found hnew (.inr hresult)
      obtain ⟨a, -, hedge⟩ :=
        WaitGraph.exists_edge_of_forall₂ (WaitGraph.forall₂_cycleThrough hcycle) hmem
      rcases edge_graphAt (e := .acquire now call none r) (LockTable.graph_enqueue ..) hedge with
        ⟨-, hblocked⟩ | ⟨-, hold⟩
      · exact (ResourceLock.not_mem_blockers_self _ _ _ hblocked).elim
      · exact absurd hold (hedges a)
    · exact htimeout

theorem recheck_error_cases {s : Sleeper Waiting} (hget : m.sleepers.get? call = some s)
    (htoken : s.token = none) (htxn : s.memory.request.deadlines.txn = none)
    (h : (m.recheck LockState.discipline now call).2 = some (.error e)) :
    (∃ cycle, e = .deadlock s.memory.request.txn cycle) ∨
      LockState.TimesOut s.memory.request now e := by
  rcases m.recheck_cases call LockState.discipline now with hrest | ⟨s', hget', -, heq⟩
  · rw [hrest] at h
    cases h
  · rw [hget, Option.some.injEq] at hget'
    subst hget'
    rw [heq, result_afterLook, htoken] at h
    exact (LockState.attempt_spec true ⟨now, false⟩ s.memory m.shared).error_cases htxn h

/-- Who falls asleep is not marked. -/
theorem unmarked_of_enter {token : Option TokenId}
    (h : (m.enter LockState.discipline now call token r).2 = none) :
    (m.step (.acquire now call token r)).shared.table.victims.get? r.txn = none := by
  obtain ⟨cancelled, look, harrival, hlooked, hresult⟩ := m.enter_spec now call token r
  rw [step, hlooked.shared]
  rw [hresult] at h
  cases harrival with
  | held => cases h
  | attempt _ hattempt =>
    cases hfate : look.fate with
    | returns =>
      rw [hfate] at h
      cases h
    | sleeps => exact hattempt.unmarked hfate

end LockManager

namespace Environment

variable {env env' : Environment} {base locker : TxnId} {id : Nat} {call : Call} {e : Event}

/-! ## Asking -/

/-- A write outside transactions that has been admitted asks for its lock. -/
theorem step_of_admitted {cause : Option Error} (hcall : env.calls.get? id = some call)
    (hstage : call.stage = .admitted cause) (htxn : call.op.txn? = none) :
    env.step id =
      env.takeId.1.ask id call env.nextTxn (env.deadlinesOf call.op env.now) none := by
  rw [step_eq_proceed hcall hstage, proceed, htxn, deadlinesOf, htxn]
  rfl

/-- Who has just fallen asleep is not marked. -/
theorem unmarked_of_admitted {before : Call} {cause : Option Error}
    (hbefore : env.calls.get? id = some before) (hadmitted : before.stage = .admitted cause)
    (htxn : before.op.txn? = none) (hcall : (env.step id).1.calls.get? id = some call)
    {timer : Latency.Ticket} (hstage : call.stage = .waiting locker timer) :
    (env.step id).1.locks.shared.table.victims.get? locker = none := by
  rw [step_of_admitted hbefore hadmitted htxn] at hcall ⊢
  rw [locks_ask]
  unfold ask at hcall
  dsimp only at hcall
  split at hcall
  · next hnone =>
    rw [setStage, SortedMap.get?_insert, if_pos rfl] at hcall
    cases hcall
    cases hstage
    exact LockManager.unmarked_of_enter hnone
  · exact absurd hstage (not_waiting_of_answered hcall)

/-! ## Being picked -/

/-- The call with number `id`, which waits under `locker`, is picked in the event to give way for
the others on `cycle`. -/
structure GivesWay (env : Environment) (e : Event) (id : Nat) (call : Call) (locker : TxnId)
    (cycle : List TxnId) : Prop where
  waits : env.calls.get? id = some call
  youngest : WaitGraph.victim? cycle = some locker
  /-- Each owner on the cycle is blocked behind the next, or has been woken and not looked since.
  One of them is queued for the same key behind the call. -/
  cycle : ∃ x, env.lockEvents e = [x] ∧
    List.Forall₂ (fun a b => env.locks.BlockedAt x a b ∨ env.locks.OverdueAt x a) cycle
      (cycle.rotate 1) ∧
    ∃ r, env.locks.PresentAt x r ∧ r.txn ∈ cycle ∧ r.resource = ⟨call.op.key⟩ ∧
      (env.locks.tableAt x).Behind r locker

theorem Informed.givesWay (h : env.Informed base) (he : e.Orderly env)
    (hcall : env.calls.get? id = some call) (htxn : call.op.txn? = none) {timer : Latency.Ticket}
    (hstage : call.stage = .waiting locker timer) {x : LockManager.Event} {cycle : List TxnId}
    (hx : env.lockEvents e = [x]) (hpicks : env.locks.Picks x locker cycle) :
    env.GivesWay e id call locker cycle := by
  have hacc := h.attentive.acc
  have hxorderly : x.Orderly env.locks := by
    have horderly := hacc.orderly_lockEvents he
    rw [hx] at horderly
    exact horderly.1
  obtain ⟨-, hcycle⟩ := hpicks.forall₂ h.truthful hacc.consistent hxorderly
  obtain ⟨r, hpresent, hmem, hbehind⟩ := hpicks.exists_behind hacc.consistent hxorderly
    (h.trailed id call locker timer hcall htxn hstage) (hacc.holding_of_waiting hcall htxn hstage)
  obtain ⟨s, hs, howner, hres⟩ :=
    hacc.exists_sleeper hcall hstage (h.asleep id call locker timer hcall hstage)
  refine ⟨hcall, (hpicks.youngest h.youngest).2, x, hx, hcycle, r, hpresent, hmem, ?_, hbehind⟩
  rw [← hres]
  exact hacc.consistent.resource_of_behind hxorderly hbehind ⟨id, s, hs, rfl⟩ howner

/-- Who is marked while it waits has been picked since it fell asleep. -/
theorem Informed.exists_givesWay (h : env.Informed base) {events : List Event}
    (horderly : env.Orderly events) (hroom : base.since env.nextTxn + events.length < UInt64.size)
    (hnone : env.calls.get? id = none) (hcall : (env.run events).calls.get? id = some call)
    (htxn : call.op.txn? = none) {timer : Latency.Ticket}
    (hstage : call.stage = .waiting locker timer) {cycle : List TxnId}
    (hmark : (env.run events).locks.shared.table.victims.get? locker = some cycle) :
    ∃ earlier e later, events = earlier ++ e :: later ∧
      (env.run earlier).GivesWay e id call locker cycle := by
  induction events using List.reverseRecOn with
  | nil =>
    rw [run_nil, hnone] at hcall
    cases hcall
  | append_singleton events e ih =>
    rw [List.length_append, List.length_singleton] at hroom
    obtain ⟨hbefore, he, -⟩ := orderly_append.1 horderly
    have hinformed := h.run hbefore (by omega)
    have hacc := hinformed.attentive.acc
    have hnamed := hacc.covered.numbered.named
    rw [run_append, run_cons, run_nil] at hcall hmark
    rcases call_of_waiting_after hnamed hcall hstage with
      ⟨rfl, before, cause, hcall₀, hop, hadmitted⟩ | hcall
    · have hunmarked := unmarked_of_admitted hcall₀ hadmitted (hop ▸ htxn) hcall hstage
      rw [Environment.after, hunmarked] at hmark
      cases hmark
    by_cases hold : (env.run events).locks.shared.table.victims.get? locker = some cycle
    · obtain ⟨earlier, e', later, rfl, hgives⟩ := ih hbefore (by omega) hcall hold
      refine ⟨earlier, e', later ++ [e], ?_, hgives⟩
      rw [List.append_assoc, List.cons_append]
    -- It has been marked in this event.
    rcases hacc.locks_cases he with ⟨x, hx, -, hlocks⟩ | ⟨hshared, -⟩
    · rw [hlocks] at hmark
      exact ⟨events, e, [], rfl, hinformed.givesWay he hcall htxn hstage hx ⟨hold, .inl hmark⟩⟩
    · rw [hshared] at hmark
      exact absurd hmark hold

/-! ## Failing -/

theorem result_finish (env : Environment) (id : Nat) (call : Call) (r : Result) :
    (env.finish id call r).2 = some r := by
  obtain ⟨tracker, heq⟩ := env.finish_eq id call r
  rw [heq]

theorem error_of_answered {owner : TxnId} {timer : Latency.Ticket} {outcome : LockState.Outcome}
    {error : Error} (h : (env.answered id call owner timer outcome).2 = some (.error error)) :
    outcome = .error error := by
  unfold answered at h
  cases outcome with
  | error e =>
    dsimp only at h
    rw [result_finish] at h
    cases h
    rfl
  | ok grant =>
    dsimp only at h
    split at h
    · rw [result_finish] at h
      cases h
    · cases h

/-- The lock timeout of a write outside transactions that asked at `start`. -/
theorem limit_of_timesOut {r : LockRequest} {op : Op} {start now : Instant} {error : Error}
    (hdeadlines : r.deadlines = env.deadlinesOf op start) (htxn : op.txn? = none)
    (h : LockState.TimesOut r now error) : ∃ limit, env.config.lockTimeout = some limit ∧
      0 < limit ∧ start + limit ≤ now ∧ error = .lockTimeout r.txn r.resource limit := by
  obtain ⟨l, hlock, hdue, rfl⟩ := h
  rw [hdeadlines, deadlinesOf, htxn] at hlock
  obtain ⟨limit, hlimit, hafter⟩ := Option.bind_eq_some_iff.1 hlock
  obtain ⟨hset, hpos⟩ := Timeout.bounded_eq_some_iff.1 hlimit
  obtain ⟨due, hinstant, heq⟩ := Option.bind_eq_some_iff.1 hafter
  cases heq
  unfold Instant.after? at hinstant
  split at hinstant <;> cases hinstant
  exact ⟨limit, hset, hpos, hdue, rfl⟩

theorem txn_deadlinesOf {op : Op} (htxn : op.txn? = none) (start : Instant) :
    (env.deadlinesOf op start).txn = none := by
  rw [deadlinesOf, htxn]
  rfl

/-- A write outside transactions is admitted, unless it finds the environment closed. -/
theorem error_of_entered (hcall : env.calls.get? id = some call) (htxn : call.op.txn? = none)
    (hstage : call.stage = .entered) {error : Error}
    (herror : (env.step id).2 = some (.error error)) :
    env.isOpen = false ∧ error = .invalidOperation .closed := by
  rw [step_eq_enter hcall hstage, enter, htxn, checkOpen] at herror
  cases hopen : env.isOpen with
  | true =>
    rw [hopen] at herror
    cases herror
  | false =>
    rw [hopen] at herror
    cases (result_finish ..).symm.trans herror
    exact ⟨rfl, rfl⟩

/-- A write outside transactions that asks for its lock gets it, or waits. -/
theorem Informed.not_error_of_admitted (h : env.Informed base)
    (hcall : env.calls.get? id = some call) (htxn : call.op.txn? = none) {cause : Option Error}
    (hstage : call.stage = .admitted cause) (error : Error) :
    (env.step id).2 ≠ some (.error error) := by
  intro herror
  have hacc := h.attentive.acc
  rw [step_of_admitted hcall hstage htxn] at herror
  unfold ask at herror
  dsimp only at herror
  split at herror
  · cases herror
  · next hanswer =>
    rw [error_of_answered herror] at hanswer
    have htimeout := hacc.consistent.timesOut_of_enter (r := ⟨env.nextTxn, ⟨call.op.key⟩,
      call.op.mode, env.deadlinesOf call.op env.now⟩) hacc.not_isAsleep_nextTxn
      h.not_edge_nextTxn (txn_deadlinesOf htxn _) hanswer
    obtain ⟨limit, -, hpos, hdue, -⟩ := limit_of_timesOut rfl htxn htimeout
    exact absurd (Nat.lt_add_of_pos_right hpos) (Nat.not_lt.2 hdue)

/-- A write outside transactions that has waited is a victim, or its timeout has passed. -/
theorem Informed.error_of_waiting (h : env.Informed base) (hcall : env.calls.get? id = some call)
    (htxn : call.op.txn? = none) {timer : Latency.Ticket}
    (hstage : call.stage = .waiting locker timer) {error : Error}
    (herror : (env.step id).2 = some (.error error)) :
    (∃ cycle, error = .deadlock locker cycle ∧
        env.locks.outcome? (.recheck env.now id) = some (.error error)) ∨
      ∃ s limit, env.locks.sleepers.get? id = some s ∧ env.config.lockTimeout = some limit ∧
        0 < limit ∧ s.memory.since + limit ≤ env.now ∧
        error = .lockTimeout locker ⟨call.op.key⟩ limit := by
  obtain ⟨s, hs, rfl, hres⟩ :=
    h.attentive.acc.exists_sleeper hcall hstage (h.asleep id call locker timer hcall hstage)
  obtain ⟨hdeadlines, htoken⟩ := h.attentive.asleep id call s hcall hs
  have houtcome : (env.locks.recheck LockState.discipline env.now id).2 =
      some (.error error) := by
    rw [step_eq_lookAgain hcall hstage] at herror
    unfold lookAgain at herror
    dsimp only at herror
    split at herror
    · cases herror
    · next hanswer => rw [hanswer, error_of_answered herror]
  have hnone : s.token = none := by
    rw [htxn] at htoken
    exact Option.map_eq_none_iff.1 htoken
  have hunbounded : s.memory.request.deadlines.txn = none := by
    rw [hdeadlines, txn_deadlinesOf htxn]
  rcases LockManager.recheck_error_cases hs hnone hunbounded houtcome with
    ⟨cycle, rfl⟩ | htimeout
  · exact .inl ⟨cycle, rfl, houtcome⟩
  · obtain ⟨limit, hset, hpos, hdue, rfl⟩ := limit_of_timesOut hdeadlines htxn htimeout
    rw [hres]
    exact .inr ⟨s, limit, hs, hset, hpos, hdue, rfl⟩

/-- A write outside transactions that has its lock goes on to release it. -/
theorem step_of_granted (hcall : env.calls.get? id = some call) (htxn : call.op.txn? = none)
    {owner : TxnId} {g : Grant} (hstage : call.stage = .granted owner g) :
    (env.step id).2 = none := by
  have hwork : env.step id = env.work id call owner g := by
    rw [step, hcall]
    dsimp only
    rw [hstage]
  rw [hwork, work, htxn]
  cases hop : call.op with
  | putNow | deleteNow => rfl
  | _ =>
    rw [hop] at htxn
    cases htxn

/-- A write outside transactions that releases its locker after an error could not be logged. -/
theorem Step.logged_of_releasing {result : Option Result} (h : Step env id env' result)
    (hcall : env'.calls.get? id = some call) (htxn : call.op.txn? = none) {owner : TxnId}
    {error : Error} (hstage : call.stage = .releasing owner (.error error)) :
    ∃ before g entry log state, env.calls.get? id = some before ∧ before.op = call.op ∧
      before.stage = .granted owner g ∧ call.op.entry? = some entry ∧
      Logged env.log env.state entry log state (.error error) := by
  cases h with
  | idle hnone =>
    rw [hnone] at hcall
    cases hcall
  | @writeNow before _ g entry log state logged _ hbefore hgranted hentry _ hlogged =>
    rw [SortedMap.get?_insert, if_pos rfl] at hcall
    cases hcall
    cases logged with
    | ok => cases hstage
    | error e =>
      cases hstage
      exact ⟨before, g, entry, log, state, hbefore, rfl, hgranted, hentry, hlogged⟩
  | accept | wait | take | readOnce =>
    rw [SortedMap.get?_insert, if_pos rfl] at hcall
    cases hcall
    cases hstage
  | abort _ _ hop =>
    rw [SortedMap.get?_insert, if_pos rfl] at hcall
    cases hcall
    rcases hop with hop | ⟨hop, -⟩ <;> rw [hop] at htxn <;> cases htxn
  | commit _ _ hop =>
    rw [SortedMap.get?_insert, if_pos rfl] at hcall
    cases hcall
    rw [hop] at htxn
    cases htxn
  | _ =>
    rw [SortedMap.get?_erase, if_pos rfl] at hcall
    cases hcall

/-- When the record of the call with number `id`, which had its lock, was to be logged, the log
refused it. -/
structure NotLogged (env : Environment) (id : Nat) (op : Op) (owner : TxnId) (error : Error) :
    Prop where
  granted : ∃ call g, env.calls.get? id = some call ∧ call.op = op ∧
    call.stage = .granted owner g
  refused : ∃ entry, op.entry? = some entry ∧ (env.log.append entry).2 = .error error

theorem Tracks.exists_notLogged {rs : List Record} (htracks : env.Tracks base rs)
    {events : List Event} (hroom : base.since env.nextTxn + events.length < UInt64.size)
    (hlsn : (endLsn .zero rs).toNat + events.length < UInt64.size)
    (hnone : env.calls.get? id = none) (hcall : (env.run events).calls.get? id = some call)
    (htxn : call.op.txn? = none) {owner : TxnId} {error : Error}
    (hstage : call.stage = .releasing owner (.error error)) :
    ∃ earlier later, events = earlier ++ .step id :: later ∧ .step id ∉ later ∧
      (env.run earlier).NotLogged id call.op owner error := by
  induction events using List.reverseRecOn with
  | nil =>
    rw [run_nil, hnone] at hcall
    cases hcall
  | append_singleton events e ih =>
    rw [List.length_append, List.length_singleton] at hroom hlsn
    obtain ⟨rs', htracks', -, hend, -⟩ := htracks.run events (by omega) (by omega)
    have hnamed := htracks'.numbered.named
    rw [run_append, run_cons, run_nil] at hcall
    rcases call_cases hnamed hcall with ⟨op, _, -, rfl⟩ | rfl | ⟨hstep, hcall⟩
    · cases hstage
    · obtain ⟨before, g, entry, log, state, hcall₀, hop, hgranted, hentry, hlogged⟩ :=
        (step_spec hnamed id).logged_of_releasing hcall htxn hstage
      refine ⟨events, [], rfl, List.not_mem_nil, ⟨before, g, hcall₀, hop, hgranted⟩, entry,
        hentry, ?_⟩
      exact hlogged.result_eq htracks'.holds htracks'.lastLsn (by omega)
    · obtain ⟨earlier, rest, rfl, hrest, hrefused⟩ := ih (by omega) (by omega) hcall
      refine ⟨earlier, rest ++ [e], by rw [List.append_assoc, List.cons_append], ?_, hrefused⟩
      simpa [hrest] using hstep.symm

/-- Why the next step of `call`, a write outside transactions with number `id`, fails after the run
`events`. -/
inductive DirectFails (env : Environment) (events : List Event) (id : Nat) (call : Call) :
    Error → Prop
  /-- It finds the environment closed. -/
  | closed (hstage : call.stage = .entered) (hclosed : (env.run events).isOpen = false) :
      DirectFails env events id call (.invalidOperation .closed)
  /-- It has waited for its lock as long as the settings allow. -/
  | timeout {locker : TxnId} {timer : Latency.Ticket} {s : Sleeper Waiting} {limit : Duration}
      (hstage : call.stage = .waiting locker timer)
      (hasleep : (env.run events).locks.sleepers.get? id = some s)
      (hlimit : env.config.lockTimeout = some limit) (hpos : 0 < limit)
      (hdue : s.memory.since + limit ≤ (env.run events).now) :
      DirectFails env events id call (.lockTimeout locker ⟨call.op.key⟩ limit)
  /-- It had its lock, and its record could not be logged. -/
  | log {earlier later : List Event} {owner : TxnId} {error : Error}
      (hstage : call.stage = .releasing owner (.error error))
      (hevents : events = earlier ++ .step id :: later) (hlast : .step id ∉ later)
      (hlogged : (env.run earlier).NotLogged id call.op owner error) :
      DirectFails env events id call error
  /-- It was picked to give way, in its last step or before. -/
  | deadlock {earlier later : List Event} {e : Event} {locker : TxnId} {timer : Latency.Ticket}
      {cycle : List TxnId} (hstage : call.stage = .waiting locker timer)
      (hdetection : env.config.deadlockDetection = true)
      (hevents : events ++ [.step id] = earlier ++ e :: later)
      (hgives : (env.run earlier).GivesWay e id call locker cycle) :
      DirectFails env events id call (.deadlock locker cycle)

/-- A write outside transactions that fails while it waits was picked, or ran out of time. -/
theorem Informed.directFails_of_waiting (h : env.Informed base) {events : List Event}
    (horderly : env.Orderly events) (hroom : base.since env.nextTxn + events.length < UInt64.size)
    (hnone : env.calls.get? id = none) (hcall : (env.run events).calls.get? id = some call)
    (htxn : call.op.txn? = none) {timer : Latency.Ticket}
    (hstage : call.stage = .waiting locker timer) {error : Error}
    (herror : ((env.run events).step id).2 = some (.error error)) :
    DirectFails env events id call error := by
  have hinformed := h.run horderly hroom
  have hconfig := config_run h.attentive.acc.covered.numbered events hroom
  rcases hinformed.error_of_waiting hcall htxn hstage herror with
    ⟨cycle, rfl, houtcome⟩ | ⟨s, limit, hs, hlimit, hpos, hdue, rfl⟩
  · have hevent : (env.run events).lockEvents (.step id) =
        [.recheck (env.run events).now id] := by
      rw [lockEvents, hcall, Option.elim_some, lockEventsOf, hstage]
    have hdetects (hyoungest : (env.run events).locks.shared.detection = true) :
        env.config.deadlockDetection = true := by
      rw [← hconfig, ← hinformed.detection, hyoungest]
    by_cases hmark : (env.run events).locks.shared.table.victims.get? locker = some cycle
    · obtain ⟨earlier, e, later, hevents, hgives⟩ :=
        h.exists_givesWay horderly hroom hnone hcall htxn hstage hmark
      have hall : events ++ [.step id] = earlier ++ e :: (later ++ [.step id]) := by
        rw [hevents, List.append_assoc, List.cons_append]
      exact .deadlock hstage (hdetects (hinformed.youngest _ _ hmark).1) hall hgives
    · have hpicks : (env.run events).locks.Picks (.recheck (env.run events).now id) locker cycle :=
        ⟨hmark, .inr houtcome⟩
      have hstep : Event.Orderly (env.run events) (.step id) := trivial
      exact .deadlock hstage (hdetects (hpicks.youngest hinformed.youngest).1) rfl
        (hinformed.givesWay hstep hcall htxn hstage hevent hpicks)
  · rw [hconfig] at hlimit
    exact .timeout hstage hs hlimit hpos hdue

/-- **Why writes outside transactions fail.** While it waits, a write outside transactions holds no
lock. It fails only if the environment is closed when it begins, if it has waited for its lock as
long as the settings allow, if the log refuses its record, or if deadlocks are looked for and it is
the youngest on a cycle. In the last case another owner on the cycle has asked for the same key and
is queued behind it. -/
theorem directFails_of_error {config : Config} {store : Store} {now : Instant}
    (hopen : openOn config store now = .ok env) {events : List Event}
    (horderly : env.Orderly events)
    (hroom : env.state.lastLsn.toNat + events.length < UInt64.size)
    (hcall : (env.run events).calls.get? id = some call) (htxn : call.op.txn? = none) :
    (∀ locker timer, call.stage = .waiting locker timer → ∀ res,
      (env.run events).locks.shared.table.holding locker res = none) ∧
    ∀ error, ((env.run events).step id).2 = some (.error error) →
      DirectFails env events id call error := by
  obtain ⟨rs, hopened⟩ := openOn_ok hopen
  have hself : env.nextTxn.since env.nextTxn = 0 := TxnId.since_self _
  have hlsn := hroom
  rw [hopened.tracks.lastLsn] at hlsn
  have hnone : env.calls.get? id = none := by
    rw [hopened.calls]
    rfl
  have hinformed₀ := hopened.informed (config_of_openOn hopen)
  have hinformed := hinformed₀.run horderly (by omega)
  have hnamed := hinformed.attentive.acc.covered.numbered.named
  refine ⟨fun locker timer hstage => hinformed.attentive.acc.holding_of_waiting hcall htxn hstage,
    fun error herror => ?_⟩
  cases hstage : call.stage with
  | entered =>
    obtain ⟨hclosed, rfl⟩ := error_of_entered hcall htxn hstage herror
    exact .closed hstage hclosed
  | admitted => exact absurd herror (hinformed.not_error_of_admitted hcall htxn hstage error)
  | waiting locker timer =>
    exact hinformed₀.directFails_of_waiting horderly (by omega) hnone hcall htxn hstage herror
  | granted owner g =>
    rw [step_of_granted hcall htxn hstage] at herror
    cases herror
  | releasing owner r =>
    have hresult := (step_spec hnamed id).result_of_releasing hcall hstage
    rw [herror, Option.some.injEq] at hresult
    subst hresult
    obtain ⟨earlier, later, hevents, hlast, hlogged⟩ :=
      hopened.tracks.exists_notLogged (by omega) (by omega) hnone hcall htxn hstage
    exact .log hstage hevents hlast hlogged

/-- A transaction reads the key that a write outside transactions is about to write, and a second
one asks for the key behind this write. Then the first asks for what the second has. -/
def overtaken : List Event :=
  [.begin .standard, .begin .standard, .start 0 (.lock ⟨1⟩ [1] .read none), .step 0, .step 0,
    .start 1 (.lock ⟨2⟩ [2] .write none), .step 1, .step 1, .start 2 (.putNow [1] [9]), .step 2,
    .step 2, .start 3 (.lock ⟨2⟩ [1] .read none), .step 3, .step 3,
    .start 4 (.lock ⟨1⟩ [2] .write none), .step 4, .step 4]

theorem directFails_of_error_overtaken : ∃ call : Call,
    openOn .standard .empty 0 = .ok blank ∧ blank.Orderly overtaken ∧
      blank.state.lastLsn.toNat + overtaken.length < UInt64.size ∧
      (blank.run overtaken).calls.get? 2 = some call ∧ call.op = .putNow [1] [9] ∧
      ((blank.run overtaken).step 2).2 = some (.error (.deadlock ⟨3⟩ [⟨1⟩, ⟨2⟩, ⟨3⟩])) ∧
      (∀ res, (blank.run overtaken).locks.shared.table.holding ⟨3⟩ res = none) ∧
      DirectFails blank overtaken 2 call (.deadlock ⟨3⟩ [⟨1⟩, ⟨2⟩, ⟨3⟩]) := by
  have horderly : blank.Orderly overtaken := by decide +kernel
  have hroom : blank.state.lastLsn.toNat + overtaken.length < UInt64.size := by decide
  have hresult : ((blank.run overtaken).step 2).2 =
    some (.error (.deadlock ⟨3⟩ [⟨1⟩, ⟨2⟩, ⟨3⟩])) := rfl
  have hcall : (blank.run overtaken).calls.get? 2 = some _ := rfl
  obtain ⟨hfree, hfails⟩ := directFails_of_error openOn_empty horderly hroom hcall rfl
  exact ⟨_, openOn_empty, horderly, hroom, rfl, rfl, hresult, hfree _ _ rfl, hfails _ hresult⟩

/-- A write outside transactions can be the victim of a deadlock. -/
theorem exists_deadlock_of_direct : ∃ env events id call victim cycle,
    openOn .standard .empty 0 = .ok env ∧ env.Orderly events ∧
      (env.run events).isOpen = true ∧ (env.run events).calls.get? id = some call ∧
      call.op.txn? = none ∧
      ((env.run events).step id).2 = some (.error (.deadlock victim cycle)) :=
  ⟨blank, overtaken, 2, _, ⟨3⟩, [⟨1⟩, ⟨2⟩, ⟨3⟩], openOn_empty, by decide +kernel, rfl, rfl, rfl,
    rfl⟩

end Environment
end WalStore

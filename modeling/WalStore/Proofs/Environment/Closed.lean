import WalStore.Proofs.Environment.Leftover

/-!
# Closed environments

**Theorem (`bytes_of_closed`).** Once an environment is closed it stays so, and its bytes change
only by calls that do not ask whether it is open, or have asked before (`Event.Escapes`): aborts of
transactions that were active when it was closed, and the writes and commits that had found it open
by then. A transaction whose work is in the log and that nothing logged after that resolves is
aborted by the next opening.

An environment that is closed does not begin transactions, and a call that is started in it goes no
further unless it is an abort. So whatever escapes has been there at closing (`Closed`).
-/

namespace WalStore

open Record (LeftOpen endLsn aborts)

namespace Environment

variable {env env' shut : Environment} {base : TxnId} {id : Nat} {result : Option Result}

/-! ## What a closed environment refuses -/

theorem begin_of_closed (hclosed : env.isOpen = false) (config : TxnConfig) :
    env.begin config = (env, .error (.invalidOperation .closed)) := by
  unfold begin checkOpen
  rw [hclosed]
  rfl

theorem close_of_closed (hclosed : env.isOpen = false) : env.close = (env, .ok ()) := by
  unfold close
  rw [hclosed]
  rfl

theorem close_eq_ok (h : env.close = (shut, .ok ())) : shut.isOpen = false := by
  unfold close at h
  split at h
  · split at h
    · cases h
      rfl
    · cases h
  · next hclosed =>
    cases h
    exact Bool.eq_false_iff.2 hclosed

/-- A call that begins in a closed environment fails, unless it is an abort. -/
theorem step_of_closed (hclosed : env.isOpen = false) {call : Call}
    (hcall : env.calls.get? id = some call) (hstage : call.stage = .entered)
    (hop : ∀ txn, call.op ≠ .abort txn) : ∃ tracker e,
      env.step id = ({ env with calls := env.calls.erase id, tracker }, some (.error e)) := by
  refine step_of_refused call ?_
  rw [step_eq_enter hcall hstage]
  have h := env.enters id call
  generalize env.enter id call = result at h ⊢
  cases h with
  | closed | ended => exact ⟨_, rfl⟩
  | abort habort => exact absurd habort (hop _)
  | spent hopen | direct hopen | inTxn hopen | giveUp hopen =>
    rw [hclosed] at hopen
    cases hopen

/-! ## What it logs -/

/-- What a call has to log from its second step on. A commit may have to abort instead. -/
def Call.record? (call : Call) : Option Entry :=
  match call.op, call.stage with
  | .commit txn, .admitted none => some (.commit txn)
  | .commit txn, .admitted (some _) => some (.abort txn)
  | op, _ => op.entry?

/-- The call has asked whether the environment is open, and goes on. Aborts do not ask. -/
def Call.FoundOpen (call : Call) : Prop :=
  call.stage.isChecked = true ∧ ∀ txn, call.op ≠ .abort txn

/-- The event logs this entry, or fails to, without asking whether the environment is open. -/
inductive Event.Escapes (env : Environment) : Event → Entry → Prop
  | abort {id : Nat} {call : Call} {cause : Option Error} {txn : TxnId}
      (hcall : env.calls.get? id = some call) (hstage : call.stage = .admitted cause)
      (hop : call.op = .abort txn) (hactive : (env.txn txn).isActive = true)
      (hwrites : 0 < (env.txn txn).writes) : Escapes env (.step id) (.abort txn)
  /-- A commit that has been admitted has asked before. -/
  | commit {id : Nat} {call : Call} {cause : Option Error} {txn : TxnId} {entry : Entry}
      (hcall : env.calls.get? id = some call) (hstage : call.stage = .admitted cause)
      (hop : call.op = .commit txn) (hactive : (env.txn txn).isActive = true)
      (hwrites : 0 < (env.txn txn).writes) (hrecord : call.record? = some entry) :
      Escapes env (.step id) entry
  /-- A call that has its lock has asked before. -/
  | write {id : Nat} {call : Call} {owner : TxnId} {g : Grant} {entry : Entry}
      (hcall : env.calls.get? id = some call) (hstage : call.stage = .granted owner g)
      (hentry : call.op.entry? = some entry) : Escapes env (.step id) entry

theorem Call.record?_of_resolves {call : Call} (h : call.op.resolves = false) :
    call.record? = call.op.entry? := by
  unfold record?
  cases hop : call.op with
  | commit =>
    rw [hop] at h
    cases h
  | _ => rfl

theorem Call.record?_of_not_admitted {call : Call} (h : ∀ cause, call.stage ≠ .admitted cause) :
    call.record? = call.op.entry? := by
  unfold record?
  cases hstage : call.stage with
  | admitted cause => exact absurd hstage (h cause)
  | _ => cases call.op <;> rfl

theorem Op.ne_abort_of_entry? {op : Op} {entry : Entry} (h : op.entry? = some entry) (txn : TxnId) :
    op ≠ .abort txn := by
  rintro rfl
  cases h

theorem Logged.log_eq {log log' : Log} {state state' : Replay.State} {entry : Entry}
    {logged : Except Error Lsn} (h : Logged log state entry log' state' logged) :
    log' = (log.append entry).1 := by
  cases h with
  | failed happend | refused happend | applied happend => rw [happend]

theorem exists_eq_of_synced {log log' : Log} (h : log' = log ∨ log' = log.sync.1) :
    ∃ crashed, log' = { log with store.crashed := crashed } := by
  rcases h with rfl | rfl
  · exact ⟨_, rfl⟩
  · unfold Log.sync Store.sync
    cases log.store.plan.failFlush <;> exact ⟨_, rfl⟩

/-- What a step of a call does to the log. -/
theorem log_step (hnamed : env.Named) (id : Nat) :
    (∃ crashed, (env.step id).1.log = { env.log with store.crashed := crashed }) ∨
      ∃ entry crashed, Event.Escapes env (.step id) entry ∧
        (env.step id).1.log = { (env.log.append entry).1 with store.crashed := crashed } := by
  have h := step_spec hnamed id
  generalize env.step id = stepped at h ⊢
  obtain ⟨env', result⟩ := stepped
  cases h with
  | @abort call cause txn _ _ _ _ _ _ _ hcall hstage hop hactive hlogged =>
    rcases hlogged with ⟨hwrites, logged, hlogged⟩ | ⟨-, rfl, -⟩
    · refine .inr ⟨_, _, ?_, hlogged.log_eq⟩
      rcases hop with hop | ⟨hop, hcause⟩
      · exact .abort hcall hstage hop hactive hwrites
      · obtain ⟨e, rfl⟩ := Option.ne_none_iff_exists'.1 hcause
        exact .commit hcall hstage hop hactive hwrites (by rw [Call.record?, hop, hstage])
    · exact .inl ⟨_, rfl⟩
  | commitFail hcall hstage hop hactive hwrites hlogged =>
    exact .inr ⟨_, _, .commit hcall hstage hop hactive hwrites (by rw [Call.record?, hop, hstage]),
      hlogged.log_eq⟩
  | commit hcall hstage hop hactive hlogged hsync =>
    obtain ⟨crashed, rfl⟩ := exists_eq_of_synced hsync
    rcases hlogged with ⟨hwrites, lsn, hlogged⟩ | ⟨-, rfl, -⟩
    · refine .inr ⟨_, crashed,
        .commit hcall hstage hop hactive hwrites (by rw [Call.record?, hop, hstage]), ?_⟩
      rw [hlogged.log_eq]
    · exact .inl ⟨crashed, rfl⟩
  | writeNow hcall hstage hentry _ hlogged | writeFail hcall hstage hentry _ hlogged
  | write hcall hstage hentry _ hlogged =>
    exact .inr ⟨_, _, .write hcall hstage hentry, hlogged.log_eq⟩
  | _ => exact .inl ⟨_, rfl⟩

/-- What an event does to the log of a closed environment. -/
theorem log_after_of_closed (hclosed : env.isOpen = false) (hnamed : env.Named) (e : Event) :
    (∃ plan crashed, (env.after e).log =
      { env.log with store.plan := plan, store.crashed := crashed }) ∨
      ∃ entry crashed, e.Escapes env entry ∧
        (env.after e).log = { (env.log.append entry).1 with store.crashed := crashed } := by
  cases e with
  | begin config =>
    rw [after, begin_of_closed hclosed]
    exact .inl ⟨_, _, rfl⟩
  | start id op =>
    obtain ⟨tracker, timer, h⟩ := env.start_eq id op
    rw [after, h]
    exact .inl ⟨_, _, rfl⟩
  | step id =>
    rcases log_step hnamed id with ⟨crashed, h⟩ | hescapes
    · refine .inl ⟨env.log.store.plan, crashed, ?_⟩
      rw [after, h]
    · exact .inr hescapes
  | drop txn =>
    rcases env.drop_cases txn with h | ⟨txns, counters, -, h⟩ <;> rw [after, h] <;>
      exact .inl ⟨_, _, rfl⟩
  | close =>
    rw [after, close_of_closed hclosed]
    exact .inl ⟨_, _, rfl⟩
  | cancel | tick | wake | plan => exact .inl ⟨_, _, rfl⟩

/-- One record more at most. -/
theorem holds_after_of_closed (hclosed : env.isOpen = false) (hnamed : env.Named)
    {rs : List Record} (hholds : env.log.Holds rs)
    (hroom : (endLsn .zero rs).toNat + 1 < UInt64.size) (e : Event) :
    ∃ new, (env.after e).log.Holds (rs ++ new) ∧
      (endLsn .zero (rs ++ new)).toNat ≤ (endLsn .zero rs).toNat + 1 ∧
      ∀ r ∈ new, e.Escapes env r.entry := by
  have hnone : (env.after e).log.Holds rs → ∃ new, (env.after e).log.Holds (rs ++ new) ∧
      (endLsn .zero (rs ++ new)).toNat ≤ (endLsn .zero rs).toNat + 1 ∧
      ∀ r ∈ new, e.Escapes env r.entry := by
    intro h
    refine ⟨[], ?_, ?_, nofun⟩ <;> rw [List.append_nil]
    · exact h
    · exact Nat.le_succ _
  rcases log_after_of_closed hclosed hnamed e with
    ⟨plan, crashed, hlog⟩ | ⟨entry, crashed, hescapes, hlog⟩
  · refine hnone ?_
    rw [hlog]
    exact hholds.congr rfl rfl rfl
  · rcases happend : env.log.append entry with ⟨log, e' | lsn⟩ <;> rw [happend] at hlog
    · refine hnone ?_
      rw [hlog]
      exact (hholds.append_error happend).congr rfl rfl rfl
    · obtain ⟨rfl, hholds'⟩ := hholds.append_ok happend
      refine ⟨[⟨env.log.nextLsn, entry⟩], ?_, ?_, fun r hr => ?_⟩
      · rw [hlog]
        refine (hholds' ?_).congr rfl rfl rfl
        rw [hholds.next]
        exact Lsn.lt_next hroom
      · rw [Record.endLsn_append, endLsn, endLsn, hholds.next, Lsn.toNat_next hroom]
      · rw [List.mem_singleton.1 hr]
        exact hescapes

/-! ## What has been there at closing -/

/-- `env` is what has become of `shut`, which was closed. -/
structure Closed (shut env : Environment) : Prop where
  isOpen : env.isOpen = false
  active : ∀ txn, (env.txn txn).isActive = true → (shut.txn txn).isActive = true
  found : ∀ id call, env.calls.get? id = some call → call.FoundOpen →
    ∃ before, shut.calls.get? id = some before ∧ before.FoundOpen ∧
      before.record? = call.record?

/-- An environment that is closed may yet log this entry: the abort of an active transaction, or
what a call has to log that has found the environment open. -/
def Leaves (shut : Environment) (entry : Entry) : Prop :=
  (∃ txn, entry = .abort txn ∧ (shut.txn txn).isActive = true) ∨
    ∃ id call, shut.calls.get? id = some call ∧ call.FoundOpen ∧ call.record? = some entry

theorem closed_refl (hclosed : shut.isOpen = false) : shut.Closed shut :=
  ⟨hclosed, fun _ h => h, fun _ call hcall hfound => ⟨call, hcall, hfound, rfl⟩⟩

theorem Closed.leaves (h : shut.Closed env) {e : Event} {entry : Entry}
    (hescapes : e.Escapes env entry) : shut.Leaves entry := by
  have hleaves {id : Nat} {call : Call} (hcall : env.calls.get? id = some call)
      (hfound : call.FoundOpen) (hrecord : call.record? = some entry) : shut.Leaves entry := by
    obtain ⟨before, hbefore, hfound', hsame⟩ := h.found id call hcall hfound
    exact .inr ⟨id, before, hbefore, hfound', hsame.trans hrecord⟩
  cases hescapes with
  | abort _ _ _ hactive => exact .inl ⟨_, rfl, h.active _ hactive⟩
  | commit hcall hstage hop _ _ hrecord =>
    exact hleaves hcall ⟨by rw [hstage]; rfl, by rw [hop]; nofun⟩ hrecord
  | write hcall hstage hentry =>
    refine hleaves hcall ⟨by rw [hstage]; rfl, Op.ne_abort_of_entry? hentry⟩ ?_
    rw [Call.record?_of_not_admitted (by rw [hstage]; nofun), hentry]

/-- A call that goes on after a step in a closed environment, and is no abort, has found it open
before. -/
theorem found_step_of_closed (hclosed : env.isOpen = false) (hnamed : env.Named) {call' : Call}
    (hcall' : (env.step id).1.calls.get? id = some call') (hfound : call'.FoundOpen) :
    ∃ call, env.calls.get? id = some call ∧ call.FoundOpen ∧ call.record? = call'.record? := by
  have hrefuse {call : Call} (hcall : env.calls.get? id = some call)
      (hstage : call.stage = .entered) (hop : ∀ txn, call.op ≠ .abort txn) : False := by
    obtain ⟨tracker, e, hstep⟩ := step_of_closed hclosed hcall hstage hop
    rw [hstep, SortedMap.get?_erase, if_pos rfl] at hcall'
    cases hcall'
  have hasks {call : Call} {owner nextTxn : TxnId} {locks : LockManager}
      {outcome : Option LockState.Outcome} (hasks : Asks env id call owner nextTxn locks outcome) :
      call.stage.isChecked = true ∧ call.record? = call.op.entry? := by
    cases hasks with
    | direct hstage htxn =>
      refine ⟨by rw [hstage]; rfl, Call.record?_of_resolves ?_⟩
      cases hop : call.op with
      | commit | abort =>
        rw [hop] at htxn
        cases htxn
      | _ => rfl
    | inTxn hstage _ _ hgoes => exact ⟨by rw [hstage]; rfl, Call.record?_of_resolves hgoes⟩
    | again hstage =>
      exact ⟨by rw [hstage]; rfl, Call.record?_of_not_admitted (by rw [hstage]; nofun)⟩
  have h := step_spec hnamed id
  generalize (env.step id).2 = result at h
  generalize (env.step id).1 = env' at h hcall' hrefuse
  cases h with
  | idle hcall =>
    rw [hcall] at hcall'
    cases hcall'
  | accept hcall hstage =>
    rw [SortedMap.get?_insert, if_pos rfl] at hcall'
    cases hcall'
    exact (hrefuse hcall hstage hfound.2).elim
  | wait hcall hasks' | take hcall _ hasks' =>
    rw [SortedMap.get?_insert, if_pos rfl] at hcall'
    cases hcall'
    obtain ⟨hchecked, hrecord⟩ := hasks hasks'
    refine ⟨_, hcall, ⟨hchecked, hfound.2⟩, ?_⟩
    rw [hrecord, Call.record?_of_not_admitted]
    exact fun _ h => nomatch h
  | abort | commit | writeNow | readOnce =>
    rw [SortedMap.get?_insert, if_pos rfl] at hcall'
    cases hcall'
    cases hfound.1
  | _ =>
    rw [SortedMap.get?_erase, if_pos rfl] at hcall'
    cases hcall'

theorem isOpen_after_of_closed (hclosed : env.isOpen = false) (hnamed : env.Named) (e : Event) :
    (env.after e).isOpen = false := by
  by_cases hclose : e = .close
  · rw [hclose, after, close_of_closed hclosed]
    exact hclosed
  have h := env.occurs hnamed e
  generalize env.after e = env' at h ⊢
  cases h with
  | step h => cases h <;> exact hclosed
  | close => exact absurd rfl hclose
  | _ => exact hclosed

/-- No transaction becomes active in a closed environment. -/
theorem active_before_of_closed (hclosed : env.isOpen = false) (h : env.Numbered base) {e : Event}
    {txn : TxnId} (hactive : ((env.after e).txn txn).isActive = true) :
    (env.txn txn).isActive = true := by
  rcases active_before h hactive with hbefore | rfl
  · exact hbefore
  rcases txns_after h.named e with ⟨-, htxns⟩ | ⟨config, timeouts, rfl, -, -⟩
  · obtain ⟨t₀, ht₀, -⟩ := htxns.exists_of_get? (get?_of_isActive hactive)
    rw [h.get?_nextTxn] at ht₀
    cases ht₀
  · rwa [after, begin_of_closed hclosed] at hactive

theorem Closed.after (h : shut.Closed env) (hnumbered : env.Numbered base) (e : Event) :
    shut.Closed (env.after e) := by
  have hnamed := hnumbered.named
  refine ⟨isOpen_after_of_closed h.isOpen hnamed e, fun txn hactive => ?_,
    fun id call' hcall' hfound => ?_⟩
  · exact h.active txn (active_before_of_closed h.isOpen hnumbered hactive)
  · rcases call_cases hnamed hcall' with ⟨op, timer, -, rfl⟩ | rfl | ⟨-, hcall⟩
    · cases hfound.1
    · obtain ⟨call, hcall, hbefore, hrecord⟩ :=
        found_step_of_closed h.isOpen hnamed hcall' hfound
      obtain ⟨first, hfirst, hfirst', hrecord'⟩ := h.found id call hcall hbefore
      exact ⟨first, hfirst, hfirst', hrecord'.trans hrecord⟩
    · exact h.found id call' hcall hfound

theorem Closed.run (h : shut.Closed env) (hnumbered : env.Numbered base) {rs : List Record}
    (hholds : env.log.Holds rs) (events : List Event)
    (hlsn : (endLsn .zero rs).toNat + events.length < UInt64.size)
    (htxn : base.since env.nextTxn + events.length < UInt64.size) :
    shut.Closed (env.run events) ∧ (env.run events).Numbered base ∧
      ∃ new, (env.run events).log.Holds (rs ++ new) ∧
        (endLsn .zero (rs ++ new)).toNat ≤ (endLsn .zero rs).toNat + events.length ∧
        ∀ r ∈ new, shut.Leaves r.entry := by
  induction events generalizing env rs with
  | nil =>
    refine ⟨h, hnumbered, [], ?_, ?_, nofun⟩ <;> rw [List.append_nil]
    · exact hholds
    · exact Nat.le_refl _
  | cons e events ih =>
    rw [List.length_cons] at hlsn htxn
    obtain ⟨new, hholds₁, hend, hnew⟩ :=
      holds_after_of_closed h.isOpen hnumbered.named hholds (by omega) e
    have hnext := (since_nextTxn_after hnumbered (by omega) e).2
    obtain ⟨hclosed, hnumbered', later, hholds', hend', hlater⟩ :=
      ih (h.after hnumbered e) (hnumbered.after (by omega) e) hholds₁ (by omega) (by omega)
    refine ⟨hclosed, hnumbered', new ++ later, ?_, ?_, fun r hr => ?_⟩
    · rw [← List.append_assoc]
      exact hholds'
    · rw [← List.append_assoc, List.length_cons]
      omega
    · rcases List.mem_append.1 hr with hr | hr
      · exact h.leaves (hnew r hr)
      · exact hlater r hr

/-! ## What is left open -/

/-- Work of a transaction that may commit is in the log, and nothing behind it resolves it. -/
theorem Tracks.leftOpen {rs : List Record} (h : env.Tracks base rs) {txn : TxnId}
    (hmay : env.MayCommit txn) (hpending : (env.state.pending.get? txn).isSome = true) :
    LeftOpen rs txn := by
  obtain ⟨s, hs, hagree⟩ := h.state
  rw [← Replay.mem_unresolved_iff hs, Replay.State.unresolved, SortedMap.mem_keys_iff,
    ← hagree.pending txn hmay]
  exact hpending

end Environment

namespace Record

variable {rs new : List Record} {txn : TxnId}

theorem LeftOpen.append (h : LeftOpen rs txn) (hnew : ∀ r ∈ new, r.entry.resolved? ≠ some txn) :
    LeftOpen (rs ++ new) txn := by
  obtain ⟨before, w, after, rfl, hwork, hafter⟩ := h
  refine ⟨before, w, after ++ new, by simp, hwork, fun r hr => ?_⟩
  exact (List.mem_append.1 hr).elim (hafter r) (hnew r)

theorem leftOpen_of_mem {w : Record} (hw : w ∈ new) (hwork : w.entry.work? = some txn)
    (hnew : ∀ r ∈ new, r.entry.resolved? ≠ some txn) : LeftOpen (rs ++ new) txn := by
  obtain ⟨before, after, rfl⟩ := List.append_of_mem hw
  refine ⟨rs ++ before, w, after, by simp, hwork, fun r hr => hnew r ?_⟩
  exact List.mem_append_right _ (List.mem_cons_of_mem _ hr)

end Record

namespace Environment

variable {env shut : Environment}

/-- What a log leaves open is aborted by whoever opens it next. -/
theorem exists_abort_of_leftOpen {log : Log} {rs : List Record} (hholds : log.Holds rs)
    {txn : TxnId} (hopen : LeftOpen rs txn) {config : Config} {store : Store} {now : Instant}
    (hbytes : store.toList = log.store.toList) {env : Environment}
    (henv : openOn config store now = .ok env) :
    ∃ aborts, env.log.Holds (rs ++ aborts) ∧ ∃ r ∈ aborts, r.entry = .abort txn := by
  obtain ⟨rs', s, hall, hstate, hrecovered⟩ := openOn_recovered henv
  obtain rfl : rs = rs' := by
    rw [hbytes, show Scan.ofBytes log.store.toList = log.scan from rfl, hholds.all_scan] at hall
    exact Except.ok.inj hall
  refine ⟨_, hrecovered.holds, ?_⟩
  have hmem := (Replay.mem_unresolved_iff hstate).2 hopen
  have habort := List.mem_map_of_mem (f := Entry.abort) hmem
  rw [← Record.map_entry_aborts (endLsn .zero rs).next] at habort
  obtain ⟨r, hr, hentry⟩ := List.mem_map.1 habort
  exact ⟨r, hr, hentry⟩

/-- A log whose store meets no failure can be opened. -/
theorem exists_openOn_of_holds {log : Log} {rs : List Record} (hholds : log.Holds rs)
    (hroom : 2 * (endLsn .zero rs).toNat < UInt64.size) {config : Config} {store : Store}
    (hconfig : config.validate = .ok ()) (hplan : store.plan = .none)
    (hbytes : store.toList = log.store.toList) (now : Instant) :
    ∃ env, openOn config store now = .ok env := by
  obtain ⟨frames, torn, hframes, htorn, hlist, -⟩ := hholds.bytes
  have hlength := Record.length_le_endLsn hholds.follow
  rw [Lsn.toNat_zero] at hlength
  obtain ⟨env, henv, -⟩ := exists_openOn now hconfig hplan hframes hholds.follow htorn
    (hbytes.trans hlist) (by omega)
  exact ⟨env, henv⟩

/-! ## After closing -/

/-- **A closed environment** stays closed, and its bytes change only by an abort of a transaction
that was active when it was closed, or by a write or a commit that had found it open. Nothing else
is logged. Whoever has work in the log and no resolution behind it is aborted by the next opening,
and one that meets no failure succeeds. -/
theorem bytes_of_closed {config : Config} {store : Store} {now : Instant}
    (hopen : openOn config store now = .ok env) {before later : List Event}
    (horderly : env.Orderly before) (hclose : (env.run before).close = (shut, .ok ()))
    (hroom : 2 * (env.state.lastLsn.toNat + (before.length + 1 + later.length)) < UInt64.size) :
    (shut.run later).isOpen = false ∧
    (∀ past e rest, later = past ++ e :: rest →
      (shut.run (past ++ [e])).log.store.bytes = (shut.run past).log.store.bytes ∨
        ∃ entry, e.Escapes (shut.run past) entry ∧ shut.Leaves entry) ∧
    ∃ rs new, shut.log.Holds rs ∧ (shut.run later).log.Holds (rs ++ new) ∧
      (∀ r ∈ new, shut.Leaves r.entry) ∧
      ∀ config' store' now', store'.toList = (shut.run later).log.store.toList →
        (config'.validate = .ok () → store'.plan = .none →
          ∃ env', openOn config' store' now' = .ok env') ∧
        ∀ env', openOn config' store' now' = .ok env' →
          ∀ txn, shut.HasWritten txn ∨ (∃ r ∈ new, r.entry.work? = some txn) →
            (∀ r ∈ new, r.entry.resolved? ≠ some txn) →
            ∃ aborts,
              env'.log.Holds (rs ++ new ++ aborts) ∧ ∃ r ∈ aborts, r.entry = .abort txn := by
  obtain ⟨rs₀, hopened⟩ := openOn_ok hopen
  rw [hopened.tracks.lastLsn] at hroom
  have hself : env.nextTxn.since env.nextTxn = 0 := TxnId.since_self _
  have hshut : env.run (before ++ [.close]) = shut := by
    rw [run_append, run_cons, run_nil, after, hclose]
  have horderly' : env.Orderly (before ++ [.close]) := orderly_append.2 ⟨horderly, trivial, trivial⟩
  have hlength : (before ++ [Event.close]).length = before.length + 1 := List.length_append
  obtain ⟨rs, htracks, -, hend, -⟩ := hopened.tracks.run (before ++ [.close]) (by omega) (by omega)
  obtain ⟨-, hnext⟩ := hopened.accounted.run horderly' (by omega)
  have hretains := hopened.retains.run hopened.tracks hopened.accounted horderly' (by omega)
    (by omega)
  rw [hshut] at htracks hnext hretains
  have hclosed := closed_refl (close_eq_ok hclose)
  obtain ⟨hclosed', -, new, hholds, hend', hnew⟩ :=
    hclosed.run htracks.numbered htracks.holds later (by omega) (by omega)
  refine ⟨hclosed'.isOpen, fun past e rest hlater => ?_, rs, new, htracks.holds, hholds, hnew,
    fun config' store' now' hbytes =>
      ⟨fun hconfig hplan => ?_, fun env' henv' txn hwork hresolved => ?_⟩⟩
  · have hlength := congrArg List.length hlater
    rw [List.length_append, List.length_cons] at hlength
    obtain ⟨hpast, hnumbered, -⟩ :=
      hclosed.run htracks.numbered htracks.holds past (by omega) (by omega)
    rw [run_append, run_cons, run_nil]
    rcases log_after_of_closed hpast.isOpen hnumbered.named e with
      ⟨plan, crashed, hlog⟩ | ⟨entry, crashed, hescapes, -⟩
    · left
      rw [hlog]
    · exact .inr ⟨entry, hescapes, hpast.leaves hescapes⟩
  · exact exists_openOn_of_holds hholds (by omega) hconfig hplan hbytes now'
  · refine exists_abort_of_leftOpen hholds ?_ hbytes henv'
    rcases hwork with hwritten | ⟨w, hw, hwork⟩
    · refine (htracks.leftOpen (mayCommit_of_isActive hwritten.1) ?_).append hresolved
      exact (hretains.pending txn).2 (.inl hwritten)
    · exact Record.leftOpen_of_mem hw hwork hresolved

/-- Three transactions have written, and the last of them has asked to commit. A fourth waits for
the lock of the first. -/
def closing : List Event :=
  [.begin .standard, .begin .standard, .begin .standard, .begin .standard,
    .start 0 (.put ⟨1⟩ [1] [2]), .step 0, .step 0, .step 0,
    .start 1 (.put ⟨2⟩ [3] [4]), .step 1, .step 1, .step 1,
    .start 2 (.put ⟨3⟩ [5] [6]), .step 2, .step 2, .step 2,
    .start 3 (.put ⟨4⟩ [1] [7]), .step 3, .step 3, .start 4 (.commit ⟨3⟩), .step 4]

/-- The third commits, and the first aborts. The fourth has the lock then and writes. -/
def escaping : List Event :=
  [.step 4, .step 4, .start 5 (.abort ⟨1⟩), .step 5, .step 5, .step 5, .step 3, .step 3]

/-- What is in the log after that. -/
def escaped : List Record :=
  [⟨⟨1⟩, .txnPut ⟨1⟩ [1] [2]⟩, ⟨⟨2⟩, .txnPut ⟨2⟩ [3] [4]⟩, ⟨⟨3⟩, .txnPut ⟨3⟩ [5] [6]⟩,
    ⟨⟨4⟩, .commit ⟨3⟩⟩, ⟨⟨5⟩, .abort ⟨1⟩⟩, ⟨⟨6⟩, .txnPut ⟨4⟩ [1] [7]⟩]

theorem bytes_of_closed_escaping : blank.Orderly closing ∧
    (blank.run closing).close = ((blank.run closing).close.1, .ok ()) ∧
    2 * (blank.state.lastLsn.toNat + (closing.length + 1 + escaping.length)) < UInt64.size ∧
    ((blank.run closing).close.1.run escaping).isOpen = false ∧
    ∃ env', openOn .standard
        (.ofBytes ((blank.run closing).close.1.run escaping).log.store.toList) 0 = .ok env' ∧
      ∃ aborts, env'.log.Holds (escaped ++ aborts) ∧ ∃ r ∈ aborts, r.entry = .abort ⟨2⟩ := by
  have horderly : blank.Orderly closing := by decide +kernel
  have hclose : (blank.run closing).close = ((blank.run closing).close.1, .ok ()) := rfl
  have hroom : 2 * (blank.state.lastLsn.toNat + (closing.length + 1 + escaping.length)) <
      UInt64.size := by
    decide
  have hescaped : ((blank.run closing).close.1.run escaping).log.Holds escaped := by
    refine ⟨⟨_, [], ?_, .nil, (List.append_nil _).symm, .inl rfl⟩, ?_, ?_⟩
    · decide +kernel
    · simp only [escaped, Record.Follow]
      decide
    · decide +kernel
  obtain ⟨hclosed, -, rs, new, -, hholds, -, hnext⟩ :=
    bytes_of_closed openOn_empty horderly hclose hroom
  have hrecords : rs ++ new = escaped := hholds.unique hescaped
  obtain ⟨hopens, haborts⟩ := hnext .standard (.ofBytes _) 0 (Store.toList_ofBytes _)
  obtain ⟨env', henv'⟩ := hopens rfl rfl
  refine ⟨horderly, hclose, hroom, hclosed, env', henv', ?_⟩
  rw [← hrecords]
  refine haborts env' henv' ⟨2⟩ (.inl ⟨by decide +kernel, by decide +kernel⟩) fun r hr => ?_
  have hmem : r ∈ escaped := hrecords ▸ List.mem_append_right rs hr
  simp only [escaped, List.mem_cons, List.not_mem_nil, or_false] at hmem
  rcases hmem with rfl | rfl | rfl | rfl | rfl | rfl <;> decide

/-- The bytes of a closed environment can change. -/
theorem exists_bytes_ne_of_closed : ∃ env before shut later,
    openOn .standard .empty 0 = .ok env ∧ env.Orderly before ∧
      (env.run before).close = (shut, .ok ()) ∧ shut.Orderly later ∧
      (shut.run later).log.store.bytes ≠ shut.log.store.bytes :=
  ⟨blank, closing, (blank.run closing).close.1, escaping, openOn_empty, by decide +kernel, rfl,
    by decide +kernel, by decide +kernel⟩

end Environment
end WalStore

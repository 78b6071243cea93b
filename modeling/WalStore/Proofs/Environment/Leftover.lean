import WalStore.Proofs.Environment.Accounted
import WalStore.Proofs.Environment.Admission

/-!
# What transactions leave behind

**Theorem (`free_of_not_isActive`).** A transaction that is over, and of which no call is in
progress, holds no lock and waits for none. Its work is forgotten, unless it has been aborted and
the abort could not be logged (`Event.Loses`): such work stays as long as the environment does.

**Invariant (`Retains`).** There is pending work of exactly those transactions that are active and
have written, and of those that have been lost.
-/

namespace WalStore

open Record (endLsn)

namespace Environment

variable {env env' : Environment} {base : TxnId} {id : Nat} {result : Option Result}

/-! ## Lost work -/

/-- The event aborts the transaction, which has written, and the abort cannot be logged. -/
def Event.Loses (env : Environment) (txn : TxnId) (e : Event) : Prop :=
  e.Concerns env txn ∧ (∃ id, e = .step id) ∧ (env.txn txn).isActive = true ∧
    0 < (env.txn txn).writes ∧ ((env.after e).txn txn).state = .aborted ∧
    ∃ error, (env.log.append (.abort txn)).2 = .error error

/-- The transaction is active and has written. -/
def HasWritten (env : Environment) (txn : TxnId) : Prop :=
  (env.txn txn).isActive = true ∧ 0 < (env.txn txn).writes

/-- There is work of those transactions that are active and have written, and of those in `lost`,
which are over. -/
structure Retains (env : Environment) (lost : TxnId → Prop) : Prop where
  pending : ∀ txn, (env.state.pending.get? txn).isSome = true ↔ env.HasWritten txn ∨ lost txn
  known : ∀ txn, lost txn → (env.txns.get? txn).isSome = true
  ended : ∀ txn, lost txn → (env.txn txn).isActive = false

theorem Resolves.not_hasWritten {txns : SortedMap TxnId Transaction} {txn : TxnId}
    {state : TxnState} (h : Resolves txn state txns env'.txns) (hstate : state ≠ .active) :
    ¬env'.HasWritten txn :=
  fun hwritten => h.not_mayCommit hstate (mayCommit_of_isActive hwritten.1)

theorem HasWritten.congr {txn : TxnId} (h : env'.txns.get? txn = env.txns.get? txn) :
    env'.HasWritten txn ↔ env.HasWritten txn := by
  simp only [HasWritten, Environment.txn, SortedMap.getD, h]

theorem not_hasWritten_of_none {txn : TxnId} (h : env.txns.get? txn = none) :
    ¬env.HasWritten txn := by
  rintro ⟨-, hwrites⟩
  rw [txn_eq_of_get?_none h] at hwrites
  exact Nat.lt_irrefl 0 hwrites

theorem Marked.hasWritten_iff (h : Marked env.txns env'.txns) (txn : TxnId) :
    env'.HasWritten txn ↔ env.HasWritten txn := by
  rcases h txn with heq | ⟨t, t', ht, hmark, ht'⟩
  · exact HasWritten.congr heq
  · rw [HasWritten, HasWritten, txn_eq_of_get? ht, txn_eq_of_get? ht',
      Transaction.MarkOf.isActive_eq hmark, Transaction.MarkOf.writes_eq hmark]

/-! ## Logging -/

/-- As long as positions last, only the log can keep an entry from being logged. -/
theorem Logged.result_eq {log log' : Log} {state state' : Replay.State} {entry : Entry}
    {logged : Except Error Lsn} {rs : List Record} (h : Logged log state entry log' state' logged)
    (hholds : log.Holds rs) (hlast : state.lastLsn = endLsn .zero rs)
    (hroom : (endLsn .zero rs).toNat + 1 < UInt64.size) : (log.append entry).2 = logged := by
  cases h with
  | failed happend => rw [happend]
  | refused happend happly =>
    obtain ⟨rfl, -⟩ := hholds.append_ok happend
    obtain ⟨_, hok⟩ := Replay.State.exists_apply (s := state) (r := ⟨log.nextLsn, entry⟩) (by
      rw [hlast, hholds.next]
      exact Lsn.lt_next hroom)
    rw [happly] at hok
    cases hok
  | applied happend => rw [happend]

/-- What is logged changes the work of its own transaction only. -/
theorem Logged.get?_pending {log log' : Log} {state state' : Replay.State} {entry : Entry}
    {logged : Except Error Lsn} (h : Logged log state entry log' state' logged) {txn : TxnId}
    (hother : entry.txn? ≠ some txn) : state'.pending.get? txn = state.pending.get? txn := by
  rcases h.state_cases with rfl | ⟨lsn, -, happly⟩
  · rfl
  · obtain ⟨-, -, -, hpending⟩ := Replay.State.views_apply happly
    rw [hpending, Replay.State.get?_pending_perform, if_neg hother]

/-- What is logged of a transaction decides whether there is work of it. -/
theorem Logged.get?_pending_ok {log log' : Log} {state state' : Replay.State} {entry : Entry}
    {lsn : Lsn} (h : Logged log state entry log' state' (.ok lsn)) {txn : TxnId}
    (htxn : entry.txn? = some txn) :
    state'.pending.get? txn = entry.workAfter (state.workOf txn) := by
  cases h with
  | applied _ happly =>
    obtain ⟨-, -, -, hpending⟩ := Replay.State.views_apply happly
    rw [hpending, Replay.State.get?_pending_perform, if_pos htxn]

/-- Where there is work, an abort leaves it just where the log fails. -/
theorem Logged.isSome_pending_iff {log log' : Log} {state state' : Replay.State} {txn : TxnId}
    {logged : Except Error Lsn} {rs : List Record}
    (h : Logged log state (.abort txn) log' state' logged) (hholds : log.Holds rs)
    (hlast : state.lastLsn = endLsn .zero rs) (hroom : (endLsn .zero rs).toNat + 1 < UInt64.size)
    (hsome : (state.pending.get? txn).isSome = true) :
    (state'.pending.get? txn).isSome = true ↔
      ∃ error, (log.append (.abort txn)).2 = .error error := by
  rw [h.result_eq hholds hlast hroom]
  cases logged with
  | error error =>
    rw [h.state_eq]
    exact iff_of_true hsome ⟨error, rfl⟩
  | ok lsn =>
    refine iff_of_false ?_ fun ⟨error, herror⟩ => by cases herror
    rw [h.get?_pending_ok rfl]
    exact Bool.false_ne_true

theorem Op.isSome_workAfter {op : Op} {entry : Entry} {txn : TxnId}
    (hentry : op.entry? = some entry)
    (htxn : op.txn? = some txn) (work : Pending) : (entry.workAfter work).isSome = true := by
  cases op <;> cases hentry <;> first | rfl | cases htxn

theorem get?_pending_discard (state : Replay.State) (txn t : TxnId) :
    (state.discard txn).pending.get? t = if t = txn then none else state.pending.get? t :=
  SortedMap.get?_erase ..

/-! ## Events that leave a transaction alone -/

/-- A step changes the work of the transaction of its call, if that is active. -/
theorem Step.get?_pending (h : Step env id env' result) (hchecked : env.Checked) {txn : TxnId}
    (hother : ∀ call, env.calls.get? id = some call → call.op.txn? = some txn →
      (env.txn txn).isActive = false) :
    env'.state.pending.get? txn = env.state.pending.get? txn := by
  have hlogs {call : Call} {entry : Entry} {log : Log} {state : Replay.State}
      {logged : Except Error Lsn} (hcall : env.calls.get? id = some call)
      (htxn : call.op.txn? = Entry.txn? entry)
      (hactive : ∀ t, call.op.txn? = some t → (env.txn t).isActive = true)
      (hlogged : Logged env.log env.state entry log state logged) :
      state.pending.get? txn = env.state.pending.get? txn := by
    refine hlogged.get?_pending fun heq => ?_
    rw [← htxn] at heq
    have hover := hother call hcall heq
    rw [hactive txn heq] at hover
    cases hover
  cases h with
  | @abort call _ t _ _ _ _ _ _ _ hcall _ hop hactive hlogged =>
    have htxn : call.op.txn? = some t := by rcases hop with hop | ⟨hop, -⟩ <;> rw [hop] <;> rfl
    rcases hlogged with ⟨-, logged, hlogged⟩ | ⟨-, -, rfl⟩
    · exact hlogs hcall (htxn.trans rfl) (fun t' ht' => by cases htxn.symm.trans ht'; exact hactive)
        hlogged
    · rfl
  | @commit call t _ _ _ _ _ _ _ _ hcall _ hop hactive hlogged =>
    have htxn : call.op.txn? = some t := by rw [hop]; rfl
    rcases hlogged with ⟨-, lsn, hlogged⟩ | ⟨-, -, rfl⟩
    · exact hlogs hcall (htxn.trans rfl) (fun t' ht' => by cases htxn.symm.trans ht'; exact hactive)
        hlogged
    · rfl
  | commitFail _ _ _ _ _ hlogged | writeFail _ _ _ _ hlogged => rw [hlogged.state_eq]
  | writeNow hcall hstage hentry _ hlogged | write hcall hstage hentry _ hlogged =>
    exact hlogs hcall (Op.txn?_eq_of_entry? hentry)
      (fun t ht => hchecked id _ t hcall ht (by rw [hstage]; rfl)) hlogged
  | _ => rfl

theorem get?_pending_after (hnamed : env.Named) (hchecked : env.Checked) {e : Event} {txn : TxnId}
    (hother : e.Concerns env txn → (env.txn txn).isActive = false) :
    (env.after e).state.pending.get? txn = env.state.pending.get? txn := by
  have h := env.occurs hnamed e
  generalize env.after e = env' at h ⊢
  cases h with
  | step h => exact h.get?_pending hchecked fun call hcall htxn => hother ⟨call, hcall, htxn⟩
  | @drop t _ _ htxns =>
    refine (get?_pending_discard ..).trans (if_neg fun heq => ?_)
    obtain ⟨⟨before, -, hbefore, hactive, -⟩, -⟩ := htxns
    have hover := hother heq.symm
    rw [heq, txn_eq_of_get? hbefore, Transaction.isActive, hactive] at hover
    cases hover
  | _ => rfl

/-- An event that does not concern a transaction, or one that is over, leaves it as it is. -/
theorem Covered.hasWritten_after (h : env.Covered base) {e : Event} {txn : TxnId}
    (hother : e.Concerns env txn → (env.txn txn).isActive = false) :
    (env.after e).HasWritten txn ↔ env.HasWritten txn := by
  cases hget : env.txns.get? txn with
  | some t =>
    by_cases hconcerns : e.Concerns env txn
    · have hover := hother hconcerns
      refine iff_of_false ?_ fun hwritten => ?_
      · rintro ⟨hactive, -⟩
        have hmay := h.numbered.mayCommit_after (mayCommit_of_isActive hactive) t hget
        rw [txn_eq_of_get? hget, hmay] at hover
        cases hover
      · rw [hwritten.1] at hover
        cases hover
    · exact HasWritten.congr (h.get?_txns_after (by rw [hget]; rfl) hconcerns)
  | none =>
    refine iff_of_false ?_ (not_hasWritten_of_none hget)
    rcases txns_after h.numbered.named e with ⟨-, htxns⟩ | ⟨config, timeouts, -, -, htxns⟩
    · exact not_hasWritten_of_none (htxns.get?_eq_none hget)
    · by_cases hnext : txn = env.nextTxn
      · -- A fresh transaction has written nothing.
        rintro ⟨-, hwrites⟩
        rw [Environment.txn, SortedMap.getD, htxns, SortedMap.get?_insert, if_pos hnext] at hwrites
        exact Nat.lt_irrefl 0 hwrites
      · refine not_hasWritten_of_none ?_
        rw [htxns, SortedMap.get?_insert, if_neg hnext, hget]

/-! ## Events that do not -/

/-- The step of a call of an active transaction leaves work of it as long as it is active and has
written, or if the step loses the transaction. -/
theorem Step.pending_iff (h : Step env id env' result) {call : Call} {txn : TxnId}
    (hcall : env.calls.get? id = some call) (htxn : call.op.txn? = some txn)
    {rs : List Record} (hholds : env.log.Holds rs) (hlast : env.state.lastLsn = endLsn .zero rs)
    (hroom : (endLsn .zero rs).toNat + 1 < UInt64.size)
    (hpending : (env.state.pending.get? txn).isSome = true ↔ env.HasWritten txn)
    (hactive : (env.txn txn).isActive = true) :
    (env'.state.pending.get? txn).isSome = true ↔ env'.HasWritten txn ∨
      0 < (env.txn txn).writes ∧ (env'.txn txn).state = .aborted ∧
        ∃ error, (env.log.append (.abort txn)).2 = .error error := by
  have hsame {call' : Call} (hcall' : env.calls.get? id = some call') : call' = call := by
    rw [hcall, Option.some.injEq] at hcall'
    exact hcall'.symm
  -- As long as the transaction is active, nothing is lost.
  have hkeeps (hstate : env'.state.pending.get? txn = env.state.pending.get? txn)
      (hwritten : env'.HasWritten txn ↔ env.HasWritten txn)
      (hactive' : (env'.txn txn).isActive = true) :
      (env'.state.pending.get? txn).isSome = true ↔ env'.HasWritten txn ∨
        0 < (env.txn txn).writes ∧ (env'.txn txn).state = .aborted ∧
          ∃ error, (env.log.append (.abort txn)).2 = .error error := by
    rw [hstate, hpending, hwritten]
    refine ⟨.inl, ?_⟩
    rintro (h | ⟨-, haborted, -⟩)
    · exact h
    · rw [Transaction.isActive, haborted] at hactive'
      cases hactive'
  have hnothing (hwrites : (env.txn txn).writes = 0) :
      (env.state.pending.get? txn).isSome = false := by
    rw [← Bool.not_eq_true, hpending, HasWritten, hwrites]
    exact fun h => Nat.lt_irrefl 0 h.2
  cases h with
  | refuse _ _ htxns | accept _ _ _ htxns | deny _ _ htxns =>
    exact hkeeps rfl (htxns.hasWritten_iff txn) (htxns.isActive rfl hactive)
  | @abort call' cause txn' log state result timer txns tracker counters hcall' _ hop _ hlogged
      htxns =>
    obtain rfl := hsame hcall'
    obtain rfl : txn' = txn := by
      rcases hop with hop | ⟨hop, -⟩ <;> rw [hop] at htxn <;> exact Option.some.inj htxn
    rcases hlogged with ⟨hwrites, logged, hlogged⟩ | ⟨hwrites, rfl, rfl⟩
    · rw [hlogged.isSome_pending_iff hholds hlast hroom (hpending.2 ⟨hactive, hwrites⟩)]
      exact ⟨fun hfailed => .inr ⟨hwrites, htxns.state_eq, hfailed⟩,
        fun hor => (hor.resolve_left (htxns.not_hasWritten (by simp))).2.2⟩
    · refine iff_of_false (Bool.eq_false_iff.1 (hnothing hwrites)) ?_
      rintro (hwritten | ⟨hwrites', -⟩)
      · exact htxns.not_hasWritten (by simp) hwritten
      · omega
  | @commit call' txn' log log' state result timer txns tracker counters hcall' _ hop _ hlogged _
      htxns =>
    obtain rfl := hsame hcall'
    obtain rfl : txn' = txn := by
      rw [hop] at htxn
      exact Option.some.inj htxn
    refine iff_of_false ?_ ?_
    · rcases hlogged with ⟨hwrites, lsn, hlogged⟩ | ⟨hwrites, rfl, rfl⟩
      · rw [hlogged.get?_pending_ok rfl]
        exact Bool.false_ne_true
      · exact Bool.eq_false_iff.1 (hnothing hwrites)
    · rintro (hwritten | ⟨-, haborted, -⟩)
      · exact htxns.not_hasWritten (by simp) hwritten
      · cases htxns.state_eq.symm.trans haborted
  | commitFail _ _ _ _ _ hlogged | writeFail _ _ _ _ hlogged =>
    exact hkeeps (by rw [hlogged.state_eq]) Iff.rfl hactive
  | writeNow hcall' _ _ hnone =>
    rw [hsame hcall', htxn] at hnone
    cases hnone
  | @write call' owner txn' _ entry log state lsn txns _ _ hcall' _ hentry htxn' hlogged htxns =>
    obtain rfl := hsame hcall'
    obtain rfl : txn' = txn := Option.some.inj (htxn'.symm.trans htxn)
    refine iff_of_true ?_ (.inl ?_)
    · rw [hlogged.get?_pending_ok (by rw [← Op.txn?_eq_of_entry? hentry, htxn])]
      exact Op.isSome_workAfter hentry htxn _
    · have hget := htxns txn'
      rw [if_pos rfl, get?_of_isActive hactive] at hget
      rw [HasWritten, txn_eq_of_get? hget]
      exact ⟨hactive, Nat.succ_pos _⟩
  | _ => exact hkeeps rfl Iff.rfl hactive

/-! ## Runs -/

section Retains

variable {rs : List Record} {lost : TxnId → Prop} {e : Event} {txn : TxnId}

theorem Opened.retains {config : Config} (h : env.Opened config rs) :
    env.Retains fun _ => False where
  pending txn := by
    rw [h.pending]
    refine iff_of_false Bool.false_ne_true ?_
    rintro (hwritten | ⟨⟨⟩⟩)
    exact not_hasWritten_of_none (by rw [h.txns]; rfl) hwritten
  known _ hlost := hlost.elim
  ended _ hlost := hlost.elim

theorem Numbered.isActive_after_eq_false (h : env.Numbered base) (e : Event)
    (hsome : (env.txns.get? txn).isSome = true) (hover : (env.txn txn).isActive = false) :
    ((env.after e).txn txn).isActive = false := by
  refine Bool.eq_false_iff.2 fun hactive => ?_
  obtain ⟨t, ht⟩ := Option.isSome_iff_exists.1 hsome
  rw [txn_eq_of_get? ht, h.mayCommit_after (mayCommit_of_isActive hactive) t ht] at hover
  cases hover

/-- What an event that concerns an active transaction leaves of it. -/
theorem Retains.pending_of_concerns (h : env.Retains lost) (htracks : env.Tracks base rs)
    (hroom : (endLsn .zero rs).toNat + 1 < UInt64.size) (hconcerns : e.Concerns env txn)
    (hactive : (env.txn txn).isActive = true) :
    ((env.after e).state.pending.get? txn).isSome = true ↔
      (env.after e).HasWritten txn ∨ e.Loses env txn := by
  have hpending : (env.state.pending.get? txn).isSome = true ↔ env.HasWritten txn := by
    rw [h.pending]
    refine ⟨fun hor => hor.elim (fun hwritten => hwritten) fun hlost => ?_, .inl⟩
    rw [h.ended txn hlost] at hactive
    cases hactive
  cases e with
  | step id =>
    obtain ⟨call, hcall, htxn⟩ := hconcerns
    refine ((step_spec htracks.numbered.named id).pending_iff hcall htxn htracks.holds
      htracks.lastLsn hroom hpending hactive).trans (or_congr_right ⟨fun hloses => ?_, ?_⟩)
    · exact ⟨⟨call, hcall, htxn⟩, ⟨id, rfl⟩, hactive, hloses⟩
    · exact fun hloses => hloses.2.2.2
  | drop t =>
    obtain rfl : t = txn := hconcerns
    obtain ⟨txns, counters, hresolves, hdrop⟩ := env.drop_of_isActive hactive
    rw [Environment.after, hdrop]
    refine iff_of_false ?_ ?_
    · rw [get?_pending_discard, if_pos rfl]
      exact Bool.false_ne_true
    · rintro (⟨hactive', -⟩ | ⟨-, ⟨id, hstep⟩, -⟩)
      · cases hresolves.state_eq.symm.trans (of_decide_eq_true hactive')
      · cases hstep
  | _ => exact hconcerns.elim

theorem Retains.after (h : env.Retains lost) (htracks : env.Tracks base rs)
    (hacc : env.Accounted base) (hroom : (endLsn .zero rs).toNat + 1 < UInt64.size) (e : Event) :
    (env.after e).Retains fun txn => lost txn ∨ e.Loses env txn := by
  have hnumbered := htracks.numbered
  have hknown (txn : TxnId) (hknown : (env.txns.get? txn).isSome = true) :
      ((env.after e).txns.get? txn).isSome = true := by
    obtain ⟨t, ht⟩ := Option.isSome_iff_exists.1 hknown
    obtain ⟨t', ht', -⟩ := hnumbered.descends_after e ht
    rw [ht']
    rfl
  refine ⟨fun txn => ?_, fun txn hlost => ?_, fun txn hlost => ?_⟩
  · by_cases hconcerned : e.Concerns env txn ∧ (env.txn txn).isActive = true
    · obtain ⟨hconcerns, hactive⟩ := hconcerned
      have hnot : ¬lost txn := fun hlost => by
        rw [h.ended txn hlost] at hactive
        cases hactive
      rw [h.pending_of_concerns htracks hroom hconcerns hactive]
      exact or_congr_right ⟨.inr, fun hor => hor.resolve_left hnot⟩
    · have hother (hconcerns : e.Concerns env txn) : (env.txn txn).isActive = false :=
        Bool.eq_false_iff.2 fun hactive => hconcerned ⟨hconcerns, hactive⟩
      rw [get?_pending_after hnumbered.named hacc.checked hother, h.pending,
        hacc.covered.hasWritten_after hother]
      exact or_congr_right
        ⟨.inl, fun hor => hor.resolve_right fun hloses => hconcerned ⟨hloses.1, hloses.2.2.1⟩⟩
  · rcases hlost with hlost | hloses
    · exact hknown txn (h.known txn hlost)
    · exact hknown txn (by rw [get?_of_isActive hloses.2.2.1]; rfl)
  · rcases hlost with hlost | ⟨-, -, -, -, haborted, -⟩
    · exact hnumbered.isActive_after_eq_false e (h.known txn hlost) (h.ended txn hlost)
    · exact decide_eq_false fun hactive => nomatch haborted.symm.trans hactive

end Retains

/-- One of the events loses the transaction. -/
def Loses (env : Environment) (events : List Event) (txn : TxnId) : Prop :=
  ∃ before e later, events = before ++ e :: later ∧ e.Loses (env.run before) txn

theorem loses_cons {e : Event} {events : List Event} {txn : TxnId} :
    env.Loses (e :: events) txn ↔ e.Loses env txn ∨ (env.after e).Loses events txn := by
  constructor
  · rintro ⟨before, e', later, heq, hloses⟩
    rcases before with _ | ⟨first, before⟩
    · cases heq
      exact .inl hloses
    · cases heq
      exact .inr ⟨before, e', later, rfl, hloses⟩
  · rintro (hloses | ⟨before, e', later, rfl, hloses⟩)
    · exact ⟨[], e, events, rfl, hloses⟩
    · exact ⟨e :: before, e', later, rfl, hloses⟩

/-- There is work after a run of those that are active and have written, and of those lost. -/
theorem Retains.run {rs : List Record} {lost : TxnId → Prop} (h : env.Retains lost)
    (htracks : env.Tracks base rs) (hacc : env.Accounted base) {events : List Event}
    (horderly : env.Orderly events)
    (hlsn : (endLsn .zero rs).toNat + events.length < UInt64.size)
    (htxn : base.since env.nextTxn + events.length < UInt64.size) :
    (env.run events).Retains fun txn => lost txn ∨ env.Loses events txn := by
  induction events generalizing env rs lost with
  | nil =>
    have hnone (txn : TxnId) : ¬env.Loses [] txn := by
      rintro ⟨before, e, later, heq, -⟩
      cases before <;> cases heq
    simp only [hnone, or_false]
    exact h
  | cons e events ih =>
    rw [List.length_cons] at hlsn htxn
    obtain ⟨rs₁, heffect, htracks₁⟩ := htracks.after (by omega) (by omega) e
    have hlsn₁ := heffect.toNat_endLsn (by omega)
    have htxn₁ := (since_nextTxn_after htracks.numbered (by omega) e).2
    have hend := ih (h.after htracks hacc (by omega) e) htracks₁
      (hacc.after horderly.1 (by omega)) horderly.2 (by omega) (by omega)
    simp only [loses_cons, ← or_assoc]
    exact hend

/-! ## What is left -/

/-- **Nothing is left of a transaction that is over**, once its last call has returned: no lock, no
request, and no pending work unless its abort could not be logged. Whichever calls of the store
have failed does not matter for the locks. -/
theorem free_of_not_isActive {config : Config} {store : Store} {now : Instant}
    (hopen : openOn config store now = .ok env) {events : List Event}
    (horderly : env.Orderly events)
    (hroom : env.state.lastLsn.toNat + events.length < UInt64.size) {txn : TxnId}
    (hbegun : ((env.run events).txns.get? txn).isSome = true)
    (hover : ((env.run events).txn txn).isActive = false) (hidle : ¬(env.run events).Busy txn) :
    (env.run events).Free txn ∧
      (((env.run events).state.pending.get? txn).isSome = true ↔ env.Loses events txn) := by
  obtain ⟨rs, hopened⟩ := openOn_ok hopen
  have hself : env.nextTxn.since env.nextTxn = 0 := TxnId.since_self _
  rw [hopened.tracks.lastLsn] at hroom
  obtain ⟨hacc, -⟩ := hopened.accounted.run horderly (by omega)
  have hretains := hopened.retains.run hopened.tracks hopened.accounted horderly hroom (by omega)
  refine ⟨hacc.free hover fun id call hcall howner => ?_, ?_⟩
  · have hother : call.op.txn? ≠ some txn := fun htxn => hidle ⟨id, call, hcall, htxn⟩
    exact (hacc.covered.calls id call hcall).owner_ne hbegun hother howner rfl
  · rw [hretains.pending]
    constructor
    · rintro (⟨hactive, -⟩ | ⟨⟨⟩⟩ | hloses)
      · rw [hover] at hactive
        cases hactive
      · exact hloses
    · exact fun hloses => .inr (.inr hloses)

/-- One transaction writes and is dropped. Another gets its lock and writes, and its abort cannot be
logged. -/
def leaving : List Event :=
  [.begin .standard, .begin .standard, .start 0 (.put ⟨1⟩ [1] [2]), .step 0, .step 0, .step 0,
    .start 1 (.put ⟨2⟩ [1] [3]), .step 1, .step 1, .drop ⟨1⟩, .step 1, .step 1,
    .plan ⟨some 0, false, false⟩, .start 2 (.abort ⟨2⟩), .step 2, .step 2, .step 2]

theorem free_of_not_isActive_leaving : blank.Orderly leaving ∧
    blank.state.lastLsn.toNat + leaving.length < UInt64.size ∧
    ((blank.run leaving).Free ⟨1⟩ ∧ ¬blank.Loses leaving ⟨1⟩) ∧
    (blank.run leaving).Free ⟨2⟩ ∧ blank.Loses leaving ⟨2⟩ := by
  have horderly : blank.Orderly leaving := by decide +kernel
  have hroom : blank.state.lastLsn.toNat + leaving.length < UInt64.size := by decide
  have hover₁ : ((blank.run leaving).txn ⟨1⟩).isActive = false := by decide +kernel
  have hover₂ : ((blank.run leaving).txn ⟨2⟩).isActive = false := by decide +kernel
  obtain ⟨hfree₁, hpending₁⟩ := free_of_not_isActive openOn_empty horderly hroom
    (by decide +kernel) hover₁ (by decide +kernel)
  obtain ⟨hfree₂, hpending₂⟩ := free_of_not_isActive openOn_empty horderly hroom
    (by decide +kernel) hover₂ (by decide +kernel)
  refine ⟨horderly, hroom, ⟨hfree₁, fun hloses => ?_⟩, hfree₂, hpending₂.1 (by decide +kernel)⟩
  exact absurd (hpending₁.2 hloses) (by decide +kernel)

/-- Work can stay behind a transaction that is over. -/
theorem exists_pending_of_not_isActive : ∃ env events txn,
    openOn .standard .empty 0 = .ok env ∧ env.Orderly events ∧
      ((env.run events).txns.get? txn).isSome = true ∧
      ((env.run events).txn txn).state = .aborted ∧ ¬(env.run events).Busy txn ∧
      ((env.run events).state.pending.get? txn).isSome = true :=
  ⟨blank, leaving, ⟨2⟩, openOn_empty, by decide +kernel, by decide +kernel, by decide +kernel,
    by decide +kernel, by decide +kernel⟩

end Environment
end WalStore

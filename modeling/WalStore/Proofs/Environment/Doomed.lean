import WalStore.Proofs.Environment.Marks

/-!
# What is logged of a marked transaction

**Theorem (`Firm.exists_records_run`).** From the event on that marks a transaction nothing is
logged of it but one abort at most.

A call of a marked transaction has no lock to write under (`Firm.marked`), and the step of a call
that has one does not mark its transaction (`Fares.mustAbort_of_granted`). So the transaction writes
nothing more. Nor does it commit, for then it would be committed, and such a transaction has no
mark. Once its abort is logged it is over.
-/

namespace WalStore

open Record (endLsn)

/-- What is logged of a transaction. -/
def Record.ofTxn (txn : TxnId) (rs : List Record) : List Record :=
  rs.filter (·.entry.txn? = some txn)

theorem Record.ofTxn_append (txn : TxnId) (rs rs' : List Record) :
    ofTxn txn (rs ++ rs') = ofTxn txn rs ++ ofTxn txn rs' := List.filter_append ..

namespace Environment

variable {env env' : Environment} {base : TxnId} {id : Nat} {call : Call} {txn : TxnId}
  {reason : String} {e : Event} {rs : List Record} {r : Record}

/-! ## One event -/

/-- The entry is logged if the log has grown by a record. -/
theorem Logged.entry_eq {log log' : Log} {state state' : Replay.State} {entry : Entry}
    {logged : Except Error Lsn} (h : Logged log state entry log' state' logged)
    (hholds : log.Holds rs) (hlast : state.lastLsn = endLsn .zero rs)
    (hroom : (endLsn .zero rs).toNat + 1 < UInt64.size) (hgrows : log'.Holds (rs ++ [r])) :
    r.entry = entry ∧ ∃ lsn, logged = .ok lsn := by
  rcases h.cases hholds hlast hroom with ⟨e, -, hsame, -⟩ | ⟨lsn, hok, -, hlogged, -⟩
  · have hnil := hsame.unique hgrows
    simp at hnil
  · have hlast := List.append_cancel_left (hlogged.unique hgrows)
    cases hlast
    exact ⟨rfl, lsn, hok⟩

/-- A transaction whose commit is logged is committed. -/
theorem Step.committed_of_logs {result : Option Result} (h : Step env id env' result)
    (hholds : env.log.Holds rs) (hlast : env.state.lastLsn = endLsn .zero rs)
    (hroom : (endLsn .zero rs).toNat + 1 < UInt64.size) (hgrows : env'.log.Holds (rs ++ [r]))
    (hentry : r.entry = .commit txn) : (env'.txn txn).state = .committed := by
  have hquiet (hsame : env'.log.Holds rs) : False := by
    have hnil := hsame.unique hgrows
    simp at hnil
  have hwrite {op : Op} {entry : Entry} (hop : op.entry? = some entry) (heq : r.entry = entry) :
      False := by
    have hresolved := Op.resolved?_of_entry? hop
    rw [← heq, hentry] at hresolved
    cases hresolved
  cases h with
  | abort _ _ _ _ hlogged =>
    rcases hlogged with ⟨-, logged, hlogged⟩ | ⟨-, rfl, -⟩
    · obtain ⟨heq, -⟩ := hlogged.entry_eq hholds hlast hroom hgrows
      rw [hentry] at heq
      cases heq
    · exact (hquiet hholds).elim
  | commitFail _ _ _ _ _ hlogged =>
    obtain ⟨-, lsn, hok⟩ := hlogged.entry_eq hholds hlast hroom hgrows
    cases hok
  | commit _ _ _ _ hlogged hsync htxns =>
    rcases hlogged with ⟨-, lsn, hlogged⟩ | ⟨-, rfl, -⟩
    · rcases hlogged.cases hholds hlast hroom with ⟨e, he, -⟩ | ⟨_, -, -, hholds', -⟩
      · cases he
      · have hrecord := List.append_cancel_left ((hholds'.synced hsync).unique hgrows)
        cases hrecord
        cases hentry
        exact Resolves.state_eq htxns
    · exact (hquiet (hholds.synced hsync)).elim
  | writeNow _ _ hop _ hlogged | writeFail _ _ hop _ hlogged | write _ _ hop _ hlogged =>
    exact (hwrite hop (hlogged.entry_eq hholds hlast hroom hgrows).1).elim
  | _ => exact (hquiet hholds).elim

theorem committed_of_logs (hnamed : env.Named) (hholds : env.log.Holds rs)
    (hlast : env.state.lastLsn = endLsn .zero rs)
    (hroom : (endLsn .zero rs).toNat + 1 < UInt64.size)
    (hgrows : (env.after e).log.Holds (rs ++ [r])) (hentry : r.entry = .commit txn) :
    ((env.after e).txn txn).state = .committed := by
  have hoccurs := env.occurs hnamed e
  generalize env.after e = env' at hoccurs hgrows ⊢
  have hquiet (hsame : env'.log.Holds rs) : False := by
    have hnil := hsame.unique hgrows
    simp at hnil
  cases hoccurs with
  | step hstep => exact hstep.committed_of_logs hholds hlast hroom hgrows hentry
  | close hsync => exact (hquiet (hholds.synced hsync)).elim
  | plan => exact (hquiet (hholds.congr rfl rfl rfl)).elim
  | _ => exact (hquiet hholds).elim

/-- A call that has its lock does not mark its transaction. -/
theorem Fares.mustAbort_of_granted {t' : Transaction} {result : Option Result}
    {stage : Option Stage} (h : Fares env txn call t' result stage) {owner : TxnId} {g : Grant}
    (hgranted : call.stage = .granted owner g) : t'.mustAbort = (env.txn txn).mustAbort := by
  cases h with
  | spent hstage | giveUp hstage =>
    rw [hgranted] at hstage
    cases hstage
  | deny _ hasks => exact absurd hgranted (hasks.not_granted owner g)
  | _ => rfl

/-- A call that has its lock before an event that leaves its transaction with a mark cannot be. -/
theorem Firm.not_granted (h : env.Firm base) (he : e.Orderly env)
    (hmark : ((env.after e).txn txn).mustAbort = some reason)
    (hcall : env.calls.get? id = some call)
    (htxn : call.op.txn? = some txn) {owner : TxnId} {g : Grant} :
    call.stage ≠ .granted owner g := by
  intro hgranted
  have hgoes := (h.acc.covered.calls id call hcall).goes_of_granted hgranted
  have hnone : (env.txn txn).mustAbort = none :=
    mustAbort_of_serves (fun reason => h.marked id call txn reason hcall htxn)
      (by rw [hgranted]; nofun) (serves_of_granted hgranted hgoes)
  have hnot (hbefore : (env.txn txn).mustAbort = some reason) : False := by
    rw [hnone] at hbefore
    cases hbefore
  by_cases hstep : e = .step id
  · subst hstep
    have hsame := (h.acc.fares hcall htxn).mustAbort_of_granted hgranted
    rw [Environment.after, hsame] at hmark
    exact hnot hmark
  · exact hnot (h.mark_before (h.acc.covered.single.not_concerns he hstep hcall htxn) hmark)

/-- Of a transaction with a mark nothing but its abort is logged. -/
theorem Firm.entry_eq_abort (h : env.Firm base) (htracks : env.Tracks base rs) (he : e.Orderly env)
    (hroom : (endLsn .zero rs).toNat + 1 < UInt64.size)
    (hgrows : (env.after e).log.Holds (rs ++ [r])) (hcause : Cause env (env.after e) r.entry)
    (htxn : r.entry.txn? = some txn) (hmark : ((env.after e).txn txn).mustAbort = some reason) :
    r.entry = .abort txn := by
  generalize hentry : r.entry = entry at hcause htxn
  cases hcause with
  | write hcall hstage hop =>
    rw [← Op.txn?_eq_of_entry? hop] at htxn
    exact absurd hstage (h.not_granted he hmark hcall htxn)
  | abort =>
    cases htxn
    rfl
  | commit =>
    cases htxn
    have hcommitted := committed_of_logs htracks.numbered.named htracks.holds htracks.lastLsn hroom
      hgrows hentry
    rw [h.committed_after hcommitted] at hmark
    cases hmark

/-! ## Runs -/

/-- Nothing is logged of a transaction that is over. -/
theorem Firm.records_of_over (h : env.Firm base) (htracks : env.Tracks base rs)
    {events : List Event} (horderly : env.Orderly events)
    (hlsn : (endLsn .zero rs).toNat + events.length < UInt64.size)
    (hroom : base.since env.nextTxn + events.length < UInt64.size)
    (hsome : (env.txns.get? txn).isSome = true) (hover : (env.txn txn).isActive = false) :
    ∃ new, (env.run events).log.Holds (rs ++ new) ∧ Record.ofTxn txn new = [] := by
  induction events generalizing env rs with
  | nil => exact ⟨[], by rw [List.append_nil]; exact htracks.holds, rfl⟩
  | cons e events ih =>
    rw [List.length_cons] at hlsn hroom
    obtain ⟨rs₁, heffect, htracks₁⟩ := htracks.after (by omega) (by omega) e
    have hend := heffect.toNat_endLsn (by omega)
    have hnext := (since_nextTxn_after h.acc.covered.numbered (by omega) e).2
    have hsame := h.get?_txns_after e hsome hover
    obtain ⟨new, hholds, hnone⟩ := ih (h.after horderly.1 (by omega)) htracks₁ horderly.2 (by omega)
      (by omega) (by rw [hsame, hsome]) (by rw [txn_congr hsame, hover])
    cases heffect with
    | quiet | forget => exact ⟨new, hholds, hnone⟩
    | @logs r _ _ _ hcause =>
      rw [List.append_assoc] at hholds
      refine ⟨[r] ++ new, hholds, ?_⟩
      have hother : r.entry.txn? ≠ some txn := by
        intro htxn
        rw [hcause.isActive h.acc.checked htxn] at hover
        cases hover
      rw [Record.ofTxn_append, hnone, Record.ofTxn, List.filter_cons_of_neg (by simpa using hother)]
      rfl

/-- An event that leaves a transaction with a mark logs nothing of it, or its abort, and then it is
over. -/
theorem Firm.exists_records_after (h : env.Firm base) (htracks : env.Tracks base rs)
    (he : e.Orderly env) (hlsn : (endLsn .zero rs).toNat + 1 < UInt64.size)
    (hroom : base.since env.nextTxn + 1 < UInt64.size)
    (hmark : ((env.after e).txn txn).mustAbort = some reason) :
    ∃ new, (env.after e).Tracks base (rs ++ new) ∧
      (endLsn .zero (rs ++ new)).toNat ≤ (endLsn .zero rs).toNat + 1 ∧
      (Record.ofTxn txn new = [] ∨ (∃ lsn, Record.ofTxn txn new = [⟨lsn, .abort txn⟩]) ∧
        ((env.after e).txns.get? txn).isSome = true ∧
        ((env.after e).txn txn).isActive = false) := by
  obtain ⟨rs₁, heffect, htracks₁⟩ := htracks.after hlsn hroom e
  have hend := heffect.toNat_endLsn hlsn
  cases heffect with
  | quiet | forget =>
    refine ⟨[], ?_⟩
    rw [List.append_nil]
    exact ⟨htracks₁, hend, .inl rfl⟩
  | @logs r _ hgrows _ hcause =>
    refine ⟨[r], htracks₁, hend, ?_⟩
    by_cases htxn : r.entry.txn? = some txn
    · have hentry := h.entry_eq_abort htracks he hlsn hgrows hcause htxn hmark
      rw [hentry] at hcause
      obtain ⟨t, ht, hover⟩ := exists_of_not_mayCommit (hcause.resolves rfl).2
      refine .inr ⟨⟨r.lsn, ?_⟩, by rw [ht]; rfl, ?_⟩
      · rw [Record.ofTxn, List.filter_cons_of_pos (by simpa using htxn), ← hentry]
        rfl
      · rw [txn_eq_of_get? ht]
        exact Bool.eq_false_iff.2 hover
    · left
      rw [Record.ofTxn, List.filter_cons_of_neg (by simpa using htxn)]
      rfl

/-- **What is logged of a marked transaction.** From the event on that marks it, or any later one,
it is one abort at most. -/
theorem Firm.exists_records_run (h : env.Firm base) (htracks : env.Tracks base rs)
    {later : List Event} (horderly : env.Orderly (e :: later))
    (hlsn : (endLsn .zero rs).toNat + (e :: later).length < UInt64.size)
    (hroom : base.since env.nextTxn + (e :: later).length < UInt64.size)
    (hmark : ((env.after e).txn txn).mustAbort = some reason) :
    ∃ new, (env.run (e :: later)).log.Holds (rs ++ new) ∧
      (Record.ofTxn txn new = [] ∨ ∃ lsn, Record.ofTxn txn new = [⟨lsn, .abort txn⟩]) := by
  induction later generalizing env rs e with
  | nil =>
    obtain ⟨new, htracks₁, -, hown⟩ := h.exists_records_after htracks horderly.1 hlsn hroom hmark
    exact ⟨new, htracks₁.holds, hown.imp_right And.left⟩
  | cons e' later ih =>
    rw [List.length_cons] at hlsn hroom
    obtain ⟨new, htracks₁, hend, hown⟩ :=
      h.exists_records_after htracks horderly.1 (by omega) (by omega) hmark
    have hfirm := h.after horderly.1 (by omega)
    have hnext := (since_nextTxn_after h.acc.covered.numbered (by omega) e).2
    rcases hown with hnone | ⟨⟨lsn, habort⟩, hsome, hover⟩
    · obtain ⟨new', hholds, hown'⟩ := ih hfirm htracks₁ horderly.2 (by omega) (by omega)
        (hfirm.mustAbort_after e' hmark)
      rw [List.append_assoc] at hholds
      refine ⟨new ++ new', hholds, ?_⟩
      rwa [Record.ofTxn_append, hnone, List.nil_append]
    · obtain ⟨new', hholds, hnone⟩ :=
        hfirm.records_of_over htracks₁ horderly.2 (by omega) (by omega)
        hsome hover
      rw [List.append_assoc] at hholds
      refine ⟨new ++ new', hholds, .inr ⟨lsn, ?_⟩⟩
      rw [Record.ofTxn_append, hnone, List.append_nil, habort]

end Environment
end WalStore

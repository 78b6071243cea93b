import WalStore.Proofs.Environment.Orderly
import WalStore.Proofs.Replay.WellFormed

/-!
# What is logged of a transaction, and when

In an orderly run a transaction is active as long as a call of it goes on that has found it so
(`Checked`), for no other call may end it meanwhile. So work is logged only of transactions that are
active, and only these are resolved, and by that they are over. A transaction that counts a write
has work in the log.
-/

namespace WalStore

namespace Environment

open Record (Allows endLsn)

variable {env env' : Environment} {base : TxnId} {id : Nat} {result : Option Result}

/-! ## Active transactions -/

/-- The call has found its transaction active and goes on. -/
def Stage.isChecked : Stage → Bool
  | admitted _ | waiting .. | granted .. => true
  | entered | releasing .. => false

/-- Transactions that calls have found active still are. -/
def Checked (env : Environment) : Prop :=
  ∀ id call txn, env.calls.get? id = some call → call.op.txn? = some txn →
    call.stage.isChecked = true → (env.txn txn).isActive = true

theorem Transaction.MarkOf.isActive_eq {t t' : Transaction} (h : t.MarkOf t') :
    t'.isActive = t.isActive := by
  rcases h with rfl | ⟨-, reason, rfl⟩ <;> rfl

theorem Marked.isActive {txns : SortedMap TxnId Transaction} (h : Marked env.txns txns)
    (htxns : env'.txns = txns) {txn : TxnId} (hactive : (env.txn txn).isActive = true) :
    (env'.txn txn).isActive = true := by
  have hget := get?_of_isActive hactive
  subst htxns
  rcases h txn with heq | ⟨t, t', ht, hmark, ht'⟩
  · rwa [txn_eq_of_get? (heq.trans hget)]
  · rw [hget, Option.some.injEq] at ht
    rw [txn_eq_of_get? ht', Transaction.MarkOf.isActive_eq hmark, ← ht, hactive]

theorem Resolves.state_eq {txn : TxnId} {state : TxnState}
    {txns txns' : SortedMap TxnId Transaction}
    (h : Resolves txn state txns txns') : (txns'.getD txn (.unknown txn)).state = state := by
  obtain ⟨⟨t, t', -, -, -, ht'⟩, -⟩ := h
  rw [SortedMap.getD, ht', Option.getD_some]

/-- The step of a call leaves other transactions active. -/
theorem Step.isActive_of_ne (h : Step env id env' result) {txn : TxnId}
    (hother : ∀ call, env.calls.get? id = some call → call.op.txn? ≠ some txn)
    (hactive : (env.txn txn).isActive = true) : (env'.txn txn).isActive = true := by
  have hsame (hget : env'.txns.get? txn = env.txns.get? txn) :
      (env'.txn txn).isActive = true := by
    rwa [Environment.txn, SortedMap.getD, hget]
  cases h with
  | refuse _ _ htxns | accept _ _ _ htxns | deny _ _ htxns => exact htxns.isActive rfl hactive
  | abort hcall _ hop _ _ htxns =>
    refine hsame (htxns.2 txn fun heq => hother _ hcall ?_)
    rcases hop with hop | ⟨hop, -⟩ <;> rw [hop, Op.txn?, heq]
  | commit hcall _ hop _ _ _ htxns =>
    refine hsame (htxns.2 txn fun heq => hother _ hcall ?_)
    rw [hop, Op.txn?, heq]
  | write hcall _ _ htxn _ htxns =>
    refine hsame ((htxns txn).trans (if_neg ?_))
    rintro rfl
    exact hother _ hcall htxn
  | _ => exact hactive

/-- An event leaves a transaction active that it does not concern. -/
theorem isActive_after (hnumbered : env.Numbered base) {e : Event} {txn : TxnId}
    (hother : ¬e.Concerns env txn) (hactive : (env.txn txn).isActive = true) :
    ((env.after e).txn txn).isActive = true := by
  have hoccurs := env.occurs hnumbered.named e
  generalize env.after e = env' at hoccurs ⊢
  have hsame (hget : env'.txns.get? txn = env.txns.get? txn) :
      (env'.txn txn).isActive = true := by
    rwa [Environment.txn, SortedMap.getD, hget]
  cases hoccurs with
  | begin =>
    refine hsame ((SortedMap.get?_insert ..).trans (if_neg ?_))
    rintro rfl
    have hnone := hnumbered.get?_nextTxn
    rw [get?_of_isActive hactive] at hnone
    cases hnone
  | step h => exact h.isActive_of_ne (fun call hcall htxn => hother ⟨call, hcall, htxn⟩) hactive
  | drop htxns => exact hsame (htxns.2 txn fun heq => hother heq.symm)
  | _ => exact hactive

/-- A call that asks for its lock has an active transaction, if any. -/
theorem Asks.isActive {call : Call} {owner nextTxn : TxnId} {locks : LockManager}
    {outcome : Option LockState.Outcome} (h : Asks env id call owner nextTxn locks outcome)
    (hchecked : env.Checked) (hcall : env.calls.get? id = some call) {txn : TxnId}
    (htxn : call.op.txn? = some txn) : (env.txn txn).isActive = true := by
  cases h with
  | direct _ hnone =>
    rw [htxn] at hnone
    cases hnone
  | inTxn _ htxn' hactive =>
    rw [htxn, Option.some.injEq] at htxn'
    rwa [htxn']
  | again hstage => exact hchecked id call txn hcall htxn (by rw [hstage]; rfl)

theorem Step.checked (h : Step env id env' result) (hchecked : env.Checked) {call' : Call}
    (hcall' : env'.calls.get? id = some call') {txn : TxnId} (htxn : call'.op.txn? = some txn)
    (hstage : call'.stage.isChecked = true) : (env'.txn txn).isActive = true := by
  cases h with
  | idle hcall =>
    rw [hcall] at hcall'
    cases hcall'
  | accept _ _ hactive htxns =>
    rw [SortedMap.get?_insert, if_pos rfl] at hcall'
    cases hcall'
    exact htxns.isActive rfl (hactive txn htxn)
  | wait hcall hasks | take hcall _ hasks =>
    rw [SortedMap.get?_insert, if_pos rfl] at hcall'
    cases hcall'
    exact hasks.isActive hchecked hcall htxn
  | abort | commit | writeNow | readOnce =>
    rw [SortedMap.get?_insert, if_pos rfl] at hcall'
    cases hcall'
    cases hstage
  | _ =>
    rw [SortedMap.get?_erase, if_pos rfl] at hcall'
    cases hcall'

/-- A call that has been admitted is not refused any more: its transaction is active still. -/
theorem Checked.checkActive (h : env.Checked) {call : Call} {cause : Option Error} {txn : TxnId}
    (hcall : env.calls.get? id = some call) (hstage : call.stage = .admitted cause)
    (htxn : call.op.txn? = some txn) : (env.txn txn).checkActive = .ok () := by
  rw [Transaction.checkActive, h id call txn hcall htxn (by rw [hstage]; rfl), if_pos rfl]

theorem Checked.after (h : env.Checked) (hnumbered : env.Numbered base) (hsingle : env.Single)
    {e : Event} (he : e.Orderly env) : (env.after e).Checked := by
  intro id call' txn hcall' htxn hstage
  rcases call_cases hnumbered.named hcall' with ⟨op, timer, -, rfl⟩ | rfl | ⟨hstep, hcall⟩
  · cases hstage
  · exact (step_spec hnumbered.named id).checked h hcall' htxn hstage
  · exact isActive_after hnumbered (hsingle.not_concerns he hstep hcall htxn)
      (h id call' txn hcall htxn hstage)

/-! ## Why entries are logged -/

theorem Op.resolved?_of_entry? {op : Op} {entry : Entry} (h : op.entry? = some entry) :
    entry.resolved? = none := by
  cases op <;> cases h <;> rfl

/-- Nothing is logged of a transaction that is not active. -/
theorem Cause.isActive {entry : Entry} (h : Cause env env' entry) (hchecked : env.Checked)
    {txn : TxnId} (htxn : entry.txn? = some txn) : (env.txn txn).isActive = true := by
  cases h with
  | write hcall hstage hentry =>
    rw [← Op.txn?_eq_of_entry? hentry] at htxn
    exact hchecked _ _ txn hcall htxn (by rw [hstage]; rfl)
  | abort hactive | commit hactive =>
    cases htxn
    exact hactive

/-- A transaction that is resolved has logged writes, and is over. -/
theorem Cause.resolves {entry : Entry} (h : Cause env env' entry) {txn : TxnId}
    (hresolved : entry.resolved? = some txn) :
    0 < (env.txn txn).writes ∧ ¬env'.MayCommit txn := by
  cases h with
  | write _ _ hentry =>
    rw [Op.resolved?_of_entry? hentry] at hresolved
    cases hresolved
  | abort _ hwrites hover | commit _ hwrites hover =>
    cases hresolved
    exact ⟨hwrites, hover⟩

/-- The log allows what is logged, if it resolves no active transaction and has work of all that
count writes. -/
theorem Cause.allows {entry : Entry} (h : Cause env env' entry) (hchecked : env.Checked)
    {rs : List Record}
    (hunresolved : ∀ txn, (env.txn txn).isActive = true → ∀ r ∈ rs, r.entry.resolved? ≠ some txn)
    (hwritten : ∀ txn, 0 < (env.txn txn).writes → ∃ r ∈ rs, r.entry.work? = some txn) :
    Allows rs entry := by
  intro txn htxn
  exact ⟨hunresolved txn (h.isActive hchecked htxn), fun hresolved =>
    hwritten txn (h.resolves hresolved).1⟩

/-! ## Counts -/

theorem txn_eq_of_get?_none {txn : TxnId} (h : env.txns.get? txn = none) :
    env.txn txn = .unknown txn := by
  rw [Environment.txn, SortedMap.getD, h, Option.getD_none]

/-- The transaction counts as many writes as before. -/
def Recounts (txns txns' : SortedMap TxnId Transaction) (txn : TxnId) : Prop :=
  ∀ t', txns'.get? txn = some t' → ∃ t, txns.get? txn = some t ∧ t.writes = t'.writes

theorem Transaction.MarkOf.writes_eq {t t' : Transaction} (h : t.MarkOf t') :
    t.writes = t'.writes := by
  rcases h with rfl | ⟨-, reason, rfl⟩ <;> rfl

theorem Marked.recounts {txns txns' : SortedMap TxnId Transaction} (h : Marked txns txns')
    (txn : TxnId) : Recounts txns txns' txn := by
  intro t₁ ht₁
  rcases h txn with heq | ⟨t, t', ht, hmark, ht'⟩
  · exact ⟨t₁, heq ▸ ht₁, rfl⟩
  · rw [ht₁, Option.some.injEq] at ht'
    subst ht'
    exact ⟨t, ht, Transaction.MarkOf.writes_eq hmark⟩

theorem Resolves.recounts {txn : TxnId} {state : TxnState}
    {txns txns' : SortedMap TxnId Transaction} (h : Resolves txn state txns txns') (x : TxnId) :
    Recounts txns txns' x := by
  intro t₁ ht₁
  obtain ⟨⟨t, t', ht, -, hmark, ht'⟩, hother⟩ := h
  have hwrites := Transaction.MarkOf.writes_eq hmark
  by_cases hx : x = txn
  · subst hx
    rw [ht₁, Option.some.injEq] at ht'
    subst ht'
    exact ⟨t, ht, hwrites⟩
  · exact ⟨t₁, hother x hx ▸ ht₁, rfl⟩

theorem Recounts.writes {txn : TxnId} (h : Recounts env.txns env'.txns txn)
    (hwrites : 0 < (env'.txn txn).writes) : 0 < (env.txn txn).writes := by
  cases hget' : env'.txns.get? txn with
  | none =>
    rw [txn_eq_of_get?_none hget'] at hwrites
    cases hwrites
  | some t' =>
    obtain ⟨t, ht, heq⟩ := h t' hget'
    rw [txn_eq_of_get? hget', ← heq] at hwrites
    rwa [txn_eq_of_get? ht]

/-- A transaction that counts writes after a step has counted some before, or has logged one. -/
theorem Step.written (h : Step env id env' result) {rs rs' : List Record}
    (hholds : env.log.Holds rs) (hlast : env.state.lastLsn = endLsn .zero rs)
    (hroom : (endLsn .zero rs).toNat + 1 < UInt64.size) (hholds' : env'.log.Holds rs')
    {txn : TxnId} (hwrites : 0 < (env'.txn txn).writes) :
    0 < (env.txn txn).writes ∨ ∃ r ∈ rs', r.entry.work? = some txn := by
  cases h with
  | refuse _ _ htxns | accept _ _ _ htxns | deny _ _ htxns =>
    exact .inl ((htxns.recounts txn).writes hwrites)
  | abort _ _ _ _ _ htxns | commit _ _ _ _ _ _ htxns =>
    exact .inl ((htxns.recounts txn).writes hwrites)
  | @write call owner t g entry _ _ lsn _ _ _ _ _ hentry htxn hlogged htxns =>
    by_cases ht : txn = t
    · right
      rcases hlogged.cases hholds hlast hroom with ⟨e, he, -⟩ | ⟨lsn', -, -, hlog, -⟩
      · cases he
      · obtain rfl : rs' = _ := hholds'.unique hlog
        refine ⟨_, List.mem_append_right _ (List.mem_singleton_self _), ?_⟩
        rw [Op.txn?_eq_of_entry? hentry] at htxn
        exact ht ▸ Entry.work?_of_txn? htxn (Op.resolved?_of_entry? hentry)
    · refine .inl (Recounts.writes (fun t' ht' => ?_) hwrites)
      rw [htxns, if_neg ht] at ht'
      exact ⟨t', ht', rfl⟩
  | _ => exact .inl hwrites

theorem written_after (hnamed : env.Named) {rs rs' : List Record} (hholds : env.log.Holds rs)
    (hlast : env.state.lastLsn = endLsn .zero rs)
    (hroom : (endLsn .zero rs).toNat + 1 < UInt64.size) {e : Event}
    (hholds' : (env.after e).log.Holds rs') {txn : TxnId}
    (hwrites : 0 < ((env.after e).txn txn).writes) :
    0 < (env.txn txn).writes ∨ ∃ r ∈ rs', r.entry.work? = some txn := by
  have h := env.occurs hnamed e
  generalize env.after e = env' at h hholds' hwrites
  cases h with
  | step h => exact h.written hholds hlast hroom hholds' hwrites
  | begin =>
    rw [Environment.txn, SortedMap.getD_insert] at hwrites
    split at hwrites
    · cases hwrites
    · exact .inl hwrites
  | drop htxns => exact .inl ((htxns.recounts txn).writes hwrites)
  | _ => exact .inl hwrites

/-- A transaction that is active after an event has been so before, or is fresh. -/
theorem active_before (h : env.Numbered base) {e : Event} {txn : TxnId}
    (hactive : ((env.after e).txn txn).isActive = true) :
    (env.txn txn).isActive = true ∨ txn = env.nextTxn := by
  have hget' := get?_of_isActive hactive
  rcases txns_after h.named e with ⟨-, htxns⟩ | ⟨config, timeouts, -, -, htxns⟩
  · obtain ⟨t, ht, hdescends⟩ := htxns.exists_of_get? hget'
    left
    rw [txn_eq_of_get? ht]
    exact hdescends.isActive hactive
  · rw [htxns, SortedMap.get?_insert] at hget'
    split at hget'
    · next heq => exact .inr heq
    · left
      rw [txn_eq_of_get? hget']
      exact hactive

end Environment
end WalStore

import WalStore.Proofs.Environment.Accounted
import WalStore.Proofs.Environment.Books

/-!
# How transactions stand in the books

A commit or an abort changes its transaction at once, and is counted when it has given the locks
back. In between the transaction is over and not in the books yet. So for the books it stands as an
active one until then (`standing`), and what an event enters about transactions is just what it
changes in how they stand: one transaction at most stands otherwise after an event, and it has been
active (`Accounted.standing_settled`, `Accounted.standing_of_ne`).
-/

namespace WalStore

namespace Environment

variable {env env' : Environment} {base : TxnId} {id : Nat} {call : Call} {txn : TxnId}
  {result : Option Result}

/-! ## The call that resolves a transaction -/

/-- A call has resolved the transaction and has not given its locks back. -/
def Resolving (env : Environment) (txn : TxnId) : Prop :=
  ∃ id, (env.calls.get? id).bind Call.resolving? = some txn

instance (env : Environment) (txn : TxnId) : Decidable (env.Resolving txn) :=
  decidable_of_iff (∃ e ∈ env.calls.entries, e.2.resolving? = some txn) <| by
    simp only [Resolving, Option.bind_eq_some_iff, SortedMap.get?_eq_some_iff, Prod.exists]

theorem Call.resolving?_eq_some_iff {call : Call} :
    call.resolving? = some txn ↔
      ∃ result, call.stage = .releasing txn result ∧ call.op.resolves = true := by
  unfold resolving?
  cases call.stage with
  | releasing owner result =>
    cases call.op.resolves <;> simp
  | _ => simp

theorem Op.txn?_isSome_of_resolves {op : Op} (h : op.resolves = true) : op.txn?.isSome = true := by
  cases op <;> first | rfl | cases h

/-- What a call has resolved is over. -/
theorem Accounted.over_of_resolving (h : env.Accounted base) (hcall : env.calls.get? id = some call)
    (hresolving : call.resolving? = some txn) : (env.txn txn).state ≠ .active := by
  obtain ⟨result, hstage, hresolves⟩ := Call.resolving?_eq_some_iff.1 hresolving
  have hcovered := h.covered.calls id call hcall
  obtain ⟨t, htxn⟩ := Option.isSome_iff_exists.1 (Op.txn?_isSome_of_resolves hresolves)
  obtain ⟨rfl, -⟩ := (hcovered.owns txn (by rw [hstage]; rfl)).of_txn htxn
  intro hactive
  refine hcovered.releasing txn result txn hstage htxn (fun key hop => ?_)
    (mayCommit_of_isActive (decide_eq_true hactive))
  rw [hop] at hresolves
  cases hresolves

theorem Accounted.not_resolving (h : env.Accounted base) (hactive : (env.txn txn).state = .active) :
    ¬env.Resolving txn := by
  rintro ⟨id, hresolving⟩
  obtain ⟨call, hcall, hresolving⟩ := Option.bind_eq_some_iff.1 hresolving
  exact h.over_of_resolving hcall hresolving hactive

/-! ## Standing -/

/-- The state of a transaction, for the books. -/
def standing (env : Environment) (txn : TxnId) : TxnState :=
  if env.Resolving txn then .active else (env.txn txn).state

theorem standing_of_resolving (h : env.Resolving txn) : env.standing txn = .active := if_pos h

theorem standing_of_not_resolving (h : ¬env.Resolving txn) :
    env.standing txn = (env.txn txn).state := if_neg h

theorem standing_of_active (h : (env.txn txn).state = .active) : env.standing txn = .active := by
  rw [standing, h, ite_self]

theorem standing_congr (hcalls : env'.Resolving txn ↔ env.Resolving txn)
    (hstate : (env'.txn txn).state = (env.txn txn).state) :
    env'.standing txn = env.standing txn := by
  rw [standing, standing, hstate]
  exact if_congr hcalls rfl rfl

/-! ## Steps -/

/-- Whether a transaction is being resolved depends on the call that has taken a step. -/
theorem Step.resolving_iff (h : Step env id env' result)
    (hbefore : ∀ call, env.calls.get? id = some call → call.resolving? ≠ some txn)
    (hafter : ∀ call, env'.calls.get? id = some call → call.resolving? ≠ some txn) :
    env'.Resolving txn ↔ env.Resolving txn := by
  refine exists_congr fun id' => ?_
  by_cases hid : id' = id
  · subst hid
    rw [Option.bind_eq_some_iff, Option.bind_eq_some_iff]
    exact iff_of_false (fun ⟨call, hcall, heq⟩ => hafter call hcall heq)
      fun ⟨call, hcall, heq⟩ => hbefore call hcall heq
  · rw [h.get?_calls_of_ne hid]

/-- A step that does not end the resolution of a transaction leaves it as it stands. -/
theorem Step.standing_eq (h : Step env id env' result) (hacc : env.Accounted base)
    (hbefore : ∀ call, env.calls.get? id = some call → call.resolving? ≠ some txn) :
    env'.standing txn = env.standing txn := by
  have hgoes {call : Call} (hcalls : env'.calls = env.calls.insert id call)
      (hresolving : call.resolving? ≠ some txn)
      (hstate : (env'.txn txn).state = (env.txn txn).state) :
      env'.standing txn = env.standing txn := by
    refine standing_congr (h.resolving_iff hbefore fun call' hcall' => ?_) hstate
    rw [hcalls, SortedMap.get?_insert, if_pos rfl, Option.some.injEq] at hcall'
    exact hcall' ▸ hresolving
  have hreturns (hcalls : env'.calls = env.calls.erase id)
      (hstate : (env'.txn txn).state = (env.txn txn).state) :
      env'.standing txn = env.standing txn := by
    refine standing_congr (h.resolving_iff hbefore fun call' hcall' => ?_) hstate
    rw [hcalls, SortedMap.get?_erase, if_pos rfl] at hcall'
    cases hcall'
  have hresolves {t : TxnId} {state : TxnState} {call : Call}
      (hcalls : env'.calls = env.calls.insert id call) (hactive : (env.txn t).isActive = true)
      (htxns : Resolves t state env.txns env'.txns) (hresolving : call.resolving? = some t) :
      env'.standing txn = env.standing txn := by
    by_cases heq : txn = t
    · -- The transaction is over, and active for the books.
      subst heq
      have hget : (env'.calls.get? id).bind Call.resolving? = some txn := by
        rw [hcalls, SortedMap.get?_insert, if_pos rfl]
        exact hresolving
      rw [standing_of_resolving ⟨id, hget⟩, standing_of_active (of_decide_eq_true hactive)]
    · refine hgoes hcalls (fun h => heq ?_) ?_
      · rw [hresolving, Option.some.injEq] at h
        exact h.symm
      · rw [txn_congr (htxns.2 txn heq)]
  have hidle (call : Call) (hop : call.op.resolves = false) : call.resolving? ≠ some txn := by
    intro hresolving
    obtain ⟨-, -, hresolves⟩ := Call.resolving?_eq_some_iff.1 hresolving
    rw [hop] at hresolves
    cases hresolves
  cases h with
  | idle => rfl
  | refuse _ _ htxns | deny _ _ htxns => exact hreturns rfl (Marked.state_txn htxns txn)
  | accept _ _ _ htxns => exact hgoes rfl (fun h => by cases h) (Marked.state_txn htxns txn)
  | wait => exact hgoes rfl (fun h => by cases h) rfl
  | take => exact hgoes rfl (fun h => by cases h) rfl
  | abort _ _ hop hactive _ htxns =>
    refine hresolves rfl hactive htxns (Call.resolving?_eq_some_iff.2 ⟨_, rfl, ?_⟩)
    rcases hop with hop | ⟨hop, -⟩ <;> rw [hop] <;> rfl
  | commit _ _ hop hactive _ _ htxns =>
    exact hresolves rfl hactive htxns (Call.resolving?_eq_some_iff.2 ⟨_, rfl, by rw [hop]; rfl⟩)
  | writeNow hcall hstage | readOnce hcall hstage =>
    exact hgoes rfl (hidle _ ((hacc.covered.calls id _ hcall).goes_of_granted hstage)) rfl
  | write _ _ _ _ _ htxns => exact hreturns rfl (state_txn_of_write htxns txn)
  | _ => exact hreturns rfl rfl

/-- The step that ends the resolution of a transaction. -/
theorem Step.standing_of_resolving (h : Step env id env' result) (hacc : env.Accounted base)
    (hcall : env.calls.get? id = some call) (hresolving : call.resolving? = some txn) :
    env'.standing txn = (env.txn txn).state := by
  obtain ⟨r, hstage, hresolves⟩ := Call.resolving?_eq_some_iff.1 hresolving
  have hreturns (hcalls : env'.calls = env.calls.erase id) (htxns : env'.txns = env.txns) :
      env'.standing txn = (env.txn txn).state := by
    rw [standing_of_not_resolving, Environment.txn, Environment.txn, htxns]
    rintro ⟨id', hresolving'⟩
    obtain ⟨call', hcall', hresolving'⟩ := Option.bind_eq_some_iff.1 hresolving'
    obtain ⟨r', hstage', -⟩ := Call.resolving?_eq_some_iff.1 hresolving'
    rw [hcalls, SortedMap.get?_erase] at hcall'
    split at hcall'
    · cases hcall'
    · next hne =>
      -- No other call has the same owner.
      exact hne (hacc.owner_unique hcall' hcall (by rw [hstage']; rfl) (by rw [hstage]; rfl))
  have hsame {call' : Call} (hcall' : env.calls.get? id = some call') : call' = call := by
    rw [hcall, Option.some.injEq] at hcall'
    exact hcall'.symm
  cases h with
  | leave | giveBack => exact hreturns rfl rfl
  | idle hnone =>
    rw [hnone] at hcall
    cases hcall
  | wait hcall' hasks | deny hcall' hasks | lock hcall' _ hasks | take hcall' _ hasks =>
    have hgoes := hasks.resolves (hacc.covered.calls id _ hcall')
    rw [hsame hcall', hresolves] at hgoes
    cases hgoes
  | refuse hcall' hstage' | accept hcall' hstage' | abort hcall' hstage'
  | commitFail hcall' hstage' | commit hcall' hstage' | writeNow hcall' hstage'
  | writeFail hcall' hstage' | write hcall' hstage' | read hcall' hstage'
  | readOnce hcall' hstage' =>
    rw [hsame hcall', hstage] at hstage'
    cases hstage'

/-! ## Events -/

/-- The transaction that an event settles has been active for the books, and stands as it has ended
after that. -/
theorem Accounted.standing_settled (h : env.Accounted base) {e : Event} {state : TxnState}
    (hsettles : env.settles? e = some (txn, state)) :
    (env.txns.get? txn).isSome = true ∧ env.standing txn = .active ∧
      (env.after e).standing txn = state ∧ state ≠ .active := by
  cases e with
  | step id =>
    obtain ⟨t, hresolving, heq⟩ := Option.map_eq_some_iff.1 hsettles
    cases heq
    obtain ⟨call, hcall, hcalls⟩ := Option.bind_eq_some_iff.1 hresolving
    have hstep := step_spec h.covered.numbered.named id
    obtain ⟨r, hstage, hresolves⟩ := Call.resolving?_eq_some_iff.1 hcalls
    obtain ⟨t, htxn⟩ := Option.isSome_iff_exists.1 (Op.txn?_isSome_of_resolves hresolves)
    obtain ⟨rfl, hsome⟩ := ((h.covered.calls id call hcall).owns txn (by rw [hstage]; rfl)).of_txn
      htxn
    exact ⟨hsome, standing_of_resolving ⟨id, hresolving⟩,
      hstep.standing_of_resolving h hcall hcalls, h.over_of_resolving hcall hcalls⟩
  | drop t =>
    cases hactive : (env.txn t).isActive with
    | false =>
      rw [settles?, hactive] at hsettles
      cases hsettles
    | true =>
      rw [settles?, hactive] at hsettles
      cases hsettles
      have hstate : (env.txn txn).state = .active := of_decide_eq_true hactive
      obtain ⟨txns, counters, htxns, hdrop⟩ := env.drop_of_isActive hactive
      refine ⟨by rw [get?_of_isActive hactive]; rfl, standing_of_active hstate, ?_, by decide⟩
      rw [Environment.after, hdrop]
      refine (standing_of_not_resolving ?_).trans htxns.state_eq
      exact h.not_resolving hstate
  | _ => cases hsettles

/-- A transaction that an event does not settle stands as it has stood. -/
theorem Accounted.standing_of_ne (h : env.Accounted base) {e : Event} (he : e.Orderly env)
    (hsome : (env.txns.get? txn).isSome = true)
    (hsettles : ∀ state, env.settles? e ≠ some (txn, state)) :
    (env.after e).standing txn = env.standing txn := by
  cases e with
  | begin config =>
    rcases env.begin_cases config with ⟨e, heq⟩ | ⟨timeouts, counters, heq⟩ <;>
      rw [Environment.after, heq]
    refine standing_congr Iff.rfl ?_
    rw [Environment.txn, SortedMap.getD, SortedMap.get?_insert, if_neg]
    · rfl
    · rintro rfl
      rw [h.covered.numbered.get?_nextTxn] at hsome
      cases hsome
  | start id op =>
    obtain ⟨tracker, timer, heq⟩ := env.start_eq id op
    rw [Environment.after, heq]
    refine standing_congr (exists_congr fun id' => ?_) rfl
    rw [SortedMap.get?_insert]
    split
    · next hid =>
      rw [hid, Option.isNone_iff_eq_none.1 he.1]
      rfl
    · rfl
  | step id =>
    refine (step_spec h.covered.numbered.named id).standing_eq h fun call hcall hresolving => ?_
    refine hsettles (env.txn txn).state ?_
    rw [settles?, hcall, Option.bind_some, hresolving, Option.map_some]
  | drop t =>
    cases hactive : (env.txn t).isActive with
    | false => rw [Environment.after, env.drop_of_over hactive]
    | true =>
      obtain ⟨txns, counters, htxns, hdrop⟩ := env.drop_of_isActive hactive
      rw [Environment.after, hdrop]
      refine standing_congr Iff.rfl (congrArg (·.state) (txn_congr (htxns.2 txn ?_)))
      rintro rfl
      exact hsettles .aborted (by rw [settles?, if_pos hactive])
  | close =>
    obtain ⟨log, isOpen, -, heq⟩ := env.close_cases
    rw [Environment.after, heq]
    rfl
  | cancel | tick | wake | plan => rfl

end Environment
end WalStore

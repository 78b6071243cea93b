import WalStore.Proofs.Environment.Leftover
import WalStore.Proofs.Environment.Serial
import WalStore.Proofs.Pending.Commit

/-!
# What a transaction reads

A transaction reads a key as if it had just committed: its inserts stand there in their order, and
its deletes have taken what they would take (`values_of_get`).

A read answers at once or gives its lock back first, and much may happen in between. So what it
answers is traced to the moment at which it had its lock and looked (`exists_aboutToRead`).
-/

namespace WalStore

open Record (endLsn)

namespace Environment

variable {env env' : Environment} {base : TxnId} {id : Nat} {result : Option Result}

/-! ## Committing now -/

/-- What would be live under a key if the transaction committed now. -/
def ifCommitted (env : Environment) (txn : TxnId) (key : Bytes) : List Bytes :=
  (env.state.perform (.commit txn)).live.values key

theorem valuesFor_eq_ifCommitted (env : Environment) (txn : TxnId) (key : Bytes) :
    env.valuesFor txn key = env.ifCommitted txn key := by
  rw [ifCommitted, valuesFor, Replay.State.perform]
  cases env.state.pending.get? txn with
  | none => rfl
  | some work =>
    dsimp only
    rw [Pending.view_eq, Pending.values_commitInto_eq]
    rfl

/-- Without work there is nothing to commit. -/
theorem ifCommitted_of_none {txn : TxnId} (h : env.state.pending.get? txn = none) (key : Bytes) :
    env.ifCommitted txn key = env.live.values key := by
  rw [← valuesFor_eq_ifCommitted, valuesFor, h]

theorem Logged.live_eq {log log' : Log} {state state' : Replay.State} {entry : Entry} {lsn : Lsn}
    (h : Logged log state entry log' state' (.ok lsn)) :
    state'.live = (state.perform entry).live := by
  cases h with
  | applied _ happly =>
    obtain ⟨-, -, hlive, -⟩ := Replay.State.views_apply happly
    exact hlive

/-- The step that makes a transaction commit leaves under every key what it would have read. -/
theorem Step.values_of_committed (h : Step env id env' result) {txn : TxnId}
    (hwork : (env.state.pending.get? txn).isSome = true → 0 < (env.txn txn).writes)
    (hactive : (env.txn txn).state = .active) (hcommitted : (env'.txn txn).state = .committed)
    (key : Bytes) : env'.live.values key = env.ifCommitted txn key := by
  obtain ⟨log, -, ⟨-, lsn, hlogged⟩ | ⟨hwrites, -, hstate⟩⟩ := h.of_committed hactive hcommitted
  · exact congrArg (·.values key) hlogged.live_eq
  · have hnone : env.state.pending.get? txn = none := by
      refine Option.eq_none_iff_forall_ne_some.2 fun work hsome => ?_
      have hpos := hwork (by rw [hsome]; rfl)
      omega
    rw [ifCommitted_of_none hnone]
    exact congrArg (·.live.values key) hstate

/-- A transaction that commits at once leaves under every key what it reads there. -/
theorem values_commit_now (hnamed : env.Named) {txn : TxnId}
    (hwork : (env.state.pending.get? txn).isSome = true → 0 < (env.txn txn).writes)
    (hactive : (env.txn txn).state = .active) (n : Nat)
    (hcommitted :
      ((env.run [.start n (.commit txn), .step n, .step n]).txn txn).state = .committed)
    (key : Bytes) :
    (env.run [.start n (.commit txn), .step n, .step n]).live.values key =
      env.ifCommitted txn key := by
  obtain ⟨tracker, timer, hstart⟩ := env.start_eq n (.commit txn)
  rw [run_cons, run_cons, run_cons, run_nil, after, after, after, hstart] at hcommitted ⊢
  -- Its checks may mark the transaction, and leave what it has written.
  have hnamed' : ({ env with
    tracker, calls := env.calls.insert n ⟨.commit txn, timer, .entered⟩ }).Named := hnamed
  obtain ⟨txns, tracker', calls, htxns, heq⟩ := (step_spec hnamed' n).of_entered
    ((SortedMap.get?_insert ..).trans (if_pos rfl)) rfl
  have hwritten : ({ env with txns, tracker := tracker', calls }).HasWritten txn ↔
    env.HasWritten txn := htxns.hasWritten_iff txn
  rw [heq] at hcommitted ⊢
  refine (step_spec (htxns.named hnamed) n).values_of_committed (fun hsome => ?_)
    ((htxns.state_txn txn).trans hactive) hcommitted key
  exact (hwritten.2 ⟨decide_eq_true hactive, hwork hsome⟩).2

/-! ## When a call has read -/

/-- The call has its lock, and its next step reads the key for the transaction. -/
def AboutToRead (env : Environment) (id : Nat) (txn : TxnId) (key : Bytes) : Prop :=
  ∃ call g, env.calls.get? id = some call ∧ call.op = .get txn key ∧ call.stage = .granted txn g

/-- What a call with its lock has for an owner. -/
theorem Covered.aboutToRead (h : env.Covered base) {call : Call} {txn owner : TxnId} {key : Bytes}
    {g : Grant} (hcall : env.calls.get? id = some call) (hop : call.op = .get txn key)
    (hstage : call.stage = .granted owner g) : owner = txn ∧ env.AboutToRead id txn key := by
  obtain ⟨rfl, -⟩ := ((h.calls id call hcall).owns owner (by rw [hstage]; rfl)).of_txn
    (show call.op.txn? = some txn by rw [hop]; rfl)
  exact ⟨rfl, call, g, hcall, hop, hstage⟩

/-- A read that has come to give back its lock has read in this step. -/
theorem Step.aboutToRead (h : Step env id env' result) (hcovered : env.Covered base) {call' : Call}
    (hcall' : env'.calls.get? id = some call') {txn : TxnId} {key : Bytes}
    (hop : call'.op = .get txn key) {owner : TxnId} {values : List Bytes}
    (hstage : call'.stage = .releasing owner (.ok (.values values))) :
    env.AboutToRead id txn key ∧ values = env.valuesFor txn key := by
  have hself (call : Call) (hinsert : (env.calls.insert id call).get? id = some call') :
      call = call' := by
    rw [SortedMap.get?_insert, if_pos rfl] at hinsert
    exact Option.some.inj hinsert
  have herase (hnone : (env.calls.erase id).get? id = some call') : False := by
    rw [SortedMap.get?_erase, if_pos rfl] at hnone
    cases hnone
  cases h with
  | idle hcall =>
    rw [hcall] at hcall'
    cases hcall'
  | @readOnce call owner' g hcall hstage₀ =>
    obtain rfl := hself _ hcall'
    cases hstage
    obtain ⟨rfl, habout⟩ := hcovered.aboutToRead hcall hop hstage₀
    refine ⟨habout, ?_⟩
    rw [show call.op = .get owner key from hop]
    rfl
  | accept | wait | take =>
    obtain rfl := hself _ hcall'
    cases hstage
  | abort _ _ hop₀ =>
    obtain rfl := hself _ hcall'
    rcases hop₀ with hop₀ | ⟨hop₀, -⟩ <;> cases hop₀.symm.trans hop
  | commit _ _ hop₀ =>
    obtain rfl := hself _ hcall'
    cases hop₀.symm.trans hop
  | writeNow _ _ hentry =>
    obtain rfl := hself _ hcall'
    rw [show _ = Op.get txn key from hop] at hentry
    cases hentry
  | _ => exact (herase hcall').elim

/-- A read that is to give back its lock has read in its last step. -/
theorem Accounted.exists_aboutToRead (h : env.Accounted base) {events : List Event}
    (horderly : env.Orderly events)
    (hroom : base.since env.nextTxn + events.length < UInt64.size)
    (hnone : env.calls.get? id = none) {call : Call}
    (hcall : (env.run events).calls.get? id = some call) {txn : TxnId} {key : Bytes}
    (hop : call.op = .get txn key) {owner : TxnId} {values : List Bytes}
    (hstage : call.stage = .releasing owner (.ok (.values values))) :
    ∃ earlier rest, events = earlier ++ .step id :: rest ∧ .step id ∉ rest ∧
      (env.run earlier).AboutToRead id txn key ∧
      values = (env.run earlier).valuesFor txn key := by
  induction events using List.reverseRecOn with
  | nil =>
    rw [run_nil, hnone] at hcall
    cases hcall
  | append_singleton events e ih =>
    rw [List.length_append, List.length_singleton] at hroom
    have hbefore := (orderly_append.1 horderly).1
    obtain ⟨hacc, -⟩ := h.run hbefore (by omega)
    have hnamed := hacc.covered.numbered.named
    rw [run_append, run_cons, run_nil] at hcall
    rcases call_cases hnamed hcall with ⟨op, timer, -, rfl⟩ | rfl | ⟨hstep, hcall⟩
    · cases hstage
    · obtain ⟨habout, hvalues⟩ := (step_spec hnamed id).aboutToRead hacc.covered hcall hop hstage
      exact ⟨events, [], rfl, List.not_mem_nil, habout, hvalues⟩
    · obtain ⟨earlier, rest, rfl, hrest, hread⟩ := ih hbefore (by omega) hcall
      refine ⟨earlier, rest ++ [e], by rw [List.append_assoc, List.cons_append], ?_, hread⟩
      simpa [hrest] using hstep.symm

/-- A call that answers values has read them now, or is giving its lock back. -/
theorem Step.aboutToRead_of_result (h : Step env id env' result) (hcovered : env.Covered base)
    {call : Call} (hcall : env.calls.get? id = some call) {txn : TxnId} {key : Bytes}
    (hop : call.op = .get txn key) {values : List Bytes}
    (hresult : result = some (.ok (.values values))) :
    (env.AboutToRead id txn key ∧ values = env.valuesFor txn key) ∨
      ∃ owner, call.stage = .releasing owner (.ok (.values values)) := by
  have hsame {call' : Call} (hcall' : env.calls.get? id = some call') : call' = call := by
    rw [hcall, Option.some.injEq] at hcall'
    exact hcall'.symm
  cases h with
  | read hcall' hstage =>
    obtain rfl := hsame hcall'
    cases hresult
    obtain ⟨rfl, habout⟩ := hcovered.aboutToRead hcall hop hstage
    exact .inl ⟨habout, by rw [hop]; rfl⟩
  | giveBack hcall' hstage =>
    obtain rfl := hsame hcall'
    cases hresult
    exact .inr ⟨_, hstage⟩
  | leave hcall' _ hop' =>
    obtain rfl := hsame hcall'
    exact absurd hop (hop' txn key)
  | _ => cases hresult

/-- The moment at which a call has read that answers values. -/
theorem Accounted.exists_aboutToRead_of_result (h : env.Accounted base) {events : List Event}
    (horderly : env.Orderly events)
    (hroom : base.since env.nextTxn + events.length < UInt64.size)
    (hnone : env.calls.get? id = none) {call : Call}
    (hcall : (env.run events).calls.get? id = some call) {txn : TxnId} {key : Bytes}
    (hop : call.op = .get txn key) {values : List Bytes}
    (hresult : ((env.run events).step id).2 = some (.ok (.values values))) :
    ∃ earlier later, events = earlier ++ later ∧
      (later = [] ∨ ∃ rest, later = .step id :: rest ∧ .step id ∉ rest) ∧
      (env.run earlier).AboutToRead id txn key ∧
      values = (env.run earlier).valuesFor txn key := by
  obtain ⟨hacc, -⟩ := h.run horderly hroom
  rcases (step_spec hacc.covered.numbered.named id).aboutToRead_of_result hacc.covered hcall hop
    hresult with ⟨habout, hvalues⟩ | ⟨owner, hstage⟩
  · exact ⟨events, [], (List.append_nil events).symm, .inl rfl, habout, hvalues⟩
  · obtain ⟨earlier, rest, heq, hrest, hread⟩ :=
      h.exists_aboutToRead horderly hroom hnone hcall hop hstage
    exact ⟨earlier, .step id :: rest, heq, .inr ⟨rest, rfl, hrest⟩, hread⟩

/-- While a call of a transaction is about to read, the transaction is active, and has written if
there is work of it. -/
theorem AboutToRead.isActive {txn : TxnId} {key : Bytes} (h : env.AboutToRead id txn key)
    (hacc : env.Accounted base) : (env.txn txn).isActive = true := by
  obtain ⟨call, g, hcall, hop, hstage⟩ := h
  exact hacc.active id call txn hcall (by rw [hop]; rfl) (by rw [hop]; rfl) (by rw [hstage]; rfl)

theorem Retains.writes_pos {lost : TxnId → Prop} (h : env.Retains lost) {txn : TxnId}
    (hactive : (env.txn txn).isActive = true)
    (hwork : (env.state.pending.get? txn).isSome = true) : 0 < (env.txn txn).writes := by
  rcases (h.pending txn).1 hwork with hwritten | hlost
  · exact hwritten.2
  · rw [h.ended txn hlost] at hactive
    cases hactive

/-! ## Reads of a run -/

/-- **A transaction reads what its commit would leave.** Over any live values its work shows under
a key what would be live there after its commit. In a run, the values that a read answers are
those that would have been live at the moment when it had its lock and looked, had the transaction
committed then; and if it does commit there, they are. -/
theorem values_of_get :
    (∀ (p : Pending) (live : LiveSet) (key : Bytes),
      p.view key (live.values key) = (p.commitInto live).live.values key) ∧
    ∀ {config : Config} {store : Store} {now : Instant} {env : Environment},
      openOn config store now = .ok env → ∀ {events : List Event}, env.Orderly events →
      env.state.lastLsn.toNat + events.length < UInt64.size →
      ∀ {id : Nat} {call : Call} {txn : TxnId} {key : Bytes} {values : List Bytes},
      (env.run events).calls.get? id = some call → call.op = .get txn key →
      ((env.run events).step id).2 = some (.ok (.values values)) →
      ∃ earlier later, events = earlier ++ later ∧
        (later = [] ∨ ∃ rest, later = .step id :: rest ∧ .step id ∉ rest) ∧
        (env.run earlier).AboutToRead id txn key ∧
        values = (env.run earlier).ifCommitted txn key ∧
        ∀ n, (((env.run earlier).run [.start n (.commit txn), .step n, .step n]).txn txn).state =
            .committed →
          ((env.run earlier).run [.start n (.commit txn), .step n, .step n]).live.values key =
            values := by
  refine ⟨fun p live key => ?_, ?_⟩
  · rw [Pending.view_eq, Pending.values_commitInto_eq]
  intro config store now env hopen events horderly hroom id call txn key values hcall hop hresult
  obtain ⟨rs, hopened⟩ := openOn_ok hopen
  have hself : env.nextTxn.since env.nextTxn = 0 := TxnId.since_self _
  rw [hopened.tracks.lastLsn] at hroom
  obtain ⟨earlier, later, rfl, hlater, habout, hvalues⟩ :=
    hopened.accounted.exists_aboutToRead_of_result horderly (by omega)
      (by rw [hopened.calls]; rfl) hcall hop hresult
  rw [valuesFor_eq_ifCommitted] at hvalues
  refine ⟨earlier, later, rfl, hlater, habout, hvalues, fun n hcommitted => ?_⟩
  rw [List.length_append] at hroom
  have hbefore := (orderly_append.1 horderly).1
  obtain ⟨hacc, -⟩ := hopened.accounted.run hbefore (by omega)
  have hretains :=
    hopened.retains.run hopened.tracks hopened.accounted hbefore (by omega) (by omega)
  have hactive := habout.isActive hacc
  rw [hvalues]
  exact values_commit_now hacc.covered.numbered.named (hretains.writes_pos hactive)
    (of_decide_eq_true hactive) n hcommitted key

/-- A transaction inserts under a key, deletes what was there, and reads the key. -/
def overwriting : List Event :=
  [.start 0 (.putNow [1] [9]), .step 0, .step 0, .step 0, .step 0, .begin .standard,
    .start 1 (.put ⟨2⟩ [1] [5]), .step 1, .step 1, .step 1,
    .start 2 (.delete ⟨2⟩ [1] (some [9])), .step 2, .step 2, .step 2, .start 3 (.get ⟨2⟩ [1]),
    .step 3, .step 3]

theorem values_of_get_overwriting :
    openOn .standard .empty 0 = .ok blank ∧ blank.Orderly overwriting ∧
      blank.state.lastLsn.toNat + overwriting.length < UInt64.size ∧
      ((blank.run overwriting).step 3).2 = some (.ok (.values [[5]])) ∧
      ∃ earlier later, overwriting = earlier ++ later ∧
        (blank.run earlier).AboutToRead 3 ⟨2⟩ [1] ∧
        (blank.run earlier).ifCommitted ⟨2⟩ [1] = [[5]] := by
  have horderly : blank.Orderly overwriting := by decide +kernel
  have hroom : blank.state.lastLsn.toNat + overwriting.length < UInt64.size := by decide
  have hresult : ((blank.run overwriting).step 3).2 = some (.ok (.values [[5]])) := rfl
  refine ⟨openOn_empty, horderly, hroom, hresult, ?_⟩
  obtain ⟨earlier, later, heq, -, habout, hvalues, -⟩ :=
    values_of_get.2 openOn_empty horderly hroom rfl rfl hresult
  exact ⟨earlier, later, heq, habout, hvalues.symm⟩

end Environment
end WalStore

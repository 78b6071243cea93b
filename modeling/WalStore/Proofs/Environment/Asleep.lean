import WalStore.Proofs.Environment.Admission
import WalStore.Proofs.Environment.Accounted

/-!
# What a call asleep remembers

A call that waits for its lock does so under the deadlines and the token that it asked with. Nothing
changes them while it sleeps, and nothing changes the timeouts of its transaction (`Persists`), so
at any time they are those that the settings, the transaction and the operation give for the moment
at which the wait began (`Attentive`).
-/

namespace WalStore

open Monitor

/-! ## Requests asleep -/

namespace LockManager

variable {m : LockManager} {now : Instant} {call : Nat}

/-- A request that falls asleep when it arrives. -/
theorem sleeper_enter {token : Option TokenId} {r : LockRequest} {s : Sleeper Waiting}
    (h : (m.enter LockState.discipline now call token r).1.sleepers.get? call = some s) :
    s.memory = ⟨r, now⟩ ∧ s.token.map (·.1) = token := by
  rw [enter_eq, get?_afterLook, if_pos rfl] at h
  have harrival := LockState.arrive_spec ((m.register token).1.sight now token) r m.shared
  have hregistered : (m.register token).2.map (·.1) = token := by cases token <;> rfl
  generalize hlook : LockState.discipline.arrive _ r m.shared = look at h
  rw [show LockState.arrive ((m.register token).1.sight now token) r m.shared = look from hlook]
    at harrival
  cases harrival with
  | held => cases h
  | attempt _ hattempt =>
    refine ⟨hattempt.memory_eq h, ?_⟩
    cases hfate : look.fate with
    | returns =>
      rw [hfate] at h
      cases h
    | sleeps =>
      rw [hfate] at h
      cases h
      exact hregistered

/-- A request that looks again and sleeps on is the same. -/
theorem sleeper_recheck {s' : Sleeper Waiting}
    (h : (m.recheck LockState.discipline now call).1.sleepers.get? call = some s') :
    ∃ s, m.sleepers.get? call = some s ∧ s'.memory = s.memory ∧ s'.token = s.token := by
  rcases m.recheck_cases call LockState.discipline now with hrest | ⟨s, hget, -, heq⟩
  · rw [hrest] at h
    exact ⟨s', h, rfl, rfl⟩
  rw [heq, get?_afterLook, if_pos rfl] at h
  have hattempt := LockState.attempt_spec true (m.sight now (s.token.map (·.1))) s.memory m.shared
  refine ⟨s, hget, hattempt.memory_eq h, ?_⟩
  generalize LockState.discipline.again _ s.memory m.shared = look at h
  cases hfate : look.fate with
  | returns =>
    rw [hfate] at h
    cases h
  | sleeps =>
    rw [hfate] at h
    cases h
    rfl

end LockManager

/-! ## Transactions -/

/-- `t'` has the timeouts of `t`, and the start that they are counted from. -/
structure Transaction.Persists (t t' : Transaction) : Prop where
  timeouts : t'.timeouts = t.timeouts
  started : t'.started = t.started

theorem Transaction.MarkOf.persists {t t' : Transaction} (h : t.MarkOf t') : t.Persists t' := by
  rcases h with rfl | ⟨-, reason, rfl⟩ <;> exact ⟨rfl, rfl⟩

theorem Transaction.Persists.deadlines {t t' : Transaction} (h : t.Persists t') (start : Instant)
    (request : Option Duration) : t'.deadlines start request = t.deadlines start request := by
  rw [Transaction.deadlines, Transaction.deadlines, h.timeouts, h.started]

namespace Environment

variable {env env' : Environment} {base : TxnId} {id : Nat} {result : Option Result}

/-- The transactions that there were have their timeouts still. -/
def Persists (txns txns' : SortedMap TxnId Transaction) : Prop :=
  ∀ id t, txns.get? id = some t → ∃ t', txns'.get? id = some t' ∧ t.Persists t'

section Persists

variable {txns txns' : SortedMap TxnId Transaction}

theorem Persists.refl (txns : SortedMap TxnId Transaction) : Persists txns txns :=
  fun _ t ht => ⟨t, ht, rfl, rfl⟩

theorem Marked.persists (h : Marked txns txns') : Persists txns txns' := by
  intro id t ht
  rcases h id with heq | ⟨t₀, t', ht₀, hmark, ht'⟩
  · exact ⟨t, heq.trans ht, rfl, rfl⟩
  · obtain rfl := Option.some.inj (ht.symm.trans ht₀)
    exact ⟨t', ht', hmark.persists⟩

theorem Resolves.persists {txn : TxnId} {state : TxnState} (h : Resolves txn state txns txns') :
    Persists txns txns' := by
  obtain ⟨⟨t₀, t', ht₀, -, hmark, ht'⟩, hothers⟩ := h
  intro id t ht
  by_cases hid : id = txn
  · subst hid
    obtain rfl := Option.some.inj (ht.symm.trans ht₀)
    exact ⟨_, ht', hmark.persists.timeouts, hmark.persists.started⟩
  · exact ⟨t, (hothers id hid).trans ht, rfl, rfl⟩

theorem Step.persists (h : Step env id env' result) : Persists env.txns env'.txns := by
  cases h with
  | refuse _ _ htxns | accept _ _ _ htxns | deny _ _ htxns => exact htxns.persists
  | abort _ _ _ _ _ htxns | commit _ _ _ _ _ _ htxns => exact htxns.persists
  | @write _ _ txn _ _ _ _ _ _ _ _ _ _ _ _ _ htxns =>
    intro x t ht
    by_cases hx : x = txn
    · refine ⟨{ t with writes := t.writes + 1 }, ?_, rfl, rfl⟩
      rw [htxns, if_pos hx, ht]
      rfl
    · exact ⟨t, by rw [htxns, if_neg hx, ht], rfl, rfl⟩
  | _ => exact .refl _

theorem Numbered.persists_after (h : env.Numbered base) (e : Event) :
    Persists env.txns (env.after e).txns := by
  have hoccurs := env.occurs h.named e
  generalize env.after e = env' at hoccurs ⊢
  cases hoccurs with
  | begin =>
    intro id t ht
    have hne : id ≠ env.nextTxn := fun heq => Nat.lt_irrefl _ (heq ▸ h.lt id t ht)
    exact ⟨t, ((SortedMap.get?_insert ..).trans (if_neg hne)).trans ht, rfl, rfl⟩
  | step hstep => exact hstep.persists
  | drop htxns => exact htxns.persists
  | _ => exact .refl _

end Persists

theorem config_after (hnamed : env.Named) (e : Event) : (env.after e).config = env.config := by
  have hoccurs := env.occurs hnamed e
  generalize env.after e = env' at hoccurs ⊢
  cases hoccurs with
  | step hstep => cases hstep <;> rfl
  | _ => rfl

/-! ## Asking -/

/-- The deadlines of a wait that starts at `start`. A write outside transactions has the lock
timeout of the settings. -/
def deadlinesOf (env : Environment) (op : Op) (start : Instant) : Deadlines :=
  match op.txn? with
  | none => .starting start env.config.lockTimeout start none
  | some txn => (env.txn txn).deadlines start op.timeout

@[simp] theorem locks_finish (call : Call) (r : Result) :
    (env.finish id call r).1.locks = env.locks := by
  obtain ⟨tracker, h⟩ := env.finish_eq id call r
  rw [h]

theorem locks_answered (call : Call) (owner : TxnId) (timer : Latency.Ticket)
    (outcome : LockState.Outcome) :
    (env.answered id call owner timer outcome).1.locks = env.locks := by
  obtain ⟨tracker, htimer⟩ := env.stopTimer_eq (some timer)
  unfold answered
  rw [htimer]
  cases outcome with
  | error e =>
    dsimp only
    rw [locks_finish, modifyTxn_eq]
  | ok g =>
    dsimp only
    cases call.op <;> first | rfl | rw [locks_finish]

theorem locks_ask (call : Call) (owner : TxnId) (deadlines : Deadlines) (token : Option TokenId) :
    (env.ask id call owner deadlines token).1.locks =
      (env.locks.enter LockState.discipline env.now id token
        ⟨owner, ⟨call.op.key⟩, call.op.mode, deadlines⟩).1 := by
  unfold ask
  dsimp only
  split
  · rfl
  · rw [locks_answered]
    rfl

theorem locks_lookAgain (call : Call) (owner : TxnId) (timer : Latency.Ticket) :
    (env.lookAgain id call owner timer).1.locks =
      (env.locks.recheck LockState.discipline env.now id).1 := by
  unfold lookAgain
  dsimp only
  split
  · rfl
  · rw [locks_answered]

/-! ## The invariant -/

/-- What a call asleep that does `op` remembers. -/
structure Remembers (env : Environment) (op : Op) (s : Sleeper Waiting) : Prop where
  deadlines : s.memory.request.deadlines = env.deadlinesOf op s.memory.since
  token : s.token.map (·.1) = op.txn?.map Transaction.tokenOf

structure Attentive (env : Environment) (base : TxnId) : Prop where
  acc : env.Accounted base
  asleep : ∀ id call s, env.calls.get? id = some call → env.locks.sleepers.get? id = some s →
    env.Remembers call.op s

theorem Opened.attentive {config : Config} {rs : List Record} (h : env.Opened config rs) :
    env.Attentive env.nextTxn where
  acc := h.accounted
  asleep id call s hcall := by
    rw [h.calls] at hcall
    cases hcall

theorem Remembers.congr {op : Op} {s s' : Sleeper Waiting} (h : env.Remembers op s)
    (hmemory : s'.memory = s.memory) (htoken : s'.token = s.token)
    (hdeadlines : env'.deadlinesOf op s.memory.since = env.deadlinesOf op s.memory.since) :
    env'.Remembers op s' := by
  refine ⟨?_, htoken ▸ h.token⟩
  rw [hmemory, hdeadlines]
  exact h.deadlines

/-- What a call waits under stays what it is. -/
theorem Numbered.deadlinesOf_after (h : env.Numbered base) (e : Event) {op : Op}
    (hsome : ∀ txn, op.txn? = some txn → (env.txns.get? txn).isSome = true) (start : Instant) :
    (env.after e).deadlinesOf op start = env.deadlinesOf op start := by
  unfold deadlinesOf
  cases htxn : op.txn? with
  | none =>
    dsimp only
    rw [config_after h.named]
  | some txn =>
    obtain ⟨t, ht⟩ := Option.isSome_iff_exists.1 (hsome txn htxn)
    obtain ⟨t', ht', hpersists⟩ := h.persists_after e txn t ht
    dsimp only
    rw [txn_eq_of_get? ht, txn_eq_of_get? ht']
    exact hpersists.deadlines ..

/-- The transaction of a call that waits is there. -/
theorem Accounted.isSome_of_waiting (h : env.Accounted base) {call : Call} {owner : TxnId}
    {timer : Latency.Ticket} (hcall : env.calls.get? id = some call)
    (hstage : call.stage = .waiting owner timer) {txn : TxnId} (htxn : call.op.txn? = some txn) :
    (env.txns.get? txn).isSome = true :=
  (((h.covered.calls id call hcall).owns owner (by rw [hstage, Stage.owner?])).of_txn htxn).2

/-- Only its own steps change what a call asleep remembers. -/
theorem sleeper_after (hnamed : env.Named) {e : Event} (hstep : e ≠ .step id)
    {s' : Sleeper Waiting} (hs' : (env.after e).locks.sleepers.get? id = some s') :
    ∃ s, env.locks.sleepers.get? id = some s ∧ s'.memory = s.memory ∧ s'.token = s.token := by
  have hnudged {s' : Sleeper Waiting} {notify : Bool}
      (h : (env.locks.sleepers.get? id).map (·.nudged notify) = some s') :
      ∃ s, env.locks.sleepers.get? id = some s ∧ s'.memory = s.memory ∧ s'.token = s.token := by
    obtain ⟨s, hs, rfl⟩ := Option.map_eq_some_iff.1 h
    exact ⟨s, hs, rfl, rfl⟩
  have hsame (h : env.locks.sleepers.get? id = some s') :
      ∃ s, env.locks.sleepers.get? id = some s ∧ s'.memory = s.memory ∧ s'.token = s.token :=
    ⟨s', h, rfl, rfl⟩
  have hoccurs := env.occurs hnamed e
  generalize env.after e = env' at hoccurs hs'
  cases hoccurs with
  | @step id' env' result h =>
    have hne : id ≠ id' := by
      rintro rfl
      exact hstep rfl
    have hasks {call : Call} {owner nextTxn : TxnId} {locks : LockManager}
        {outcome : Option LockState.Outcome}
        (hasks : Asks env id' call owner nextTxn locks outcome)
        (hs' : locks.sleepers.get? id = some s') :
        ∃ s, env.locks.sleepers.get? id = some s ∧ s'.memory = s.memory ∧ s'.token = s.token := by
      cases hasks with
      | direct | inTxn =>
        rw [enter_eq, get?_afterLook, if_neg hne, sleepers_register] at hs'
        exact hnudged hs'
      | again =>
        rcases env.locks.recheck_cases id' LockState.discipline env.now with
          hrest | ⟨s, -, -, heq⟩
        · rw [hrest] at hs'
          exact hsame hs'
        · rw [heq, get?_afterLook, if_neg hne] at hs'
          exact hnudged hs'
    cases h with
    | wait _ h | deny _ h | lock _ _ h | take _ _ h => exact hasks h hs'
    | giveBack | leave => exact hnudged ((get?_act ..).symm.trans hs')
    | _ => exact hsame hs'
  | drop => exact hnudged ((get?_act ..).symm.trans hs')
  | @cancel txn =>
    obtain ⟨notify, heq⟩ := get?_cancel env.locks id (Transaction.tokenOf txn)
    exact hnudged (heq.symm.trans hs')
  | wake => exact hnudged ((get?_wake ..).symm.trans hs')
  | _ => exact hsame hs'

/-- What a call remembers that falls asleep when it asks for its lock. -/
theorem Accounted.remembers_of_admitted (h : env.Accounted base) {call : Call}
    {cause : Option Error} (hcall : env.calls.get? id = some call)
    (hstage : call.stage = .admitted cause) (hgoes : call.op.resolves = false)
    {s' : Sleeper Waiting}
    (hs' : (env.step id).1.locks.sleepers.get? id = some s') :
    (env.after (.step id)).Remembers call.op s' := by
  have hawake := h.awake_of_isEarly hcall (by rw [hstage, Stage.isEarly])
  have hasks (env₁ : Environment) {owner : TxnId} {token : Option TokenId} {deadlines : Deadlines}
      (hnow : env₁.now = env.now) (htoken : token = call.op.txn?.map Transaction.tokenOf)
      (hdeadlines : deadlines = env.deadlinesOf call.op env.now)
      (hsome : ∀ txn, call.op.txn? = some txn → (env.txns.get? txn).isSome = true)
      (hs' : (env₁.ask id call owner deadlines token).1.locks.sleepers.get? id = some s') :
      (env.after (.step id)).Remembers call.op s' := by
    rw [locks_ask] at hs'
    obtain ⟨hmemory, hregistered⟩ := LockManager.sleeper_enter hs'
    refine ⟨?_, hregistered.trans htoken⟩
    rw [hmemory, hnow, h.covered.numbered.deadlinesOf_after _ hsome]
    exact hdeadlines
  rw [step_eq_proceed hcall hstage] at hs'
  have hproceeds := env.proceeds id call cause
  generalize env.proceed id call cause = proceeded at hproceeds hs'
  cases hproceeds with
  | ended =>
    rw [locks_finish, hawake] at hs'
    cases hs'
  | direct htxn =>
    refine hasks env.takeId.1 rfl (by rw [htxn]; rfl) ?_ (by simp [htxn]) hs'
    rw [deadlinesOf, htxn]
  | @inTxn _ txn htxn _ hactive =>
    refine hasks env rfl (by rw [htxn]; rfl) ?_ (fun t ht => ?_) hs'
    · rw [deadlinesOf, htxn]
    obtain rfl := Option.some.inj (htxn.symm.trans ht)
    rw [get?_of_isActive hactive]
    rfl
  | abort hop | giveUp hop | commit hop =>
    rw [hop] at hgoes
    cases hgoes

theorem Asks.stage_cases {call : Call} {owner nextTxn : TxnId} {locks : LockManager}
    {outcome : Option LockState.Outcome} (h : Asks env id call owner nextTxn locks outcome) :
    (∃ cause, call.stage = .admitted cause) ∨
      ∃ owner timer, call.stage = .waiting owner timer := by
  cases h with
  | direct hstage | inTxn hstage => exact .inl ⟨_, hstage⟩
  | again hstage => exact .inr ⟨_, _, hstage⟩

/-- A call that waits after its step has asked for its lock, or looked again. -/
theorem Step.asks_of_waiting (h : Step env id env' result) {call' : Call} {owner : TxnId}
    {timer : Latency.Ticket} (hcall' : env'.calls.get? id = some call')
    (hwaits : call'.stage = .waiting owner timer) :
    ∃ call, env.calls.get? id = some call ∧ call'.op = call.op ∧
      ((∃ cause, call.stage = .admitted cause) ∨
        ∃ owner timer, call.stage = .waiting owner timer) := by
  cases h with
  | idle hnone =>
    rw [hnone] at hcall'
    cases hcall'
  | wait hcall hasks =>
    rw [SortedMap.get?_insert, if_pos rfl] at hcall'
    cases hcall'
    exact ⟨_, hcall, rfl, hasks.stage_cases⟩
  | accept | take | abort | commit | writeNow | readOnce =>
    rw [SortedMap.get?_insert, if_pos rfl] at hcall'
    cases hcall'
    cases hwaits
  | _ =>
    rw [SortedMap.get?_erase, if_pos rfl] at hcall'
    cases hcall'

theorem Attentive.after (h : env.Attentive base) {e : Event} (he : e.Orderly env)
    (hroom : base.since env.nextTxn + 1 < UInt64.size) : (env.after e).Attentive base := by
  have hnumbered := h.acc.covered.numbered
  have hacc' := h.acc.after he hroom
  refine ⟨hacc', fun id call' s' hcall' hs' => ?_⟩
  obtain ⟨call₁, owner, timer, hcall₁, hwaits⟩ := hacc'.asleep id s' hs'
  obtain rfl : call₁ = call' := Option.some.inj (hcall₁.symm.trans hcall')
  -- What it remembers is what it remembered when it slept before.
  have hslept {call : Call} {s : Sleeper Waiting} {owner : TxnId} {timer : Latency.Ticket}
      (hcall : env.calls.get? id = some call) (hop : call₁.op = call.op)
      (hstage : call.stage = .waiting owner timer) (hs : env.locks.sleepers.get? id = some s)
      (hmemory : s'.memory = s.memory) (htoken : s'.token = s.token) :
      (env.after e).Remembers call₁.op s' := by
    rw [hop]
    exact (h.asleep id call s hcall hs).congr hmemory htoken (hnumbered.deadlinesOf_after e
      (fun _ => h.acc.isSome_of_waiting hcall hstage) _)
  rcases Environment.call_cases hnumbered.named hcall' with ⟨op, _, -, rfl⟩ | rfl | ⟨hstep, hcall⟩
  · cases hwaits
  · have hstep := step_spec hnumbered.named id
    obtain ⟨call, hcall, hop, ⟨cause, hadmitted⟩ | ⟨u, timer', hstage⟩⟩ :=
      hstep.asks_of_waiting hcall' hwaits
    · rw [hop]
      refine h.acc.remembers_of_admitted hcall hadmitted ?_ hs'
      rw [← hop]
      exact (hacc'.covered.calls id call₁ hcall').asks owner timer hwaits
    · have hrecheck := hs'
      rw [Environment.after, step_eq_lookAgain hcall hstage, locks_lookAgain] at hrecheck
      obtain ⟨s, hs, hmemory, htoken⟩ := LockManager.sleeper_recheck hrecheck
      exact hslept hcall hop hstage hs hmemory htoken
  · obtain ⟨s, hs, hmemory, htoken⟩ := sleeper_after hnumbered.named hstep hs'
    exact hslept hcall rfl hwaits hs hmemory htoken

/-- **A call asleep remembers what it asked with**, at any time of an orderly run. -/
theorem Attentive.run (h : env.Attentive base) {events : List Event}
    (horderly : env.Orderly events)
    (hroom : base.since env.nextTxn + events.length < UInt64.size) :
    (env.run events).Attentive base :=
  h.acc.covered.numbered.run_induction (·.Attentive base) horderly hroom
    (fun _ he hnext h => h.after he hnext) h

end Environment
end WalStore

import WalStore.Proofs.Environment.Lifetime
import WalStore.Proofs.Environment.Covered

/-!
# Who holds locks, and who waits

**Invariant (`Accounted`).** Whoever holds a lock is an active transaction, or the owner of a call
that has its lock and has not released it; and every queued request is that of a call that waits.
So a transaction that is over holds nothing once its last call has returned, and a write outside
transactions leaves nothing of its locker behind (`Accounted.free`).

For the lock manager an orderly run is an orderly run of its own (`Accounted.locks_after`), so what
holds of the lock table in all those holds here.
-/

namespace WalStore

namespace LockManager

/-- Wakers may run at any time. -/
theorem orderly_replicate_notify (m : LockManager) (n : Nat) :
    Orderly m (.replicate n .notify) := by
  induction n generalizing m with
  | zero => trivial
  | succ n ih => exact ⟨trivial, ih _⟩

end LockManager

/-- After all its locks are released, an owner holds nothing. -/
theorem LockTable.Tidy.holding_releaseAll {t : LockTable} (h : t.Tidy) (txn : TxnId)
    (res : Resource) : (t.releaseAll txn).1.holding txn res = none := by
  rw [LockTable.holding, LockTable.lock_releaseAll]
  split
  · rw [ResourceLock.get?_unhold, if_pos rfl]
  · next hnot =>
    rw [h.held, ResourceLock.isHolder_iff] at hnot
    exact Option.eq_none_iff_forall_ne_some.2 fun m hm => hnot ⟨m, hm⟩

namespace Environment

variable {env env' : Environment} {base : TxnId} {id : Nat} {result : Option Result}

/-! ## The invariant -/

/-- The owner of a call that has got its lock. -/
def Stage.holder? : Stage → Option TxnId
  | entered | admitted _ | waiting .. => none
  | granted owner _ | releasing owner _ => some owner

theorem Stage.owner?_of_holder? {stage : Stage} {owner : TxnId} (h : stage.holder? = some owner) :
    stage.owner? = some owner := by
  cases stage with
  | entered | admitted | waiting => cases h
  | granted | releasing => exact h

theorem Stage.holder?_of_isEarly {stage : Stage} (h : stage.isEarly = true) :
    stage.holder? = none := by
  cases stage with
  | entered | admitted => rfl
  | waiting | granted | releasing => cases h

/-- A call in progress has this owner, and its lock. -/
def InCharge (env : Environment) (owner : TxnId) : Prop :=
  ∃ id call, env.calls.get? id = some call ∧ call.stage.holder? = some owner

/-- The owner holds no lock, and nothing in the lock table is due to a request of it. -/
structure Free (env : Environment) (owner : TxnId) : Prop
    extends env.locks.Forgotten owner where
  holding : ∀ res, env.locks.shared.table.holding owner res = none
  heldBy : env.locks.shared.table.held.get? owner = none

structure Accounted (env : Environment) (base : TxnId) : Prop where
  covered : env.Covered base
  checked : env.Checked
  /-- A transaction is active while a call of it that does not resolve it goes on. -/
  active : ∀ id call txn, env.calls.get? id = some call → call.op.txn? = some txn →
    call.op.resolves = false → call.stage.owner?.isSome = true → (env.txn txn).isActive = true
  /-- Writes outside transactions do not share a locker. -/
  apart : ∀ id id' call call' owner, env.calls.get? id = some call →
    env.calls.get? id' = some call' → call.op.txn? = none → call'.op.txn? = none →
    call.stage.owner? = some owner → call'.stage.owner? = some owner → id = id'
  tidy : env.locks.shared.table.Tidy
  consistent : env.locks.Consistent
  asleep : ∀ id s, env.locks.sleepers.get? id = some s →
    ∃ call owner timer, env.calls.get? id = some call ∧ call.stage = .waiting owner timer
  held : ∀ owner res, env.locks.shared.table.holding owner res ≠ none →
    (env.txn owner).isActive = true ∨ env.InCharge owner

theorem Opened.accounted_from {config : Config} {rs : List Record} (h : env.Opened config rs)
    (base : TxnId) : env.Accounted base where
  covered := h.covered_from base
  checked id call txn hcall := by
    rw [h.calls] at hcall
    cases hcall
  active id call txn hcall := by
    rw [h.calls] at hcall
    cases hcall
  apart id id' call call' owner hcall := by
    rw [h.calls] at hcall
    cases hcall
  tidy := by
    rw [h.locks]
    exact LockTable.tidy_empty
  consistent := by
    rw [h.locks]
    exact LockManager.consistent_fresh _
  asleep id s hs := by
    rw [h.locks] at hs
    cases hs
  held owner res hheld := by
    rw [h.locks] at hheld
    exact absurd rfl hheld

theorem Opened.accounted {config : Config} {rs : List Record} (h : env.Opened config rs) :
    env.Accounted env.nextTxn := h.accounted_from env.nextTxn

/-! ## Owners -/

theorem Owns.of_txn {op : Op} {owner txn : TxnId} (h : env.Owns base op owner)
    (htxn : op.txn? = some txn) : owner = txn ∧ (env.txns.get? txn).isSome = true := by
  unfold Owns at h
  rw [htxn] at h
  exact h

theorem Owns.of_none {op : Op} {owner : TxnId} (h : env.Owns base op owner)
    (htxn : op.txn? = none) :
    env.txns.get? owner = none ∧ base.since owner < base.since env.nextTxn := by
  unfold Owns at h
  rw [htxn] at h
  exact h

/-- A transaction and a locker have different ids. -/
theorem Owns.ne {op op' : Op} {owner owner' txn : TxnId} (h : env.Owns base op owner)
    (h' : env.Owns base op' owner') (htxn : op.txn? = some txn) (hnone : op'.txn? = none) :
    owner ≠ owner' := by
  rintro rfl
  obtain ⟨rfl, hsome⟩ := h.of_txn htxn
  rw [(h'.of_none hnone).1] at hsome
  cases hsome

/-- Calls in progress have different owners. -/
theorem Accounted.owner_unique (h : env.Accounted base) {id' : Nat} {call call' : Call}
    {owner : TxnId} (hcall : env.calls.get? id = some call)
    (hcall' : env.calls.get? id' = some call') (howner : call.stage.owner? = some owner)
    (howner' : call'.stage.owner? = some owner) : id = id' := by
  have howns := (h.covered.calls id call hcall).owns owner howner
  have howns' := (h.covered.calls id' call' hcall').owns owner howner'
  cases htxn : call.op.txn? with
  | some txn =>
    cases htxn' : call'.op.txn? with
    | some txn' =>
      obtain rfl : txn = txn' := (howns.of_txn htxn).1.symm.trans (howns'.of_txn htxn').1
      exact h.covered.single id id' call call' txn hcall hcall' htxn htxn'
    | none => exact absurd rfl (howns.ne howns' htxn htxn')
  | none =>
    cases htxn' : call'.op.txn? with
    | some txn' => exact absurd rfl (howns'.ne howns htxn' htxn)
    | none => exact h.apart id id' call call' owner hcall hcall' htxn htxn' howner howner'

/-- Who is asleep in the lock manager is the owner of a call that waits. -/
theorem Accounted.exists_waiting (h : env.Accounted base) {owner : TxnId}
    (hasleep : env.locks.IsAsleep owner) :
    ∃ id call timer, env.calls.get? id = some call ∧ call.stage = .waiting owner timer := by
  obtain ⟨id, s, hs, rfl⟩ := hasleep
  obtain ⟨call, owner, timer, hcall, hstage⟩ := h.asleep id s hs
  rw [((h.covered.calls id call hcall).waiting owner timer s hstage hs).1]
  exact ⟨id, call, timer, hcall, hstage⟩

/-- The owner of a call that does not wait is not asleep. -/
theorem Accounted.not_isAsleep (h : env.Accounted base) {call : Call} {owner : TxnId}
    (hcall : env.calls.get? id = some call) (howner : call.stage.holder? = some owner) :
    ¬env.locks.IsAsleep owner := by
  intro hasleep
  obtain ⟨id', call', timer, hcall', hstage⟩ := h.exists_waiting hasleep
  obtain rfl := h.owner_unique hcall hcall' (Stage.owner?_of_holder? howner)
    (by rw [hstage, Stage.owner?])
  rw [hcall, Option.some.injEq] at hcall'
  rw [hcall', hstage] at howner
  cases howner

/-- A transaction of which no call waits is not asleep. -/
theorem Accounted.not_isAsleep_txn (h : env.Accounted base) {txn : TxnId}
    (hsome : (env.txns.get? txn).isSome = true)
    (hidle : ∀ id call timer, env.calls.get? id = some call → call.op.txn? = some txn →
      call.stage ≠ .waiting txn timer) : ¬env.locks.IsAsleep txn := by
  intro hasleep
  obtain ⟨id, call, timer, hcall, hstage⟩ := h.exists_waiting hasleep
  have howner : call.stage.owner? = some txn := by rw [hstage, Stage.owner?]
  by_cases htxn : call.op.txn? = some txn
  · exact hidle id call timer hcall htxn hstage
  · exact (h.covered.calls id call hcall).owner_ne hsome htxn howner rfl

/-- An owner is free if it is no active transaction and has no call in progress. -/
theorem Accounted.free (h : env.Accounted base) {owner : TxnId}
    (hover : (env.txn owner).isActive = false)
    (hidle : ∀ id call, env.calls.get? id = some call → call.stage.owner? ≠ some owner) :
    env.Free owner := by
  have hasleep : ¬env.locks.IsAsleep owner := fun hasleep => by
    obtain ⟨id, call, timer, hcall, hstage⟩ := h.exists_waiting hasleep
    exact hidle id call hcall (by rw [hstage, Stage.owner?])
  have hholding (res : Resource) : env.locks.shared.table.holding owner res = none := by
    by_contra hheld
    rcases h.held owner res hheld with hactive | ⟨id, call, hcall, howner⟩
    · rw [hover] at hactive
      cases hactive
    · exact hidle id call hcall (Stage.owner?_of_holder? howner)
  have htidy := h.consistent.tidy h.tidy
  refine ⟨htidy.forgotten hasleep, hholding, htidy.absent owner fun res mode hmem => ?_⟩
  have hget := SortedMap.get?_eq_some_iff.2 hmem
  rw [show (env.locks.shared.table.lock res).holders.get? owner = none from hholding res] at hget
  cases hget

theorem Op.resolves_of_entry? {op : Op} {entry : Entry} (h : op.entry? = some entry) :
    op.resolves = false := by
  cases op <;> cases h <;> rfl

/-- No resolution has a lock to work under. -/
theorem Call.Covered.goes_of_granted {call : Call} (h : call.Covered env base id) {owner : TxnId}
    {g : Grant} (hstage : call.stage = .granted owner g) : call.op.resolves = false := by
  cases hentry : call.op.entry? with
  | some entry => exact Op.resolves_of_entry? hentry
  | none =>
    obtain ⟨txn, key, hop⟩ := h.works owner g hstage hentry
    rw [hop]
    rfl

/-! ## The lock manager -/

/-- A call that has not asked for its lock yet is not asleep. -/
theorem Accounted.awake_of_isEarly (h : env.Accounted base) {call : Call}
    (hcall : env.calls.get? id = some call) (hstage : call.stage.isEarly = true) :
    env.locks.sleepers.get? id = none := by
  refine Option.eq_none_iff_forall_ne_some.2 fun s hs => ?_
  obtain ⟨call', owner, timer, hcall', hstage'⟩ := h.asleep id s hs
  rw [hcall, Option.some.injEq] at hcall'
  rw [hcall', hstage'] at hstage
  cases hstage

/-- The next id belongs to nobody yet. -/
theorem Accounted.not_isAsleep_nextTxn (h : env.Accounted base) :
    ¬env.locks.IsAsleep env.nextTxn := by
  intro hasleep
  obtain ⟨id, call, timer, hcall, hstage⟩ := h.exists_waiting hasleep
  have howns := (h.covered.calls id call hcall).owns _ (by rw [hstage]; rfl)
  cases htxn : call.op.txn? with
  | some txn =>
    obtain ⟨rfl, hsome⟩ := howns.of_txn htxn
    rw [h.covered.numbered.get?_nextTxn] at hsome
    cases hsome
  | none => exact Nat.lt_irrefl _ (howns.of_none htxn).2

/-- An active transaction whose call is about to ask for its lock is not asleep. -/
theorem Accounted.not_isAsleep_of_isEarly (h : env.Accounted base) {call : Call} {txn : TxnId}
    (hcall : env.calls.get? id = some call) (hstage : call.stage.isEarly = true)
    (htxn : call.op.txn? = some txn) (hsome : (env.txns.get? txn).isSome = true) :
    ¬env.locks.IsAsleep txn := by
  refine h.not_isAsleep_txn hsome fun id' call' timer hcall' htxn' hstage' => ?_
  obtain rfl := h.covered.single id id' call call' _ hcall hcall' htxn htxn'
  rw [hcall, Option.some.injEq] at hcall'
  rw [hcall', hstage'] at hstage
  cases hstage

/-- Asking for a lock is a look of its own, in order. -/
theorem Accounted.locks_of_asks (h : env.Accounted base) {call : Call} {owner nextTxn : TxnId}
    {locks : LockManager} {outcome : Option LockState.Outcome}
    (hasks : Asks env id call owner nextTxn locks outcome)
    (hcall : env.calls.get? id = some call) :
    ∃ events, LockManager.Orderly env.locks events ∧ locks = env.locks.run events := by
  have hawake := h.awake_of_isEarly hcall
  cases hasks with
  | direct hstage =>
    exact ⟨[.acquire _ id _ _],
      ⟨⟨hawake (by rw [hstage]; rfl), h.not_isAsleep_nextTxn⟩, trivial⟩, rfl⟩
  | inTxn hstage htxn hactive =>
    have hearly : call.stage.isEarly = true := by rw [hstage]; rfl
    have hsome := Option.isSome_iff_exists.2 ⟨_, get?_of_isActive hactive⟩
    exact ⟨[.acquire _ id _ _],
      ⟨⟨hawake hearly, h.not_isAsleep_of_isEarly hcall hearly htxn hsome⟩, trivial⟩, rfl⟩
  | again hstage => exact ⟨[.recheck _ id], ⟨trivial, trivial⟩, rfl⟩

/-- **What an event means for the lock manager.** It is a list of its own events, in order. -/
theorem Accounted.locks_after (h : env.Accounted base) {e : Event} (he : e.Orderly env) :
    ∃ events, LockManager.Orderly env.locks events ∧
      (env.after e).locks = env.locks.run events := by
  have hoccurs := env.occurs h.covered.numbered.named e
  generalize env.after e = env' at hoccurs ⊢
  cases hoccurs with
  | step hstep =>
    cases hstep with
    | wait hcall hasks | deny hcall hasks | lock hcall _ hasks | take hcall _ hasks =>
      exact h.locks_of_asks hasks hcall
    | @giveBack call owner txn key result _ hcall hstage =>
      exact ⟨[.release owner ⟨key⟩],
        ⟨h.not_isAsleep hcall (by rw [hstage]; rfl), trivial⟩, rfl⟩
    | @leave call owner result _ _ hcall hstage =>
      exact ⟨[.releaseAll owner], ⟨h.not_isAsleep hcall (by rw [hstage]; rfl), trivial⟩, rfl⟩
    | _ => exact ⟨[], trivial, rfl⟩
  | @drop txn _ _ htxns =>
    obtain ⟨⟨t, t', ht, -⟩, -⟩ := htxns
    refine ⟨[.releaseAll txn], ⟨h.not_isAsleep_txn (by rw [ht]; rfl) ?_, trivial⟩, rfl⟩
    exact fun id call timer hcall htxn _ => he ⟨id, call, hcall, htxn⟩
  | @cancel txn =>
    refine ⟨_, ?_, LockManager.cancel_eq_run env.locks (Transaction.tokenOf txn)⟩
    exact ⟨trivial, LockManager.orderly_replicate_notify _ _⟩
  | @wake id => exact ⟨[.wake id], ⟨trivial, trivial⟩, rfl⟩
  | _ => exact ⟨[], trivial, rfl⟩

/-- A call of a transaction asks for locks of that transaction. -/
theorem Asks.owner_eq {call : Call} {owner nextTxn txn : TxnId} {locks : LockManager}
    {outcome : Option LockState.Outcome} (h : Asks env id call owner nextTxn locks outcome)
    (hasking : call.Asking env base id) (htxn : call.op.txn? = some txn) : owner = txn := by
  cases h with
  | direct _ hnone =>
    rw [htxn] at hnone
    cases hnone
  | inTxn _ htxn' => exact Option.some.inj (htxn'.symm.trans htxn)
  | again hstage => exact ((hasking.owns owner (by rw [hstage, Stage.owner?])).of_txn htxn).1

/-- A call that gets an answer from the lock manager is awake. -/
theorem Asks.awake {call : Call} {owner nextTxn : TxnId} {locks : LockManager}
    {outcome : LockState.Outcome} (h : Asks env id call owner nextTxn locks (some outcome)) :
    locks.sleepers.get? id = none := by
  have hlooked {m m' : LockManager} {look : LockState.RequestLook}
      (hlooked : LockManager.Looked m id look m') (hresult : some outcome = look.fate.result?) :
      m'.sleepers.get? id = none := by
    obtain ⟨-, token, hsleepers⟩ := hlooked
    rw [hsleepers, if_pos rfl]
    cases hfate : look.fate with
    | returns => rfl
    | sleeps =>
      rw [hfate] at hresult
      cases hresult
  generalize houtcome : some outcome = answer at h
  cases h with
  | direct | inTxn =>
    obtain ⟨-, look, -, hlook, hresult⟩ := env.locks.enter_spec env.now id _ _
    exact hlooked hlook (houtcome.trans hresult)
  | again =>
    rcases env.locks.recheck_spec env.now id with hrest | ⟨-, -, look, -, -, -, hlook, hresult⟩
    · rw [hrest] at houtcome
      cases houtcome
    · exact hlooked hlook (houtcome.trans hresult)

/-- Asking for a lock gives it to the owner, if it is granted, and nothing to anybody else. -/
theorem Asks.holding_before {call : Call} {owner nextTxn : TxnId} {locks : LockManager}
    {outcome : Option LockState.Outcome} (h : Asks env id call owner nextTxn locks outcome)
    (hasking : call.Asking env base id) {u : TxnId} {res : Resource}
    (hheld : locks.shared.table.holding u res ≠ none) :
    env.locks.shared.table.holding u res ≠ none ∨ u = owner ∧ ∃ g, outcome = some (.ok g) := by
  have hobtains {r : LockRequest} {table : LockTable}
      (hobtains : LockState.Obtains env.locks.shared.table r table outcome)
      (htable : table.holding r.txn res ≠ none) :
      env.locks.shared.table.holding r.txn res ≠ none ∨ ∃ g, outcome = some (.ok g) := by
    cases hobtains with
    | same _ hsame => exact .inl (hsame res ▸ htable)
    | more => exact .inr ⟨_, rfl⟩
  have harrives {token : Option TokenId} {r : LockRequest}
      (houtcome : outcome = (env.locks.enter LockState.discipline env.now id token r).2)
      (hheld : (env.locks.enter LockState.discipline env.now id token
        r).1.shared.table.holding u res ≠ none) :
      env.locks.shared.table.holding u res ≠ none ∨ u = r.txn ∧ ∃ g, outcome = some (.ok g) := by
    obtain ⟨hothers, hown, -⟩ := env.locks.enter_holding env.now id token r
    by_cases hu : u = r.txn
    · subst hu
      exact (hobtains (houtcome ▸ hown) hheld).imp_right fun hgrant => ⟨rfl, hgrant⟩
    · exact .inl (hothers u hu res ▸ hheld)
  cases h with
  | direct | inTxn => exact harrives rfl hheld
  | @again owner timer hstage =>
    obtain ⟨hothers, hown⟩ := env.locks.recheck_holding env.now id
    cases hs : env.locks.sleepers.get? id with
    | none =>
      rw [env.locks.recheck_of_none env.now hs] at hheld
      exact .inl hheld
    | some s =>
      obtain ⟨rfl, -⟩ := hasking.waiting owner timer s hstage hs
      by_cases hu : u = s.memory.request.txn
      · subst hu
        exact (hobtains (hown s hs) hheld).imp_right fun hgrant => ⟨rfl, hgrant⟩
      · refine .inl (hothers u (fun s' hs' => ?_) res ▸ hheld)
        rw [hs, Option.some.injEq] at hs'
        rwa [← hs']

/-! ## Steps -/

/-- Another call that has its lock keeps it. -/
theorem Step.inCharge_of_ne (h : Step env id env' result) {id' : Nat} {call : Call} {u : TxnId}
    (hne : id' ≠ id) (hcall : env.calls.get? id' = some call)
    (hholder : call.stage.holder? = some u) : env'.InCharge u :=
  ⟨id', call, (h.get?_calls_of_ne hne).trans hcall, hholder⟩

theorem inCharge_insert {calls : SortedMap Nat Call} {call : Call} {u : TxnId}
    (hcalls : env'.calls = calls.insert id call) (hholder : call.stage.holder? = some u) :
    env'.InCharge u :=
  ⟨id, call, by rw [hcalls, SortedMap.get?_insert, if_pos rfl], hholder⟩

/-- An active transaction is active after a step, or the call that has resolved it is to release
its locks. -/
theorem Step.isActive_or (h : Step env id env' result) {u : TxnId}
    (hactive : (env.txn u).isActive = true) :
    (env'.txn u).isActive = true ∨ env'.InCharge u := by
  have hsame (hget : env'.txns.get? u = env.txns.get? u) : (env'.txn u).isActive = true := by
    rwa [Environment.txn, SortedMap.getD, hget]
  cases h with
  | refuse _ _ htxns | accept _ _ _ htxns | deny _ _ htxns =>
    exact .inl (htxns.isActive rfl hactive)
  | @abort _ _ txn _ _ _ _ _ _ _ _ _ _ _ _ htxns
  | @commit _ txn _ _ _ _ _ _ _ _ _ _ _ _ _ _ htxns =>
    by_cases hu : u = txn
    · exact .inr (inCharge_insert rfl (by rw [hu]; rfl))
    · exact .inl (hsame (htxns.2 u hu))
  | write _ _ _ _ _ htxns =>
    left
    have hget := htxns u
    rw [get?_of_isActive hactive] at hget
    split at hget
    · rw [txn_eq_of_get? hget]
      exact hactive
    · rw [txn_eq_of_get? hget]
      exact hactive
  | _ => exact .inl hactive

/-- The transaction of a call in progress that does not resolve it. -/
theorem Accounted.active_of_holder (h : env.Accounted base) {call : Call}
    (hcall : env.calls.get? id = some call) {txn u : TxnId} (htxn : call.op.txn? = some txn)
    (hgoes : call.op.resolves = false) (hholder : call.stage.holder? = some u) :
    (env.txn u).isActive = true := by
  have howner := Stage.owner?_of_holder? hholder
  obtain ⟨rfl, -⟩ := ((h.covered.calls id call hcall).owns u howner).of_txn htxn
  exact h.active id call u hcall htxn hgoes (by rw [howner]; rfl)

/-- Who is in charge before a step and holds a lock after it is accounted for. -/
theorem Step.inCharge_or (h : Step env id env' result) (hacc : env.Accounted base) {u : TxnId}
    (hcharge : env.InCharge u) {res : Resource}
    (hheld : env'.locks.shared.table.holding u res ≠ none) :
    (env'.txn u).isActive = true ∨ env'.InCharge u := by
  obtain ⟨id', call, hcall, hholder⟩ := hcharge
  by_cases hne : id' = id
  swap
  · exact .inr (h.inCharge_of_ne hne hcall hholder)
  subst hne
  have hactive {txn : TxnId} (htxn : call.op.txn? = some txn) (hgoes : call.op.resolves = false) :
      (env'.txn u).isActive = true ∨ env'.InCharge u :=
    h.isActive_or (hacc.active_of_holder hcall htxn hgoes hholder)
  have hsame {call' : Call} (hcall' : env.calls.get? id' = some call') : call' = call := by
    rw [hcall, Option.some.injEq] at hcall'
    exact hcall'.symm
  have hlacks {call' : Call} (hcall' : env.calls.get? id' = some call')
      (hstage : call'.stage.holder? = none) : False := by
    rw [hsame hcall', hholder] at hstage
    cases hstage
  have hasks {call' : Call} {owner nextTxn : TxnId} {locks : LockManager}
      {outcome : Option LockState.Outcome} (hcall' : env.calls.get? id' = some call')
      (hasks : Asks env id' call' owner nextTxn locks outcome) : False := by
    refine hlacks hcall' ?_
    cases hasks with
    | direct hstage | inTxn hstage | again hstage => rw [hstage, Stage.holder?]
  have hreads {owner : TxnId} {g : Grant} (hstage : call.stage = .granted owner g)
      (hentry : call.op.entry? = none) : (env'.txn u).isActive = true ∨ env'.InCharge u := by
    obtain ⟨txn, key, hop⟩ := (hacc.covered.calls id' call hcall).works owner g hstage hentry
    exact hactive (by rw [hop, Op.txn?]) (by rw [hop]; rfl)
  cases h with
  | idle hcall' =>
    rw [hcall'] at hcall
    cases hcall
  | refuse hcall' hstage => exact (hlacks hcall' (Stage.holder?_of_isEarly hstage)).elim
  | accept hcall' hstage | abort hcall' hstage | commitFail hcall' hstage | commit hcall' hstage =>
    exact (hlacks hcall' (by rw [hstage, Stage.holder?])).elim
  | wait hcall' hasks' | deny hcall' hasks' | lock hcall' _ hasks' | take hcall' _ hasks' =>
    exact (hasks hcall' hasks').elim
  | writeNow hcall' hstage =>
    obtain rfl := hsame hcall'
    rw [hstage] at hholder
    exact .inr (inCharge_insert rfl hholder)
  | readOnce hcall' hstage =>
    obtain rfl := hsame hcall'
    rw [hstage] at hholder
    exact .inr (inCharge_insert rfl hholder)
  | writeFail hcall' _ hentry htxn | write hcall' _ hentry htxn =>
    obtain rfl := hsame hcall'
    exact hactive htxn (Op.resolves_of_entry? hentry)
  | read hcall' hstage hentry =>
    obtain rfl := hsame hcall'
    exact hreads hstage hentry
  | giveBack hcall' _ hop =>
    obtain rfl := hsame hcall'
    exact hactive (by rw [hop, Op.txn?]) (by rw [hop]; rfl)
  | @leave call' owner _ _ _ hcall' hstage _ =>
    obtain rfl := hsame hcall'
    rw [hstage, Stage.holder?, Option.some.injEq] at hholder
    subst hholder
    refine absurd ?_ hheld
    change (env.locks.act (LockState.releaseAll owner)).1.shared.table.holding owner res = none
    rw [Monitor.shared_act]
    exact hacc.tidy.holding_releaseAll owner res

/-- Who holds a lock after a step held one before it, or is accounted for. -/
theorem Step.holding_or (h : Step env id env' result) (hacc : env.Accounted base) {u : TxnId}
    {res : Resource} (hheld : env'.locks.shared.table.holding u res ≠ none) :
    env.locks.shared.table.holding u res ≠ none ∨
      (env'.txn u).isActive = true ∨ env'.InCharge u := by
  cases h with
  | wait hcall hasks | deny hcall hasks =>
    refine (hasks.holding_before (hacc.covered.calls id _ hcall).toAsking hheld).imp_right ?_
    rintro ⟨-, g, hgrant⟩
    cases hgrant
  | @lock call owner _ _ _ _ hcall hop hasks =>
    refine (hasks.holding_before (hacc.covered.calls id call hcall).toAsking hheld).imp_right ?_
    rintro ⟨rfl, -⟩
    cases hop' : call.op with
    | lock txn =>
      have htxn : call.op.txn? = some txn := by rw [hop', Op.txn?]
      have hactive := hasks.isActive hacc.checked hcall htxn
      rw [← hasks.owner_eq (hacc.covered.calls id call hcall).toAsking htxn] at hactive
      exact .inl hactive
    | _ =>
      rw [hop'] at hop
      cases hop
  | take hcall _ hasks =>
    refine (hasks.holding_before (hacc.covered.calls id _ hcall).toAsking hheld).imp_right ?_
    rintro ⟨rfl, -⟩
    exact .inr (inCharge_insert rfl rfl)
  | @giveBack call owner _ key _ _ _ _ _ =>
    refine .inl fun hnone => hheld ?_
    change (env.locks.act (LockState.release owner ⟨key⟩)).1.shared.table.holding u res = none
    rw [LockManager.holding_release, hnone, ite_self]
  | @leave call owner _ _ _ _ _ _ =>
    refine .inl fun hnone => hheld ?_
    change (env.locks.act (LockState.releaseAll owner)).1.shared.table.holding u res = none
    by_cases hu : u = owner
    · rw [hu, Monitor.shared_act]
      exact hacc.tidy.holding_releaseAll owner res
    · rwa [LockManager.holding_releaseAll _ hu]
  | _ => exact .inl hheld

theorem Step.held (h : Step env id env' result) (hacc : env.Accounted base) {u : TxnId}
    {res : Resource} (hheld : env'.locks.shared.table.holding u res ≠ none) :
    (env'.txn u).isActive = true ∨ env'.InCharge u := by
  rcases h.holding_or hacc hheld with hbefore | haccounted
  · rcases hacc.held u res hbefore with hactive | hcharge
    · exact h.isActive_or hactive
    · exact h.inCharge_or hacc hcharge hheld
  · exact haccounted

theorem Step.active (h : Step env id env' result) (hacc : env.Accounted base) {call' : Call}
    (hcall' : env'.calls.get? id = some call') {txn : TxnId} (htxn : call'.op.txn? = some txn)
    (hgoes : call'.op.resolves = false) (howner : call'.stage.owner?.isSome = true) :
    (env'.txn txn).isActive = true := by
  cases h with
  | idle hcall =>
    rw [hcall] at hcall'
    cases hcall'
  | accept =>
    rw [SortedMap.get?_insert, if_pos rfl] at hcall'
    cases hcall'
    cases howner
  | wait hcall hasks | take hcall _ hasks =>
    rw [SortedMap.get?_insert, if_pos rfl] at hcall'
    cases hcall'
    exact hasks.isActive hacc.checked hcall htxn
  | abort _ _ hop =>
    rw [SortedMap.get?_insert, if_pos rfl] at hcall'
    cases hcall'
    rcases hop with hop | ⟨hop, -⟩ <;> rw [hop] at hgoes <;> cases hgoes
  | commit _ _ hop =>
    rw [SortedMap.get?_insert, if_pos rfl] at hcall'
    cases hcall'
    rw [hop] at hgoes
    cases hgoes
  | writeNow _ _ _ hnone =>
    rw [SortedMap.get?_insert, if_pos rfl] at hcall'
    cases hcall'
    rw [hnone] at htxn
    cases htxn
  | readOnce hcall hstage =>
    rw [SortedMap.get?_insert, if_pos rfl] at hcall'
    cases hcall'
    exact hacc.active id _ txn hcall htxn hgoes (by rw [hstage]; rfl)
  | _ =>
    rw [SortedMap.get?_erase, if_pos rfl] at hcall'
    cases hcall'

/-- A write outside transactions has the locker it had before, or a new one. -/
theorem Step.locker (h : Step env id env' result) (hcovered : env.Covered base) {call' : Call}
    (hcall' : env'.calls.get? id = some call') (htxn : call'.op.txn? = none) {owner : TxnId}
    (howner : call'.stage.owner? = some owner) :
    owner = env.nextTxn ∨ ∃ call, env.calls.get? id = some call ∧ call.op.txn? = none ∧
      call.stage.owner? = some owner := by
  have hasks {call : Call} {u nextTxn : TxnId} {locks : LockManager}
      {outcome : Option LockState.Outcome} (hcall : env.calls.get? id = some call)
      (hasks : Asks env id call u nextTxn locks outcome) (htxn : call.op.txn? = none) :
      u = env.nextTxn ∨ ∃ call, env.calls.get? id = some call ∧ call.op.txn? = none ∧
        call.stage.owner? = some u := by
    cases hasks with
    | direct => exact .inl rfl
    | inTxn _ htxn' =>
      rw [htxn] at htxn'
      cases htxn'
    | again hstage => exact .inr ⟨call, hcall, htxn, by rw [hstage, Stage.owner?]⟩
  cases h with
  | idle hcall =>
    rw [hcall] at hcall'
    cases hcall'
  | accept =>
    rw [SortedMap.get?_insert, if_pos rfl] at hcall'
    cases hcall'
    cases howner
  | wait hcall hasks' | take hcall _ hasks' =>
    rw [SortedMap.get?_insert, if_pos rfl] at hcall'
    cases hcall'
    cases howner
    exact hasks hcall hasks' htxn
  | abort _ _ hop =>
    rw [SortedMap.get?_insert, if_pos rfl] at hcall'
    cases hcall'
    rcases hop with hop | ⟨hop, -⟩ <;> rw [hop] at htxn <;> cases htxn
  | commit _ _ hop =>
    rw [SortedMap.get?_insert, if_pos rfl] at hcall'
    cases hcall'
    rw [hop] at htxn
    cases htxn
  | writeNow hcall hstage =>
    rw [SortedMap.get?_insert, if_pos rfl] at hcall'
    cases hcall'
    cases howner
    exact .inr ⟨_, hcall, htxn, by rw [hstage, Stage.owner?]⟩
  | @readOnce call u g hcall hstage hentry =>
    rw [SortedMap.get?_insert, if_pos rfl] at hcall'
    cases hcall'
    obtain ⟨txn, key, hop⟩ := (hcovered.calls id call hcall).works u g hstage hentry
    rw [hop] at htxn
    cases htxn
  | _ =>
    rw [SortedMap.get?_erase, if_pos rfl] at hcall'
    cases hcall'

/-- A request asleep is that of a call that waits. -/
theorem Step.asleep (h : Step env id env' result) (hacc : env.Accounted base)
    {s : Monitor.Sleeper Waiting} (hs : env'.locks.sleepers.get? id = some s) :
    ∃ call owner timer, env'.calls.get? id = some call ∧ call.stage = .waiting owner timer := by
  -- A call that does something else has not waited before.
  have hbefore {call : Call} (hcall : env.calls.get? id = some call)
      {s₀ : Monitor.Sleeper Waiting} (hs₀ : env.locks.sleepers.get? id = some s₀) :
      call.stage.isEarly = false ∧ call.stage.holder? = none := by
    obtain ⟨call', owner, timer, hcall', hstage⟩ := hacc.asleep id s₀ hs₀
    rw [hcall, Option.some.injEq] at hcall'
    rw [hcall', hstage]
    exact ⟨rfl, rfl⟩
  cases h with
  | idle => exact hacc.asleep id s hs
  | wait => exact ⟨_, _, _, (SortedMap.get?_insert ..).trans (if_pos rfl), rfl⟩
  | deny _ hasks | lock _ _ hasks | take _ _ hasks =>
    rw [hasks.awake] at hs
    cases hs
  | refuse hcall hstage =>
    have hlate := (hbefore hcall hs).1
    rw [hstage] at hlate
    cases hlate
  | accept hcall hstage | abort hcall hstage | commitFail hcall hstage | commit hcall hstage =>
    have hlate := (hbefore hcall hs).1
    rw [hstage] at hlate
    cases hlate
  | writeNow hcall hstage | writeFail hcall hstage | write hcall hstage | read hcall hstage
  | readOnce hcall hstage =>
    have hholder := (hbefore hcall hs).2
    rw [hstage] at hholder
    cases hholder
  | giveBack hcall hstage | leave hcall hstage =>
    obtain ⟨s₀, hs₀, -⟩ := env.locks.asleep_act _ hs
    have hholder := (hbefore hcall hs₀).2
    rw [hstage] at hholder
    cases hholder

/-! ## Events -/

/-- A call other than the one that takes the step is as it was, or has just been started. -/
theorem Accounted.call_before (h : env.Accounted base) {e : Event} {call' : Call}
    {owner : TxnId} (hcall' : (env.after e).calls.get? id = some call')
    (howner : call'.stage.owner? = some owner) (hstep : e ≠ .step id) :
    env.calls.get? id = some call' := by
  rcases call_cases h.covered.numbered.named hcall' with
    ⟨op, timer, -, rfl⟩ | rfl | ⟨-, hcall⟩
  · cases howner
  · exact absurd rfl hstep
  · exact hcall

theorem Accounted.apart_after (h : env.Accounted base) {e : Event} {id' : Nat}
    {call call' : Call} {owner : TxnId} (hcall : (env.after e).calls.get? id = some call)
    (hcall' : (env.after e).calls.get? id' = some call') (htxn : call.op.txn? = none)
    (htxn' : call'.op.txn? = none) (howner : call.stage.owner? = some owner)
    (howner' : call'.stage.owner? = some owner) : id = id' := by
  -- The call that takes the step has its locker from before, or a new one that no other has.
  have hone {i j : Nat} {c d : Call} (hc : (env.after (.step i)).calls.get? i = some c)
      (hd : env.calls.get? j = some d) (hcn : c.op.txn? = none) (hdn : d.op.txn? = none)
      (hco : c.stage.owner? = some owner) (hdo : d.stage.owner? = some owner) : i = j := by
    rcases (step_spec h.covered.numbered.named i).locker h.covered hc hcn hco with
      rfl | ⟨before, hbefore, hnone, howner⟩
    · have howns := (h.covered.calls j d hd).owns _ hdo
      exact absurd (howns.of_none hdn).2 (Nat.lt_irrefl _)
    · exact h.apart i j before d owner hbefore hd hnone hdn howner hdo
  by_cases hstep : e = .step id
  · subst hstep
    by_cases hid : id' = id
    · exact hid.symm
    · have hbefore := h.call_before hcall' howner' fun heq => hid (by cases heq; rfl)
      exact hone hcall hbefore htxn htxn' howner howner'
  · have hbefore := h.call_before hcall howner hstep
    by_cases hstep' : e = .step id'
    · subst hstep'
      exact (hone hcall' hbefore htxn' htxn howner' howner).symm
    · exact h.apart id id' call call' owner hbefore (h.call_before hcall' howner' hstep') htxn
        htxn' howner howner'

theorem Accounted.asleep_after (h : env.Accounted base) {e : Event} (he : e.Orderly env)
    {s : Monitor.Sleeper Waiting} (hs : (env.after e).locks.sleepers.get? id = some s) :
    ∃ call owner timer, (env.after e).calls.get? id = some call ∧
      call.stage = .waiting owner timer := by
  have hnamed := h.covered.numbered.named
  by_cases hstep : e = .step id
  · subst hstep
    exact (step_spec hnamed id).asleep h hs
  · obtain ⟨s₀, hs₀, -⟩ := (keeps_after hnamed e).asleep id s hstep hs
    obtain ⟨call, owner, timer, hcall, hstage⟩ := h.asleep id s₀ hs₀
    refine ⟨call, owner, timer, ?_, hstage⟩
    rw [get?_calls_after hnamed hstep, hcall]
    -- A number is not taken again while its call is in progress.
    rintro op rfl
    have hnone := he.1
    rw [hcall] at hnone
    cases hnone

theorem Accounted.held_after (h : env.Accounted base) {e : Event} (he : e.Orderly env)
    {u : TxnId} {res : Resource}
    (hheld : (env.after e).locks.shared.table.holding u res ≠ none) :
    ((env.after e).txn u).isActive = true ∨ (env.after e).InCharge u := by
  have hoccurs := env.occurs h.covered.numbered.named e
  by_cases hstep : ∃ id, e = .step id
  · obtain ⟨id, rfl⟩ := hstep
    exact (step_spec h.covered.numbered.named id).held h hheld
  -- Calls that have their locks go on having them.
  have hcharge (hcharge : env.InCharge u) : (env.after e).InCharge u := by
    obtain ⟨id, call, hcall, hholder⟩ := hcharge
    refine ⟨id, call, ?_, hholder⟩
    rw [get?_calls_after h.covered.numbered.named fun heq => hstep ⟨id, heq⟩, hcall]
    rintro op rfl
    have hnone := he.1
    rw [hcall] at hnone
    cases hnone
  by_cases hdrop : e = .drop u
  · subst hdrop
    generalize env.after (.drop u) = env' at hoccurs hheld hcharge ⊢
    cases hoccurs with
    | pass => exact h.held u res hheld
    | drop =>
      refine absurd ?_ hheld
      change (env.locks.act (LockState.releaseAll u)).1.shared.table.holding u res = none
      rw [Monitor.shared_act]
      exact h.tidy.holding_releaseAll u res
  have hother : ¬e.Concerns env u := by
    cases e with
    | step id => exact absurd ⟨id, rfl⟩ hstep
    | drop txn => exact fun heq => hdrop (by rw [show txn = u from heq])
    | _ => exact id
  have hbefore : env.locks.shared.table.holding u res ≠ none := by
    intro hnone
    refine hheld ?_
    generalize env.after e = env' at hoccurs ⊢
    cases hoccurs with
    | step => exact absurd ⟨_, rfl⟩ hstep
    | drop =>
      exact (env.locks.holding_releaseAll (fun heq => hdrop (by rw [heq])) res).trans hnone
    | cancel =>
      rw [cancel, Monitor.shared_cancel]
      exact hnone
    | wake =>
      rw [Monitor.shared_wake]
      exact hnone
    | _ => exact hnone
  exact (h.held u res hbefore).imp (isActive_after h.covered.numbered hother) hcharge

/-- **An orderly event keeps all locks accounted for.** -/
theorem Accounted.after (h : env.Accounted base) {e : Event} (he : e.Orderly env)
    (hroom : base.since env.nextTxn + 1 < UInt64.size) : (env.after e).Accounted base := by
  have hnamed := h.covered.numbered.named
  obtain ⟨events, horderly, hlocks⟩ := h.locks_after he
  refine ⟨h.covered.after he hroom, h.checked.after h.covered.numbered h.covered.single he,
    fun id call' txn hcall' htxn hgoes howner => ?_,
    fun id id' call call' owner => h.apart_after, ?_, ?_, fun id s => h.asleep_after he,
    fun u res => h.held_after he⟩
  · rcases call_cases hnamed hcall' with ⟨op, timer, -, rfl⟩ | rfl | ⟨hstep, hcall⟩
    · cases howner
    · exact (step_spec hnamed id).active h hcall' htxn hgoes howner
    · exact isActive_after h.covered.numbered (h.covered.single.not_concerns he hstep hcall htxn)
        (h.active id call' txn hcall htxn hgoes howner)
  · rw [hlocks]
    exact LockTable.invariant_tidy.run h.tidy events
  · rw [hlocks]
    exact LockManager.consistent_of_run h.consistent horderly

theorem Accounted.run (h : env.Accounted base) {events : List Event}
    (horderly : env.Orderly events)
    (hroom : base.since env.nextTxn + events.length < UInt64.size) :
    (env.run events).Accounted base ∧
      base.since (env.run events).nextTxn ≤ base.since env.nextTxn + events.length :=
  ⟨h.covered.numbered.run_induction (·.Accounted base) horderly hroom
      (fun _ he hnext h => h.after he hnext) h,
    (h.covered.numbered.run events hroom).2⟩

end Environment
end WalStore

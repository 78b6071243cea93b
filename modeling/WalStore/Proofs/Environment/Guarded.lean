import WalStore.Proofs.Environment.Run
import WalStore.Proofs.Lock.Held
import WalStore.Proofs.Pending

/-!
# Work under locks

Serializable transactions lock in two phases: whatever a transaction has read or written it has
locked, and it keeps the locks until its end. A write outside transactions has a lock of its own
when it is logged.

**Invariant (`Guarded`).** Every call that has its lock holds it, as long as its transaction may
commit; all pending work of a transaction that may commit stands under locks that the transaction
holds; and only transactions that are over release.
-/

namespace WalStore

namespace Environment

open LockManager (Keeps)

/-! ## Owners -/

/-- The owner of the lock of a call, once it has asked for one. -/
def Stage.owner? : Stage → Option TxnId
  | entered | admitted _ => none
  | waiting owner _ | granted owner _ | releasing owner _ => some owner

/-- `owner` is the transaction of the operation, or else a locker. -/
def Owns (env : Environment) (base : TxnId) (op : Op) (owner : TxnId) : Prop :=
  match op.txn? with
  | some txn => owner = txn ∧ (env.txns.get? txn).isSome = true
  | none => env.txns.get? owner = none ∧ base.since owner < base.since env.nextTxn

/-- `env'` comes later than `env`, as far as ids go. -/
structure Precedes (env : Environment) (base : TxnId) (env' : Environment) : Prop where
  isSome : ∀ txn, (env.txns.get? txn).isSome = true → (env'.txns.get? txn).isSome = true
  eq_none : ∀ txn, env.txns.get? txn = none → base.since txn < base.since env.nextTxn →
    env'.txns.get? txn = none
  mayCommit : ∀ txn, env'.MayCommit txn → env.MayCommit txn
  since_nextTxn : base.since env.nextTxn ≤ base.since env'.nextTxn

variable {env env' : Environment} {base : TxnId} {id : Nat} {result : Option Result}

theorem Inherits.get?_eq_none {txns txns' : SortedMap TxnId Transaction} (h : Inherits txns txns')
    {txn : TxnId} (hnone : txns.get? txn = none) : txns'.get? txn = none := by
  cases ht' : txns'.get? txn with
  | none => rfl
  | some t' =>
    obtain ⟨t, ht, -⟩ := h.exists_of_get? ht'
    rw [hnone] at ht
    cases ht

theorem Inherits.isSome {txns txns' : SortedMap TxnId Transaction} (h : Inherits txns txns')
    {txn : TxnId} (hsome : (txns.get? txn).isSome = true) : (txns'.get? txn).isSome = true := by
  obtain ⟨t, ht⟩ := Option.isSome_iff_exists.1 hsome
  obtain ⟨t', ht', -⟩ := h.exists_get? ht
  rw [ht']
  rfl

theorem precedes_after (h : env.Numbered base) (hroom : base.since env.nextTxn + 1 < UInt64.size)
    (e : Event) : env.Precedes base (env.after e) := by
  refine ⟨fun txn hsome => ?_, fun txn hnone hlt => ?_, fun txn => h.mayCommit_after,
    (since_nextTxn_after h hroom e).1⟩ <;>
    rcases txns_after h.named e with ⟨-, htxns⟩ | ⟨config, timeouts, -, -, htxns⟩
  · exact htxns.isSome hsome
  · rw [htxns, SortedMap.get?_insert]
    split
    · rfl
    · exact hsome
  · exact htxns.get?_eq_none hnone
  · have hne : txn ≠ env.nextTxn := fun heq => Nat.lt_irrefl _ (heq ▸ hlt)
    rw [htxns, SortedMap.get?_insert, if_neg hne, hnone]

theorem Owns.mono {op : Op} {owner : TxnId} (h : env.Owns base op owner)
    (hlater : env.Precedes base env') : env'.Owns base op owner := by
  unfold Owns at h ⊢
  cases htxn : op.txn? with
  | some txn =>
    rw [htxn] at h
    exact ⟨h.1, hlater.isSome txn h.2⟩
  | none =>
    rw [htxn] at h
    exact ⟨hlater.eq_none owner h.1 h.2, Nat.lt_of_lt_of_le h.2 hlater.since_nextTxn⟩

/-! ## The invariant -/

/-- The owner holds a lock on the key. -/
def Locks (env : Environment) (owner : TxnId) (key : Bytes) (mode : Mode) : Prop :=
  env.locks.shared.table.Holds owner ⟨key⟩ mode

/-- The call with number `id` has the owner it is to have, and a request asleep is its own. -/
structure Call.Asking (env : Environment) (base : TxnId) (id : Nat) (call : Call) : Prop where
  owns : ∀ owner, call.stage.owner? = some owner → env.Owns base call.op owner
  waiting : ∀ owner timer s, call.stage = .waiting owner timer →
    env.locks.sleepers.get? id = some s → s.memory.request.txn = owner ∧
      s.memory.request.resource = ⟨call.op.key⟩ ∧ s.memory.request.mode = call.op.mode

/-- The call with number `id` has the locks that its stage needs. -/
structure Call.Guarded (env : Environment) (base : TxnId) (id : Nat) (call : Call) : Prop where
  owns : ∀ owner, call.stage.owner? = some owner → env.Owns base call.op owner
  waiting : ∀ owner timer s, call.stage = .waiting owner timer →
    env.locks.sleepers.get? id = some s → s.memory.request.txn = owner ∧
      s.memory.request.resource = ⟨call.op.key⟩ ∧ s.memory.request.mode = call.op.mode
  granted : ∀ owner g, call.stage = .granted owner g → env.MayCommit owner →
    env.Locks owner call.op.key call.op.mode
  /-- No read gives its lock back, and transactions that release are over. -/
  releasing : ∀ owner result, call.stage = .releasing owner result →
    (∀ txn key, call.op ≠ .get txn key) ∧ ∀ txn, call.op.txn? = some txn → ¬env.MayCommit txn

structure Guarded (env : Environment) (base : TxnId) : Prop where
  numbered : env.Numbered base
  exclusive : env.locks.shared.table.Exclusive
  serializable : ∀ txn t, env.txns.get? txn = some t → t.isolation = .serializable
  calls : ∀ id call, env.calls.get? id = some call → call.Guarded env base id
  /-- Writes outside transactions do not share a locker. -/
  apart : ∀ id id' call call' owner, env.calls.get? id = some call →
    env.calls.get? id' = some call' → call.op.txn? = none → call'.op.txn? = none →
    call.stage.owner? = some owner → call'.stage.owner? = some owner → id = id'
  work : ∀ txn key, env.MayCommit txn → (env.state.workOf txn).Touches key →
    (env.txns.get? txn).isSome = true ∧ env.Locks txn key .write

theorem Call.Guarded.asking {call : Call} (h : call.Guarded env base id) :
    call.Asking env base id := ⟨h.owns, h.waiting⟩

theorem Call.Guarded.mono {call : Call} (h : call.Guarded env base id)
    (hlater : env.Precedes base env') {P : TxnId → Prop} {Q : Nat → Prop}
    (hkeeps : Keeps P Q env.locks env'.locks) (hid : Q id)
    (howner : ∀ owner, call.stage.owner? = some owner → env'.MayCommit owner → P owner) :
    call.Guarded env' base id := by
  refine ⟨fun owner ho => (h.owns owner ho).mono hlater, fun owner timer s' hstage hs' => ?_,
    fun owner g hstage hmay => ?_, fun owner result hstage => ?_⟩
  · obtain ⟨s, hs, hmemory⟩ := hkeeps.asleep id s' hid hs'
    rw [hmemory]
    exact h.waiting owner timer s hstage hs
  · have hkept : P owner := howner owner (by rw [hstage]; rfl) hmay
    exact hkeeps.holds owner _ _ hkept (h.granted owner g hstage (hlater.mayCommit owner hmay))
  · obtain ⟨hget, hover⟩ := h.releasing owner result hstage
    exact ⟨hget, fun txn htxn hmay => hover txn htxn (hlater.mayCommit txn hmay)⟩

theorem Opened.guarded {config : Config} {rs : List Record} (h : env.Opened config rs) :
    env.Guarded env.nextTxn where
  numbered := h.tracks.numbered
  exclusive := by
    rw [h.locks]
    exact LockTable.exclusive_empty
  serializable := fun txn t ht => by
    rw [h.txns] at ht
    cases ht
  calls := fun id call hcall => by
    rw [h.calls] at hcall
    cases hcall
  apart := fun id id' call call' owner hcall => by
    rw [h.calls] at hcall
    cases hcall
  work := fun txn key _ htouches => by
    rw [Replay.State.workOf, SortedMap.getD, h.pending txn] at htouches
    exact absurd htouches (Pending.not_touches_empty key)

/-! ## What is logged, and under which locks -/

/-- The lock that goes with an entry: that of its transaction, if it may commit, or of a locker. -/
def LocksFor (env : Environment) : Entry → Prop
  | .txnPut txn key _ | .txnDelete txn key _ =>
    (env.txns.get? txn).isSome = true ∧ (env.MayCommit txn → env.Locks txn key .write)
  | .put key _ | .delete key _ => ∃ owner, env.txns.get? owner = none ∧ env.Locks owner key .write
  | .commit _ | .abort _ => True

theorem Guarded.locksFor (h : env.Guarded base) {entry : Entry} (hcause : Cause env env' entry) :
    env.LocksFor entry := by
  cases hcause with
  | abort => trivial
  | commit => trivial
  | @write id call owner g entry hcall hstage hentry =>
    have hguarded := h.calls id call hcall
    have howns := hguarded.owns owner (by rw [hstage]; rfl)
    have hlocks := hguarded.granted owner g hstage
    unfold Owns at howns
    cases hop : call.op with
    | put | delete =>
      rw [hop] at hentry howns hlocks
      cases hentry
      obtain ⟨rfl, hsome⟩ := howns
      exact ⟨hsome, hlocks⟩
    | putNow | deleteNow =>
      rw [hop] at hentry howns hlocks
      cases hentry
      refine ⟨owner, howns.1, hlocks fun t ht => ?_⟩
      rw [howns.1] at ht
      cases ht
    | _ =>
      rw [hop] at hentry
      cases hentry

/-- What keeps the locks of transactions keeps their work locked. -/
theorem Guarded.work_after (h : env.Guarded base) {rs rs' : List Record}
    (heffect : Effect env rs env' rs') (hlater : env.Precedes base env')
    (hlocks : ∀ txn key mode, env'.MayCommit txn → (env.txns.get? txn).isSome = true →
      env.Locks txn key mode → env'.Locks txn key mode) (txn : TxnId) (key : Bytes)
    (hmay : env'.MayCommit txn) (htouches : (env'.state.workOf txn).Touches key) :
    (env'.txns.get? txn).isSome = true ∧ env'.Locks txn key .write := by
  have hmay₀ := hlater.mayCommit txn hmay
  suffices hbefore : (env.txns.get? txn).isSome = true ∧ env.Locks txn key .write from
    ⟨hlater.isSome txn hbefore.1, hlocks txn key .write hmay hbefore.1 hbefore.2⟩
  cases heffect with
  | quiet _ hstate =>
    rw [hstate] at htouches
    exact h.work txn key hmay₀ htouches
  | @forget dropped _ hover hstate =>
    have hne : txn ≠ dropped := fun heq => hover (heq ▸ hmay)
    rw [hstate, Replay.State.workOf_discard, if_neg hne] at htouches
    exact h.work txn key hmay₀ htouches
  | @logs r _ _ happly hcause =>
    have hlocked := h.locksFor hcause
    rcases Replay.State.touches_apply happly htouches with
      hbefore | ⟨value, hentry⟩ | ⟨value, hentry⟩
    · exact h.work txn key hmay₀ hbefore
    · rw [hentry] at hlocked
      exact ⟨hlocked.1, hlocked.2 hmay₀⟩
    · rw [hentry] at hlocked
      exact ⟨hlocked.1, hlocked.2 hmay₀⟩

theorem Asks.keeps {call : Call} {owner nextTxn : TxnId} {locks : LockManager}
    {outcome : Option LockState.Outcome} (h : Asks env id call owner nextTxn locks outcome) :
    Keeps (fun _ => True) (· ≠ id) env.locks locks := by
  cases h with
  | direct | inTxn => exact (env.locks.enter_keeps ..).1
  | again => exact (env.locks.recheck_keeps ..).1

/-- The owner that a call asks for: its transaction, its locker so far, or a new locker. -/
theorem Asks.owns {call : Call} {owner nextTxn : TxnId} {locks : LockManager}
    {outcome : Option LockState.Outcome} (h : Asks env id call owner nextTxn locks outcome)
    (hasking : call.Asking env base id) (hnumbered : env.Numbered base)
    (hcall : env.calls.get? id = some call) (hroom : base.since env.nextTxn + 1 < UInt64.size)
    (hlater : env.Precedes base env') (htxns : Inherits env.txns env'.txns)
    (hnext : env'.nextTxn = nextTxn) :
    env'.Owns base call.op owner ∧
      (call.op.txn? = none → owner = env.nextTxn ∨ ∃ before, env.calls.get? id = some before ∧
        before.op.txn? = none ∧ before.stage.owner? = some owner) := by
  cases h with
  | direct hstage htxn =>
    refine ⟨?_, fun _ => .inl rfl⟩
    unfold Owns
    rw [htxn, hnext, TxnId.since_next hroom]
    exact ⟨htxns.get?_eq_none hnumbered.get?_nextTxn, Nat.lt_succ_self _⟩
  | inTxn hstage htxn hactive =>
    refine ⟨?_, fun hnone => ?_⟩
    · unfold Owns
      rw [htxn]
      refine ⟨rfl, hlater.isSome _ ?_⟩
      rw [get?_of_isActive hactive]
      rfl
    · rw [hnone] at htxn
      cases htxn
  | again hstage =>
    have howner : call.stage.owner? = some owner := by
      rw [hstage]
      rfl
    exact ⟨(hasking.owns owner howner).mono hlater,
      fun htxn => .inr ⟨call, hcall, htxn, howner⟩⟩

/-- A request asleep is the one that its call has made. -/
theorem Asks.waiting {call : Call} {owner nextTxn : TxnId} {locks : LockManager}
    {outcome : Option LockState.Outcome} (h : Asks env id call owner nextTxn locks outcome)
    (hasking : call.Asking env base id) {s : Monitor.Sleeper Waiting}
    (hs : locks.sleepers.get? id = some s) :
    s.memory.request.txn = owner ∧ s.memory.request.resource = ⟨call.op.key⟩ ∧
      s.memory.request.mode = call.op.mode := by
  cases h with
  | direct | inTxn =>
    rw [(env.locks.enter_keeps ..).2.1 s hs]
    exact ⟨rfl, rfl, rfl⟩
  | again hstage =>
    obtain ⟨s', hs', hmemory⟩ := (env.locks.recheck_keeps ..).2.1 s hs
    rw [hmemory]
    exact hasking.waiting owner _ s' hstage hs'

theorem Asks.granted {call : Call} {owner nextTxn : TxnId} {locks : LockManager} {g : Grant}
    (h : Asks env id call owner nextTxn locks (some (.ok g)))
    (hasking : call.Asking env base id) :
    locks.shared.table.Holds owner ⟨call.op.key⟩ call.op.mode := by
  generalize houtcome : some (Except.ok g) = outcome at h
  cases h with
  | direct | inTxn => exact (env.locks.enter_keeps ..).2.2 g houtcome.symm
  | again hstage =>
    obtain ⟨s, hs, hholds⟩ := (env.locks.recheck_keeps ..).2.2 g houtcome.symm
    obtain ⟨htxn, hres, hmode⟩ := hasking.waiting owner _ s hstage hs
    rw [htxn, hres, hmode] at hholds
    exact hholds

/-! ## Steps -/

/-- `owner` is a transaction, or the locker of another call than `id`. -/
def Engaged (env : Environment) (id : Nat) (owner : TxnId) : Prop :=
  (env.txns.get? owner).isSome = true ∨ ∃ id' call, id' ≠ id ∧ env.calls.get? id' = some call ∧
    call.op.txn? = none ∧ call.stage.owner? = some owner

theorem Owns.engaged {call : Call} {id' : Nat} {owner : TxnId} (h : env.Owns base call.op owner)
    (hne : id' ≠ id) (hcall : env.calls.get? id' = some call)
    (howner : call.stage.owner? = some owner) : env.Engaged id owner := by
  unfold Owns at h
  cases htxn : call.op.txn? with
  | some txn =>
    rw [htxn] at h
    exact .inl (h.1 ▸ h.2)
  | none => exact .inr ⟨id', call, hne, hcall, htxn, howner⟩

/-- A step takes no locks away from others that may need them. -/
theorem Step.keeps (h : Step env id env' result) (hguarded : env.Guarded base)
    (hlater : env.Precedes base env') :
    Keeps (fun owner => env'.MayCommit owner ∧ env.Engaged id owner) (· ≠ id)
      env.locks env'.locks := by
  cases h with
  | wait _ hasks | deny _ hasks | lock _ _ hasks | take _ _ hasks =>
    exact hasks.keeps.mono (fun _ _ => trivial) fun _ hne => hne
  | giveBack hcall hstage hop =>
    exact absurd hop (((hguarded.calls _ _ hcall).releasing _ _ hstage).1 _ _)
  | @leave call owner result tracker counters hcall hstage hop =>
    refine (env.locks.releaseAll_keeps owner).mono (fun owner' hengaged heq => ?_)
      fun _ _ => trivial
    have hcall' := hguarded.calls _ _ hcall
    have howner : call.stage.owner? = some owner := by
      rw [hstage]
      rfl
    have howns := hcall'.owns owner howner
    obtain ⟨hmay, hengaged⟩ := hengaged
    rw [heq] at hmay hengaged
    unfold Owns at howns
    cases htxn : call.op.txn? with
    | some txn =>
      rw [htxn] at howns
      have hmay₀ := hlater.mayCommit owner hmay
      rw [howns.1] at hmay₀
      exact (hcall'.releasing owner result hstage).2 txn htxn hmay₀
    | none =>
      rw [htxn] at howns
      rcases hengaged with hsome | ⟨id', call', hne, hcall', htxn', howner'⟩
      · rw [howns.1] at hsome
        cases hsome
      · exact hne (hguarded.apart id' _ call' call owner hcall' hcall htxn' htxn howner' howner)
  | _ => exact env.locks.keeps_refl.mono (fun _ _ => trivial) fun _ _ => trivial

theorem Guarded.isolation_eq (h : env.Guarded base) (txn : TxnId) :
    (env.txn txn).isolation = .serializable := by
  unfold Environment.txn SortedMap.getD
  cases hget : env.txns.get? txn with
  | none => rfl
  | some t => exact h.serializable txn t hget

/-- A transaction that is over needs no locks to release them. -/
theorem Resolves.guarded {txn : TxnId} {state : TxnState}
    (h : Resolves txn state env.txns env'.txns) (hstate : state ≠ .active) {call : Call}
    (hop : call.op = .abort txn ∨ call.op = .commit txn) {result : Result}
    (hstage : call.stage = .releasing txn result) : call.Guarded env' base id := by
  have htxn : call.op.txn? = some txn := by
    rcases hop with hop | hop <;> rw [hop] <;> rfl
  refine ⟨fun owner howner => ?_, ?_, ?_, fun owner result _ => ⟨?_, fun txn' htxn' => ?_⟩⟩
  · rw [hstage] at howner
    cases howner
    unfold Owns
    rw [htxn]
    obtain ⟨⟨t, t', -, -, -, ht'⟩, -⟩ := h
    exact ⟨rfl, by rw [ht']; rfl⟩
  · rw [hstage]
    nofun
  · rw [hstage]
    nofun
  · rcases hop with hop | hop <;> rw [hop] <;> nofun
  · rw [htxn] at htxn'
    cases htxn'
    exact h.not_mayCommit hstate

/-- The call that has taken the step has the locks that its new stage needs, and is the only one
that can have a new locker. -/
theorem Step.guarded_call (h : Step env id env' result) (hguarded : env.Guarded base)
    (hroom : base.since env.nextTxn + 1 < UInt64.size) (hlater : env.Precedes base env')
    {call' : Call} (hcall' : env'.calls.get? id = some call') :
    call'.Guarded env' base id ∧
      (call'.op.txn? = none → ∀ owner, call'.stage.owner? = some owner → owner = env.nextTxn ∨
        ∃ call, env.calls.get? id = some call ∧ call.op.txn? = none ∧
          call.stage.owner? = some owner) := by
  have htxns := h.inherits
  cases h with
  | idle hcall =>
    rw [hcall] at hcall'
    cases hcall'
  | accept =>
    rw [SortedMap.get?_insert, if_pos rfl] at hcall'
    cases hcall'
    exact ⟨⟨nofun, nofun, nofun, nofun⟩, fun _ => nofun⟩
  | @wait call owner nextTxn locks timer tracker hcall hasks =>
    rw [SortedMap.get?_insert, if_pos rfl] at hcall'
    cases hcall'
    have hasking := (hguarded.calls id call hcall).asking
    obtain ⟨howns, hlocker⟩ :=
      hasks.owns hasking hguarded.numbered hcall hroom hlater htxns rfl
    refine ⟨⟨fun o ho => ?_, fun o _ s hstage hs => ?_, nofun, nofun⟩, fun htxn o ho => ?_⟩
    · cases ho
      exact howns
    · cases hstage
      exact hasks.waiting hasking hs
    · cases ho
      exact hlocker htxn
  | @take call owner nextTxn locks g tracker hcall hop hasks =>
    rw [SortedMap.get?_insert, if_pos rfl] at hcall'
    cases hcall'
    have hasking := (hguarded.calls id call hcall).asking
    obtain ⟨howns, hlocker⟩ :=
      hasks.owns hasking hguarded.numbered hcall hroom hlater htxns rfl
    refine ⟨⟨fun o ho => ?_, nofun, fun o g hstage _ => ?_, nofun⟩, fun htxn o ho => ?_⟩
    · cases ho
      exact howns
    · cases hstage
      exact hasks.granted hasking
    · cases ho
      exact hlocker htxn
  | abort _ _ hop _ _ hresolves =>
    rw [SortedMap.get?_insert, if_pos rfl] at hcall'
    cases hcall'
    refine ⟨hresolves.guarded (by decide) (hop.imp_right And.left) rfl, fun htxn => ?_⟩
    rcases hop with hop | ⟨hop, -⟩ <;> rw [hop] at htxn <;> cases htxn
  | commit _ _ hop _ _ _ hresolves =>
    rw [SortedMap.get?_insert, if_pos rfl] at hcall'
    cases hcall'
    refine ⟨hresolves.guarded (by decide) (.inr hop) rfl, fun htxn => ?_⟩
    rw [hop] at htxn
    cases htxn
  | @writeNow call owner g entry _ _ _ _ hcall hstage hentry htxn _ =>
    rw [SortedMap.get?_insert, if_pos rfl] at hcall'
    cases hcall'
    have howner : call.stage.owner? = some owner := by
      rw [hstage]
      rfl
    refine ⟨⟨fun o ho => ?_, nofun, nofun, fun o r hstage' => ⟨fun t k hop => ?_, fun t ht => ?_⟩⟩,
      fun _ o ho => ?_⟩
    · cases ho
      exact ((hguarded.calls _ _ hcall).owns owner howner).mono hlater
    · rw [show call.op = .get t k from hop] at hentry
      cases hentry
    · rw [show call.op.txn? = some t from ht] at htxn
      cases htxn
    · cases ho
      exact .inr ⟨call, hcall, htxn, howner⟩
  | readOnce _ _ _ hisolation _ =>
    rw [hguarded.isolation_eq] at hisolation
    cases hisolation
  | _ =>
    rw [SortedMap.get?_erase, if_pos rfl] at hcall'
    cases hcall'

/-! ## Events -/

/-- From `env` to `env'` only the call with number `id` goes on, and it has the locks it needs; no
others lose locks that they may need. -/
structure Goes (env : Environment) (base : TxnId) (id : Nat) (env' : Environment) : Prop where
  keeps : Keeps (fun owner => env'.MayCommit owner ∧ env.Engaged id owner) (· ≠ id)
    env.locks env'.locks
  others : ∀ id', id' ≠ id → env'.calls.get? id' = env.calls.get? id'
  guarded : ∀ call', env'.calls.get? id = some call' → call'.Guarded env' base id
  /-- Only this call can have a new locker. -/
  owner : ∀ call', env'.calls.get? id = some call' → call'.op.txn? = none →
    ∀ owner, call'.stage.owner? = some owner → owner = env.nextTxn ∨
      ∃ call, env.calls.get? id = some call ∧ call.op.txn? = none ∧
        call.stage.owner? = some owner

theorem Guarded.of_goes (h : env.Guarded base) {rs rs' : List Record}
    (hgoes : env.Goes base id env') (hnumbered : env'.Numbered base)
    (hserializable : ∀ txn t, env'.txns.get? txn = some t → t.isolation = .serializable)
    (hlater : env.Precedes base env') (heffect : Effect env rs env' rs') : env'.Guarded base := by
  -- A direct call other than `id` has had its locker before, so it is not a new one.
  have hold {id' : Nat} {call' : Call} {owner : TxnId} (hne : id' ≠ id)
      (hcall' : env'.calls.get? id' = some call') (htxn : call'.op.txn? = none)
      (howner : call'.stage.owner? = some owner) :
      env.calls.get? id' = some call' ∧ owner ≠ env.nextTxn := by
    rw [hgoes.others id' hne] at hcall'
    refine ⟨hcall', fun heq => ?_⟩
    have howns := (h.calls id' call' hcall').owns owner howner
    unfold Owns at howns
    rw [htxn, heq] at howns
    exact Nat.lt_irrefl _ howns.2
  have hapart {id' : Nat} {call call' : Call} {owner : TxnId} (hne : id' ≠ id)
      (hcall₁ : env'.calls.get? id = some call) (hcall₂ : env'.calls.get? id' = some call')
      (htxn : call.op.txn? = none) (htxn' : call'.op.txn? = none)
      (howner : call.stage.owner? = some owner) (howner' : call'.stage.owner? = some owner) :
      False := by
    obtain ⟨hcall₂, hne'⟩ := hold hne hcall₂ htxn' howner'
    rcases hgoes.owner call hcall₁ htxn owner howner with heq | ⟨before, hbefore, htxn₀, howner₀⟩
    · exact hne' heq
    · exact hne (h.apart id' id call' before owner hcall₂ hbefore htxn' htxn₀ howner' howner₀)
  refine ⟨hnumbered, hgoes.keeps.exclusive h.exclusive, hserializable, fun id' call' hcall' => ?_,
    fun id₁ id₂ call₁ call₂ owner hcall₁ hcall₂ htxn₁ htxn₂ howner₁ howner₂ => ?_,
    h.work_after heffect hlater fun txn key mode hmay hsome hlocks =>
      hgoes.keeps.holds txn _ _ ⟨hmay, .inl hsome⟩ hlocks⟩
  · by_cases hid : id' = id
    · subst hid
      exact hgoes.guarded call' hcall'
    · rw [hgoes.others id' hid] at hcall'
      have hguarded := h.calls id' call' hcall'
      exact hguarded.mono hlater hgoes.keeps hid fun owner howner hmay =>
        ⟨hmay, (hguarded.owns owner howner).engaged hid hcall' howner⟩
  · by_cases hid₁ : id₁ = id
    · by_cases hid₂ : id₂ = id
      · exact hid₁.trans hid₂.symm
      · subst hid₁
        exact (hapart hid₂ hcall₁ hcall₂ htxn₁ htxn₂ howner₁ howner₂).elim
    · by_cases hid₂ : id₂ = id
      · subst hid₂
        exact (hapart hid₁ hcall₂ hcall₁ htxn₂ htxn₁ howner₂ howner₁).elim
      · obtain ⟨hcall₁, -⟩ := hold hid₁ hcall₁ htxn₁ howner₁
        obtain ⟨hcall₂, -⟩ := hold hid₂ hcall₂ htxn₂ howner₂
        exact h.apart id₁ id₂ call₁ call₂ owner hcall₁ hcall₂ htxn₁ htxn₂ howner₁ howner₂

/-- No call goes on, and only owners that are over can lose locks. -/
theorem Guarded.goes_of_calls_eq (h : env.Guarded base) (hlater : env.Precedes base env')
    {P : TxnId → Prop} (hkeeps : Keeps P (fun _ => True) env.locks env'.locks)
    (howner : ∀ owner, env'.MayCommit owner → P owner) (hcalls : env'.calls = env.calls) :
    env.Goes base 0 env' := by
  refine ⟨hkeeps.mono (fun owner hengaged => howner owner hengaged.1) fun _ _ => trivial,
    fun id' _ => by rw [hcalls], fun call' hcall' => ?_, fun call' hcall' htxn owner ho => ?_⟩
  · rw [hcalls] at hcall'
    exact (h.calls 0 call' hcall').mono hlater hkeeps trivial fun owner _ => howner owner
  · rw [hcalls] at hcall'
    exact .inr ⟨call', hcall', htxn, ho⟩

theorem Guarded.exists_goes (h : env.Guarded base)
    (hroom : base.since env.nextTxn + 1 < UInt64.size) (e : Event) :
    ∃ id, env.Goes base id (env.after e) := by
  have hlater := precedes_after h.numbered hroom e
  have hoccurs := env.occurs h.numbered.named e
  generalize env.after e = env' at hlater hoccurs ⊢
  have hquiet (hlocks : Keeps (fun _ => True) (fun _ => True) env.locks env'.locks)
      (hcalls : env'.calls = env.calls) : ∃ id, env.Goes base id env' :=
    ⟨0, h.goes_of_calls_eq hlater hlocks (fun _ _ => trivial) hcalls⟩
  cases hoccurs with
  | @step id _ _ hstep =>
    exact ⟨id, hstep.keeps h hlater, fun id' => hstep.get?_calls_of_ne,
      fun call' hcall' => (hstep.guarded_call h hroom hlater hcall').1,
      fun call' hcall' => (hstep.guarded_call h hroom hlater hcall').2⟩
  | @start id op tracker timer =>
    refine ⟨id, env.locks.keeps_refl.mono (fun _ _ => trivial) fun _ _ => trivial,
      fun id' hne => (SortedMap.get?_insert ..).trans (if_neg hne), fun call' hcall' => ?_,
      fun call' hcall' _ owner ho => ?_⟩ <;>
      rw [SortedMap.get?_insert, if_pos rfl] at hcall' <;> cases hcall'
    · constructor <;> intros <;> contradiction
    · cases ho
  | @drop txn _ _ htxns =>
    exact ⟨0, h.goes_of_calls_eq hlater (env.locks.releaseAll_keeps txn)
      (fun owner hmay heq => htxns.not_mayCommit (by decide) (heq ▸ hmay)) rfl⟩
  | cancel => exact hquiet (env.locks.cancel_keeps _) rfl
  | wake => exact hquiet (env.locks.wake_keeps _) rfl
  | _ => exact hquiet env.locks.keeps_refl rfl

/-- A transaction that goes on keeps its locks. -/
theorem Guarded.locks_after (h : env.Guarded base)
    (hroom : base.since env.nextTxn + 1 < UInt64.size) {e : Event} {txn : TxnId} {key : Bytes}
    {mode : Mode} (hsome : (env.txns.get? txn).isSome = true) (hmay : (env.after e).MayCommit txn)
    (hlocks : env.Locks txn key mode) : (env.after e).Locks txn key mode := by
  obtain ⟨id, hgoes⟩ := h.exists_goes hroom e
  exact hgoes.keeps.holds txn _ _ ⟨hmay, .inl hsome⟩ hlocks

theorem Guarded.after (h : env.Guarded base) {rs rs' : List Record}
    (hroom : base.since env.nextTxn + 1 < UInt64.size) {e : Event}
    (hserializable : ∀ config, e = .begin config → config.isolation = .serializable)
    (heffect : Effect env rs (env.after e) rs') : (env.after e).Guarded base := by
  obtain ⟨id, hgoes⟩ := h.exists_goes hroom e
  refine h.of_goes hgoes (h.numbered.after hroom e) (fun txn t ht => ?_)
    (precedes_after h.numbered hroom e) heffect
  rcases txns_after h.numbered.named e with ⟨-, htxns⟩ | ⟨config, timeouts, he, -, htxns⟩
  · obtain ⟨t₀, ht₀, hdescends⟩ := htxns.exists_of_get? ht
    exact hdescends.isolation.trans (h.serializable txn t₀ ht₀)
  · rw [htxns, SortedMap.get?_insert] at ht
    split at ht
    · cases ht
      exact hserializable config he
    · exact h.serializable txn t ht

end Environment
end WalStore

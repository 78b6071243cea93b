import WalStore.Proofs.Environment.Guarded
import WalStore.Proofs.Environment.Orderly
import WalStore.Proofs.Lock.Holding

/-!
# Work under write locks, at any isolation

Serializable transactions keep all their locks, and their work stands under write locks for that
reason. Here a read may give its lock back.

**Invariant (`Covered`).** All pending work of a transaction that may commit stands under write
locks that the transaction holds. A read gives back its lock only if that is new, and then its
transaction held nothing on the key when the read began (`Call.Covered.lent`). It holds the key for
reading only, so it cannot have work there, and since the transaction makes no other call meanwhile
it does not get any before the lock is gone.
-/

namespace WalStore

namespace Environment

open LockManager (Keeps)

variable {env env' : Environment} {base : TxnId} {id : Nat} {result : Option Result}

/-! ## The invariant -/

/-- Whether a read at this stage holds a lock that its transaction did not hold before. -/
def Stage.hasNew : Stage → Bool
  | entered | admitted _ | waiting .. => false
  | granted _ g => g.isNew
  | releasing .. => true

theorem Stage.isSome_owner? {stage : Stage} (h : stage.hasNew = true) :
    stage.owner?.isSome = true := by
  cases stage with
  | entered | admitted | waiting => cases h
  | granted | releasing => rfl

theorem Stage.hasNew_of_isEarly {stage : Stage} (h : stage.isEarly = true) :
    stage.hasNew = false := by
  cases stage with
  | entered | admitted => rfl
  | waiting | granted | releasing => cases h

/-- The call with number `id` has the locks that its stage needs. -/
structure Call.Covered (env : Environment) (base : TxnId) (id : Nat) (call : Call) : Prop
    extends call.Asking env base id where
  /-- Only operations that need a lock wait for one. -/
  asks : ∀ owner timer, call.stage = .waiting owner timer → call.op.resolves = false
  /-- What has a lock to work under writes or reads. -/
  works : ∀ owner g, call.stage = .granted owner g → call.op.entry? = none →
    ∃ txn key, call.op = .get txn key
  granted : ∀ txn g, call.op.txn? = some txn → call.stage = .granted txn g →
    env.Locks txn call.op.key call.op.mode
  /-- A transaction that waits to read a key, or will give back its lock on it, has no other. -/
  lent : ∀ txn key, call.op = .get txn key →
    (∀ owner timer, call.stage = .waiting owner timer →
      env.locks.shared.table.holding txn ⟨key⟩ = none) ∧
    (call.stage.hasNew = true → env.locks.shared.table.holding txn ⟨key⟩ = some .read)
  /-- But for reads, only transactions that are over release. -/
  releasing : ∀ owner result txn, call.stage = .releasing owner result →
    call.op.txn? = some txn → (∀ key, call.op ≠ .get txn key) → ¬env.MayCommit txn

structure Covered (env : Environment) (base : TxnId) : Prop where
  numbered : env.Numbered base
  single : env.Single
  exclusive : env.locks.shared.table.Exclusive
  calls : ∀ id call, env.calls.get? id = some call → call.Covered env base id
  work : ∀ txn key, env.MayCommit txn → (env.state.workOf txn).Touches key →
    (env.txns.get? txn).isSome = true ∧ env.Locks txn key .write

theorem Opened.covered_from {config : Config} {rs : List Record} (h : env.Opened config rs)
    (base : TxnId) : env.Covered base where
  numbered := (h.tracks_from base).numbered
  single := fun id id' call call' txn hcall => by
    rw [h.calls] at hcall
    cases hcall
  exclusive := h.guarded.exclusive
  calls := fun id call hcall => by
    rw [h.calls] at hcall
    cases hcall
  work := h.guarded.work

theorem Opened.covered {config : Config} {rs : List Record} (h : env.Opened config rs) :
    env.Covered env.nextTxn := h.covered_from env.nextTxn

/-- A lock for writing is all that an owner can hold on its key. -/
theorem locks_write_iff {txn : TxnId} {key : Bytes} :
    env.Locks txn key .write ↔ env.locks.shared.table.holding txn ⟨key⟩ = some .write := by
  constructor
  · rintro ⟨m, hm, hcovers⟩
    cases m with
    | read => cases hcovers
    | write => exact hm
  · exact fun h => ⟨.write, h, rfl⟩

/-- Who holds the same locks has the same locked. -/
theorem Locks.congr {txn : TxnId} {key : Bytes} {mode : Mode} (h : env.Locks txn key mode)
    (hsame : env'.locks.shared.table.holding txn ⟨key⟩ =
      env.locks.shared.table.holding txn ⟨key⟩) : env'.Locks txn key mode := by
  obtain ⟨m, hm, hcovers⟩ := h
  exact ⟨m, hsame.trans hm, hcovers⟩

/-! ## Who is concerned -/

/-- The owner of a call of another transaction, or of none, is another owner. -/
theorem Call.Asking.owner_ne {call : Call} (h : call.Asking env base id) {txn owner : TxnId}
    (hsome : (env.txns.get? txn).isSome = true) (hother : call.op.txn? ≠ some txn)
    (howner : call.stage.owner? = some owner) : txn ≠ owner := by
  have howns := h.owns owner howner
  unfold Owns at howns
  rintro rfl
  cases htxn : call.op.txn? with
  | some t =>
    rw [htxn] at howns hother
    exact hother (congrArg some howns.1.symm)
  | none =>
    rw [htxn] at howns
    rw [howns.1] at hsome
    cases hsome

/-- A call that asks for its lock changes nothing for other transactions. -/
theorem Asks.holding_of_ne {call : Call} {owner nextTxn : TxnId} {locks : LockManager}
    {outcome : Option LockState.Outcome} (h : Asks env id call owner nextTxn locks outcome)
    (hcovered : env.Covered base) (hcall : env.calls.get? id = some call) {txn : TxnId}
    (hsome : (env.txns.get? txn).isSome = true) (hother : call.op.txn? ≠ some txn)
    (res : Resource) :
    locks.shared.table.holding txn res = env.locks.shared.table.holding txn res := by
  have hguarded := hcovered.calls id call hcall
  cases h with
  | direct =>
    refine (env.locks.enter_holding ..).1 txn (fun heq => ?_) res
    rw [show txn = env.nextTxn from heq, hcovered.numbered.get?_nextTxn] at hsome
    cases hsome
  | inTxn _ htxn =>
    refine (env.locks.enter_holding ..).1 txn (fun heq => hother ?_) res
    rw [htxn, show txn = owner from heq]
  | again hstage =>
    refine (env.locks.recheck_holding ..).1 txn (fun s hs => ?_) res
    rw [(hguarded.waiting owner _ s hstage hs).1]
    exact hguarded.owner_ne hsome hother (by rw [hstage]; rfl)

/-- A step changes what its own transaction holds at most. -/
theorem Step.holding_of_ne (h : Step env id env' result) (hcovered : env.Covered base)
    {txn : TxnId} (hsome : (env.txns.get? txn).isSome = true)
    (hother : ∀ call, env.calls.get? id = some call → call.op.txn? ≠ some txn) (res : Resource) :
    env'.locks.shared.table.holding txn res = env.locks.shared.table.holding txn res := by
  cases h with
  | wait hcall hasks | deny hcall hasks | lock hcall _ hasks | take hcall _ hasks =>
    exact hasks.holding_of_ne hcovered hcall hsome (hother _ hcall) res
  | @giveBack call owner t key _ _ hcall hstage hop =>
    have hne : txn ≠ owner := (hcovered.calls id call hcall).owner_ne hsome (hother _ hcall)
      (by rw [hstage]; rfl)
    exact (env.locks.holding_release ..).trans (if_neg fun h => hne h.2)
  | @leave call owner _ _ _ hcall hstage =>
    exact env.locks.holding_releaseAll ((hcovered.calls id call hcall).owner_ne hsome
      (hother _ hcall) (by rw [hstage]; rfl)) res
  | _ => rfl

/-- What a transaction holds changes only by its own calls and when it is dropped. -/
theorem Covered.holding_after (h : env.Covered base) {e : Event} {txn : TxnId}
    (hsome : (env.txns.get? txn).isSome = true) (hother : ¬e.Concerns env txn) (res : Resource) :
    (env.after e).locks.shared.table.holding txn res =
      env.locks.shared.table.holding txn res := by
  have hoccurs := env.occurs h.numbered.named e
  generalize env.after e = env' at hoccurs ⊢
  cases hoccurs with
  | step hstep =>
    exact hstep.holding_of_ne h hsome (fun call hcall htxn => hother ⟨call, hcall, htxn⟩) res
  | drop => exact env.locks.holding_releaseAll (fun heq => hother heq.symm) res
  | cancel => rw [cancel, Monitor.shared_cancel]
  | wake => rw [Monitor.shared_wake]
  | _ => rfl

/-! ## Work stays locked -/

/-- A transaction that goes on keeps its write locks. -/
theorem Step.write_kept (h : Step env id env' result) (hcovered : env.Covered base)
    (hlater : env.Precedes base env') {txn : TxnId} {key : Bytes} {call : Call}
    (hcall : env.calls.get? id = some call) (htxn : call.op.txn? = some txn)
    (hmay : env'.MayCommit txn) (hlocks : env.Locks txn key .write) :
    env'.Locks txn key .write := by
  have hguarded := hcovered.calls id call hcall
  cases h with
  | wait _ hasks | deny _ hasks | lock _ _ hasks | take _ _ hasks =>
    exact hasks.keeps.holds txn _ _ trivial hlocks
  | @giveBack call' owner t key' _ _ hcall' hstage hop =>
    rw [hcall, Option.some.injEq] at hcall'
    subst hcall'
    have htxn' : t = txn := by
      rw [hop] at htxn
      exact Option.some.inj htxn
    subst htxn'
    -- What a read gives back is a lock for reading.
    have hlent := (hguarded.lent t key' hop).2 (by rw [hstage]; rfl)
    have hheld := locks_write_iff.1 hlocks
    refine hlocks.congr ((env.locks.holding_release ..).trans (if_neg fun h => ?_))
    rw [h.1, hlent] at hheld
    cases hheld
  | @leave call' owner result _ _ hcall' hstage hop =>
    rw [hcall, Option.some.injEq] at hcall'
    subst hcall'
    exact absurd (hlater.mayCommit txn hmay)
      (hguarded.releasing owner result txn hstage htxn (hop txn))
  | _ => exact hlocks

theorem Covered.write_kept (h : env.Covered base) (hroom : base.since env.nextTxn + 1 < UInt64.size)
    {e : Event} {txn : TxnId} {key : Bytes} (hsome : (env.txns.get? txn).isSome = true)
    (hmay : (env.after e).MayCommit txn) (hlocks : env.Locks txn key .write) :
    (env.after e).Locks txn key .write := by
  by_cases hconcerns : e.Concerns env txn
  swap
  · exact hlocks.congr (h.holding_after hsome hconcerns _)
  have hlater := precedes_after h.numbered hroom e
  have hoccurs := env.occurs h.numbered.named e
  generalize env.after e = env' at hoccurs hlater hmay ⊢
  cases hoccurs with
  | step hstep =>
    obtain ⟨call, hcall, htxn⟩ := hconcerns
    exact hstep.write_kept h hlater hcall htxn hmay hlocks
  | pass => exact hlocks
  | @drop t _ _ htxns =>
    obtain rfl : t = txn := hconcerns
    exact absurd hmay (htxns.not_mayCommit nofun)
  | _ => exact hconcerns.elim

/-- A write of a transaction goes with a write lock on its key. -/
def LockedFor (env : Environment) : Entry → Prop
  | .txnPut txn key _ | .txnDelete txn key _ =>
    (env.txns.get? txn).isSome = true ∧ env.Locks txn key .write
  | .put .. | .delete .. | .commit _ | .abort _ => True

theorem Covered.lockedFor (h : env.Covered base) {entry : Entry} (hcause : Cause env env' entry) :
    env.LockedFor entry := by
  cases hcause with
  | abort => trivial
  | commit => trivial
  | @write id call owner g entry hcall hstage hentry =>
    have hguarded := h.calls id call hcall
    have howns := hguarded.owns owner (by rw [hstage]; rfl)
    have hlocks := hguarded.granted owner g
    unfold Owns at howns
    cases hop : call.op with
    | put | delete =>
      rw [hop] at hentry howns hlocks
      cases hentry
      obtain ⟨rfl, hsome⟩ := howns
      exact ⟨hsome, hlocks rfl hstage⟩
    | putNow | deleteNow =>
      rw [hop] at hentry
      cases hentry
      trivial
    | _ =>
      rw [hop] at hentry
      cases hentry

/-- What is touched after an event was touched before, or is locked for the write at hand. -/
theorem Covered.touched_before (h : env.Covered base) (hchange : Change env env') {txn : TxnId}
    {key : Bytes} (hmay : env.MayCommit txn) (hmay' : env'.MayCommit txn)
    (htouches : (env'.state.workOf txn).Touches key) :
    (env.txns.get? txn).isSome = true ∧ env.Locks txn key .write := by
  cases hchange with
  | quiet _ hstate =>
    rw [hstate] at htouches
    exact h.work txn key hmay htouches
  | @forget dropped _ hover hstate =>
    have hne : txn ≠ dropped := fun heq => hover (heq ▸ hmay')
    rw [hstate, Replay.State.workOf_discard, if_neg hne] at htouches
    exact h.work txn key hmay htouches
  | logs hlogged _ hcause =>
    rcases hlogged.state_cases with hstate | ⟨lsn, hlsn, happly⟩
    · rw [hstate] at htouches
      exact h.work txn key hmay htouches
    · have hlocked := h.lockedFor (hcause lsn hlsn)
      rcases Replay.State.touches_apply happly htouches with
        hbefore | ⟨value, rfl⟩ | ⟨value, rfl⟩
      · exact h.work txn key hmay hbefore
      · exact hlocked
      · exact hlocked

/-! ## Reads -/

/-- A read that asks for its lock. -/
theorem Asks.lends {call : Call} {owner nextTxn : TxnId} {locks : LockManager}
    {outcome : Option LockState.Outcome} (h : Asks env id call owner nextTxn locks outcome)
    (hcovered : call.Covered env base id) {txn : TxnId} {key : Bytes}
    (hop : call.op = .get txn key) :
    LockState.Lends env.locks.shared.table txn ⟨key⟩ locks.shared.table outcome := by
  have htxn : call.op.txn? = some txn := by rw [hop, Op.txn?]
  have hkey : call.op.key = key := by rw [hop, Op.key]
  have hmode : call.op.mode = .read := by rw [hop, Op.mode]
  cases h with
  | direct _ hnone =>
    rw [htxn] at hnone
    cases hnone
  | @inTxn _ t deadlines token _ htxn' =>
    obtain rfl : owner = txn := Option.some.inj (htxn'.symm.trans htxn)
    rw [← hkey]
    exact env.locks.enter_lends env.now id token
      (r := ⟨owner, ⟨call.op.key⟩, call.op.mode, deadlines⟩) hmode
  | @again owner timer hstage =>
    have hnone := (hcovered.lent txn key hop).1 owner timer hstage
    cases hget : env.locks.sleepers.get? id with
    | none =>
      rw [env.locks.recheck_of_none env.now hget]
      exact .same (by rintro _ ⟨⟩) (fun _ => hnone) fun _ => rfl
    | some s =>
      obtain ⟨hs, hres, hread⟩ := hcovered.waiting owner timer s hstage hget
      have howns := hcovered.owns owner (by rw [hstage]; rfl)
      unfold Owns at howns
      rw [htxn] at howns
      rw [hkey] at hres
      rw [hmode] at hread
      rw [howns.1] at hs
      rw [← hs, ← hres] at hnone ⊢
      exact env.locks.recheck_lends env.now hget hread hnone

/-! ## Steps -/

/-- Only operations that need a lock ask for one. -/
theorem Asks.resolves {call : Call} {owner nextTxn : TxnId} {locks : LockManager}
    {outcome : Option LockState.Outcome} (h : Asks env id call owner nextTxn locks outcome)
    (hcovered : call.Covered env base id) : call.op.resolves = false := by
  cases h with
  | direct _ htxn => cases hop : call.op <;> rw [hop] at htxn <;> first | rfl | cases htxn
  | inTxn _ _ _ hgoes => exact hgoes
  | again hstage => exact hcovered.asks _ _ hstage

/-- A transaction that is over gives its locks back. -/
theorem Resolves.covered {txn : TxnId} {state : TxnState}
    (h : Resolves txn state env.txns env'.txns) (hstate : state ≠ .active) {call : Call}
    (hop : call.op = .abort txn ∨ call.op = .commit txn) {result : Result}
    (hstage : call.stage = .releasing txn result) : call.Covered env' base id := by
  have hguarded : call.Guarded env' base id := h.guarded hstate hop hstage
  refine ⟨hguarded.asking, fun _ _ hwaiting => ?_, fun _ _ hgranted => ?_, fun _ _ _ hgranted => ?_,
    fun t key hget => ?_, fun owner result t hreleasing htxn _ => ?_⟩
  · rw [hstage] at hwaiting
    cases hwaiting
  · rw [hstage] at hgranted
    cases hgranted
  · rw [hstage] at hgranted
    cases hgranted
  · rcases hop with hop | hop <;> rw [hop] at hget <;> cases hget
  · exact (hguarded.releasing owner result hreleasing).2 t htxn

/-- The call that has taken the step has the locks that its new stage needs. -/
theorem Step.covered_call (h : Step env id env' result) (hcovered : env.Covered base)
    (hroom : base.since env.nextTxn + 1 < UInt64.size) (hlater : env.Precedes base env')
    {call' : Call} (hcall' : env'.calls.get? id = some call') : call'.Covered env' base id := by
  have htxns := h.inherits
  cases h with
  | idle hcall =>
    rw [hcall] at hcall'
    cases hcall'
  | accept =>
    rw [SortedMap.get?_insert, if_pos rfl] at hcall'
    cases hcall'
    exact ⟨⟨nofun, nofun⟩, nofun, nofun, nofun, fun _ _ _ => ⟨nofun, nofun⟩, nofun⟩
  | @wait call owner nextTxn locks timer tracker hcall hasks =>
    rw [SortedMap.get?_insert, if_pos rfl] at hcall'
    cases hcall'
    have hbefore := hcovered.calls id call hcall
    obtain ⟨howns, -⟩ := hasks.owns hbefore.toAsking hcovered.numbered hcall hroom hlater htxns rfl
    refine ⟨⟨fun o ho => ?_, fun o _ s hstage hs => ?_⟩, fun _ _ _ => hasks.resolves hbefore, nofun,
      nofun, fun txn key hop => ⟨fun _ _ _ => ?_, nofun⟩, nofun⟩
    · cases ho
      exact howns
    · cases hstage
      exact hasks.waiting hbefore.toAsking hs
    · cases hasks.lends hbefore hop with
      | same _ hwaits hsame => exact (hsame _).trans (hwaits rfl)
  | @take call owner nextTxn locks g tracker hcall hop hasks =>
    rw [SortedMap.get?_insert, if_pos rfl] at hcall'
    cases hcall'
    have hbefore := hcovered.calls id call hcall
    obtain ⟨howns, -⟩ := hasks.owns hbefore.toAsking hcovered.numbered hcall hroom hlater htxns rfl
    refine ⟨⟨fun o ho => ?_, nofun⟩, nofun, fun _ _ _ hentry => ?_, fun txn g _ hstage => ?_,
      fun txn key hop => ⟨nofun, fun hnew => ?_⟩, nofun⟩
    · cases ho
      exact howns
    · have hgoes := hasks.resolves hbefore
      dsimp only at hentry ⊢
      cases hop' : call.op with
      | get t key => exact ⟨t, key, rfl⟩
      | _ =>
        rw [hop'] at hop hgoes hentry
        simp [Op.isLock, Op.resolves, Op.entry?] at hop hgoes hentry
    · cases hstage
      exact hasks.granted hbefore.toAsking
    · cases hasks.lends hbefore hop with
      | same hold =>
        rw [Stage.hasNew, hold g rfl] at hnew
        cases hnew
      | more _ _ hmore => exact (hmore _).trans (if_pos rfl)
  | abort _ _ hop _ _ hresolves =>
    rw [SortedMap.get?_insert, if_pos rfl] at hcall'
    cases hcall'
    exact hresolves.covered (by decide) (hop.imp_right And.left) rfl
  | commit _ _ hop _ _ _ hresolves =>
    rw [SortedMap.get?_insert, if_pos rfl] at hcall'
    cases hcall'
    exact hresolves.covered (by decide) (.inr hop) rfl
  | @writeNow call owner g entry _ _ _ _ hcall hstage hentry htxn _ =>
    rw [SortedMap.get?_insert, if_pos rfl] at hcall'
    cases hcall'
    have howns := (hcovered.calls id call hcall).owns owner (by rw [hstage]; rfl)
    refine ⟨⟨fun o ho => ?_, nofun⟩, nofun, nofun, nofun, fun t key hop => ?_,
      fun _ _ t _ ht => ?_⟩
    · cases ho
      exact howns.mono hlater
    · rw [show call.op = .get t key from hop] at hentry
      cases hentry
    · rw [show call.op.txn? = some t from ht] at htxn
      cases htxn
  | @readOnce call owner g hcall hstage hentry hisolation hnew =>
    rw [SortedMap.get?_insert, if_pos rfl] at hcall'
    cases hcall'
    have hbefore := hcovered.calls id call hcall
    have howns := hbefore.owns owner (by rw [hstage]; rfl)
    refine ⟨⟨fun o ho => ?_, nofun⟩, nofun, nofun, nofun,
      fun t key hop => ⟨nofun, fun _ => ?_⟩, fun _ _ t _ ht hget => ?_⟩
    · cases ho
      exact howns.mono hlater
    · exact (hbefore.lent t key hop).2 (by rw [hstage]; exact hnew)
    · obtain ⟨t', key, hop⟩ := hbefore.works owner g hstage hentry
      obtain rfl : t' = t := by simpa [hop, Op.txn?] using ht
      exact absurd hop (hget key)
  | _ =>
    rw [SortedMap.get?_erase, if_pos rfl] at hcall'
    cases hcall'

/-! ## Events -/

/-- What leaves the locks of its transaction leaves a call what it needs. -/
theorem Call.Covered.mono {call : Call} (h : call.Covered env base id)
    (hlater : env.Precedes base env')
    (hasleep : ∀ s', env'.locks.sleepers.get? id = some s' →
      ∃ s, env.locks.sleepers.get? id = some s ∧ s'.memory = s.memory)
    (hsame : ∀ txn, call.op.txn? = some txn → (env.txns.get? txn).isSome = true → ∀ res,
      env'.locks.shared.table.holding txn res = env.locks.shared.table.holding txn res) :
    call.Covered env' base id := by
  have hsame' {txn : TxnId} (htxn : call.op.txn? = some txn)
      (howner : call.stage.owner?.isSome = true) (res : Resource) :
      env'.locks.shared.table.holding txn res = env.locks.shared.table.holding txn res := by
    obtain ⟨owner, howner⟩ := Option.isSome_iff_exists.1 howner
    have howns := h.owns owner howner
    unfold Owns at howns
    rw [htxn] at howns
    exact hsame txn htxn howns.2 res
  refine ⟨⟨fun owner ho => (h.owns owner ho).mono hlater, fun owner timer s' hstage hs' => ?_⟩,
    h.asks, h.works, fun txn g htxn hstage => ?_, fun txn key hop => ⟨fun owner timer hstage => ?_,
      fun hnew => ?_⟩, fun owner result txn hstage htxn hget hmay => ?_⟩
  · obtain ⟨s, hs, hmemory⟩ := hasleep s' hs'
    rw [hmemory]
    exact h.waiting owner timer s hstage hs
  · exact (h.granted txn g htxn hstage).congr (hsame' htxn (by rw [hstage]; rfl) _)
  · rw [hsame' (by rw [hop, Op.txn?]) (by rw [hstage]; rfl)]
    exact (h.lent txn key hop).1 owner timer hstage
  · rw [hsame' (by rw [hop, Op.txn?]) (Stage.isSome_owner? hnew)]
    exact (h.lent txn key hop).2 hnew
  · exact h.releasing owner result txn hstage htxn hget (hlater.mayCommit txn hmay)

/-- A call that has just been started needs nothing. -/
theorem Call.covered_entered (op : Op) (timer : Option Latency.Ticket) :
    (⟨op, timer, .entered⟩ : Call).Covered env base id :=
  ⟨⟨nofun, nofun⟩, nofun, nofun, nofun, fun _ _ _ => ⟨nofun, nofun⟩, nofun⟩

/-- An event leaves the table exclusive, and the calls asleep that it does not concern. -/
theorem keeps_after (hnamed : env.Named) (e : Event) :
    Keeps (fun _ => False) (fun id => e ≠ .step id) env.locks (env.after e).locks := by
  have hall {env' : Environment} {P : TxnId → Prop}
      (h : Keeps P (fun _ => True) env.locks env'.locks) :
      Keeps (fun _ => False) (fun id => e ≠ .step id) env.locks env'.locks :=
    h.mono (fun _ h => h.elim) fun _ _ => trivial
  have h := env.occurs hnamed e
  generalize env.after e = env' at h ⊢
  cases h with
  | step h =>
    cases h with
    | wait _ hasks | deny _ hasks | lock _ _ hasks | take _ _ hasks =>
      refine hasks.keeps.mono (fun _ h => h.elim) fun id hne heq => hne ?_
      rw [heq]
    | giveBack => exact hall (env.locks.release_keeps _ _)
    | leave => exact hall (env.locks.releaseAll_keeps _)
    | _ => exact hall env.locks.keeps_refl
  | drop => exact hall (env.locks.releaseAll_keeps _)
  | cancel => exact hall (env.locks.cancel_keeps _)
  | wake => exact hall (env.locks.wake_keeps _)
  | _ => exact hall env.locks.keeps_refl

theorem Covered.call_after (h : env.Covered base) {e : Event} (he : e.Orderly env)
    (hroom : base.since env.nextTxn + 1 < UInt64.size) {call' : Call}
    (hcall' : (env.after e).calls.get? id = some call') :
    call'.Covered (env.after e) base id := by
  have hlater := precedes_after h.numbered hroom e
  have hnamed := h.numbered.named
  rcases Environment.call_cases hnamed hcall' with ⟨op, timer, -, rfl⟩ | rfl | ⟨hstep, hcall⟩
  · exact Call.covered_entered op timer
  · exact (step_spec hnamed id).covered_call h hroom hlater hcall'
  · exact (h.calls id call' hcall).mono hlater ((keeps_after hnamed e).asleep id · hstep)
      fun txn htxn hsome => h.holding_after hsome (h.single.not_concerns he hstep hcall htxn)

theorem Covered.after (h : env.Covered base) {e : Event} (he : e.Orderly env)
    (hroom : base.since env.nextTxn + 1 < UInt64.size) : (env.after e).Covered base := by
  have hlater := precedes_after h.numbered hroom e
  have hnamed := h.numbered.named
  refine ⟨h.numbered.after hroom e, h.single.after hnamed he,
    (keeps_after hnamed e).exclusive h.exclusive, fun id call' => h.call_after he hroom,
    fun txn key hmay htouches => ?_⟩
  obtain ⟨hsome, hlocks⟩ :=
    h.touched_before (change hnamed e) (hlater.mayCommit txn hmay) hmay htouches
  exact ⟨hlater.isSome txn hsome, h.write_kept hroom hsome hmay hlocks⟩

theorem Covered.run (h : env.Covered base) {events : List Event} (horderly : env.Orderly events)
    (hroom : base.since env.nextTxn + events.length < UInt64.size) :
    (env.run events).Covered base ∧
      base.since (env.run events).nextTxn ≤ base.since env.nextTxn + events.length :=
  ⟨h.numbered.run_induction (·.Covered base) horderly hroom
      (fun _ he hnext h => h.after he hnext) h,
    (h.numbered.run events hroom).2⟩

end Environment
end WalStore

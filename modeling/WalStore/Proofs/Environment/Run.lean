import WalStore.Proofs.Environment.Open
import WalStore.Proofs.Environment.Step

/-!
# Runs of an environment

A run is made of events: what clients ask for, the steps of their calls in any order, the passing
of time, and failures of the store that are planned at any moment.

What an event does is said once (`occurs`), and what an invariant needs of it is read off there.

**Theorem.** An event logs one record at most, and changes log and state together (`effect`). The
state is thereby always that of the log, but for the work of transactions that will not commit
(`Tracks`): a transaction that is dropped, or whose abort could not be logged, leaves its work in
the log and not in the state, or the other way round.
-/

namespace WalStore

open Record (endLsn)

namespace Environment

inductive Event where
  | begin (config : TxnConfig)
  | start (id : Nat) (op : Op)
  | step (id : Nat)
  | drop (txn : TxnId)
  | close
  | cancel (txn : TxnId)
  /-- The clock shows another time. -/
  | tick (now : Instant)
  | wake (id : Nat)
  /-- Other calls of the store are to fail from now on. -/
  | plan (plan : FaultPlan)

def after (env : Environment) : Event → Environment
  | .begin config => (env.begin config).1
  | .start id op => env.start id op
  | .step id => (env.step id).1
  | .drop txn => env.drop txn
  | .close => env.close.1
  | .cancel txn => env.cancel txn
  | .tick now => { env with now }
  | .wake id => { env with locks := env.locks.wake id }
  | .plan plan => { env with log.store.plan := plan }

def run (env : Environment) (events : List Event) : Environment := events.foldl after env

variable (env : Environment)

@[simp] theorem run_nil : env.run [] = env := rfl

@[simp] theorem run_cons (e : Event) (events : List Event) :
    env.run (e :: events) = (env.after e).run events := rfl

theorem run_append (events later : List Event) :
    env.run (events ++ later) = (env.run events).run later := List.foldl_append ..

/-! ## Events that are not steps -/

theorem begin_cases (config : TxnConfig) :
    (∃ e, env.begin config = (env, .error e)) ∨ ∃ timeouts counters,
      env.begin config = ({ env with
        counters
        nextTxn := env.nextTxn.next
        txns := env.txns.insert env.nextTxn
          (.fresh env.nextTxn config.isolation env.now timeouts) }, .ok env.nextTxn) := by
  unfold begin
  split
  · exact .inl ⟨_, rfl⟩
  · exact .inl ⟨_, rfl⟩
  · exact .inr ⟨_, _, rfl⟩

theorem start_eq (id : Nat) (op : Op) : ∃ tracker timer,
    env.start id op = { env with tracker, calls := env.calls.insert id ⟨op, timer, .entered⟩ } := by
  unfold start
  cases op.timedAs? <;> exact ⟨_, _, rfl⟩

theorem drop_of_over {txn : TxnId} (hover : (env.txn txn).isActive = false) :
    env.drop txn = env := by
  unfold drop
  rw [if_neg (Bool.eq_false_iff.1 hover)]

theorem drop_of_isActive {txn : TxnId} (hactive : (env.txn txn).isActive = true) :
    ∃ txns counters, Resolves txn .aborted env.txns txns ∧
      env.drop txn = { env with
        txns, counters
        state := env.state.discard txn
        locks := (env.locks.act (LockState.releaseAll txn)).1 } := by
  unfold drop
  rw [if_pos hactive, modifyTxn_eq]
  exact ⟨_, _, resolves_modifyTxn hactive (.inl rfl)
    (congrArg Environment.txns (env.modifyTxn_self txn).symm), rfl⟩

theorem drop_cases (txn : TxnId) :
    env.drop txn = env ∨ ∃ txns counters, Resolves txn .aborted env.txns txns ∧
      env.drop txn = { env with
        txns, counters
        state := env.state.discard txn
        locks := (env.locks.act (LockState.releaseAll txn)).1 } := by
  cases hactive : (env.txn txn).isActive with
  | false => exact .inl (env.drop_of_over hactive)
  | true => exact .inr (env.drop_of_isActive hactive)

theorem close_cases : ∃ log isOpen, (log = env.log ∨ log = env.log.sync.1) ∧
    env.close.1 = { env with log, isOpen } := by
  unfold close
  split
  · cases hsync : env.log.sync with
    | mk log result =>
      refine ⟨log, ?_⟩
      cases result <;> exact ⟨_, .inr rfl, rfl⟩
  · exact ⟨_, _, .inl rfl, rfl⟩

/-- What an event comes to. -/
inductive Occurs (env : Environment) : Event → Environment → Prop
  | refuse {config : TxnConfig} : Occurs env (.begin config) env
  | begin {config : TxnConfig} {timeouts : Timeouts} {counters : Counters} :
      Occurs env (.begin config) { env with
        counters
        nextTxn := env.nextTxn.next
        txns := env.txns.insert env.nextTxn
          (.fresh env.nextTxn config.isolation env.now timeouts) }
  | start {id : Nat} {op : Op} {tracker : Latency.Tracker} {timer : Option Latency.Ticket} :
      Occurs env (.start id op) { env with
        tracker, calls := env.calls.insert id ⟨op, timer, .entered⟩ }
  | step {id : Nat} {env' : Environment} {result : Option Result} (h : Step env id env' result) :
      Occurs env (.step id) env'
  /-- A transaction that is not active may go. -/
  | pass {txn : TxnId} : Occurs env (.drop txn) env
  | drop {txn : TxnId} {txns : SortedMap TxnId Transaction} {counters : Counters}
      (htxns : Resolves txn .aborted env.txns txns) :
      Occurs env (.drop txn) { env with
        txns, counters
        state := env.state.discard txn
        locks := (env.locks.act (LockState.releaseAll txn)).1 }
  | close {log : Log} {isOpen : Bool} (hsync : log = env.log ∨ log = env.log.sync.1) :
      Occurs env .close { env with log, isOpen }
  | cancel {txn : TxnId} : Occurs env (.cancel txn) (env.cancel txn)
  | tick {now : Instant} : Occurs env (.tick now) { env with now }
  | wake {id : Nat} : Occurs env (.wake id) { env with locks := env.locks.wake id }
  | plan {plan : FaultPlan} : Occurs env (.plan plan) { env with log.store.plan := plan }

theorem occurs (hnamed : env.Named) (e : Event) : Occurs env e (env.after e) := by
  cases e with
  | begin config =>
    rcases env.begin_cases config with ⟨e, h⟩ | ⟨timeouts, counters, h⟩ <;> rw [after, h]
    · exact .refuse
    · exact .begin
  | start id op =>
    obtain ⟨tracker, timer, h⟩ := env.start_eq id op
    rw [after, h]
    exact .start
  | step id => exact .step (step_spec hnamed id)
  | drop txn =>
    rcases env.drop_cases txn with h | ⟨txns, counters, htxns, h⟩ <;> rw [after, h]
    · exact .pass
    · exact .drop htxns
  | close =>
    obtain ⟨log, isOpen, hsync, h⟩ := env.close_cases
    rw [after, h]
    exact .close hsync
  | cancel txn => exact .cancel
  | tick now => exact .tick
  | wake id => exact .wake
  | plan plan => exact .plan

/-! ## Transactions -/

end Environment

/-- `t'` is what has become of `t`. -/
structure Transaction.Descends (t t' : Transaction) : Prop where
  id : t'.id = t.id
  isolation : t'.isolation = t.isolation
  isActive : t'.isActive = true → t.isActive = true
  writes : t.writes ≤ t'.writes

namespace Environment

/-- There are the same transactions, and none has come back from its end. -/
def Inherits (txns txns' : SortedMap TxnId Transaction) : Prop :=
  ∀ id, Option.Rel Transaction.Descends (txns.get? id) (txns'.get? id)

section Inherits

variable {txns txns' : SortedMap TxnId Transaction}

theorem Transaction.MarkOf.descends {t t' : Transaction} (h : t.MarkOf t') : t.Descends t' := by
  rcases h with rfl | ⟨-, reason, rfl⟩ <;> exact ⟨rfl, rfl, id, Nat.le_refl _⟩

theorem inherits_of_eq (h : ∀ id, txns'.get? id = txns.get? id ∨
    ∃ t t', txns.get? id = some t ∧ txns'.get? id = some t' ∧ t.Descends t') :
    Inherits txns txns' := by
  intro id
  rcases h id with heq | ⟨t, t', ht, ht', hdescends⟩
  · rw [heq]
    cases txns.get? id with
    | none => exact .none
    | some t => exact .some ⟨rfl, rfl, fun h => h, Nat.le_refl _⟩
  · rw [ht, ht']
    exact .some hdescends

theorem Inherits.refl (txns : SortedMap TxnId Transaction) : Inherits txns txns :=
  inherits_of_eq fun _ => .inl rfl

theorem Marked.inherits (h : Marked txns txns') : Inherits txns txns' := by
  refine inherits_of_eq fun id => ?_
  rcases h id with heq | ⟨t, t', ht, hmark, ht'⟩
  · exact .inl heq
  · exact .inr ⟨t, t', ht, ht', Transaction.MarkOf.descends hmark⟩

theorem Resolves.inherits {txn : TxnId} {state : TxnState} (h : Resolves txn state txns txns') :
    Inherits txns txns' := by
  obtain ⟨⟨t, t', ht, hactive, hmark, ht'⟩, hother⟩ := h
  refine inherits_of_eq fun id => ?_
  by_cases hid : id = txn
  · have hdescends := Transaction.MarkOf.descends hmark
    rw [hid]
    exact .inr ⟨t, _, ht, ht', hdescends.id, hdescends.isolation, fun _ => decide_eq_true hactive,
      hdescends.writes⟩
  · exact .inl (hother id hid)

theorem Inherits.exists_of_get? (h : Inherits txns txns') {id : TxnId} {t' : Transaction}
    (ht' : txns'.get? id = some t') : ∃ t, txns.get? id = some t ∧ t.Descends t' := by
  have hrel := h id
  rw [ht'] at hrel
  generalize txns.get? id = found at hrel ⊢
  cases hrel with
  | some hdescends => exact ⟨_, rfl, hdescends⟩

theorem Inherits.exists_get? (h : Inherits txns txns') {id : TxnId} {t : Transaction}
    (ht : txns.get? id = some t) : ∃ t', txns'.get? id = some t' ∧ t.Descends t' := by
  have hrel := h id
  rw [ht] at hrel
  generalize txns'.get? id = found at hrel ⊢
  cases hrel with
  | some hdescends => exact ⟨_, rfl, hdescends⟩

end Inherits

variable {env env' : Environment} {base : TxnId} {id : Nat} {result : Option Result}

theorem Step.inherits (h : Step env id env' result) : Inherits env.txns env'.txns := by
  cases h with
  | refuse _ _ htxns | accept _ _ _ htxns | deny _ _ htxns => exact htxns.inherits
  | abort _ _ _ _ _ htxns | commit _ _ _ _ _ _ htxns => exact htxns.inherits
  | write _ _ _ _ _ htxns =>
    refine inherits_of_eq fun x => ?_
    rw [htxns]
    split
    · cases hget : env.txns.get? x with
      | none => exact .inl rfl
      | some t => exact .inr ⟨t, _, rfl, rfl, rfl, rfl, fun h => h, Nat.le_succ _⟩
    · exact .inl rfl
  | _ => exact .refl _

theorem Asks.nextTxn_eq {call : Call} {owner nextTxn : TxnId} {locks : LockManager}
    {outcome : Option LockState.Outcome} (h : Asks env id call owner nextTxn locks outcome) :
    nextTxn = env.nextTxn ∨ nextTxn = env.nextTxn.next := by
  cases h with
  | direct => exact .inr rfl
  | inTxn | again => exact .inl rfl

theorem Step.nextTxn_eq (h : Step env id env' result) :
    env'.nextTxn = env.nextTxn ∨ env'.nextTxn = env.nextTxn.next := by
  cases h with
  | wait _ hasks | deny _ hasks | lock _ _ hasks | take _ _ hasks => exact hasks.nextTxn_eq
  | _ => exact .inl rfl

/-! ## Ids -/

/-- The transactions stand under their own ids, all of which have been given out. -/
structure Numbered (env : Environment) (base : TxnId) : Prop where
  named : env.Named
  lt : ∀ id t, env.txns.get? id = some t → base.since id < base.since env.nextTxn

/-- The next id has not been given out. -/
theorem Numbered.get?_nextTxn (h : env.Numbered base) : env.txns.get? env.nextTxn = none := by
  cases hget : env.txns.get? env.nextTxn with
  | none => rfl
  | some t => exact absurd (h.lt _ _ hget) (Nat.lt_irrefl _)

/-- The next id is as it was, or one more. -/
theorem since_nextTxn (hroom : base.since env.nextTxn + 1 < UInt64.size)
    (h : env'.nextTxn = env.nextTxn ∨ env'.nextTxn = env.nextTxn.next) :
    base.since env.nextTxn ≤ base.since env'.nextTxn ∧
      base.since env'.nextTxn ≤ base.since env.nextTxn + 1 := by
  rcases h with h | h
  · rw [h]
    exact ⟨Nat.le_refl _, Nat.le_succ _⟩
  · rw [h, TxnId.since_next hroom]
    exact ⟨Nat.le_succ _, Nat.le_refl _⟩

theorem Numbered.inherit (h : env.Numbered base) (htxns : Inherits env.txns env'.txns)
    (hnext : base.since env.nextTxn ≤ base.since env'.nextTxn) : env'.Numbered base := by
  refine ⟨fun id t' ht' => ?_, fun id t' ht' => ?_⟩ <;>
    obtain ⟨t, ht, hdescends⟩ := htxns.exists_of_get? ht'
  · exact hdescends.id.trans (h.named id t ht)
  · exact Nat.lt_of_lt_of_le (h.lt id t ht) hnext

/-- What an event makes of the transactions: the same ones, or a fresh one more. -/
theorem txns_after (hnamed : env.Named) (e : Event) :
    (((env.after e).nextTxn = env.nextTxn ∨ (env.after e).nextTxn = env.nextTxn.next) ∧
        Inherits env.txns (env.after e).txns) ∨
      ∃ config timeouts, e = .begin config ∧ (env.after e).nextTxn = env.nextTxn.next ∧
        (env.after e).txns = env.txns.insert env.nextTxn
          (.fresh env.nextTxn config.isolation env.now timeouts) := by
  have h := env.occurs hnamed e
  generalize env.after e = env' at h ⊢
  cases h with
  | begin => exact .inr ⟨_, _, rfl, rfl, rfl⟩
  | step h => exact .inl ⟨h.nextTxn_eq, h.inherits⟩
  | drop htxns => exact .inl ⟨.inl rfl, htxns.inherits⟩
  | _ => exact .inl ⟨.inl rfl, .refl _⟩

theorem since_nextTxn_after (h : env.Numbered base)
    (hroom : base.since env.nextTxn + 1 < UInt64.size) (e : Event) :
    base.since env.nextTxn ≤ base.since (env.after e).nextTxn ∧
      base.since (env.after e).nextTxn ≤ base.since env.nextTxn + 1 := by
  rcases txns_after h.named e with ⟨hnext, -⟩ | ⟨_, _, -, hnext, -⟩
  · exact since_nextTxn hroom hnext
  · exact since_nextTxn hroom (.inr hnext)

theorem Numbered.after (h : env.Numbered base) (hroom : base.since env.nextTxn + 1 < UInt64.size)
    (e : Event) : (env.after e).Numbered base := by
  obtain ⟨hnext, -⟩ := since_nextTxn_after h hroom e
  rcases txns_after h.named e with ⟨-, htxns⟩ | ⟨config, timeouts, -, hnext', htxns⟩
  · exact h.inherit htxns hnext
  · have hcase (id : TxnId) (t : Transaction) (ht : (env.after e).txns.get? id = some t) :
        t.id = id ∧ base.since id < base.since env.nextTxn + 1 := by
      rw [htxns, SortedMap.get?_insert] at ht
      split at ht
      · next hid =>
        cases ht
        rw [hid]
        exact ⟨rfl, Nat.lt_succ_self _⟩
      · exact ⟨h.named id t ht, Nat.lt_succ_of_lt (h.lt id t ht)⟩
    refine ⟨fun id t ht => (hcase id t ht).1, fun id t ht => ?_⟩
    rw [hnext', TxnId.since_next hroom]
    exact (hcase id t ht).2

theorem Numbered.run (h : env.Numbered base) (events : List Event)
    (hroom : base.since env.nextTxn + events.length < UInt64.size) :
    (env.run events).Numbered base ∧
      base.since (env.run events).nextTxn ≤ base.since env.nextTxn + events.length := by
  induction events generalizing env with
  | nil => exact ⟨h, Nat.le_refl _⟩
  | cons e events ih =>
    rw [List.length_cons] at hroom ⊢
    have hnext := (since_nextTxn_after h (by omega) e).2
    obtain ⟨hend, hnext'⟩ := ih (h.after (by omega) e) (by omega)
    exact ⟨hend, by rw [run_cons]; omega⟩

/-! ## Log and state -/

/-- Transactions that may commit yet: those that are active, and those not begun yet. -/
def MayCommit (env : Environment) (txn : TxnId) : Prop :=
  ∀ t, env.txns.get? txn = some t → t.isActive = true

theorem mayCommit_of_isActive {txn : TxnId} (h : (env.txn txn).isActive = true) :
    env.MayCommit txn := by
  intro t ht
  rwa [txn_eq_of_get? ht] at h

theorem exists_of_not_mayCommit {txn : TxnId} (h : ¬env.MayCommit txn) :
    ∃ t, env.txns.get? txn = some t ∧ ¬t.isActive = true := by
  by_contra hnone
  exact h fun t ht => by_contra fun hactive => hnone ⟨t, ht, hactive⟩

theorem Resolves.not_mayCommit {txns : SortedMap TxnId Transaction} {txn : TxnId} {state : TxnState}
    (h : Resolves txn state txns env'.txns) (hstate : state ≠ .active) : ¬env'.MayCommit txn := by
  obtain ⟨⟨t, t', -, -, -, ht'⟩, -⟩ := h
  exact fun hmay => hstate (of_decide_eq_true (hmay _ ht'))

theorem Numbered.descends_after (h : env.Numbered base) (e : Event) {txn : TxnId} {t : Transaction}
    (ht : env.txns.get? txn = some t) :
    ∃ t', (env.after e).txns.get? txn = some t' ∧ t.Descends t' := by
  rcases txns_after h.named e with ⟨-, htxns⟩ | ⟨config, timeouts, -, -, htxns⟩
  · exact htxns.exists_get? ht
  · have hne : txn ≠ env.nextTxn := fun heq => Nat.lt_irrefl _ (heq ▸ h.lt txn t ht)
    rw [htxns, SortedMap.get?_insert, if_neg hne]
    exact ⟨t, ht, rfl, rfl, fun h => h, Nat.le_refl _⟩

/-- No transaction comes back from its end. -/
theorem Numbered.mayCommit_after (h : env.Numbered base) {e : Event} {txn : TxnId}
    (hmay : (env.after e).MayCommit txn) : env.MayCommit txn := by
  intro t ht
  obtain ⟨t', ht', hdescends⟩ := h.descends_after e ht
  exact hdescends.isActive (hmay t' ht')

/-- Why an entry is logged between `env` and `env'`. -/
inductive Cause (env env' : Environment) : Entry → Prop
  | write {id : Nat} {call : Call} {owner : TxnId} {g : Grant} {entry : Entry}
      (hcall : env.calls.get? id = some call) (hstage : call.stage = .granted owner g)
      (hentry : call.op.entry? = some entry)
      (hcount : ∀ txn t, call.op.txn? = some txn → env'.txns.get? txn = some t → 0 < t.writes) :
      Cause env env' entry
  | abort {txn : TxnId} (hactive : (env.txn txn).isActive = true)
      (hwrites : 0 < (env.txn txn).writes) (hover : ¬env'.MayCommit txn) :
      Cause env env' (.abort txn)
  | commit {txn : TxnId} (hactive : (env.txn txn).isActive = true)
      (hwrites : 0 < (env.txn txn).writes) (hover : ¬env'.MayCommit txn) :
      Cause env env' (.commit txn)

/-- What an event does to log and state. The log holds `rs` before and `rs'` after it. -/
inductive Effect (env : Environment) (rs : List Record) (env' : Environment) :
    List Record → Prop
  | quiet (hholds : env'.log.Holds rs) (hstate : env'.state = env.state) : Effect env rs env' rs
  /-- The work of a transaction that will not commit is forgotten. -/
  | forget {txn : TxnId} (hholds : env'.log.Holds rs) (htxn : ¬env'.MayCommit txn)
      (hstate : env'.state = env.state.discard txn) : Effect env rs env' rs
  | logs {r : Record} (hlsn : r.lsn = (endLsn .zero rs).next)
      (hholds : env'.log.Holds (rs ++ [r])) (happly : env.state.apply r = .ok env'.state)
      (hcause : Cause env env' r.entry) : Effect env rs env' (rs ++ [r])

/-- Who commits is over after that. -/
theorem Cause.not_mayCommit {txn : TxnId} (h : Cause env env' (.commit txn)) :
    ¬env'.MayCommit txn := by
  cases h with
  | @write _ call _ _ _ _ _ hentry =>
    cases hop : call.op <;> rw [hop] at hentry <;> cases hentry
  | commit _ _ hover => exact hover

/-- What logging comes to, once the state stands where the log ends. -/
theorem Logged.cases {log log' : Log} {state state' : Replay.State} {entry : Entry}
    {logged : Except Error Lsn} {rs : List Record} (h : Logged log state entry log' state' logged)
    (hholds : log.Holds rs) (hlast : state.lastLsn = endLsn .zero rs)
    (hroom : (endLsn .zero rs).toNat + 1 < UInt64.size) :
    (∃ e, logged = .error e ∧ log'.Holds rs ∧ state' = state) ∨
      ∃ lsn, logged = .ok lsn ∧ lsn = (endLsn .zero rs).next ∧
        log'.Holds (rs ++ [⟨lsn, entry⟩]) ∧ state.apply ⟨lsn, entry⟩ = .ok state' := by
  have hlt : endLsn .zero rs < log.nextLsn := by
    rw [hholds.next]
    exact Lsn.lt_next hroom
  cases h with
  | failed happend => exact .inl ⟨_, rfl, hholds.append_error happend, rfl⟩
  | refused happend happly =>
    obtain ⟨rfl, -⟩ := hholds.append_ok happend
    obtain ⟨_, hok⟩ := Replay.State.exists_apply (s := state) (r := ⟨log.nextLsn, entry⟩)
      (by rw [hlast]; exact hlt)
    rw [happly] at hok
    cases hok
  | applied happend happly =>
    obtain ⟨rfl, hholds'⟩ := hholds.append_ok happend
    exact .inr ⟨_, rfl, hholds.next, hholds' hlt, happly⟩

/-- Only a transaction that may do so commits. -/
theorem Cause.mayCommit {txn : TxnId} (h : Cause env env' (.commit txn)) : env.MayCommit txn := by
  cases h with
  | @write _ call _ _ _ _ _ hentry =>
    cases hop : call.op <;> rw [hop] at hentry <;> cases hentry
  | commit hactive => exact mayCommit_of_isActive hactive

/-- What an event does to log and state, whatever the log holds. -/
inductive Change (env env' : Environment) : Prop
  | quiet (hholds : ∀ rs, env.log.Holds rs → env'.log.Holds rs) (hstate : env'.state = env.state)
  /-- The work of a transaction that will not commit is forgotten. -/
  | forget {txn : TxnId} (hholds : ∀ rs, env.log.Holds rs → env'.log.Holds rs)
      (htxn : ¬env'.MayCommit txn) (hstate : env'.state = env.state.discard txn)
  /-- An entry is logged, or fails to be. -/
  | logs {entry : Entry} {log : Log} {logged : Except Error Lsn}
      (hlogged : Logged env.log env.state entry log env'.state logged)
      (hholds : ∀ rs, log.Holds rs → env'.log.Holds rs)
      (hcause : ∀ lsn, logged = .ok lsn → Cause env env' entry)

theorem Step.change (h : Step env id env' result) : Change env env' := by
  cases h with
  | abort _ _ _ hactive hlogged htxns =>
    rcases hlogged with ⟨hwrites, logged, hlogged⟩ | ⟨-, rfl, rfl⟩
    · exact .logs hlogged (fun _ h => h) fun _ _ =>
        .abort hactive hwrites (htxns.not_mayCommit nofun)
    · exact .quiet (fun _ h => h) rfl
  | commitFail _ _ _ _ _ hlogged => exact .logs hlogged (fun _ h => h) nofun
  | commit _ _ _ hactive hlogged hsync htxns =>
    rcases hlogged with ⟨hwrites, lsn, hlogged⟩ | ⟨-, rfl, rfl⟩
    · exact .logs hlogged (fun _ h => h.synced hsync) fun _ _ =>
        .commit hactive hwrites (htxns.not_mayCommit nofun)
    · exact .quiet (fun _ h => h.synced hsync) rfl
  | writeNow hcall hstage hentry htxn hlogged =>
    refine .logs hlogged (fun _ h => h) fun _ _ => .write hcall hstage hentry fun txn t ht => ?_
    rw [htxn] at ht
    cases ht
  | writeFail _ _ _ _ hlogged => exact .logs hlogged (fun _ h => h) nofun
  | @write call _ txn _ _ _ _ _ _ _ _ hcall hstage hentry htxn hlogged htxns =>
    refine .logs hlogged (fun _ h => h) fun _ _ => .write hcall hstage hentry fun x t hx ht => ?_
    rw [htxn] at hx
    cases hx
    rw [htxns, if_pos rfl, Option.map_eq_some_iff] at ht
    obtain ⟨before, -, rfl⟩ := ht
    exact Nat.succ_pos _
  | _ => exact .quiet (fun _ h => h) rfl

theorem change (hnamed : env.Named) (e : Event) : Change env (env.after e) := by
  have h := env.occurs hnamed e
  generalize env.after e = env' at h ⊢
  cases h with
  | step h => exact h.change
  | drop htxns => exact .forget (fun _ hholds => hholds) (htxns.not_mayCommit nofun) rfl
  | close hsync => exact .quiet (fun _ hholds => hholds.synced hsync) rfl
  | plan => exact .quiet (fun _ hholds => hholds.congr rfl rfl rfl) rfl
  | _ => exact .quiet (fun _ hholds => hholds) rfl

/-- Every event logs one record at most. -/
theorem effect (hnamed : env.Named) {rs : List Record} (hholds : env.log.Holds rs)
    (hlast : env.state.lastLsn = endLsn .zero rs)
    (hroom : (endLsn .zero rs).toNat + 1 < UInt64.size) (e : Event) :
    ∃ rs', Effect env rs (env.after e) rs' := by
  cases change hnamed e with
  | quiet hkept hstate => exact ⟨rs, .quiet (hkept rs hholds) hstate⟩
  | forget hkept htxn hstate => exact ⟨rs, .forget (hkept rs hholds) htxn hstate⟩
  | logs hlogged hkept hcause =>
    rcases hlogged.cases hholds hlast hroom with
      ⟨e, -, hholds', hstate⟩ | ⟨lsn, hok, hlsn, hholds', happly⟩
    · exact ⟨rs, .quiet (hkept rs hholds') hstate⟩
    · exact ⟨_, .logs hlsn (hkept _ hholds') happly (hcause lsn hok)⟩

/-! ## State and log -/

/-- The log holds `rs`, and the state is what replaying them gives, but for the work of
transactions that will not commit. -/
structure Tracks (env : Environment) (base : TxnId) (rs : List Record) : Prop where
  numbered : env.Numbered base
  holds : env.log.Holds rs
  state : ∃ s, Replay.state rs = .ok s ∧ Replay.State.Agree env.MayCommit env.state s

section Tracks

variable {rs rs' : List Record}

theorem Tracks.lastLsn (h : env.Tracks base rs) : env.state.lastLsn = endLsn .zero rs := by
  obtain ⟨s, hs, hagree⟩ := h.state
  exact hagree.lastLsn.trans (h.holds.lastLsn hs)

theorem Tracks.live (h : env.Tracks base rs) : Replay.live rs = .ok env.live := by
  obtain ⟨s, hs, hagree⟩ := h.state
  rw [Replay.live, hs, Environment.live, hagree.live]
  rfl

theorem Opened.tracks_from {config : Config} (h : env.Opened config rs) (base : TxnId) :
    env.Tracks base rs := by
  refine ⟨⟨fun id t ht => ?_, fun id t ht => ?_⟩, h.holds, _, h.state, .refl _ _⟩ <;>
    · rw [h.txns] at ht
      cases ht

theorem Opened.tracks {config : Config} (h : env.Opened config rs) :
    env.Tracks env.nextTxn rs := h.tracks_from env.nextTxn

theorem Tracks.after (h : env.Tracks base rs) (hlsn : (endLsn .zero rs).toNat + 1 < UInt64.size)
    (htxn : base.since env.nextTxn + 1 < UInt64.size) (e : Event) :
    ∃ rs', Effect env rs (env.after e) rs' ∧ (env.after e).Tracks base rs' := by
  obtain ⟨rs', heffect⟩ := effect h.numbered.named h.holds h.lastLsn hlsn e
  refine ⟨rs', heffect, ?_⟩
  have hnumbered := h.numbered.after htxn e
  obtain ⟨s, hs, hagree⟩ := h.state
  have hmono (txn : TxnId) (hmay : (env.after e).MayCommit txn) : env.MayCommit txn :=
    h.numbered.mayCommit_after hmay
  cases heffect with
  | quiet hholds hstate => exact ⟨hnumbered, hholds, s, hs, hstate ▸ hagree.mono hmono⟩
  | forget hholds htxn hstate =>
    exact ⟨hnumbered, hholds, s, hs, hstate ▸ (hagree.mono hmono).discard htxn⟩
  | @logs r _ hholds happly hcause =>
    obtain ⟨s', happly', hagree'⟩ := hagree.apply (fun t ht => (ht ▸ hcause).mayCommit) happly
    refine ⟨hnumbered, hholds, s', ?_, hagree'.mono hmono⟩
    rw [Replay.state_append_singleton, hs]
    exact happly'

/-- What the log holds grows by one record at most. -/
theorem Effect.grows (h : Effect env rs env' rs') : rs' = rs ∨
    ∃ r, r.lsn = (endLsn .zero rs).next ∧ rs' = rs ++ [r] := by
  cases h with
  | quiet | forget => exact .inl rfl
  | @logs r hlsn => exact .inr ⟨r, hlsn, rfl⟩

theorem Effect.toNat_endLsn (h : Effect env rs env' rs')
    (hroom : (endLsn .zero rs).toNat + 1 < UInt64.size) :
    (endLsn .zero rs').toNat ≤ (endLsn .zero rs).toNat + 1 := by
  rcases h.grows with rfl | ⟨r, hlsn, rfl⟩
  · exact Nat.le_succ _
  · refine Nat.le_of_eq ?_
    rw [Record.endLsn_append, endLsn, endLsn, hlsn, Lsn.toNat_next hroom]

/-- After a run the state is that of the log. The log has passed through every list of records in
between: there was a moment when it held just these, and the last of them had just been logged. -/
theorem Tracks.run (h : env.Tracks base rs) (events : List Event)
    (hlsn : (endLsn .zero rs).toNat + events.length < UInt64.size)
    (htxn : base.since env.nextTxn + events.length < UInt64.size) :
    ∃ rs', (env.run events).Tracks base rs' ∧ rs <+: rs' ∧
      (endLsn .zero rs').toNat ≤ (endLsn .zero rs).toNat + events.length ∧
      ∀ seen, rs <+: seen → seen <+: rs' → ∃ n ≤ events.length,
        (env.run (events.take n)).Tracks base seen ∧
        (n = 0 ∨ ∃ earlier r, seen = earlier ++ [r] ∧
          (env.run (events.take (n - 1))).Tracks base earlier) := by
  induction events generalizing env rs with
  | nil =>
    refine ⟨rs, h, List.prefix_refl rs, Nat.le_refl _, fun seen hle hge => ⟨0, Nat.le_refl _, ?_⟩⟩
    rw [← hle.eq_of_length_le hge.length_le]
    exact ⟨h, .inl rfl⟩
  | cons e events ih =>
    rw [List.length_cons] at hlsn htxn
    obtain ⟨rs₁, heffect, htracks⟩ := h.after (by omega) (by omega) e
    have hlsn₁ := heffect.toNat_endLsn (by omega)
    have htxn₁ := (since_nextTxn_after h.numbered (by omega) e).2
    have hgrows : rs <+: rs₁ := by
      rcases heffect.grows with rfl | ⟨r, -, rfl⟩
      · exact List.prefix_refl _
      · exact List.prefix_append ..
    obtain ⟨rs', htracks', hgrows', hlsn', hmoment⟩ := ih htracks (by omega) (by omega)
    refine ⟨rs', htracks', hgrows.trans hgrows', ?_, fun seen hle hge => ?_⟩
    · rw [List.length_cons]
      omega
    by_cases hseen : seen = rs
    · exact ⟨0, Nat.zero_le _, hseen ▸ h, .inl rfl⟩
    have hle₁ : rs₁ <+: seen := by
      rcases heffect.grows with rfl | ⟨r, -, rfl⟩
      · exact hle
      · refine List.prefix_of_prefix_length_le hgrows' hge ?_
        have hlt : rs.length < seen.length := by
          refine Nat.lt_of_le_of_ne hle.length_le fun heq => hseen ?_
          exact (hle.eq_of_length heq).symm
        rw [List.length_append]
        exact hlt
    obtain ⟨n, hn, htracks'', hlast⟩ := hmoment seen hle₁ hge
    refine ⟨n + 1, Nat.succ_le_succ hn, htracks'', .inr ?_⟩
    rcases n with _ | n
    · -- The event at hand has logged the last record.
      have heq : seen = rs₁ := htracks''.holds.unique htracks.holds
      rcases heffect.grows with rfl | ⟨r, -, rfl⟩
      · exact absurd heq hseen
      · exact ⟨rs, r, heq, h⟩
    · exact hlast.resolve_left (Nat.succ_ne_zero n)

end Tracks

end Environment
end WalStore

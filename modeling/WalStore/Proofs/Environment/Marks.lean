import WalStore.Proofs.Environment.Course
import WalStore.Proofs.Environment.Failure

/-!
# Marks

A transaction that has to abort is marked with the reason.

**Theorem.** A mark comes from a transaction timeout or a deadlock that a call is answered with, or
from a call that finds the time of its transaction over, and from nothing else (`Firm.marks_iff`).
It stays (`Firm.mustAbort_after`), and no call of a marked transaction succeeds, but for its abort
(`Firm.fails`). A transaction that is over does not change any more (`Firm.get?_txns_after`).

**Invariant** (`Firm`). While a transaction is marked no call of it asks for a lock or has one, for
it would have been refused. What has begun aborts the transaction or is going to report an error
(`Stage.Yields`), so a committed transaction has no mark.
-/

namespace WalStore

/-! ## How a mark is set -/

namespace Transaction

variable {t : Transaction} {now : Instant} {e : Error} {reason : String}

theorem mustAbort_note (h : t.mustAbort = none) :
    (t.note e).mustAbort = some reason ↔ e.isFatal = true ∧ e.message = reason := by
  unfold note mark
  rw [h]
  cases e.isFatal <;> simp [h]

theorem note_eq_self (h : t.mustAbort = some reason) (e : Error) : t.note e = t := by
  unfold note mark
  rw [h]
  exact ite_self _

/-- A check marks a transaction whose time is over. -/
theorem mustAbort_checkTime (h : t.mustAbort = none) :
    (t.checkTime now).mustAbort = some reason ↔ ∃ limit, t.timeouts.txn = some limit ∧
      limit ≤ t.elapsed now ∧ (Error.txnTimeout t.id limit).message = reason := by
  unfold checkTime mark
  cases hlimit : t.timeouts.txn with
  | none => simp [h]
  | some limit =>
    rw [h]
    by_cases hover : limit ≤ t.elapsed now <;> simp [hover, h]

theorem checkTime_of_some (h : t.mustAbort = some reason) (now : Instant) :
    t.checkTime now = t := by
  unfold checkTime mark
  rw [h]
  cases t.timeouts.txn with
  | none => rfl
  | some limit => exact ite_self _

/-- A transaction that passes the check has no mark. -/
theorem mustAbort_of_checkTime (h : (t.checkTime now).mustAbort = none) : t.mustAbort = none := by
  rwa [checkTime_eq_self h] at h

end Transaction

namespace Environment

variable {env env' : Environment} {base : TxnId} {id : Nat} {call : Call} {txn : TxnId}
  {reason : String}

/-- The event marks the transaction. -/
inductive Event.Marks (env : Environment) (txn : TxnId) (reason : String) : Event → Prop
  /-- Its call is answered with a transaction timeout or a deadlock. -/
  | denied {id : Nat} {call : Call} {e : Error} (hcall : env.calls.get? id = some call)
      (htxn : call.op.txn? = some txn) (hresult : (env.step id).2 = some (.error e))
      (he : e.dooms = true) (hreason : e.message = reason) : Marks env txn reason (.step id)
  /-- Its call, which is no abort, finds its time over. -/
  | late {id : Nat} {call : Call} {limit : Duration} (hcall : env.calls.get? id = some call)
      (htxn : call.op.txn? = some txn) (hop : ∀ t, call.op ≠ .abort t)
      (hstage : call.stage = .entered) (hopen : env.isOpen = true)
      (hactive : (env.txn txn).isActive = true) (hlimit : (env.txn txn).timeouts.txn = some limit)
      (hover : limit ≤ (env.txn txn).elapsed env.now)
      (hreason : (Error.txnTimeout txn limit).message = reason) : Marks env txn reason (.step id)

/-! ## The invariant -/

/-- A call that is at this stage does not serve a transaction any more that has to abort. -/
inductive Stage.Yields (op : Op) (txn : TxnId) : Stage → Prop
  | abort {stage : Stage} (hop : op = .abort txn) : Yields op txn stage
  /-- It aborts what it was to commit. -/
  | giveUp {e : Error} (hop : op = .commit txn) : Yields op txn (.admitted (some e))
  | report {owner : TxnId} {e : Error} : Yields op txn (.releasing owner (.error e))

structure Firm (env : Environment) (base : TxnId) : Prop where
  acc : env.Accounted base
  committed : ∀ txn, (env.txn txn).state = .committed → (env.txn txn).mustAbort = none
  /-- A call of a marked transaction has not begun, or aborts it, or is going to report an error. -/
  marked : ∀ id call txn reason, env.calls.get? id = some call → call.op.txn? = some txn →
    (env.txn txn).mustAbort = some reason → call.stage = .entered ∨ call.stage.Yields call.op txn
  reports : ∀ id call e, env.calls.get? id = some call → call.op.txn?.isSome = true →
    call.stage.error? = some e → e.dooms = false

theorem Opened.firm {config : Config} {rs : List Record} (h : env.Opened config rs)
    (base : TxnId) : env.Firm base where
  acc := h.accounted_from base
  committed txn hcommitted := by
    rw [txn_eq_of_get?_none (by rw [h.txns]; rfl)] at hcommitted
    cases hcommitted
  marked id call txn reason hcall := by
    rw [h.calls] at hcall
    cases hcall
  reports id call e hcall := by
    rw [h.calls] at hcall
    cases hcall

/-- A transaction that an event does not concern is the same after it, or is new and has no mark. -/
theorem Covered.txn_after (h : env.Covered base) {e : Event} (hother : ¬e.Concerns env txn) :
    (env.after e).txn txn = env.txn txn ∨ ((env.after e).txn txn).mustAbort = none := by
  cases hget : env.txns.get? txn with
  | some t => exact .inl (txn_congr (h.get?_txns_after (by rw [hget]; rfl) hother))
  | none =>
    right
    cases hget' : (env.after e).txns.get? txn with
    | none =>
      rw [txn_eq_of_get?_none hget']
      rfl
    | some t' =>
      rw [txn_eq_of_get? hget']
      rcases Environment.txns_after h.numbered.named e with ⟨-, htxns⟩ | ⟨_, _, -, -, htxns⟩
      · obtain ⟨t, ht, -⟩ := htxns.exists_of_get? hget'
        rw [hget] at ht
        cases ht
      · rw [htxns, SortedMap.get?_insert] at hget'
        split at hget'
        · cases hget'
          rfl
        · rw [hget] at hget'
          cases hget'

theorem isSome_of_mustAbort (h : (env.txn txn).mustAbort = some reason) :
    (env.txns.get? txn).isSome = true := by
  cases hget : env.txns.get? txn with
  | some t => rfl
  | none =>
    rw [txn_eq_of_get?_none hget] at h
    cases h

/-- A transaction that is dropped is over, and keeps its mark. -/
theorem txn_drop (env : Environment) (txn : TxnId) : (env.drop txn).txn txn =
    if (env.txn txn).isActive = true then { env.txn txn with state := .aborted }
    else env.txn txn := by
  unfold drop
  split
  · next hactive =>
    obtain ⟨counters, hcount⟩ := countResolved_eq
      (({ env.modifyTxn txn ({ · with state := .aborted }) with
        state := (env.modifyTxn txn ({ · with state := .aborted })).state.discard txn
        }).releaseAll txn) .aborted
    rw [hcount]
    exact txn_modifyTxn hactive
  · rfl

section Steps

variable {t' : Transaction} {result : Option Result} {stage : Option Stage}

/-- The mark of a transaction that has been checked stays. -/
theorem Fares.mustAbort_of_some (h : Fares env txn call t' result stage)
    (hmark : (env.txn txn).mustAbort = some reason) : t'.mustAbort = some reason := by
  cases h with
  | spent | giveUp => rwa [Transaction.checkTime_of_some hmark]
  | deny => rwa [Transaction.note_eq_self hmark]
  | _ => exact hmark

/-- A call that has begun and serves its transaction finds no mark. -/
theorem mustAbort_of_serves (hmarked : ∀ reason, (env.txn txn).mustAbort = some reason →
      call.stage = .entered ∨ call.stage.Yields call.op txn)
    (hstage : call.stage ≠ .entered) (hserves : ¬call.stage.Yields call.op txn) :
    (env.txn txn).mustAbort = none := by
  cases hmark : (env.txn txn).mustAbort with
  | none => rfl
  | some reason => exact ((hmarked reason hmark).elim hstage hserves).elim

theorem Call.Asks.serves (h : call.Asks txn) : ¬call.stage.Yields call.op txn := by
  have hgoes := h.goes
  intro hyields
  generalize hstage : call.stage = stage at hyields
  cases hyields with
  | abort hop | giveUp hop =>
    rw [hop] at hgoes
    cases hgoes
  | report => exact h.not_releasing _ _ hstage

theorem serves_of_granted {owner : TxnId} {g : Grant} (hstage : call.stage = .granted owner g)
    (hgoes : call.op.resolves = false) : ¬call.stage.Yields call.op txn := by
  intro hyields
  rw [hstage] at hyields
  cases hyields with
  | abort hop =>
    rw [hop] at hgoes
    cases hgoes

theorem serves_of_commit (hstage : call.stage = .admitted none) (hop : call.op = .commit txn) :
    ¬call.stage.Yields call.op txn := by
  rw [hstage, hop]
  rintro ⟨habort⟩
  cases habort

theorem Fares.mustAbort_of_committed (h : Fares env txn call t' result stage)
    (hmarked : ∀ reason, (env.txn txn).mustAbort = some reason →
      call.stage = .entered ∨ call.stage.Yields call.op txn)
    (hbefore : (env.txn txn).state = .committed → (env.txn txn).mustAbort = none)
    (hcommitted : t'.state = .committed) : t'.mustAbort = none := by
  have hnot (hactive : (env.txn txn).isActive = true) (t : Transaction)
      (ht : (env.txn txn).MarkOf t) : t.state ≠ .committed := by
    have hstate : t.state = (env.txn txn).state := by
      rcases ht with rfl | ⟨-, reason, rfl⟩ <;> rfl
    rw [hstate, of_decide_eq_true hactive]
    nofun
  cases h with
  | spent _ _ _ hactive | giveUp _ _ _ hactive =>
    exact absurd hcommitted (hnot hactive _ (Transaction.markOf_checkTime _ _))
  | deny hactive => exact absurd hcommitted (hnot hactive _ (Transaction.markOf_note _ _))
  | commit hstage hop =>
    exact mustAbort_of_serves hmarked (by rw [hstage]; nofun) (serves_of_commit hstage hop)
  | abort => cases hcommitted
  | _ => exact hbefore hcommitted

/-- Whichever step marks a transaction, or finds it marked, does not take its call further, unless
it aborts. -/
theorem Fares.stage_of_marked (h : Fares env txn call t' result stage)
    (hbefore : ∀ reason, (env.txn txn).mustAbort = some reason →
      call.stage = .entered ∨ call.stage.Yields call.op txn) {next : Stage}
    (hnext : stage = some next) (hmark : t'.mustAbort = some reason) :
    next.Yields call.op txn := by
  have hnot (hmust : (env.txn txn).mustAbort = some reason)
      (hnone : (env.txn txn).mustAbort = none) : False := by
    rw [hnone] at hmust
    cases hmust
  cases h with
  | accept _ _ hfit =>
    rcases hfit with hop | hfit
    · exact .abort hop
    · exact (hnot hmark (Transaction.mustAbort_of_checkTime hfit)).elim
  | giveUp _ _ hop =>
    cases hnext
    exact .giveUp hop
  | ask _ hasks =>
    exact (hnot hmark (mustAbort_of_serves hbefore hasks.not_entered hasks.serves)).elim
  | borrow hstage hgoes =>
    exact (hnot hmark (mustAbort_of_serves hbefore (by rw [hstage]; nofun)
      (serves_of_granted hstage hgoes))).elim
  | abort _ hop _ _ hcause =>
    cases hnext
    rcases hop with hop | ⟨-, hsome⟩
    · exact .abort hop
    · obtain ⟨e, rfl⟩ := hcause hsome
      exact .report
  | commit hstage hop =>
    exact (hnot hmark (mustAbort_of_serves hbefore (by rw [hstage]; nofun)
      (serves_of_commit hstage hop))).elim
  | _ => cases hnext

theorem Fares.reports (h : Fares env txn call t' result stage) {next : Stage} {e : Error}
    (hbefore : ∀ e, call.stage.error? = some e → e.dooms = false) (hstage : stage = some next)
    (herror : next.error? = some e) : e.dooms = false := by
  cases h with
  | ask _ _ _ hnext =>
    rw [hnext _ hstage] at herror
    cases herror
  | giveUp =>
    cases hstage
    cases herror
    rfl
  | @abort cause result hadmitted _ _ hresult =>
    cases hstage
    cases result with
    | ok => cases herror
    | error e' =>
      cases herror
      rcases hresult _ rfl with hspared | rfl
      · exact Error.dooms_of_isFatal hspared
      · exact hbefore _ (by rw [hadmitted, Stage.error?])
  | @commit result _ _ _ hresult =>
    cases hstage
    cases result with
    | ok => cases herror
    | error e' =>
      cases herror
      exact Error.dooms_of_isFatal (hresult _ rfl)
  | accept | borrow =>
    cases hstage
    cases herror
  | _ => cases hstage

end Steps

/-! ## Events -/

variable {e : Event}

theorem Firm.mustAbort_after (h : env.Firm base) (e : Event)
    (hmark : (env.txn txn).mustAbort = some reason) :
    ((env.after e).txn txn).mustAbort = some reason := by
  by_cases hconcerns : e.Concerns env txn
  · cases e with
    | step id =>
      obtain ⟨call, hcall, htxn⟩ := hconcerns
      exact (h.acc.fares hcall htxn).mustAbort_of_some hmark
    | drop t =>
      obtain rfl : t = txn := hconcerns
      rw [after, txn_drop]
      split <;> exact hmark
    | _ => exact hconcerns.elim
  · rw [txn_congr (h.acc.covered.get?_txns_after (isSome_of_mustAbort hmark) hconcerns), hmark]

/-- An event that marks a transaction concerns it. -/
theorem Firm.mark_before (h : env.Firm base) (hconcerns : ¬e.Concerns env txn)
    (hmark : ((env.after e).txn txn).mustAbort = some reason) :
    (env.txn txn).mustAbort = some reason := by
  rcases h.acc.covered.txn_after hconcerns with hsame | hnone
  · rwa [hsame] at hmark
  · rw [hnone] at hmark
    cases hmark

theorem Firm.committed_after (h : env.Firm base)
    (hcommitted : ((env.after e).txn txn).state = .committed) :
    ((env.after e).txn txn).mustAbort = none := by
  by_cases hconcerns : e.Concerns env txn
  · cases e with
    | step id =>
      obtain ⟨call, hcall, htxn⟩ := hconcerns
      exact (h.acc.fares hcall htxn).mustAbort_of_committed
        (fun reason => h.marked id call txn reason hcall htxn) (h.committed txn) hcommitted
    | drop t =>
      obtain rfl : t = txn := hconcerns
      rw [after, txn_drop] at hcommitted ⊢
      split at hcommitted
      · cases hcommitted
      · next hover =>
        rw [if_neg hover]
        exact h.committed t hcommitted
    | _ => exact hconcerns.elim
  · rcases h.acc.covered.txn_after hconcerns with hsame | hnone
    · rw [hsame] at hcommitted ⊢
      exact h.committed txn hcommitted
    · exact hnone

theorem Firm.after (h : env.Firm base) (he : e.Orderly env)
    (hroom : base.since env.nextTxn + 1 < UInt64.size) : (env.after e).Firm base := by
  have hnamed := h.acc.covered.numbered.named
  refine ⟨h.acc.after he hroom, fun txn => h.committed_after,
    fun id call' txn reason hcall' htxn hmark => ?_, fun id call' e' hcall' hsome hstage => ?_⟩
  · rcases call_cases hnamed hcall' with ⟨op, timer, -, rfl⟩ | rfl | ⟨hstep, hcall⟩
    · exact .inl rfl
    · obtain ⟨call, hcall, hop⟩ := (step_spec hnamed id).op_eq hcall'
      have hfares := h.acc.fares hcall (hop ▸ htxn)
      rw [show (env.step id).1.calls.get? id = some call' from hcall'] at hfares
      rw [hop]
      exact .inr (hfares.stage_of_marked
        (fun reason => h.marked id call txn reason hcall (hop ▸ htxn)) rfl hmark)
    · have hother := h.acc.covered.single.not_concerns he hstep hcall htxn
      exact h.marked id call' txn reason hcall htxn (h.mark_before hother hmark)
  · rcases call_cases hnamed hcall' with ⟨op, timer, -, rfl⟩ | rfl | ⟨-, hcall⟩
    · cases hstage
    · obtain ⟨call, hcall, hop⟩ := (step_spec hnamed id).op_eq hcall'
      obtain ⟨txn, htxn⟩ := Option.isSome_iff_exists.1 hsome
      have hfares := h.acc.fares hcall (hop ▸ htxn)
      rw [show (env.step id).1.calls.get? id = some call' from hcall'] at hfares
      exact hfares.reports (fun e => h.reports id call e hcall (hop ▸ hsome)) rfl hstage
    · exact h.reports id call' e' hcall hsome hstage

/-- A mark and its reason stay. -/
theorem Firm.mustAbort_run (h : env.Firm base) {events : List Event}
    (horderly : env.Orderly events)
    (hroom : base.since env.nextTxn + events.length < UInt64.size)
    (hmark : (env.txn txn).mustAbort = some reason) :
    ((env.run events).txn txn).mustAbort = some reason := by
  have hstays := h.acc.covered.numbered.run_induction
    (fun cur => cur.Firm base ∧ (cur.txn txn).mustAbort = some reason) horderly hroom
    (fun _ he hnext h => ⟨h.1.after he hnext, h.1.mustAbort_after _ h.2⟩) ⟨h, hmark⟩
  exact hstays.2

/-! ## Transactions that are over -/

theorem Fares.eq_of_over {t' : Transaction} {result : Option Result} {stage : Option Stage}
    (h : Fares env txn call t' result stage) (hover : (env.txn txn).isActive = false) :
    t' = env.txn txn := by
  have hnot (hactive : (env.txn txn).isActive = true) : False := by
    rw [hover] at hactive
    cases hactive
  cases h with
  | fail | accept | borrow | release => rfl
  | deny hactive | ask hactive => exact (hnot hactive).elim
  | work _ hactive => exact (hnot hactive).elim
  | spent _ _ _ hactive | giveUp _ _ _ hactive | abort _ _ hactive | commit _ _ hactive =>
    exact (hnot hactive).elim

/-- A transaction that is over does not change. -/
theorem Firm.get?_txns_after (h : env.Firm base) (e : Event)
    (hsome : (env.txns.get? txn).isSome = true) (hover : (env.txn txn).isActive = false) :
    (env.after e).txns.get? txn = env.txns.get? txn := by
  by_cases hconcerns : e.Concerns env txn
  · obtain ⟨t, ht⟩ := Option.isSome_iff_exists.1 hsome
    obtain ⟨t', ht', -⟩ := h.acc.covered.numbered.descends_after e ht
    have hsame : (env.after e).txn txn = env.txn txn := by
      cases e with
      | step id =>
        obtain ⟨call, hcall, htxn⟩ := hconcerns
        exact (h.acc.fares hcall htxn).eq_of_over hover
      | drop x =>
        obtain rfl : x = txn := hconcerns
        rw [Environment.after, txn_drop, if_neg (Bool.eq_false_iff.1 hover)]
      | _ => exact hconcerns.elim
    rw [txn_eq_of_get? ht, txn_eq_of_get? ht'] at hsame
    rw [ht, ht', hsame]
  · exact h.acc.covered.get?_txns_after hsome hconcerns

theorem Firm.get?_txns_run (h : env.Firm base) {events : List Event}
    (horderly : env.Orderly events)
    (hroom : base.since env.nextTxn + events.length < UInt64.size)
    (hsome : (env.txns.get? txn).isSome = true) (hover : (env.txn txn).isActive = false) :
    (env.run events).txns.get? txn = env.txns.get? txn := by
  have hstays := h.acc.covered.numbered.run_induction
    (fun cur => cur.Firm base ∧ cur.txns.get? txn = env.txns.get? txn) horderly hroom
    (fun {_ e} _ he hnext ⟨hfirm, hsame⟩ => ⟨hfirm.after he hnext,
      (hfirm.get?_txns_after e (by rw [hsame, hsome]) (by rw [txn_congr hsame, hover])).trans
        hsame⟩) ⟨h, rfl⟩
  exact hstays.2

/-- A call that has done nothing yet for a transaction that is over fails, and does nothing. -/
theorem step_of_over (hcall : env.calls.get? id = some call) (hstage : call.stage.isEarly = true)
    (htxn : call.op.txn? = some txn) (hover : (env.txn txn).isActive = false) :
    ∃ tracker e, env.step id =
      ({ env with tracker, calls := env.calls.erase id }, some (.error e)) := by
  refine step_of_refused call ?_
  have hnot {x : TxnId} (hx : call.op.txn? = some x) (hactive : (env.txn x).isActive = true) :
      False := by
    rw [Option.some.inj (hx.symm.trans htxn), hover] at hactive
    cases hactive
  have hnone (hnone : call.op.txn? = none) : False := by
    rw [htxn] at hnone
    cases hnone
  cases hat : call.stage with
  | entered =>
    rw [step_eq_enter hcall hat]
    have h := env.enters id call
    generalize env.enter id call = stepped at h ⊢
    cases h with
    | closed | ended => exact ⟨_, rfl⟩
    | spent _ hx _ hactive => exact (hnot hx hactive).elim
    | inTxn _ hx _ hactive => exact (hnot hx hactive).elim
    | direct _ hdirect => exact (hnone hdirect).elim
    | abort hop hactive | giveUp _ hop hactive => exact (hnot (by rw [hop, Op.txn?]) hactive).elim
  | admitted cause =>
    rw [step_eq_proceed hcall hat]
    have h := env.proceeds id call cause
    generalize env.proceed id call cause = stepped at h ⊢
    cases h with
    | ended => exact ⟨_, rfl⟩
    | inTxn hx _ hactive => exact (hnot hx hactive).elim
    | direct hdirect => exact (hnone hdirect).elim
    | abort hop hactive | giveUp hop hactive | commit hop hactive =>
      exact (hnot (by rw [hop, Op.txn?]) hactive).elim
  | _ =>
    rw [hat] at hstage
    cases hstage

/-! ## Where marks come from -/

/-- A step that marks a transaction. -/
theorem Fares.marks {t' : Transaction} {stage : Option Stage}
    (h : Fares env txn call t' (env.step id).2 stage) (hnamed : env.Named)
    (hcall : env.calls.get? id = some call) (htxn : call.op.txn? = some txn)
    (hnone : (env.txn txn).mustAbort = none) (hmark : t'.mustAbort = some reason) :
    Event.Marks env txn reason (.step id) := by
  have hnot (hmark : (env.txn txn).mustAbort = some reason) : False := by
    rw [hnone] at hmark
    cases hmark
  have hlate (hop : ∀ t, call.op ≠ .abort t) (hstage : call.stage = .entered)
      (hopen : env.isOpen = true) (hactive : (env.txn txn).isActive = true)
      (hmark : ((env.txn txn).checkTime env.now).mustAbort = some reason) :
      Event.Marks env txn reason (.step id) := by
    obtain ⟨limit, hlimit, hover, hreason⟩ := (Transaction.mustAbort_checkTime hnone).1 hmark
    rw [hnamed txn _ (get?_of_isActive hactive)] at hreason
    exact .late hcall htxn hop hstage hopen hactive hlimit hover hreason
  generalize hresult : (env.step id).2 = result at h
  cases h with
  | spent hstage hopen hgoes hactive =>
    refine hlate (fun t hop => ?_) hstage hopen hactive hmark
    rw [hop] at hgoes
    cases hgoes
  | giveUp hstage hopen hop hactive => exact hlate (by rw [hop]; nofun) hstage hopen hactive hmark
  | deny _ _ he =>
    obtain ⟨hfatal, hreason⟩ := (Transaction.mustAbort_note hnone).1 hmark
    exact .denied hcall htxn hresult (he ▸ hfatal) hreason
  | _ => exact (hnot hmark).elim

/-- What is answered with a transaction timeout or a deadlock is marked. -/
theorem Fares.mustAbort_of_dooms {t' : Transaction} {result : Option Result}
    {stage : Option Stage} {e : Error} (h : Fares env txn call t' result stage)
    (hreports : ∀ e, call.stage.error? = some e → e.dooms = false)
    (hnone : (env.txn txn).mustAbort = none) (hresult : result = some (.error e))
    (he : e.dooms = true) : t'.mustAbort = some e.message := by
  have hnot (hspared : e.dooms = false) : False := by
    rw [he] at hspared
    cases hspared
  cases h with
  | fail hspared =>
    cases hresult
    exact (hnot (Error.dooms_of_isFatal hspared)).elim
  | spent =>
    cases hresult
    exact (hnot rfl).elim
  | deny _ _ hdenial =>
    cases hresult
    exact (Transaction.mustAbort_note hnone).2 ⟨hdenial.trans he, rfl⟩
  | ask _ _ hok => exact absurd hresult (hok e)
  | release hstage =>
    cases hresult
    exact (hnot (hreports _ (by rw [hstage, Stage.error?]))).elim
  | _ => cases hresult

/-- What finds the time of its transaction over, marks it. -/
theorem Fares.mustAbort_of_late {t' : Transaction} {result : Option Result}
    {stage : Option Stage} (h : Fares env txn call t' result stage)
    (hstage : call.stage = .entered) (hopen : env.isOpen = true)
    (hop : ∀ t, call.op ≠ .abort t) (hactive : (env.txn txn).isActive = true)
    (hlate : ((env.txn txn).checkTime env.now).mustAbort = some reason) :
    t'.mustAbort = some reason := by
  have hnot (hfit : ((env.txn txn).checkTime env.now).mustAbort = none) : False := by
    rw [hlate] at hfit
    cases hfit
  cases h with
  | fail _ hfit => exact (hnot (hfit hstage hopen hactive)).elim
  | accept _ _ hfit => exact (hfit.elim (hop txn) hnot).elim
  | deny _ hasks | ask _ hasks => exact absurd hstage hasks.not_entered
  | spent | giveUp => exact hlate
  | work hother | borrow hother | abort hother | commit hother | release hother =>
    rw [hother] at hstage
    cases hstage

/-- **Where marks come from.** -/
theorem Firm.marks_iff (h : env.Firm base) (e : Event) (hnone : (env.txn txn).mustAbort = none) :
    ((env.after e).txn txn).mustAbort = some reason ↔ e.Marks env txn reason := by
  have hnamed := h.acc.covered.numbered.named
  constructor
  · intro hmark
    by_cases hconcerns : e.Concerns env txn
    · cases e with
      | step id =>
        obtain ⟨call, hcall, htxn⟩ := hconcerns
        exact (h.acc.fares hcall htxn).marks hnamed hcall htxn hnone hmark
      | drop t =>
        obtain rfl : t = txn := hconcerns
        rw [Environment.after, txn_drop] at hmark
        split at hmark <;>
          · rw [show _ = none from hnone] at hmark
            cases hmark
      | _ => exact hconcerns.elim
    · rw [h.mark_before hconcerns hmark] at hnone
      cases hnone
  · intro hmarks
    cases hmarks with
    | denied hcall htxn hresult he hreason =>
      rw [← hreason]
      refine (h.acc.fares hcall htxn).mustAbort_of_dooms (fun e' herror => ?_) hnone hresult he
      exact h.reports _ _ e' hcall (by rw [htxn]; rfl) herror
    | late hcall htxn hop hstage hopen hactive hlimit hover hreason =>
      refine (h.acc.fares hcall htxn).mustAbort_of_late hstage hopen hop hactive ?_
      refine (Transaction.mustAbort_checkTime hnone).2 ⟨_, hlimit, hover, ?_⟩
      rw [hnamed txn _ (get?_of_isActive hactive)]
      exact hreason

/-- No other error marks a transaction. -/
theorem Firm.mustAbort_of_spared (h : env.Firm base) {e : Error}
    (hresult : (env.step id).2 = some (.error e)) (he : e.isFatal = false) (txn : TxnId) :
    ((env.step id).1.txn txn).mustAbort = (env.txn txn).mustAbort := by
  by_cases hconcerns : Event.Concerns env txn (.step id)
  · obtain ⟨call, hcall, htxn⟩ := hconcerns
    have hfares := h.acc.fares hcall htxn
    generalize (env.step id).1.txn txn = t' at hfares ⊢
    rw [hresult] at hfares
    generalize hanswer : (some (.error e) : Option Result) = answer at hfares
    generalize ((env.step id).1.calls.get? id).map (·.stage) = stage at hfares
    cases hfares with
    | fail | release | ask => rfl
    | spent =>
      cases hanswer
      cases he
    | deny =>
      cases hanswer
      rw [Transaction.note, he]
      rfl
    | _ => cases hanswer
  · rcases h.acc.covered.txn_after hconcerns with hsame | hnone
    · exact congrArg Transaction.mustAbort hsame
    · have hafter : ((env.step id).1.txn txn).mustAbort = none := hnone
      cases hmark : (env.txn txn).mustAbort with
      | none => exact hafter
      | some reason => exact nomatch hafter.symm.trans (h.mustAbort_after (.step id) hmark)

/-! ## Calls of a marked transaction -/

/-- A call of a marked transaction fails when it is checked, or it is a commit that goes on to abort
the transaction. -/
theorem Fares.fails {t' : Transaction} {result : Option Result} {stage : Option Stage}
    (h : Fares env txn call t' result stage) (hmark : (env.txn txn).mustAbort = some reason)
    (hop : call.op ≠ .abort txn) (hentered : call.stage = .entered) :
    (∃ e, result = some (.error e)) ∨ call.op = .commit txn ∧ result = none ∧
      ∃ e, stage = some (.admitted (some e)) := by
  cases h with
  | fail | spent | deny => exact .inl ⟨_, rfl⟩
  | accept _ _ hfit =>
    rcases hfit with habort | hfit
    · exact absurd habort hop
    · rw [Transaction.mustAbort_of_checkTime hfit] at hmark
      cases hmark
  | giveUp _ _ hcommit => exact .inr ⟨hcommit, rfl, _, rfl⟩
  | ask _ hasks => exact absurd hentered hasks.not_entered
  | work hother | borrow hother | abort hother | commit hother | release hother =>
    rw [hother] at hentered
    cases hentered

/-- A call that has its result answers it. -/
theorem answers_of_releasing {owner : TxnId} {r : Result} (hcall : env.calls.get? id = some call)
    (hstage : call.stage = .releasing owner r) : Answers id r env [.step id] := by
  refine .step ?_
  rw [step, hcall]
  dsimp only
  rw [hstage]
  exact (release_spec hcall hstage).result_of_releasing hcall hstage

/-- A commit that has to abort fails after that. -/
theorem answers_of_giveUp {e : Error} (hcall : env.calls.get? id = some call)
    (hop : call.op = .commit txn) (hstage : call.stage = .admitted (some e)) :
    ∃ e' n, n ≤ 2 ∧ Answers id (.error e') env (.replicate n (.step id)) := by
  have hstep := step_eq_proceed hcall hstage
  have h := env.proceeds id call (some e)
  generalize env.proceed id call (some e) = stepped at h hstep
  cases h with
  | ended =>
    obtain ⟨tracker, hfinish⟩ := env.finish_eq id call
      (.error (.invalidOperation (.notActive (env.txn _).id (env.txn _).state)))
    exact ⟨_, 1, by omega, .step (by rw [hstep, hfinish])⟩
  | giveUp =>
    obtain ⟨call', e', hcall', hstage'⟩ : ∃ call' e', (env.step id).1.calls.get? id = some call' ∧
        call'.stage = .releasing (env.txn _).id (.error e') := by
      rw [hstep]
      unfold enterAbort setStage
      dsimp only
      rw [SortedMap.get?_insert, if_pos rfl]
      split
      · exact ⟨_, _, rfl, rfl⟩
      · exact ⟨_, _, rfl, rfl⟩
      · next hnone => cases hnone
    refine ⟨e', 2, by omega, .later_step ?_ (answers_of_releasing hcall' hstage')⟩
    rw [hstep]
    rfl
  | direct hother | inTxn _ hother | abort hother =>
    rw [hop] at hother
    cases hother

/-- No call of a marked transaction succeeds, but for its abort: it fails at its next step, or it is
a commit that aborts and fails after that. -/
theorem Firm.fails (h : env.Firm base) (hcall : env.calls.get? id = some call)
    (htxn : call.op.txn? = some txn) (hop : call.op ≠ .abort txn)
    (hmark : (env.txn txn).mustAbort = some reason) :
    ∃ e n, n ≤ (if call.op = .commit txn then 3 else 1) ∧
      Answers id (.error e) env (.replicate n (.step id)) := by
  rcases h.marked id call txn reason hcall htxn hmark with hentered | hyields
  · rcases (h.acc.fares hcall htxn).fails hmark hop hentered with
      ⟨e, hresult⟩ | ⟨hcommit, hresult, e, hnext⟩
    · exact ⟨e, 1, by split <;> omega, .step hresult⟩
    · obtain ⟨call', hcall', hstage'⟩ := Option.map_eq_some_iff.1 hnext
      obtain ⟨before, hbefore, hop'⟩ :=
        (step_spec h.acc.covered.numbered.named id).op_eq hcall'
      obtain rfl : before = call := Option.some.inj (hbefore.symm.trans hcall)
      obtain ⟨e', n, hn, hlater⟩ := answers_of_giveUp hcall' (hop'.trans hcommit) hstage'
      exact ⟨e', n + 1, by rw [if_pos hcommit]; omega, .later_step hresult hlater⟩
  · generalize hstage : call.stage = stage at hyields
    cases hyields with
    | abort habort => exact absurd habort hop
    | giveUp hcommit =>
      obtain ⟨e', n, hn, hanswers⟩ := answers_of_giveUp hcall hcommit hstage
      exact ⟨e', n, by rw [if_pos hcommit]; omega, hanswers⟩
    | report => exact ⟨_, 1, by split <;> omega, answers_of_releasing hcall hstage⟩

end Environment
end WalStore

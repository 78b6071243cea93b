import WalStore.Proofs.Environment.Standing

/-!
# The counters account for every call

**Invariant (`Tallied`).** As many transactions are counted to have begun as there are, each is
counted by how it stands in the books, and as many records are counted as the log has got since it
was opened. For the lock manager a run is a run of its own (`lockRun`), whose calls are counted
there.

**Theorem (`accounts_of_atRest`).** In every state in which no call is between its lock and its
return, the counters say how many transactions have begun, committed and aborted, how many records
have been logged, how many calls have asked for locks, and why how many of them have failed.
-/

namespace WalStore

open Record (endLsn)

/-- After the position in front of a position comes this position. -/
theorem Lsn.prev_next (l : Lsn) : l.next.prev = l := by
  rw [next, prev, UInt64.add_sub_cancel]

namespace LockManager

/-- Wakers start no call. -/
theorem fresh_replicate_notify (m : LockManager) (n : Nat) : m.Fresh (.replicate n .notify) := by
  induction n generalizing m with
  | zero => trivial
  | succ n ih => exact ⟨trivial, ih _⟩

end LockManager

namespace Environment

variable {env env' : Environment} {base : TxnId} {id : Nat} {call : Call} {txn : TxnId}
  {result : Option Result} {rs rs' : List Record} {first : Nat}

/-! ## The lock manager -/

/-- What a run is for the lock manager. -/
def lockRun (env : Environment) : List Event → List LockManager.Event
  | [] => []
  | e :: events => env.lockEvents e ++ (env.after e).lockRun events

theorem Accounted.books (h : env.Accounted base) (e : Event) : env.Books e (env.after e) :=
  env.books_after e fun _ _ _ => h.over_of_resolving

/-- A call that asks for its lock does not wait for one. -/
theorem Accounted.fresh (h : env.Accounted base) (e : Event) :
    env.locks.Fresh (env.lockEvents e) := by
  cases e with
  | step id =>
    rw [lockEvents]
    cases hcall : env.calls.get? id with
    | none => trivial
    | some call =>
      rw [Option.elim_some, lockEventsOf]
      cases hstage : call.stage with
      | entered => trivial
      | admitted =>
        dsimp only
        cases env.request? call with
        | none => trivial
        | some request =>
          exact ⟨h.awake_of_isEarly hcall (by rw [hstage, Stage.isEarly]), trivial⟩
      | waiting => exact ⟨trivial, trivial⟩
      | granted => trivial
      | releasing => cases call.op <;> exact ⟨trivial, trivial⟩
  | drop txn =>
    rw [lockEvents]
    split
    · exact ⟨trivial, trivial⟩
    · trivial
  | cancel txn => exact ⟨trivial, LockManager.fresh_replicate_notify ..⟩
  | wake id => exact ⟨trivial, trivial⟩
  | _ => trivial

theorem Accounted.locks_run (h : env.Accounted base) {events : List Event}
    (horderly : env.Orderly events)
    (hroom : base.since env.nextTxn + events.length < UInt64.size) :
    (env.run events).locks = env.locks.run (env.lockRun events) ∧
      env.locks.Fresh (env.lockRun events) := by
  induction events generalizing env with
  | nil => exact ⟨rfl, trivial⟩
  | cons e events ih =>
    rw [List.length_cons] at hroom
    have hnext := (since_nextTxn_after h.covered.numbered (by omega) e).2
    obtain ⟨hlocks, hfresh⟩ := ih (h.after horderly.1 (by omega)) horderly.2 (by omega)
    have hstep := (h.books e).locks
    rw [hstep] at hlocks hfresh
    rw [lockRun, LockManager.run_append, LockManager.fresh_append]
    exact ⟨hlocks, h.fresh e, hfresh⟩

/-! ## Transactions -/

/-- How many transactions are in this state. -/
def countIn (env : Environment) (state : TxnState) : Nat :=
  env.txns.total fun t => if t.state = state then 1 else 0

/-- How many transactions stand so in the books. -/
def booked (env : Environment) (state : TxnState) : Nat :=
  env.txns.total fun t => if env.standing t.id = state then 1 else 0

/-- Whether a transaction stands so in the books. -/
def bookedAt (env : Environment) (state : TxnState) (txn : TxnId) : Nat :=
  if (env.txns.get? txn).isSome ∧ env.standing txn = state then 1 else 0

theorem Named.share_eq (h : env.Named) (state : TxnState) (txn : TxnId) :
    env.txns.share (fun t => if env.standing t.id = state then 1 else 0) txn =
      env.bookedAt state txn := by
  rw [SortedMap.share, bookedAt]
  cases hget : env.txns.get? txn with
  | none => rfl
  | some t => simp [h txn t hget]

/-- An event keeps all transactions, and one that it adds is active. -/
theorem Numbered.get?_after (h : env.Numbered base) (e : Event) (txn : TxnId) :
    ((env.after e).txns.get? txn).isSome = (env.txns.get? txn).isSome ∨
      env.txns.get? txn = none ∧ ((env.after e).txn txn).state = .active := by
  rcases txns_after h.named e with ⟨-, htxns⟩ | ⟨config, timeouts, -, -, htxns⟩
  · left
    cases hget : env.txns.get? txn with
    | none =>
      refine Bool.eq_false_iff.2 fun hsome => ?_
      obtain ⟨t', ht'⟩ := Option.isSome_iff_exists.1 hsome
      obtain ⟨t, ht, -⟩ := htxns.exists_of_get? ht'
      rw [hget] at ht
      cases ht
    | some t =>
      obtain ⟨t', ht', -⟩ := htxns.exists_get? hget
      rw [ht']
      rfl
  · by_cases htxn : txn = env.nextTxn
    · subst htxn
      refine .inr ⟨h.get?_nextTxn, ?_⟩
      rw [Environment.txn, SortedMap.getD, htxns, SortedMap.get?_insert, if_pos rfl]
      rfl
    · left
      rw [htxns, SortedMap.get?_insert, if_neg htxn]

/-- A transaction that an event does not settle counts as before for how transactions end. -/
theorem Accounted.bookedAt_of_ne (h : env.Accounted base) {e : Event} (he : e.Orderly env)
    (hsettles : ∀ state, env.settles? e ≠ some (txn, state)) {state : TxnState}
    (hstate : state ≠ .active) :
    (env.after e).bookedAt state txn = env.bookedAt state txn := by
  rw [bookedAt, bookedAt]
  rcases h.covered.numbered.get?_after e txn with hsame | ⟨hnone, hactive⟩
  · rw [hsame]
    by_cases hsome : (env.txns.get? txn).isSome = true
    · rw [h.standing_of_ne he hsome hsettles]
    · rw [if_neg fun h => hsome h.1, if_neg fun h => hsome h.1]
  · rw [hnone, standing_of_active hactive, if_neg fun h => hstate h.2.symm, if_neg (by simp)]

/-- What an event settles is what it changes in how transactions stand. -/
theorem Accounted.booked_after (h : env.Accounted base) {e : Event} (he : e.Orderly env)
    (hnamed : (env.after e).Named) {state : TxnState} (hstate : state ≠ .active) :
    (env.after e).booked state =
      env.booked state + if (env.settles? e).map (·.2) = some state then 1 else 0 := by
  have hbefore := h.covered.numbered.named
  have hshare {txn : TxnId} (hsettles : ∀ state, env.settles? e ≠ some (txn, state)) :
      (env.after e).txns.share
          (fun t => if (env.after e).standing t.id = state then 1 else 0) txn =
        env.txns.share (fun t => if env.standing t.id = state then 1 else 0) txn := by
    rw [hnamed.share_eq, hbefore.share_eq, h.bookedAt_of_ne he hsettles hstate]
  cases hsettles : env.settles? e with
  | none =>
    refine SortedMap.total_congr fun txn => hshare fun state => ?_
    rw [hsettles]
    nofun
  | some settled =>
    obtain ⟨txn, ending⟩ := settled
    obtain ⟨hsome, hactive, hending, -⟩ := h.standing_settled hsettles
    have hothers := SortedMap.total_exchange fun txn' (hne : txn' ≠ txn) =>
      hshare fun state' heq => hne (by
        rw [hsettles, Option.some.injEq, Prod.mk.injEq] at heq
        exact heq.1.symm)
    rw [hnamed.share_eq, hbefore.share_eq] at hothers
    have hzero : env.bookedAt state txn = 0 := by
      rw [bookedAt, hactive, if_neg fun h => hstate h.2.symm]
    have hone : (env.after e).bookedAt state txn = if ending = state then 1 else 0 := by
      have hkept : ((env.after e).txns.get? txn).isSome = true := by
        rcases h.covered.numbered.get?_after e txn with hsame | ⟨hnone, -⟩
        · rw [hsame, hsome]
        · rw [hnone] at hsome
          cases hsome
      rw [bookedAt, hkept, hending]
      simp
    rw [hzero, hone] at hothers
    rw [booked, booked, Option.map_some]
    simpa using hothers

theorem Inherits.size_eq {txns txns' : SortedMap TxnId Transaction} (h : Inherits txns txns') :
    txns'.size = txns.size := by
  rw [← SortedMap.total_one, ← SortedMap.total_one]
  refine SortedMap.total_congr fun txn => ?_
  have hrel := h txn
  rw [SortedMap.share, SortedMap.share]
  generalize txns.get? txn = before at hrel ⊢
  generalize txns'.get? txn = found at hrel ⊢
  cases hrel <;> rfl

theorem Numbered.begun_after (h : env.Numbered base) {e : Event}
    (hbooks : env.Books e (env.after e)) :
    (env.after e).counters.begun + env.txns.size =
      env.counters.begun + (env.after e).txns.size := by
  by_cases hbegin : ∃ config, e = .begin config
  · obtain ⟨config, rfl⟩ := hbegin
    rw [Environment.after]
    unfold begin
    split
    · rfl
    · rfl
    · dsimp only [takeId]
      rw [SortedMap.size_insert_of_none h.get?_nextTxn]
      omega
  · rw [hbooks.begun fun config he => hbegin ⟨config, he⟩]
    rcases txns_after h.named e with ⟨-, htxns⟩ | ⟨config, -, he, -⟩
    · rw [htxns.size_eq]
    · exact absurd ⟨config, he⟩ hbegin

/-! ## Records -/

/-- A record is counted if and only if it has been logged. -/
theorem Effect.lastLsn_after (h : Effect env rs env' rs') (hlogs : env.LogsOne env')
    (hlast : env.state.lastLsn = endLsn .zero rs)
    (hroom : (endLsn .zero rs).toNat + 1 < UInt64.size) :
    env'.state.lastLsn.toNat + env.counters.logged =
      env.state.lastLsn.toNat + env'.counters.logged := by
  have hsame (hstate : env'.state.lastLsn = env.state.lastLsn) :
      env'.state.lastLsn.toNat + env.counters.logged =
        env.state.lastLsn.toNat + env'.counters.logged := by
    rcases hlogs with ⟨-, hlogged⟩ | ⟨hlt, -⟩
    · rw [hstate, hlogged]
    · rw [hstate, Lsn.lt_iff] at hlt
      exact absurd hlt (Nat.lt_irrefl _)
  cases h with
  | quiet _ hstate => exact hsame (by rw [hstate])
  | forget _ _ hstate => exact hsame (by rw [hstate]; rfl)
  | logs hlsn _ happly =>
    obtain ⟨hlt, hend, -⟩ := Replay.State.views_apply happly
    rcases hlogs with ⟨hstate, -⟩ | ⟨-, hlogged⟩
    · rw [← hend, hstate, Lsn.lt_iff] at hlt
      exact absurd hlt (Nat.lt_irrefl _)
    · rw [hend, hlsn, Lsn.toNat_next hroom, hlast, hlogged]
      omega

theorem Tracks.log_lastLsn (h : env.Tracks base rs) : env.log.lastLsn = env.state.lastLsn := by
  rw [Log.lastLsn, h.holds.next, Lsn.prev_next, h.lastLsn]

/-! ## The invariant -/

/-- Transactions and records are counted. The log of the environment, when it was opened, ended at
`first`. -/
structure Tallied (env : Environment) (first : Nat) : Prop where
  begun : env.counters.begun = env.txns.size
  ended : ∀ state ≠ .active, env.counters.ended state = env.booked state
  logged : env.state.lastLsn.toNat = first + env.counters.logged

theorem Tallied.after (h : env.Tallied first) (hacc : env.Accounted base)
    (htracks : env.Tracks base rs) {e : Event} (he : e.Orderly env)
    (hlsn : (endLsn .zero rs).toNat + 1 < UInt64.size)
    (htxn : base.since env.nextTxn + 1 < UInt64.size) : (env.after e).Tallied first := by
  have hbooks := hacc.books e
  obtain ⟨rs', heffect, htracks'⟩ := htracks.after hlsn htxn e
  have hbegun := hacc.covered.numbered.begun_after hbooks
  have hlogged := heffect.lastLsn_after hbooks.logged htracks.lastLsn hlsn
  refine ⟨?_, fun state hstate => ?_, ?_⟩
  · have hbefore := h.begun
    omega
  · rw [hbooks.ended, h.ended state hstate,
      hacc.booked_after he htracks'.numbered.named hstate]
  · have hbefore := h.logged
    omega

theorem Tallied.run (h : env.Tallied first) (hacc : env.Accounted base)
    (htracks : env.Tracks base rs) {events : List Event} (horderly : env.Orderly events)
    (hlsn : (endLsn .zero rs).toNat + events.length < UInt64.size)
    (htxn : base.since env.nextTxn + events.length < UInt64.size) :
    (env.run events).Tallied first := by
  induction events generalizing env rs with
  | nil => exact h
  | cons e events ih =>
    rw [List.length_cons] at hlsn htxn
    have hnext := (since_nextTxn_after hacc.covered.numbered (by omega) e).2
    obtain ⟨rs₁, heffect, htracks₁⟩ := htracks.after (by omega) (by omega) e
    have hend := heffect.toNat_endLsn (by omega)
    exact ih (h.after hacc htracks horderly.1 (by omega) (by omega))
      (hacc.after horderly.1 (by omega)) htracks₁ horderly.2 (by omega) (by omega)

/-- Nothing has been counted in an environment that has just been opened. -/
theorem counters_of_openOn {config : Config} {store : Store} {now : Instant}
    (hopen : openOn config store now = .ok env) :
    env.counters.begun = 0 ∧ env.counters.committed = 0 ∧ env.counters.aborted = 0 ∧
      env.counters.logged = 0 := by
  obtain ⟨-, _, _, _, _, _, -, -, -, -, rfl⟩ := openOn_eq_ok_iff.1 hopen
  exact ⟨rfl, rfl, rfl, rfl⟩

theorem Opened.tallied {config : Config} {store : Store} {now : Instant}
    (h : env.Opened config rs) (hopen : openOn config store now = .ok env) :
    env.Tallied env.log.lastLsn.toNat := by
  obtain ⟨hbegun, hcommitted, haborted, hlogged⟩ := counters_of_openOn hopen
  refine ⟨?_, fun state hstate => ?_, ?_⟩
  · rw [hbegun, h.txns]
    rfl
  · rw [booked, h.txns]
    cases state with
    | active => exact absurd rfl hstate
    | committed => exact hcommitted
    | aborted => exact haborted
  · rw [h.tracks.log_lastLsn, hlogged, Nat.add_zero]

/-! ## At rest -/

/-- No call is between having got its lock and its return. -/
def AtRest (env : Environment) : Prop :=
  ∀ id call, env.calls.get? id = some call → call.stage.holder? = none

instance (env : Environment) : Decidable env.AtRest :=
  decidable_of_iff (∀ e ∈ env.calls.entries, e.2.stage.holder? = none) <| by
    simp only [AtRest, SortedMap.get?_eq_some_iff, Prod.forall]

theorem AtRest.not_resolving (h : env.AtRest) : ¬env.Resolving txn := by
  rintro ⟨id, hresolving⟩
  obtain ⟨call, hcall, hresolving⟩ := Option.bind_eq_some_iff.1 hresolving
  obtain ⟨r, hstage, -⟩ := Call.resolving?_eq_some_iff.1 hresolving
  have hnone := h id call hcall
  rw [hstage] at hnone
  cases hnone

/-- At rest the books say what there is. -/
theorem AtRest.booked_eq (h : env.AtRest) (hnamed : env.Named) (state : TxnState) :
    env.booked state = env.countIn state := by
  refine SortedMap.total_congr fun txn => ?_
  rw [hnamed.share_eq, bookedAt, standing_of_not_resolving h.not_resolving, SortedMap.share]
  cases hget : env.txns.get? txn with
  | none => rfl
  | some t => simp [txn_eq_of_get? hget]

/-- Every transaction is active, has committed or has aborted. -/
theorem size_eq_countIn (env : Environment) :
    env.txns.size = env.countIn .committed + env.countIn .aborted + env.countIn .active := by
  rw [countIn, countIn, countIn, ← SortedMap.total_add, ← SortedMap.total_add,
    ← SortedMap.total_one]
  congr 1
  funext t
  cases t.state <;> rfl

/-- What the counters say after a run. -/
structure Accounts (env : Environment) (events : List Event) : Prop where
  begun : (env.run events).counters.begun = (env.run events).counters.committed +
    (env.run events).counters.aborted + (env.run events).countIn .active
  committed : (env.run events).counters.committed = (env.run events).countIn .committed
  aborted : (env.run events).counters.aborted = (env.run events).countIn .aborted
  logged : (env.run events).log.lastLsn.toNat =
    env.log.lastLsn.toNat + (env.run events).counters.logged
  locks : (env.run events).locks = env.locks.run (env.lockRun events)
  /-- A call that has asked for a lock has been answered, or is asleep. -/
  requests : (env.run events).lockState.counters.requests =
    (env.locks.outcomes (env.lockRun events)).length + (env.run events).locks.sleepers.size
  failed : ∀ d, (env.run events).lockState.counters.failed d =
    LockState.failed d (env.locks.outcomes (env.lockRun events))

/-- **The counters account for every call.** Whatever locks and stores fail in a run, at rest every
transaction that has begun is counted as committed or aborted, or is active; the log has grown by
the records counted; and each request for a lock is counted once when it is made, and once more if
it fails, by why it fails. -/
theorem accounts_of_atRest {config : Config} {store : Store} {now : Instant}
    (hopen : openOn config store now = .ok env) {events : List Event}
    (horderly : env.Orderly events)
    (hroom : env.log.lastLsn.toNat + events.length < UInt64.size)
    (hrest : (env.run events).AtRest) : env.Accounts events := by
  obtain ⟨rs, hopened⟩ := openOn_ok hopen
  have htracks := hopened.tracks
  have hlsn : (endLsn .zero rs).toNat + events.length < UInt64.size := by
    rwa [← htracks.lastLsn, ← htracks.log_lastLsn]
  have htxn : env.nextTxn.since env.nextTxn + events.length < UInt64.size := by
    rw [TxnId.since_self]
    omega
  obtain ⟨rs', htracks', -⟩ := htracks.run events hlsn htxn
  have hnamed := htracks'.numbered.named
  have htallied := (hopened.tallied hopen).run hopened.accounted htracks horderly hlsn htxn
  obtain ⟨hlocks, hfresh⟩ := hopened.accounted.locks_run horderly htxn
  have hcommitted := htallied.ended .committed nofun
  have haborted := htallied.ended .aborted nofun
  rw [hrest.booked_eq hnamed] at hcommitted haborted
  have htallies := LockManager.tallies_run hfresh
  rw [← hlocks] at htallies
  have hcounters : env.locks.shared.counters = .zero := by
    rw [hopened.locks]
    rfl
  have hsleepers : env.locks.sleepers.size = 0 := by
    rw [hopened.locks]
    rfl
  refine ⟨?_, hcommitted, haborted, ?_, hlocks, ?_, fun d => ?_⟩
  · rw [htallied.begun, size_eq_countIn, ← hcommitted, ← haborted]
    rfl
  · rw [htracks'.log_lastLsn, htallied.logged]
  · have hrequests := htallies.requests
    rw [hcounters, hsleepers, Nat.add_zero] at hrequests
    exact hrequests.trans (congrArg (· + _) (Nat.zero_add _))
  · refine (htallies.failed d).trans ?_
    rw [hcounters]
    cases d <;> exact Nat.zero_add _

/-- One transaction commits although its commit cannot be made durable. Another waits for its lock
in vain and is dropped. A write outside transactions cannot be logged. The last transaction keeps
a lock that a write waits for. -/
def mishaps : List Event :=
  [.begin .standard, .begin .standard, .begin .standard,
    .start 0 (.put ⟨1⟩ [1] [170]), .step 0, .step 0, .step 0,
    .start 1 (.put ⟨2⟩ [1] [187]), .step 1, .step 1, .tick 500000000, .wake 1, .step 1, .drop ⟨2⟩,
    .plan ⟨none, true, false⟩, .start 2 (.commit ⟨1⟩), .step 2, .step 2, .step 2,
    .plan ⟨some 0, false, false⟩, .start 3 (.putNow [2] [204]), .step 3, .step 3, .step 3, .step 3,
    .start 4 (.lock ⟨3⟩ [2] .read none), .step 4, .step 4, .start 5 (.putNow [2] [221]), .step 5,
    .step 5]

theorem accounts_of_atRest_mishaps : openOn .standard .empty 0 = .ok blank ∧
    blank.Orderly mishaps ∧ blank.log.lastLsn.toNat + mishaps.length < UInt64.size ∧
    (blank.run mishaps).AtRest ∧ blank.Accounts mishaps := by
  have horderly : blank.Orderly mishaps := by decide +kernel
  have hroom : blank.log.lastLsn.toNat + mishaps.length < UInt64.size := by decide
  have hrest : (blank.run mishaps).AtRest := by decide +kernel
  exact ⟨openOn_empty, horderly, hroom, hrest,
    accounts_of_atRest openOn_empty horderly hroom hrest⟩

end Environment
end WalStore

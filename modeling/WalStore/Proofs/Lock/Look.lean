import WalStore.Lock.Manager
import WalStore.Proofs.Lock.Table

/-!
# What a look at the lock table comes to

A request that looks at the table fails as a victim, is granted, gives up, or stays queued
(`Attempt`); a request that stays sleeps, breaks a deadlock at the cost of another, or is the
victim itself (`Stay`). Each constructor says under which conditions it happens and what the look
then does, so nothing about looks has to be unfolded again.
-/

namespace WalStore.LockState

/-! ## Staying queued -/

/-- The table with the wait of a request noted. -/
def noted (s : LockState) (r : LockRequest) : LockTable :=
  s.table.noteWaits r.txn r.resource r.mode

/-- What becomes of a request that stays queued in `s`. -/
inductive Stay (s : LockState) (w : Waiting) : RequestLook → Prop
  /-- It is on no cycle, or nobody looks. -/
  | sleep (hcycle : s.detection = true →
        (s.noted w.request).graph.cycleThrough w.request.txn = none) :
      Stay s w ⟨{ s with table := s.noted w.request }, .sleeps w, false⟩
  /-- Another owner on the cycle gives way. -/
  | spare {cycle : List TxnId} {victim : TxnId}
      (hcycle : (s.noted w.request).graph.cycleThrough w.request.txn = some cycle)
      (hvictim : victim ∈ cycle) (hne : victim ≠ w.request.txn) :
      Stay s w ⟨{ s with table := (s.noted w.request).markVictim victim cycle }, .sleeps w, true⟩
  /-- Its own owner gives way. -/
  | yield {cycle : List TxnId}
      (hcycle : (s.noted w.request).graph.cycleThrough w.request.txn = some cycle)
      (hvictim : w.request.txn ∈ cycle) :
      Stay s w (sacrifice { s with table := (s.noted w.request).markVictim w.request.txn cycle }
        w.request cycle)

/-- What looking for a deadlock comes to, where deadlocks are looked for. -/
theorem breakCycle_noted (s : LockState) (r : LockRequest) :
    (s.detection = true → (s.noted r).graph.cycleThrough r.txn = none) ∧
        (if s.detection then (s.noted r).breakCycle r.txn else (s.noted r, none)) =
          (s.noted r, none) ∨
      ∃ cycle victim, (s.noted r).graph.cycleThrough r.txn = some cycle ∧ victim ∈ cycle ∧
        (if s.detection then (s.noted r).breakCycle r.txn else (s.noted r, none)) =
          ((s.noted r).markVictim victim cycle, some victim) := by
  by_cases hdet : s.detection = true
  · rw [if_pos hdet]
    rcases (s.noted r).breakCycle_cases r.txn with ⟨hcycle, hbreak⟩ | h
    · exact .inl ⟨fun _ => hcycle, hbreak⟩
    · exact .inr h
  · rw [if_neg hdet]
    exact .inl ⟨fun h => absurd h hdet, rfl⟩

/-- The end of a look of a request that stays, once deadlocks have been looked for. -/
def settled (s : LockState) (w : Waiting) (p : LockTable × Option TxnId) : RequestLook :=
  match p.1.victims.get? w.request.txn with
  | some cycle => sacrifice { s with table := p.1 } w.request cycle
  | none => ⟨{ s with table := p.1 }, .sleeps w, p.2.isSome⟩

theorem stay_eq (s : LockState) (w : Waiting) :
    s.stay w = s.settled w
      (if s.detection then (s.noted w.request).breakCycle w.request.txn
        else (s.noted w.request, none)) := rfl

theorem stay_spec {s : LockState} {w : Waiting}
    (hvictim : s.table.victims.get? w.request.txn = none) : Stay s w (s.stay w) := by
  have hnoted : (s.noted w.request).victims.get? w.request.txn = none := hvictim
  rw [stay_eq]
  rcases s.breakCycle_noted w.request with ⟨hcycle, hbreak⟩ | ⟨cycle, victim, hcycle, hmem, hbreak⟩
  · rw [hbreak, settled, hnoted]
    exact .sleep hcycle
  have hget : ((s.noted w.request).markVictim victim cycle).victims.get? w.request.txn =
      if w.request.txn = victim then some cycle else none := by
    rw [LockTable.markVictim, SortedMap.get?_insert, hnoted]
  rw [hbreak, settled, hget]
  by_cases hne : victim = w.request.txn
  · subst hne
    rw [if_pos rfl]
    exact .yield hcycle hmem
  · rw [if_neg (Ne.symm hne)]
    exact .spare hcycle hmem hne

/-! ## Attempts -/

/-- Whether the time of the request's transaction is over. -/
def timeIsOver (sight : Monitor.Sight) (r : LockRequest) : Prop :=
  ∃ limit, r.deadlines.expired? sight.now = some (.txn limit)

/-- What becomes of an attempt; `queued` says whether the request is in the queue already. -/
inductive Attempt (queued : Bool) (sight : Monitor.Sight) (w : Waiting) (s : LockState) :
    RequestLook → Prop
  | victim {cycle : List TxnId} (hvictim : s.table.victims.get? w.request.txn = some cycle) :
      Attempt queued sight w s (s.sacrifice w.request cycle)
  | grant (hvictim : s.table.victims.get? w.request.txn = none)
      (htime : ¬timeIsOver sight w.request)
      (hturn : (s.table.lock w.request.resource).grantable w.request.txn w.request.mode = true)
      (g : Grant) (hnew : g.isNew = true) :
      Attempt queued sight w s ⟨{ s with
        table := s.table.grant w.request.txn w.request.resource w.request.mode },
        .returns (.ok g), queued⟩
  | fail (hvictim : s.table.victims.get? w.request.txn = none)
      (hturn : timeIsOver sight w.request ∨
        (s.table.lock w.request.resource).grantable w.request.txn w.request.mode = false)
      {counters : LockCounters} {e : Error}
      (hfailure : s.failure? sight w.request (w.request.deadlines.expired? sight.now) =
        some (counters, e)) :
      Attempt queued sight w s (s.giveUp w.request queued counters e)
  | stay (hvictim : s.table.victims.get? w.request.txn = none)
      (hcancel : sight.cancelled = false)
      (htime : w.request.deadlines.expired? sight.now = none)
      (hturn : (s.table.lock w.request.resource).grantable w.request.txn w.request.mode = false)
      {look : RequestLook} (hstay : Stay (if queued then s else s.queueUp w.request) w look) :
      Attempt queued sight w s look

theorem failure?_eq_none {s : LockState} {sight : Monitor.Sight} {r : LockRequest}
    {expiry : Option Expiry} (h : s.failure? sight r expiry = none) :
    sight.cancelled = false ∧ expiry = none := by
  unfold failure? at h
  dsimp only at h
  split at h
  · cases h
  · next hcancel =>
    split at h
    · cases h
    · cases h
    · exact ⟨by simpa using hcancel, rfl⟩

/-- Whether a request is granted at a look. -/
def isReady (s : LockState) (sight : Monitor.Sight) (r : LockRequest) : Bool :=
  (match r.deadlines.expired? sight.now with
    | some (.txn _) => false
    | _ => true) && (s.table.lock r.resource).grantable r.txn r.mode

theorem isReady_iff {s : LockState} {sight : Monitor.Sight} {r : LockRequest} :
    s.isReady sight r = true ↔
      ¬timeIsOver sight r ∧ (s.table.lock r.resource).grantable r.txn r.mode = true := by
  rw [isReady, Bool.and_eq_true, timeIsOver]
  refine and_congr_left fun _ => ?_
  split
  · next limit h => simp [h]
  · next h => simpa using h

theorem attempt_eq (queued : Bool) (sight : Monitor.Sight) (w : Waiting) (s : LockState) :
    s.attempt queued sight w =
      match s.table.victims.get? w.request.txn with
      | some cycle => s.sacrifice w.request cycle
      | none =>
        if s.isReady sight w.request then
          ⟨{ s with table := s.table.grant w.request.txn w.request.resource w.request.mode },
            .returns (.ok (if queued then .afterWait (sight.now - w.since) else .granted)), queued⟩
        else
          match s.failure? sight w.request (w.request.deadlines.expired? sight.now) with
          | some (counters, e) => s.giveUp w.request queued counters e
          | none => (if queued then s else s.queueUp w.request).stay w := rfl

theorem attempt_spec (queued : Bool) (sight : Monitor.Sight) (w : Waiting) (s : LockState) :
    Attempt queued sight w s (s.attempt queued sight w) := by
  rw [attempt_eq]
  cases hvictim : s.table.victims.get? w.request.txn with
  | some cycle => exact .victim hvictim
  | none =>
    dsimp only
    by_cases hready : s.isReady sight w.request = true
    · obtain ⟨htime, hturn⟩ := isReady_iff.1 hready
      rw [if_pos hready]
      exact .grant hvictim htime hturn _ (by cases queued <;> rfl)
    rw [if_neg hready]
    have hturn : timeIsOver sight w.request ∨
        (s.table.lock w.request.resource).grantable w.request.txn w.request.mode = false := by
      rw [isReady_iff, not_and_or, not_not, Bool.not_eq_true] at hready
      exact hready
    cases hfailure : s.failure? sight w.request (w.request.deadlines.expired? sight.now) with
    | some failure => exact .fail hvictim hturn hfailure
    | none =>
      obtain ⟨hcancel, htime⟩ := failure?_eq_none hfailure
      have hover : ¬timeIsOver sight w.request := fun ⟨limit, hlimit⟩ => by
        rw [htime] at hlimit
        cases hlimit
      refine .stay hvictim hcancel htime (hturn.resolve_left hover) (stay_spec ?_)
      cases queued
      · exact (congrArg (·.get? w.request.txn) (LockTable.victims_enqueue ..)).trans hvictim
      · exact hvictim

theorem Attempt.detection {queued : Bool} {sight : Monitor.Sight} {w : Waiting} {s : LockState}
    {look : RequestLook} (h : Attempt queued sight w s look) :
    look.state.detection = s.detection := by
  cases h with
  | stay _ _ _ _ hstay => cases hstay <;> cases queued <;> rfl
  | _ => rfl

/-! ## First looks -/

/-- What becomes of a request that arrives. -/
inductive Arrival (sight : Monitor.Sight) (r : LockRequest) (s : LockState) : RequestLook → Prop
  /-- Its owner holds enough already. -/
  | held {m : Mode} (hheld : (s.table.lock r.resource).holders.get? r.txn = some m)
      (hcovers : m.covers r.mode = true) :
      Arrival sight r s
        ⟨{ s with counters.requests := s.counters.requests + 1 },
          .returns (.ok .alreadyHeld), false⟩
  | attempt
      (hshort : ∀ m, (s.table.lock r.resource).holders.get? r.txn = some m →
        m.covers r.mode = false) {look : RequestLook}
      (hattempt : Attempt false sight ⟨r, sight.now⟩
        { s with counters.requests := s.counters.requests + 1 } look) :
      Arrival sight r s look

theorem arrive_spec (sight : Monitor.Sight) (r : LockRequest) (s : LockState) :
    Arrival sight r s (s.arrive sight r) := by
  unfold arrive
  dsimp only
  split
  · next hheld =>
    obtain ⟨m, hm, hcovers⟩ := (Option.any_eq_true ..).1 hheld
    exact .held hm hcovers
  next hheld =>
    refine .attempt (fun m hm => ?_) (attempt_spec false sight ⟨r, sight.now⟩ _)
    rw [hm] at hheld
    exact Bool.eq_false_iff.2 hheld

end WalStore.LockState

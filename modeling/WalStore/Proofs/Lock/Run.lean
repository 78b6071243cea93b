import WalStore.Proofs.Lock.Look
import WalStore.Proofs.Monitor

/-!
# Runs of the lock manager

A run is a list of events, each of which is one critical section of the lock manager or something
that happens to the calls asleep. Events may come in any order and under any clock.

**Cancellation.** Cancelling a token raises its flag and then notifies once for each registered
waker. Other events may come in between, so these are events of their own; `cancel_eq_run` says
that a cancellation is such a run.

**Orderly runs.** Each call has a number of its own, and an owner makes one call at a time: while
its request is asleep it neither asks for another lock nor releases any (`Orderly`).
-/

namespace WalStore.LockManager

open Monitor

/-- Something that happens to a lock manager. -/
inductive Event where
  /-- A call starts: its first attempt. -/
  | acquire (now : Instant) (call : Nat) (token : Option TokenId) (request : LockRequest)
  /-- A call that has been woken tries again. -/
  | recheck (now : Instant) (call : Nat)
  | release (txn : TxnId) (res : Resource)
  | releaseAll (txn : TxnId)
  /-- The flag of a token is raised. -/
  | raise (token : TokenId)
  /-- A waker runs. -/
  | notify
  /-- The wait of one call runs out. -/
  | wake (call : Nat)

def step (m : LockManager) : Event → LockManager
  | .acquire now call token request =>
    (m.enter LockState.discipline now call token request).1
  | .recheck now call => (m.recheck LockState.discipline now call).1
  | .release txn res => (m.act (LockState.release txn res)).1
  | .releaseAll txn => (m.act (LockState.releaseAll txn)).1
  | .raise token => Monitor.raise m token
  | .notify => m.wakeAll
  | .wake call => Monitor.wake m call

/-- The call that looks in an event. -/
def Event.call? : Event → Option Nat
  | .acquire _ call _ _ | .recheck _ call => some call
  | .release .. | .releaseAll _ | .raise _ | .notify | .wake _ => none

/-- The result of the call that looks, if it returns. -/
def outcome? (m : LockManager) : Event → Option LockState.Outcome
  | .acquire now call token request =>
    (m.enter LockState.discipline now call token request).2
  | .recheck now call => (m.recheck LockState.discipline now call).2
  | .release .. | .releaseAll _ | .raise _ | .notify | .wake _ => none

def run (m : LockManager) (events : List Event) : LockManager := events.foldl step m

/-- A lock manager before its first call. -/
def fresh (detection : Bool) : LockManager := .ofState (.fresh detection)

theorem run_replicate_notify (m : LockManager) (wakers : List Unit) :
    wakers.foldl (fun m _ => Monitor.wakeAll m) m = m.run (.replicate wakers.length .notify) := by
  induction wakers generalizing m with
  | nil => rfl
  | cons _ rest ih => exact ih m.wakeAll

/-- Cancelling a token is a run: its flag is raised, then each of its wakers notifies. -/
theorem cancel_eq_run (m : LockManager) (t : TokenId) :
    Monitor.cancel m t =
      m.run (.raise t :: .replicate (Monitor.token m t).raise.wakers.length .notify) := by
  have htoken : Monitor.token (Monitor.raise m t) t = (Monitor.token m t).raise := by
    simp only [Monitor.raise, Monitor.token, SortedMap.getD_insert, if_true]
  rw [← htoken]
  exact run_replicate_notify (Monitor.raise m t) _

/-! ## Orderly runs -/

/-- A request of this owner is asleep. -/
def IsAsleep (m : LockManager) (txn : TxnId) : Prop :=
  ∃ call s, m.sleepers.get? call = some s ∧ s.memory.request.txn = txn

theorem isAsleep_iff {m : LockManager} {txn : TxnId} :
    m.IsAsleep txn ↔ ∃ e ∈ m.sleepers.entries, e.2.memory.request.txn = txn := by
  simp only [IsAsleep, SortedMap.get?_eq_some_iff, Prod.exists]

instance (m : LockManager) (txn : TxnId) : Decidable (m.IsAsleep txn) :=
  decidable_of_iff _ isAsleep_iff.symm

/-- An event that respects that an owner makes one call at a time. -/
def Event.Orderly (m : LockManager) : Event → Prop
  | .acquire _ call _ request => m.sleepers.get? call = none ∧ ¬m.IsAsleep request.txn
  | .release txn _ | .releaseAll txn => ¬m.IsAsleep txn
  | .recheck .. | .raise _ | .notify | .wake _ => True

instance (m : LockManager) : (e : Event) → Decidable (e.Orderly m)
  | .acquire _ call _ request =>
    inferInstanceAs (Decidable (m.sleepers.get? call = none ∧ ¬m.IsAsleep request.txn))
  | .release txn _ | .releaseAll txn => inferInstanceAs (Decidable ¬m.IsAsleep txn)
  | .recheck .. | .raise _ | .notify | .wake _ => inferInstanceAs (Decidable True)

/-- A run in which every owner makes one call at a time. -/
def Orderly (m : LockManager) : List Event → Prop
  | [] => True
  | e :: es => e.Orderly m ∧ Orderly (m.step e) es

instance decidableOrderly :
    (m : LockManager) → (events : List Event) → Decidable (Orderly m events)
  | _, [] => inferInstanceAs (Decidable True)
  | m, e :: es =>
    have := decidableOrderly (m.step e) es
    inferInstanceAs (Decidable (e.Orderly m ∧ Orderly (m.step e) es))

theorem run_append (m : LockManager) (events events' : List Event) :
    m.run (events ++ events') = (m.run events).run events' := List.foldl_append

theorem run_append_singleton (m : LockManager) (events : List Event) (e : Event) :
    m.run (events ++ [e]) = (m.run events).step e := List.foldl_append

theorem orderly_append {m : LockManager} {events events' : List Event} :
    Orderly m (events ++ events') ↔ Orderly m events ∧ Orderly (m.run events) events' := by
  induction events generalizing m with
  | nil => exact (true_and _).symm.to_iff
  | cons e es ih => exact (and_congr_right fun _ => ih).trans and_assoc.symm

/-! ## What an event does -/

/-- `m'` is `m` after `call` has looked: only this call changes other than by being woken. -/
structure Looked (m : LockManager) (call : Nat) (look : LockState.RequestLook)
    (m' : LockManager) : Prop where
  shared : m'.shared = look.state
  sleepers : ∃ token, ∀ c, m'.sleepers.get? c =
    if c = call then look.fate.sleeper? token else (m.sleepers.get? c).map (·.nudged look.notify)

/-- Every event is a look, a release, or only wakes calls. -/
inductive Effect (m : LockManager) : Event → LockManager → Prop
  | arrive {now : Instant} {call : Nat} {token : Option TokenId} {request : LockRequest}
      (cancelled : Bool) {look : LockState.RequestLook} {m' : LockManager}
      (harrival : LockState.Arrival ⟨now, cancelled⟩ request m.shared look)
      (hlooked : Looked m call look m') : Effect m (.acquire now call token request) m'
  | again {now : Instant} {call : Nat} {s : Sleeper Waiting} (cancelled : Bool)
      {look : LockState.RequestLook} {m' : LockManager}
      (hget : m.sleepers.get? call = some s) (hwoken : s.woken = true)
      (hattempt : LockState.Attempt true ⟨now, cancelled⟩ s.memory m.shared look)
      (hlooked : Looked m call look m') : Effect m (.recheck now call) m'
  | release {txn : TxnId} {res : Resource} {m' : LockManager}
      (hshared : m'.shared = { m.shared with table := (m.shared.table.release txn res).1 })
      (hsleepers : ∀ c, m'.sleepers.get? c =
        (m.sleepers.get? c).map (·.nudged ((m.shared.table.lock res).isHolder txn))) :
      Effect m (.release txn res) m'
  | releaseAll {txn : TxnId} {m' : LockManager}
      (hshared : m'.shared = { m.shared with table := (m.shared.table.releaseAll txn).1 })
      (hsleepers : ∀ c, m'.sleepers.get? c = (m.sleepers.get? c).map (·.nudged true)) :
      Effect m (.releaseAll txn) m'
  | wake {e : Event} {m' : LockManager} (nudge : Nat → Bool) (hshared : m'.shared = m.shared)
      (hsleepers : ∀ c, m'.sleepers.get? c = (m.sleepers.get? c).map (·.nudged (nudge c))) :
      Effect m e m'

theorem looked_afterLook (m : LockManager) (call : Nat) (token : Option (TokenId × Nat))
    (look : LockState.RequestLook) : Looked m call look (m.afterLook call token look).1 :=
  ⟨shared_afterLook m call token look, token, fun c => get?_afterLook m call c token look⟩

/-- A call starts with the look of a request that arrives. -/
theorem enter_spec (m : LockManager) (now : Instant) (call : Nat) (token : Option TokenId)
    (request : LockRequest) : ∃ cancelled look,
      LockState.Arrival ⟨now, cancelled⟩ request m.shared look ∧
        Looked m call look (m.enter LockState.discipline now call token request).1 ∧
        (m.enter LockState.discipline now call token request).2 = look.fate.result? := by
  refine ⟨(m.register token).1.isCancelled token, _,
    LockState.arrive_spec ((m.register token).1.sight now token) request m.shared, ?_, ?_⟩
  · rw [enter_eq]
    obtain ⟨hshared, t, hsleepers⟩ :=
      looked_afterLook (m.register token).1 call (m.register token).2
        (LockState.arrive ((m.register token).1.sight now token) request m.shared)
    refine ⟨hshared, t, fun c => ?_⟩
    rw [← sleepers_register m token]
    exact hsleepers c
  · rw [enter_eq]
    exact result_afterLook ..

/-- A call that has not been woken rests; one that has tries again. -/
theorem recheck_spec (m : LockManager) (now : Instant) (call : Nat) :
    m.recheck LockState.discipline now call = (m, none) ∨ ∃ s cancelled look,
      m.sleepers.get? call = some s ∧ s.woken = true ∧
        LockState.Attempt true ⟨now, cancelled⟩ s.memory m.shared look ∧
        Looked m call look (m.recheck LockState.discipline now call).1 ∧
        (m.recheck LockState.discipline now call).2 = look.fate.result? := by
  rcases m.recheck_cases call LockState.discipline now with hrest | ⟨s, hget, hwoken, heq⟩
  · exact .inl hrest
  · rw [heq]
    refine .inr ⟨s, _, _, hget, hwoken,
      LockState.attempt_spec true (m.sight now (s.token.map (·.1))) s.memory m.shared, ?_, ?_⟩
    · exact looked_afterLook ..
    · exact result_afterLook ..

/-- A call that has been woken looks again, with the token that it has had since it started. -/
theorem recheck_woken_spec (m : LockManager) {call : Nat} {s : Sleeper Waiting}
    (hget : m.sleepers.get? call = some s) (hwoken : s.woken = true) (now : Instant) :
    ∃ look, LockState.Attempt true (m.sight now (s.token.map (·.1))) s.memory m.shared look ∧
      m.step (.recheck now call) = (m.afterLook call s.token look).1 :=
  ⟨_, LockState.attempt_spec true (m.sight now (s.token.map (·.1))) s.memory m.shared,
    congrArg Prod.fst (recheck_of_woken LockState.discipline now hget hwoken)⟩

theorem step_effect (m : LockManager) (e : Event) : Effect m e (m.step e) := by
  cases e with
  | acquire now call token request =>
    obtain ⟨cancelled, look, harrival, hlooked, -⟩ := m.enter_spec now call token request
    exact .arrive cancelled harrival hlooked
  | recheck now call =>
    rcases m.recheck_spec now call with
      hrest | ⟨s, cancelled, look, hget, hwoken, hattempt, hlooked, -⟩
    · have hstep : m.step (.recheck now call) = m := congrArg Prod.fst hrest
      rw [hstep]
      exact .wake (fun _ => false) rfl fun c => by simp
    · exact .again cancelled hget hwoken hattempt hlooked
  | release txn res =>
    exact .release (shared_act m (LockState.release txn res))
      fun c => get?_act m c (LockState.release txn res)
  | releaseAll txn =>
    exact .releaseAll (shared_act m (LockState.releaseAll txn))
      fun c => get?_act m c (LockState.releaseAll txn)
  | raise token => exact .wake (fun _ => false) rfl fun c => by simp [step, Monitor.raise]
  | notify => exact .wake (fun _ => true) rfl fun c => get?_wakeIf m true c
  | wake call => exact .wake (fun c => c = call) (shared_wake m call) fun c => get?_wake m call c

end WalStore.LockManager

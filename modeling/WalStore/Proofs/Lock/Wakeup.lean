import WalStore.Proofs.Lock.Cascade
import WalStore.Proofs.Lock.Resting
import WalStore.Proofs.Monitor.Tokens

/-!
# No wake-up is lost

**Theorem (`no_wakeup_lost`).** Calls that have been woken have all looked again after so many
looks, in whatever order they come. When they have, and no cancellation is under way, no call is
asleep that could go on: its request cannot be granted, its token is not cancelled, neither of its
deadlines has come, and it is not to give way in a deadlock.

**The world around a manager.** Time and cancellations are not part of a manager, so a `World` adds
a clock and the cancellations under way. A cancellation raises a flag, then looks at the wakers of
the token, and then runs each of them, and anything may happen in between. When time moves on, the
waits end that are to end by then.

**Why nobody is forgotten.** A call that falls asleep has seen that it can do nothing else, and each
thing that may change that wakes it. Whatever lets a request be granted notifies (`Steady`), and so
does marking a victim (`Consistent`). The wait of a call ends when the earlier of its deadlines
comes, which is just when it is seen as expired (`Deadlines.expired?_eq_none_iff`). And a flag that
is raised after the call has seen it down is raised by a cancellation that will find its waker, as
the call is registered before it looks (`Monitor.Registered`).
-/

namespace WalStore

open Monitor

theorem Deadline.filter_eq_none_iff {d : Option Deadline} {now : Instant} :
    d.filter (·.due ≤ now) = none ↔ ∀ x, d = some x → now < x.due := by
  cases d with
  | none => simp
  | some x => simp [Option.filter_eq_none_iff]

/-- A wait ends exactly when its deadlines are seen to have passed. -/
theorem Deadlines.expired?_eq_none_iff {d : Deadlines} {now : Instant} :
    d.expired? now = none ↔ ∀ due, d.next? = some due → now < due := by
  have hboth : d.expired? now = none ↔
      d.lock.filter (·.due ≤ now) = none ∧ d.txn.filter (·.due ≤ now) = none := by
    unfold expired?
    cases d.lock.filter (·.due ≤ now) <;> cases d.txn.filter (·.due ≤ now) <;> simp
  rw [hboth, Deadline.filter_eq_none_iff, Deadline.filter_eq_none_iff]
  unfold next?
  cases d.lock <;> cases d.txn <;> simp

namespace LockState

variable {sight : Sight} {s : LockState} {look : RequestLook}

/-- A request falls asleep only in time and with its token's flag down. -/
theorem Attempt.in_time {queued : Bool} {w : Waiting} (h : Attempt queued sight w s look)
    {memory : Waiting} (hfate : look.fate = .sleeps memory) :
    sight.cancelled = false ∧ memory.request.deadlines.expired? sight.now = none := by
  obtain ⟨rfl, -⟩ := h.sleeps hfate
  cases h with
  | victim => cases hfate
  | grant => cases hfate
  | fail => cases hfate
  | stay _ hcancel htime => exact ⟨hcancel, htime⟩

theorem Arrival.in_time {r : LockRequest} (h : Arrival sight r s look) {memory : Waiting}
    (hfate : look.fate = .sleeps memory) :
    sight.cancelled = false ∧ memory.request.deadlines.expired? sight.now = none := by
  cases h with
  | held => cases hfate
  | attempt _ hattempt => exact hattempt.in_time hfate

end LockState

namespace LockManager

/-! ## The world around a manager -/

/-- The calls asleep whose waits end by `now`. -/
def due (m : LockManager) (now : Instant) : List Nat :=
  (m.sleepers.entries.filter fun e =>
    e.2.memory.request.deadlines.next?.any (· ≤ now)).map (·.1)

structure World where
  manager : LockManager
  now : Instant
  /-- The tokens raised by cancellations that have not looked at the wakers yet. -/
  raised : List TokenId
  /-- How many wakers have still to run. -/
  wakers : Nat

/-- Something that happens in the world. -/
inductive Move where
  | acquire (call : Nat) (token : Option TokenId) (request : LockRequest)
  | recheck (call : Nat)
  | release (txn : TxnId) (res : Resource)
  | releaseAll (txn : TxnId)
  /-- A cancellation starts: it raises the token's flag. -/
  | raise (token : TokenId)
  /-- A cancellation looks at the token's wakers. -/
  | collect (token : TokenId)
  /-- One of the wakers runs. -/
  | notify
  /-- A call is woken for no reason. -/
  | wake (call : Nat)
  /-- Time moves on, and the waits end that are to end by then. -/
  | pass (now : Instant)

/-- What a move means for the manager. -/
def Move.events (w : World) : Move → List Event
  | .acquire call token request => [.acquire w.now call token request]
  | .recheck call => [.recheck w.now call]
  | .release txn res => [.release txn res]
  | .releaseAll txn => [.releaseAll txn]
  | .raise token => [.raise token]
  | .collect _ => []
  | .notify => [.notify]
  | .wake call => [.wake call]
  | .pass now => (w.manager.due now).map .wake

namespace World

def fresh (detection : Bool) (now : Instant) : World := ⟨LockManager.fresh detection, now, [], 0⟩

def step (w : World) (move : Move) : World :=
  let after := { w with manager := w.manager.run (move.events w) }
  match move with
  | .raise token => { after with raised := token :: w.raised }
  | .collect token =>
    if token ∈ w.raised then
      { after with
        raised := w.raised.erase token
        wakers := w.wakers + (w.manager.token token).wakers.length }
    else after
  | .notify => { after with wakers := w.wakers - 1 }
  | .pass now => { after with now }
  | .acquire .. | .recheck _ | .release .. | .releaseAll _ | .wake _ => after

def run (w : World) (moves : List Move) : World := moves.foldl step w

/-- An owner makes one call at a time, and the clock does not go back. -/
def Allows (w : World) (move : Move) : Prop :=
  Orderly w.manager (move.events w) ∧ w.now ≤ (w.step move).now

instance (w : World) (move : Move) : Decidable (w.Allows move) :=
  inferInstanceAs (Decidable (_ ∧ _))

def AllowsAll (w : World) : List Move → Prop
  | [] => True
  | move :: moves => w.Allows move ∧ (w.step move).AllowsAll moves

instance decidableAllowsAll : (w : World) → (moves : List Move) → Decidable (w.AllowsAll moves)
  | _, [] => inferInstanceAs (Decidable True)
  | w, move :: moves =>
    have := decidableAllowsAll (w.step move) moves
    inferInstanceAs (Decidable (w.Allows move ∧ (w.step move).AllowsAll moves))

/-- Nothing is under way: whoever was woken has looked again, and every cancellation is over. -/
structure Quiescent (w : World) : Prop where
  quiet : w.manager.isQuiet = true
  raised : w.raised = []
  wakers : w.wakers = 0

theorem manager_step (w : World) (move : Move) :
    (w.step move).manager = w.manager.run (move.events w) := by
  cases move with
  | collect token =>
    unfold step
    dsimp only
    split <;> rfl
  | _ => rfl

end World

/-! ## Steps and the calls asleep -/

theorem registered_step {m : LockManager} (h : m.Registered) (e : Event) :
    (m.step e).Registered := by
  cases e with
  | acquire now call token r => exact h.enter LockState.discipline now call token r
  | recheck now call => exact h.recheck LockState.discipline now call
  | release txn res =>
    refine h.nudged (fun c => get?_act m c (LockState.release txn res)) fun t => ?_
    rw [step, token_act]
    exact ⟨rfl, rfl⟩
  | releaseAll txn =>
    refine h.nudged (fun c => get?_act m c (LockState.releaseAll txn)) fun t => ?_
    rw [step, token_act]
    exact ⟨rfl, rfl⟩
  | raise token =>
    have hsleepers (c : Nat) : (m.step (.raise token)).sleepers.get? c =
        (m.sleepers.get? c).map (·.nudged false) := by simp [step, Monitor.raise]
    refine h.nudged hsleepers fun t => ?_
    rw [step, token_raise]
    split
    · next ht => rw [ht]; exact ⟨rfl, rfl⟩
    · exact ⟨rfl, rfl⟩
  | notify => exact h.nudged (fun c => get?_wakeIf m true c) fun t => ⟨rfl, rfl⟩
  | wake call =>
    refine h.nudged (fun c => get?_wake m call c) fun t => ?_
    rw [step, token_wake]
    exact ⟨rfl, rfl⟩

theorem registered_run {m : LockManager} (h : m.Registered) (events : List Event) :
    (m.run events).Registered := by
  induction events generalizing m with
  | nil => exact h
  | cons e es ih => exact ih (registered_step h e)

/-- Waking some of the calls. -/
theorem run_map_wake (m : LockManager) (calls : List Nat) :
    (∀ t, (m.run (calls.map .wake)).token t = m.token t) ∧
      ∀ c, (m.run (calls.map .wake)).sleepers.get? c =
        (m.sleepers.get? c).map (·.nudged (c ∈ calls)) := by
  induction calls generalizing m with
  | nil => exact ⟨fun _ => rfl, fun c => by simp [run]⟩
  | cons call calls ih =>
    obtain ⟨htokens, hsleepers⟩ := ih (Monitor.wake m call)
    refine ⟨fun t => (htokens t).trans (token_wake m t call), fun c => (hsleepers c).trans ?_⟩
    rw [get?_wake, Option.map_map]
    congr 1
    funext s
    simp [Sleeper.nudged, Bool.or_assoc]

theorem mem_due {m : LockManager} {now : Instant} {c : Nat} :
    c ∈ m.due now ↔ ∃ s, m.sleepers.get? c = some s ∧
      ∃ due, s.memory.request.deadlines.next? = some due ∧ due ≤ now := by
  simp only [due, List.mem_map, List.mem_filter, Prod.exists, SortedMap.get?_eq_some_iff,
    exists_and_right, exists_eq_right, Option.any_eq_true, decide_eq_true_eq]

/-! ## Calls that may rest -/

namespace World

/-- The call has no deadline that has come, and no token that is cancelled, unless a cancellation
is still about to wake it. -/
structure Patient (w : World) (s : Sleeper Waiting) : Prop where
  timed : ∀ due, s.memory.request.deadlines.next? = some due → w.now < due
  heard : ∀ t, s.token.map (·.1) = some t → (w.manager.token t).cancelled = true →
    t ∈ w.raised ∨ 0 < w.wakers

/-- All calls that rest are patient. -/
def Calm (w : World) : Prop :=
  ∀ c s, w.manager.sleepers.get? c = some s → s.woken = false → w.Patient s

variable {w : World}

/-- Steps that wake calls at most. -/
theorem Calm.nudged (h : w.Calm) {w' : World} {nudge : Nat → Bool}
    (hsleepers : ∀ c, w'.manager.sleepers.get? c =
      (w.manager.sleepers.get? c).map (·.nudged (nudge c)))
    (hpatient : ∀ c s, w.manager.sleepers.get? c = some s → nudge c = false → w.Patient s →
      w'.Patient s) : w'.Calm := by
  intro c s' hget hrests
  rw [hsleepers] at hget
  obtain ⟨s, hs, rfl⟩ := Option.map_eq_some_iff.1 hget
  obtain ⟨hrested, hnudge⟩ := Bool.or_eq_false_iff.1 hrests
  obtain ⟨htimed, hheard⟩ := hpatient c s hs hnudge (h c s hs hrested)
  exact ⟨htimed, hheard⟩

/-- Steps after which the clock and the cancellations are as before. -/
theorem Patient.same {s : Sleeper Waiting} (h : w.Patient s) {m : LockManager}
    (hflags : ∀ t, (m.token t).cancelled = (w.manager.token t).cancelled) :
    ({ w with manager := m } : World).Patient s :=
  ⟨h.timed, fun t ht hflag => h.heard t ht ((hflags t).symm.trans hflag)⟩

/-- A call looks that falls asleep only in time and with its token's flag down. -/
theorem Calm.looked (h : w.Calm) {m : LockManager} (hsleepers : m.sleepers = w.manager.sleepers)
    (hflags : ∀ t, (m.token t).cancelled = (w.manager.token t).cancelled) {call : Nat}
    {registration : Option (TokenId × Nat)} {look : LockState.RequestLook}
    (hfate : ∀ memory, look.fate = .sleeps memory →
      m.isCancelled (registration.map (·.1)) = false ∧
        memory.request.deadlines.expired? w.now = none) :
    ({ w with manager := (m.afterLook call registration look).1 } : World).Calm := by
  have hflags' (t : TokenId) : ((m.afterLook call registration look).1.token t).cancelled =
      (w.manager.token t).cancelled :=
    (m.cancelled_afterLook t call registration look).trans (hflags t)
  intro c s' hget hrests
  change (m.afterLook call registration look).1.sleepers.get? c = some s' at hget
  rw [get?_afterLook, hsleepers] at hget
  split at hget
  · cases hsleeps : look.fate with
    | returns result =>
      rw [hsleeps] at hget
      cases hget
    | sleeps memory =>
      rw [hsleeps] at hget
      cases hget
      obtain ⟨hdown, htime⟩ := hfate memory hsleeps
      refine ⟨Deadlines.expired?_eq_none_iff.1 htime, fun t ht hflag => ?_⟩
      change registration.map (·.1) = some t at ht
      rw [ht] at hdown
      have hraised : (m.token t).cancelled = true :=
        (m.cancelled_afterLook t call registration look).symm.trans hflag
      cases hdown.symm.trans hraised
  · obtain ⟨s, hs, rfl⟩ := Option.map_eq_some_iff.1 hget
    obtain ⟨htimed, hheard⟩ := (h c s hs (Bool.or_eq_false_iff.1 hrests).1).same hflags'
    exact ⟨htimed, hheard⟩

theorem Calm.acquire (h : w.Calm) (call : Nat) (token : Option TokenId) (r : LockRequest) :
    (w.step (.acquire call token r)).Calm := by
  have htoken : (w.manager.register token).2.map (·.1) = token := by
    cases token <;> rfl
  have harrival := LockState.arrive_spec ((w.manager.register token).1.sight w.now token) r
    w.manager.shared
  have hstep : w.step (.acquire call token r) = { w with
      manager := ((w.manager.register token).1.afterLook call (w.manager.register token).2
        (LockState.arrive ((w.manager.register token).1.sight w.now token) r
          w.manager.shared)).1 } := by
    rw [step]
    congr 1
    exact congrArg Prod.fst (enter_eq w.manager call LockState.discipline w.now token r)
  rw [hstep]
  refine h.looked (sleepers_register _ token) (fun t => cancelled_register _ t token)
    fun memory hfate => ?_
  rw [htoken]
  exact harrival.in_time hfate

theorem Calm.recheck (h : w.Calm) (call : Nat) : (w.step (.recheck call)).Calm := by
  cases hget : w.manager.sleepers.get? call with
  | none =>
    have hrest : w.step (.recheck call) = w := by
      unfold step
      simp [Move.events, LockManager.run, LockManager.step, Monitor.recheck, hget]
    rwa [hrest]
  | some s =>
    by_cases hwoken : s.woken = true
    · obtain ⟨look, hattempt, hstep⟩ := w.manager.recheck_woken_spec hget hwoken w.now
      have hlook : w.step (.recheck call) =
          { w with manager := (w.manager.afterLook call s.token look).1 } := by
        rw [← hstep]
        rfl
      rw [hlook]
      exact h.looked rfl (fun _ => rfl) fun memory hfate => hattempt.in_time hfate
    · have hrest : w.step (.recheck call) = w := by
        unfold step
        simp [Move.events, LockManager.run, LockManager.step, Monitor.recheck, hget, hwoken]
      rwa [hrest]

theorem Calm.collect (h : w.Calm) (hregistered : w.manager.Registered) (token : TokenId) :
    (w.step (.collect token)).Calm := by
  unfold step
  dsimp only
  split
  swap
  · exact h
  have hsleepers (c : Nat) : (w.manager.run (Move.events w (.collect token))).sleepers.get? c =
      (w.manager.sleepers.get? c).map (·.nudged false) := by simp [Move.events, LockManager.run]
  refine h.nudged hsleepers fun c s hget _ hpatient => ?_
  refine ⟨hpatient.timed, fun t ht hflag => ?_⟩
  rcases hpatient.heard t ht hflag with hmem | hpos
  · by_cases hself : t = token
    · -- The call is registered with the token, so its waker is among those collected.
      obtain ⟨⟨t', id⟩, hs, rfl⟩ := Option.map_eq_some_iff.1 ht
      have hwakers := List.length_pos_iff.2 (hregistered.wakers_ne_nil hget hs)
      subst hself
      exact .inr (by dsimp only at hwakers ⊢; omega)
    · exact .inl ((List.mem_erase_of_ne hself).2 hmem)
  · exact .inr (Nat.lt_of_lt_of_le hpos (Nat.le_add_right ..))

theorem Calm.pass (h : w.Calm) (now : Instant) : (w.step (.pass now)).Calm := by
  obtain ⟨htokens, hsleepers⟩ := run_map_wake w.manager (w.manager.due now)
  refine h.nudged hsleepers fun c s hget hnudge hpatient =>
    ⟨fun due hdue => ?_, fun t ht hflag => ?_⟩
  · refine Nat.lt_of_not_le fun hle => of_decide_eq_false hnudge ?_
    exact mem_due.2 ⟨s, hget, due, hdue, hle⟩
  · refine hpatient.heard t ht ?_
    rw [← htokens t]
    exact hflag

theorem Calm.step (h : w.Calm) (hregistered : w.manager.Registered) (move : Move) :
    (w.step move).Calm := by
  cases move with
  | acquire call token r => exact h.acquire call token r
  | recheck call => exact h.recheck call
  | release txn res =>
    exact h.nudged (fun c => get?_act w.manager c (LockState.release txn res))
      fun _ _ _ _ hpatient => hpatient.same fun t => by
        rw [← token_act w.manager t (LockState.release txn res)]
        rfl
  | releaseAll txn =>
    exact h.nudged (fun c => get?_act w.manager c (LockState.releaseAll txn))
      fun _ _ _ _ hpatient => hpatient.same fun t => by
        rw [← token_act w.manager t (LockState.releaseAll txn)]
        rfl
  | raise token =>
    have hsleepers (c : Nat) : (w.step (.raise token)).manager.sleepers.get? c =
        (w.manager.sleepers.get? c).map (·.nudged false) := by
      simp [World.step, Move.events, LockManager.run, LockManager.step, Monitor.raise]
    refine h.nudged hsleepers fun _ _ _ _ hpatient => ?_
    refine ⟨hpatient.timed, fun t ht hflag => ?_⟩
    by_cases hself : t = token
    · exact .inl (hself ▸ List.mem_cons_self)
    · have hsame := token_raise w.manager token t
      rw [if_neg hself] at hsame
      exact (hpatient.heard t ht (hsame ▸ hflag)).imp_left (List.mem_cons_of_mem token)
  | collect token => exact h.collect hregistered token
  | notify =>
    refine h.nudged (fun c => get?_wakeIf w.manager true c) fun _ _ _ hnudge => ?_
    cases hnudge
  | wake call =>
    exact h.nudged (fun c => get?_wake w.manager call c)
      fun _ _ _ _ hpatient => hpatient.same fun t => by
        rw [← token_wake w.manager t call]
        rfl
  | pass now => exact h.pass now

/-! ## Runs -/

/-- All that is needed to know who is asleep for good reason. -/
structure Attended (w : World) : Prop where
  consistent : w.manager.Consistent
  told : w.manager.shared.table.Told
  registered : w.manager.Registered
  blocked : ∀ r, w.manager.Resting r →
    (w.manager.shared.table.lock r.resource).grantable r.txn r.mode = false
  calm : w.Calm

theorem attended_fresh (detection : Bool) (now : Instant) : (fresh detection now).Attended where
  consistent := consistent_fresh detection
  told := LockTable.told_empty
  registered := registered_ofState _
  blocked := fun _ ⟨_, _, hget, _⟩ => nomatch hget
  calm := fun _ _ hget => nomatch hget

theorem Attended.step (h : w.Attended) {move : Move} (hallows : w.Allows move) :
    (w.step move).Attended := by
  refine ⟨?_, ?_, ?_, ?_, h.calm.step h.registered move⟩
  all_goals rw [manager_step]
  · exact consistent_of_run h.consistent hallows.1
  · exact LockTable.invariant_told.run h.told _
  · exact registered_run h.registered _
  · exact steady_blocked.run h.blocked h.consistent hallows.1

theorem Attended.run (h : w.Attended) {moves : List Move} (hallows : w.AllowsAll moves) :
    (w.run moves).Attended := by
  induction moves generalizing w with
  | nil => exact h
  | cons move moves ih => exact ih (h.step hallows.1) hallows.2

/-- **No wake-up is lost.** Whatever has happened, the calls that have been woken have all looked
again after finitely many looks, in whatever order they look and whenever. And when nothing is under
way any more, no call is asleep that has a reason to go on. -/
theorem no_wakeup_lost (detection : Bool) (start : Instant) (moves : List Move)
    (hallows : (fresh detection start).AllowsAll moves) :
    let w := (fresh detection start).run moves
    (∀ rechecks, w.manager.Cascade rechecks → rechecks.length ≤ w.manager.patience) ∧
      (∀ now, (w.manager.settle LockState.discipline now).1.isQuiet = true) ∧
      (w.Quiescent → ∀ call s, w.manager.sleepers.get? call = some s →
        (w.manager.shared.table.lock s.memory.request.resource).grantable s.memory.request.txn
            s.memory.request.mode = false ∧
          w.manager.isCancelled (s.token.map (·.1)) = false ∧
          (∀ due, s.memory.request.deadlines.next? = some due → w.now < due) ∧
          w.manager.shared.table.victims.get? s.memory.request.txn = none) := by
  intro w
  have h : w.Attended := (attended_fresh detection start).run hallows
  refine ⟨fun rechecks => length_le_of_cascade h.consistent h.told,
    isQuiet_settle h.consistent h.told, fun hquiescent call s hget => ?_⟩
  have hrests := isQuiet_iff.1 hquiescent.quiet call s hget
  have hpatient := h.calm call s hget hrests
  refine ⟨h.blocked _ ⟨call, s, hget, rfl, hrests⟩, ?_, hpatient.timed,
    h.consistent.victims_eq_none hquiescent.quiet _⟩
  cases htoken : s.token.map (·.1) with
  | none => rfl
  | some t =>
    refine Bool.eq_false_iff.2 fun hflag => ?_
    rcases hpatient.heard t htoken hflag with hraised | hwakers
    · rw [hquiescent.raised] at hraised
      cases hraised
    · rw [hquiescent.wakers] at hwakers
      cases hwakers

/-- Three owners ask to write one resource. The third gives up when its time is over, and the
second, whose own deadline is yet to come, goes back to sleep. Then a token is cancelled that is not
its. -/
def oneLeft : List Move :=
  [.acquire 0 none ⟨⟨1⟩, ⟨[1]⟩, .write, .unbounded⟩,
    .acquire 1 (some ⟨1⟩) ⟨⟨2⟩, ⟨[1]⟩, .write, ⟨some ⟨50, 50⟩, none⟩⟩,
    .acquire 2 (some ⟨2⟩) ⟨⟨3⟩, ⟨[1]⟩, .write, ⟨some ⟨5, 5⟩, none⟩⟩,
    .pass 10, .recheck 2, .recheck 1, .raise ⟨2⟩, .collect ⟨2⟩]

theorem no_wakeup_lost_oneLeft : (fresh true 0).AllowsAll oneLeft ∧
    ∃ s, ((fresh true 0).run oneLeft).manager.sleepers.get? 1 = some s ∧
      s.memory.request.deadlines.next? = some 50 ∧ ((fresh true 0).run oneLeft).now < 50 ∧
      ((fresh true 0).run oneLeft).manager.isCancelled (some ⟨1⟩) = false := by
  have hallows : (fresh true 0).AllowsAll oneLeft := by decide +kernel
  have hquiescent : ((fresh true 0).run oneLeft).Quiescent :=
    ⟨by decide +kernel, by decide +kernel, by decide +kernel⟩
  obtain ⟨s, hget, hdue, htoken⟩ :
      ∃ s, ((fresh true 0).run oneLeft).manager.sleepers.get? 1 = some s ∧
        s.memory.request.deadlines.next? = some 50 ∧ s.token.map (·.1) = some ⟨1⟩ :=
    ⟨⟨⟨⟨⟨2⟩, ⟨[1]⟩, .write, ⟨some ⟨50, 50⟩, none⟩⟩, 0⟩, some (⟨1⟩, 0), false⟩,
      by decide +kernel, by decide +kernel, by decide +kernel⟩
  obtain ⟨-, -, hlost⟩ := no_wakeup_lost true 0 oneLeft hallows
  obtain ⟨-, hcancelled, htimed, -⟩ := hlost hquiescent 1 s hget
  exact ⟨hallows, s, hget, hdue, htimed 50 hdue, htoken ▸ hcancelled⟩

end World
end LockManager
end WalStore

import WalStore.Proofs.Lock.Run
import WalStore.Proofs.SortedMap.Total

/-!
# The counters of the lock manager

The lock manager counts a request when it arrives, and a failure where it decides on it. Both happen
at a look, of which a call makes many, so that nothing is counted twice has to be shown for each
look (`Attempt.tallies`, `Arrival.tallies`): it counts one failure if the call returns with it, and
none otherwise.

**Theorem (`tallies_run`).** Over a run the requests counted are the calls that have returned and
those that are asleep, and the failures counted are those that calls have returned with.
-/

namespace WalStore

/-! ## Failures -/

namespace LockState

/-- Why a request for a lock may fail. -/
inductive Denial where
  | lockTimeout
  | txnTimeout
  | deadlock
  | interrupted
  deriving DecidableEq

/-- Why a request has failed, if it has. -/
def denial? : Outcome → Option Denial
  | .error (.lockTimeout ..) => some .lockTimeout
  | .error (.txnTimeout ..) => some .txnTimeout
  | .error (.deadlock ..) => some .deadlock
  | .error .interrupted => some .interrupted
  | .error _ | .ok _ => none

/-- How many of the requests have failed for this reason. -/
def failed (d : Denial) (outcomes : List Outcome) : Nat := outcomes.countP (denial? · = some d)

theorem failed_append (d : Denial) (outcomes later : List Outcome) :
    failed d (outcomes ++ later) = failed d outcomes + failed d later := List.countP_append

end LockState

/-- How many requests are counted to have failed for this reason. -/
def LockCounters.failed (c : LockCounters) : LockState.Denial → Nat
  | .lockTimeout => c.lockTimeouts
  | .txnTimeout => c.txnTimeouts
  | .deadlock => c.deadlocks
  | .interrupted => c.interrupted

/-! ## Looks -/

namespace LockState

/-- Beside `arrivals` requests, a look counts the failure that its call returns with. -/
structure Tallies (arrivals : Nat) (s : LockState) (look : RequestLook) : Prop where
  requests : look.state.counters.requests = s.counters.requests + arrivals
  failed : ∀ d,
    look.state.counters.failed d = s.counters.failed d + failed d look.fate.result?.toList

variable {s : LockState} {sight : Monitor.Sight} {r : LockRequest} {w : Waiting}
  {look : RequestLook}

theorem tallies_sacrifice (s : LockState) (r : LockRequest) (cycle : List TxnId) :
    Tallies 0 s (s.sacrifice r cycle) where
  requests := rfl
  failed d := by cases d <;> rfl

theorem tallies_giveUp {queued : Bool} {expiry : Option Expiry} {counters : LockCounters}
    {e : Error} (h : s.failure? sight r expiry = some (counters, e)) :
    Tallies 0 s (s.giveUp r queued counters e) := by
  unfold failure? at h
  dsimp only at h
  split at h
  · cases h
    exact ⟨rfl, fun d => by cases d <;> rfl⟩
  · split at h <;> cases h
    · exact ⟨rfl, fun d => by cases d <;> rfl⟩
    · exact ⟨rfl, fun d => by cases d <;> rfl⟩

theorem Stay.tallies (h : Stay s w look) : Tallies 0 s look := by
  cases h with
  | sleep | spare => exact ⟨rfl, fun _ => rfl⟩
  | yield => exact ⟨rfl, (tallies_sacrifice ..).failed⟩

theorem Attempt.tallies {queued : Bool} (h : Attempt queued sight w s look) :
    Tallies 0 s look := by
  cases h with
  | victim => exact tallies_sacrifice ..
  | grant => exact ⟨rfl, fun _ => rfl⟩
  | fail _ _ hfailure => exact tallies_giveUp hfailure
  | stay _ _ _ _ hstay =>
    -- Joining the queue counts as a wait only.
    cases queued with
    | true => exact hstay.tallies
    | false => exact ⟨hstay.tallies.requests, fun d => by cases d <;> exact hstay.tallies.failed _⟩

theorem Arrival.tallies (h : Arrival sight r s look) : Tallies 1 s look := by
  cases h with
  | held => exact ⟨rfl, fun _ => rfl⟩
  | attempt _ hattempt =>
    exact ⟨hattempt.tallies.requests, fun d => by cases d <;> exact hattempt.tallies.failed _⟩

end LockState

/-! ## Events -/

namespace LockManager

open Monitor

variable {m m' : LockManager} {call : Nat} {look : LockState.RequestLook}

/-- The outcomes of the calls that return in a run, in this order. -/
def outcomes (m : LockManager) : List Event → List LockState.Outcome
  | [] => []
  | e :: events => (m.outcome? e).toList ++ (m.step e).outcomes events

/-- No call starts under the number of a call that is asleep. -/
def Event.Fresh (m : LockManager) : Event → Prop
  | .acquire _ call _ _ => m.sleepers.get? call = none
  | .recheck .. | .release .. | .releaseAll _ | .raise _ | .notify | .wake _ => True

/-- A run in which calls have numbers of their own. -/
def Fresh (m : LockManager) : List Event → Prop
  | [] => True
  | e :: events => e.Fresh m ∧ Fresh (m.step e) events

theorem fresh_append {events later : List Event} :
    m.Fresh (events ++ later) ↔ m.Fresh events ∧ (m.run events).Fresh later := by
  induction events generalizing m with
  | nil => exact (true_and _).symm.to_iff
  | cons e events ih => exact (and_congr_right fun _ => ih).trans and_assoc.symm

/-- Between `m` and `m'` calls with these outcomes have returned, and all is counted. -/
structure Tallies (m : LockManager) (outcomes : List LockState.Outcome) (m' : LockManager) :
    Prop where
  requests : m'.shared.counters.requests + m.sleepers.size =
    m.shared.counters.requests + outcomes.length + m'.sleepers.size
  failed : ∀ d,
    m'.shared.counters.failed d = m.shared.counters.failed d + LockState.failed d outcomes

theorem Tallies.trans {m'' : LockManager} {outcomes later : List LockState.Outcome}
    (h : Tallies m outcomes m') (h' : Tallies m' later m'') :
    Tallies m (outcomes ++ later) m'' := by
  refine ⟨?_, fun d => ?_⟩
  · have hbefore := h.requests
    have hafter := h'.requests
    rw [List.length_append]
    omega
  · rw [h'.failed, h.failed, LockState.failed_append, Nat.add_assoc]

/-- A look counts its call as one that is asleep or has returned. -/
theorem Looked.tallies (h : Looked m call look m') {arrivals : Nat}
    (htallies : LockState.Tallies arrivals m.shared look)
    (hcall : arrivals + m.sleepers.share (fun _ => 1) call = 1) :
    Tallies m look.fate.result?.toList m' := by
  obtain ⟨hshared, token, hsleepers⟩ := h
  refine ⟨?_, fun d => by rw [hshared]; exact htallies.failed d⟩
  have hothers : m.sleepers.total (fun _ => 1) + m'.sleepers.share (fun _ => 1) call =
      m'.sleepers.total (fun _ => 1) + m.sleepers.share (fun _ => 1) call :=
    SortedMap.total_exchange fun c hne => by
      rw [SortedMap.share, SortedMap.share, hsleepers, if_neg hne]
      cases m.sleepers.get? c <;> rfl
  have hfate : m'.sleepers.share (fun _ => 1) call + look.fate.result?.toList.length = 1 := by
    rw [SortedMap.share, hsleepers, if_pos rfl]
    cases look.fate <;> rfl
  have hrequests := htallies.requests
  rw [SortedMap.total_one, SortedMap.total_one] at hothers
  rw [hshared]
  omega

/-- What leaves the counters alone and at most wakes calls counts nothing. -/
theorem tallies_nil (hcounters : m'.shared.counters = m.shared.counters)
    (hsleepers : ∀ c, ∃ notify,
      m'.sleepers.get? c = (m.sleepers.get? c).map (·.nudged notify)) :
    Tallies m [] m' := by
  have hsize : m'.sleepers.size = m.sleepers.size := by
    rw [← SortedMap.total_one, ← SortedMap.total_one]
    refine SortedMap.total_congr fun c => ?_
    obtain ⟨notify, hget⟩ := hsleepers c
    rw [SortedMap.share, SortedMap.share, hget]
    cases m.sleepers.get? c <;> rfl
  refine ⟨?_, fun d => by rw [hcounters]; rfl⟩
  rw [hcounters, hsize, List.length_nil, Nat.add_zero]

theorem tallies_step {e : Event} (hfresh : e.Fresh m) :
    Tallies m (m.outcome? e).toList (m.step e) := by
  cases e with
  | acquire now call token request =>
    obtain ⟨cancelled, look, harrival, hlooked, hresult⟩ := m.enter_spec now call token request
    have hnone : m.sleepers.get? call = none := hfresh
    rw [outcome?, hresult]
    exact hlooked.tallies harrival.tallies (by rw [SortedMap.share, hnone]; rfl)
  | recheck now call =>
    rcases m.recheck_spec now call with
      hrest | ⟨s, cancelled, look, hget, -, hattempt, hlooked, hresult⟩
    · rw [outcome?, step, hrest]
      exact tallies_nil rfl fun c => ⟨false, by simp⟩
    · rw [outcome?, hresult]
      exact hlooked.tallies hattempt.tallies (by rw [SortedMap.share, hget]; rfl)
  | release txn res =>
    refine tallies_nil ?_ fun c => ⟨_, get?_act m c (LockState.release txn res)⟩
    rw [step, shared_act]
    rfl
  | releaseAll txn =>
    refine tallies_nil ?_ fun c => ⟨_, get?_act m c (LockState.releaseAll txn)⟩
    rw [step, shared_act]
    rfl
  | raise token => exact tallies_nil rfl fun c => ⟨false, by simp [step, Monitor.raise]⟩
  | notify => exact tallies_nil rfl fun c => ⟨true, get?_wakeIf m true c⟩
  | wake call => exact tallies_nil (by rw [step, shared_wake]) fun c => ⟨_, get?_wake m call c⟩

/-- **Every call is counted once.** What a run adds to the counters is what its calls have returned
with, and a call that has not returned is asleep. -/
theorem tallies_run {events : List Event} (hfresh : m.Fresh events) :
    Tallies m (m.outcomes events) (m.run events) := by
  induction events generalizing m with
  | nil => exact tallies_nil rfl fun c => ⟨false, by simp [run]⟩
  | cons e events ih => exact (tallies_step hfresh.1).trans (ih hfresh.2)

end LockManager
end WalStore

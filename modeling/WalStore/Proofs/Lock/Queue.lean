import Mathlib.Data.List.Nodup
import WalStore.Proofs.Lock.Run

/-!
# The lock table and the calls asleep

In an orderly run the queues of the lock table list exactly the requests that are asleep, and only
owners of such requests have edges in the wait graph or are marked as victims (`Consistent`).

A look that ends with a result takes its request out of everything (`Departs`), a look that ends
asleep leaves it in the queue. All else about a step is the same for both.
-/

namespace WalStore

/-! ## What a look leaves behind -/

namespace ResourceLock

theorem mem_queue_enqueue {l : ResourceLock} {txn : TxnId} {mode : Mode} {q : Queued} :
    q ∈ (l.enqueue txn mode).queue ↔ q = ⟨txn, mode⟩ ∨ q ∈ l.queue := by
  unfold enqueue
  split
  · exact List.mem_cons
  · simp [or_comm]

theorem queue_dequeue (l : ResourceLock) (txn : TxnId) :
    (l.dequeue txn).queue = l.queue.filter (·.txn ≠ txn) := rfl

theorem filter_queue_enqueue (l : ResourceLock) (txn : TxnId) (mode : Mode) :
    (l.enqueue txn mode).queue.filter (·.txn ≠ txn) = l.queue.filter (·.txn ≠ txn) := by
  unfold enqueue
  split <;> simp

theorem mem_queue_dequeue {l : ResourceLock} {txn : TxnId} {q : Queued} :
    q ∈ (l.dequeue txn).queue ↔ q ∈ l.queue ∧ q.txn ≠ txn := by
  rw [queue_dequeue, List.mem_filter, decide_eq_true_eq]

theorem dequeue_eq_self {l : ResourceLock} {txn : TxnId} (hnew : ∀ q ∈ l.queue, q.txn ≠ txn) :
    l.dequeue txn = l := by
  obtain ⟨holders, queue⟩ := l
  rw [dequeue, ResourceLock.mk.injEq]
  exact ⟨rfl, List.filter_eq_self.2 fun q hq => decide_eq_true (hnew q hq)⟩

theorem nodup_enqueue {l : ResourceLock} {txn : TxnId} (mode : Mode)
    (h : (l.queue.map (·.txn)).Nodup) (hnew : ∀ q ∈ l.queue, q.txn ≠ txn) :
    ((l.enqueue txn mode).queue.map (·.txn)).Nodup := by
  have hnot : ¬txn ∈ l.queue.map (·.txn) := fun hmem => by
    obtain ⟨q, hq, heq⟩ := List.mem_map.1 hmem
    exact hnew q hq heq
  unfold enqueue
  split
  · exact List.nodup_cons.2 ⟨hnot, h⟩
  · rw [List.map_append]
    refine List.nodup_append.2 ⟨h, List.nodup_singleton _, fun a ha b hb heq => ?_⟩
    rw [List.map_singleton, List.mem_singleton] at hb
    rw [heq, hb] at ha
    exact hnot ha

end ResourceLock

namespace LockState

theorem queue_queueUp (s : LockState) (r : LockRequest) (queued : Bool) (res : Resource) :
    ((if queued then s else s.queueUp r).table.lock res).queue =
      if res = r.resource ∧ queued = false then ((s.table.lock res).enqueue r.txn r.mode).queue
      else (s.table.lock res).queue := by
  cases queued
  · simp only [queueUp, LockTable.lock_enqueue, Bool.false_eq_true, if_false, and_true]
    split
    · next h => rw [h]
    · rfl
  · simp

@[simp] theorem graph_queueUp (s : LockState) (r : LockRequest) (queued : Bool) :
    (if queued then s else s.queueUp r).table.graph = s.table.graph := by
  cases queued
  · exact LockTable.graph_enqueue ..
  · rfl

@[simp] theorem victims_queueUp (s : LockState) (r : LockRequest) (queued : Bool) :
    (if queued then s else s.queueUp r).table.victims = s.table.victims := by
  cases queued
  · exact LockTable.victims_enqueue ..
  · rfl

/-- The request `r` has left the table: no queue lists it, its owner has no edges and no mark. -/
structure Departs (r : LockRequest) (t : LockTable) (look : RequestLook) : Prop where
  queue : ∀ res, (look.state.table.lock res).queue =
    if res = r.resource then ((t.lock res).dequeue r.txn).queue else (t.lock res).queue
  edges : ∀ a b, look.state.table.graph.Edge a b → a ≠ r.txn ∧ t.graph.Edge a b
  victims : ∀ v cycle, look.state.table.victims.get? v = some cycle →
    v ≠ r.txn ∧ t.victims.get? v = some cycle

variable {s : LockState} {w : Waiting} {look : RequestLook}

theorem departs_of_abandon {r : LockRequest}
    (htable : look.state.table = s.table.abandon r.txn r.resource) : Departs r s.table look := by
  refine ⟨fun res => ?_, fun a b hedge => ?_, fun v cycle hv => ?_⟩
  · rw [htable, LockTable.lock_abandon]
    split
    · next h => rw [h]
    · rfl
  · rw [htable, LockTable.graph_abandon] at hedge
    exact WaitGraph.edge_clearWaits.1 hedge
  · rw [htable, LockTable.victims_abandon, SortedMap.get?_erase] at hv
    split at hv
    · cases hv
    · next hne => exact ⟨hne, hv⟩

/-- An attempt that returns takes its request out of the table. -/
theorem Attempt.departs {queued : Bool} {sight : Monitor.Sight}
    (h : Attempt queued sight w s look) {result : Outcome} (hfate : look.fate = .returns result) :
    Departs w.request s.table look := by
  cases h with
  | victim => exact departs_of_abandon rfl
  | fail => exact departs_of_abandon rfl
  | grant hvictim =>
    refine ⟨fun res => ?_, fun a b hedge => ?_, fun v cycle hv => ?_⟩
    · rw [LockTable.lock_grant]
      split
      · next h => rw [h, ResourceLock.queue_hold]
      · rfl
    · rw [LockTable.graph_grant] at hedge
      exact WaitGraph.edge_clearWaits.1 hedge
    · rw [LockTable.victims_grant] at hv
      refine ⟨fun hne => ?_, hv⟩
      rw [hne, hvictim] at hv
      cases hv
  | stay _ _ _ _ hstay =>
    cases hstay with
    | sleep => cases hfate
    | spare => cases hfate
    | yield =>
      refine ⟨fun res => ?_, fun a b hedge => ?_, fun v cycle hv => ?_⟩
      · -- The request may have been queued by this very look; it leaves the queue all the same.
        simp only [sacrifice, LockTable.lock_abandon, LockTable.lock_markVictim, noted,
          LockTable.lock_noteWaits]
        split
        · next h =>
          rw [h, ResourceLock.queue_dequeue, ResourceLock.queue_dequeue, queue_queueUp]
          split
          · exact ResourceLock.filter_queue_enqueue _ _ _
          · rfl
        · next h => rw [queue_queueUp, if_neg (fun hres => h hres.1)]
      · simp only [sacrifice, LockTable.graph_abandon, LockTable.markVictim, noted,
          LockTable.graph_noteWaits, WaitGraph.edge_clearWaits, graph_queueUp] at hedge
        obtain ⟨hne, -, hedge⟩ := hedge
        exact ⟨hne, (WaitGraph.edge_setWaits_of_ne hne).1 hedge⟩
      · simp only [sacrifice, LockTable.victims_abandon, LockTable.markVictim, noted,
          LockTable.victims_noteWaits, SortedMap.get?_erase, SortedMap.get?_insert,
          victims_queueUp] at hv
        split at hv
        · cases hv
        · next hne => exact ⟨hne, hv⟩

/-- An attempt that does not return remembers what it was, and its request was not grantable. -/
theorem Attempt.sleeps {queued : Bool} {sight : Monitor.Sight}
    (h : Attempt queued sight w s look) {memory : Waiting} (hfate : look.fate = .sleeps memory) :
    memory = w ∧ s.table.victims.get? w.request.txn = none ∧
      (s.table.lock w.request.resource).grantable w.request.txn w.request.mode = false ∧
      Stay (if queued then s else s.queueUp w.request) w look := by
  cases h with
  | victim => cases hfate
  | grant => cases hfate
  | fail => cases hfate
  | stay hvictim _ _ hturn hstay =>
    refine ⟨?_, hvictim, hturn, hstay⟩
    cases hstay with
    | sleep => cases hfate; rfl
    | spare => cases hfate; rfl
    | yield => cases hfate

/-- The request `r` is in the queue after the look, and its owner waits for those noted. -/
structure Remains (queued : Bool) (r : LockRequest) (t : LockTable) (look : RequestLook) :
    Prop where
  queue : ∀ res, (look.state.table.lock res).queue =
    if res = r.resource ∧ queued = false then ((t.lock res).enqueue r.txn r.mode).queue
    else (t.lock res).queue
  edges : ∀ a b, look.state.table.graph.Edge a b → a = r.txn ∨ t.graph.Edge a b
  /-- A new victim was waiting, and is woken. -/
  victims : ∀ v cycle, look.state.table.victims.get? v = some cycle →
    t.victims.get? v = some cycle ∨
      v ≠ r.txn ∧ look.notify = true ∧ ∃ b, t.graph.Edge v b

/-- An attempt that falls asleep leaves its request in the queue. -/
theorem Attempt.remains {queued : Bool} {sight : Monitor.Sight}
    (h : Attempt queued sight w s look) {memory : Waiting} (hfate : look.fate = .sleeps memory) :
    Remains queued w.request s.table look := by
  have hnoted {a b : TxnId}
      (hedge : ((if queued then s else s.queueUp w.request).noted w.request).graph.Edge a b) :
      a = w.request.txn ∨ s.table.graph.Edge a b := by
    by_cases hne : a = w.request.txn
    · exact .inl hne
    · rw [noted, LockTable.graph_noteWaits, WaitGraph.edge_setWaits_of_ne hne,
        graph_queueUp] at hedge
      exact .inr hedge
  obtain ⟨rfl, -, -, hstay⟩ := h.sleeps hfate
  cases hstay with
  | sleep =>
    refine ⟨fun res => queue_queueUp s memory.request queued res, fun a b hedge => hnoted hedge,
      fun v cycle hv => .inl ?_⟩
    rwa [noted, LockTable.victims_noteWaits, victims_queueUp] at hv
  | @spare cycle victim hcycle hvictim hne =>
    refine ⟨fun res => queue_queueUp s memory.request queued res, fun a b hedge => ?_,
      fun v c hv => ?_⟩
    · exact hnoted (WaitGraph.edge_clearWaits.1 hedge).2
    · rw [LockTable.markVictim, SortedMap.get?_insert] at hv
      split at hv
      · next hv' =>
        subst hv'
        obtain ⟨b, hb⟩ := WaitGraph.edge_of_mem_cycleThrough hcycle hvictim
        exact .inr ⟨hne, rfl, b, (hnoted hb).resolve_left hne⟩
      · rw [noted, LockTable.victims_noteWaits, victims_queueUp] at hv
        exact .inl hv
  | yield => cases hfate

end LockState

/-! ## Consistency -/

namespace LockManager

open Monitor

/-- The request of a call that is asleep. -/
def Asleep (m : LockManager) (r : LockRequest) : Prop :=
  ∃ call s, m.sleepers.get? call = some s ∧ s.memory.request = r

/-- The request of a call that is asleep and has not been woken. -/
def Resting (m : LockManager) (r : LockRequest) : Prop :=
  ∃ call s, m.sleepers.get? call = some s ∧ s.memory.request = r ∧ s.woken = false

theorem Resting.asleep {m : LockManager} {r : LockRequest} (h : m.Resting r) : m.Asleep r := by
  obtain ⟨call, s, hget, hr, -⟩ := h
  exact ⟨call, s, hget, hr⟩

theorem Asleep.isAsleep {m : LockManager} {r : LockRequest} (h : m.Asleep r) :
    m.IsAsleep r.txn := by
  obtain ⟨call, s, hget, rfl⟩ := h
  exact ⟨call, s, hget, rfl⟩

/-- The table and the calls asleep say the same. -/
structure Consistent (m : LockManager) : Prop where
  /-- An owner has one call asleep at most. -/
  unique : ∀ c₁ s₁ c₂ s₂, m.sleepers.get? c₁ = some s₁ → m.sleepers.get? c₂ = some s₂ →
    s₁.memory.request.txn = s₂.memory.request.txn → c₁ = c₂
  queued : ∀ res q, q ∈ (m.shared.table.lock res).queue ↔
    ∃ r, m.Asleep r ∧ r.resource = res ∧ q = ⟨r.txn, r.mode⟩
  nodup : ∀ res, ((m.shared.table.lock res).queue.map (·.txn)).Nodup
  edges : ∀ a b, m.shared.table.graph.Edge a b → m.IsAsleep a
  victims : ∀ v cycle, m.shared.table.victims.get? v = some cycle →
    ∃ call s, m.sleepers.get? call = some s ∧ s.memory.request.txn = v ∧ s.woken = true

theorem consistent_fresh (detection : Bool) : Consistent (fresh detection) where
  unique _ _ _ _ h := nomatch h
  queued _ _ := ⟨fun h => (List.not_mem_nil h).elim, fun ⟨_, ⟨_, _, h, _⟩, _⟩ => nomatch h⟩
  nodup _ := List.nodup_nil
  edges _ _ h := absurd h SortedSet.not_mem_empty
  victims _ _ h := nomatch h

/-- No request of an owner without a call asleep is in any queue. -/
theorem Consistent.txn_ne {m : LockManager} (h : m.Consistent) {txn : TxnId}
    (hfree : ¬m.IsAsleep txn) (res : Resource) :
    ∀ q ∈ (m.shared.table.lock res).queue, q.txn ≠ txn := by
  intro q hq heq
  obtain ⟨r, hr, -, rfl⟩ := (h.queued res q).1 hq
  exact hfree (heq ▸ hr.isAsleep)

/-- The call with number `call` is the only one `r` can be the request of. -/
def Owns (m : LockManager) (call : Nat) (r : LockRequest) : Prop :=
  ∀ c s, m.sleepers.get? c = some s →
    (c = call → s.memory.request = r) ∧ (s.memory.request.txn = r.txn → c = call)

theorem Owns.ne_of_txn_ne {m : LockManager} {call c : Nat} {r : LockRequest} {s : Sleeper Waiting}
    (h : m.Owns call r) (hget : m.sleepers.get? c = some s) (hne : s.memory.request.txn ≠ r.txn) :
    c ≠ call :=
  fun hc => hne (congrArg (·.txn) ((h c s hget).1 hc))

theorem owns_of_fresh {m : LockManager} {call : Nat} {r : LockRequest}
    (hcall : m.sleepers.get? call = none) (hfree : ¬m.IsAsleep r.txn) : m.Owns call r := by
  refine fun c s hget => ⟨fun hc => ?_, fun htxn => absurd ⟨c, s, hget, htxn⟩ hfree⟩
  rw [hc, hcall] at hget
  cases hget

theorem Consistent.owns {m : LockManager} (h : m.Consistent) {call : Nat} {s : Sleeper Waiting}
    (hget : m.sleepers.get? call = some s) : m.Owns call s.memory.request := by
  refine fun c s' hget' => ⟨fun hc => ?_, fun htxn => h.unique c s' call s hget' hget htxn⟩
  rw [hc, hget] at hget'
  cases hget'
  rfl

/-! ## What becomes of the calls asleep -/

/-- Steps that do nothing to the calls asleep, except that they may be woken. -/
theorem asleep_nudged {m m' : LockManager} {nudge : Nat → Bool}
    (hsleepers : ∀ c, m'.sleepers.get? c = (m.sleepers.get? c).map (·.nudged (nudge c)))
    {r : LockRequest} : m'.Asleep r ↔ m.Asleep r := by
  constructor
  · rintro ⟨c, s', hget, rfl⟩
    rw [hsleepers] at hget
    obtain ⟨s, hs, rfl⟩ := Option.map_eq_some_iff.1 hget
    exact ⟨c, s, hs, rfl⟩
  · rintro ⟨c, s, hget, rfl⟩
    exact ⟨c, s.nudged (nudge c), by rw [hsleepers, hget]; rfl, rfl⟩

section Looks

variable {m m' : LockManager} {call : Nat} {r : LockRequest} {look : LockState.RequestLook}
  (hlooked : Looked m call look m') (howns : m.Owns call r)

include hlooked

/-- A call asleep after a look is the one that looked, or was asleep before. -/
theorem sleeper_looked {c : Nat} {s' : Sleeper Waiting} (hget : m'.sleepers.get? c = some s') :
    (c = call ∧ look.fate = .sleeps s'.memory ∧ s'.woken = false) ∨
      c ≠ call ∧ ∃ s, m.sleepers.get? c = some s ∧ s' = s.nudged look.notify := by
  obtain ⟨-, token, hsleepers⟩ := hlooked
  rw [hsleepers] at hget
  split at hget
  · next hc =>
    cases hfate : look.fate with
    | returns => rw [hfate] at hget; cases hget
    | sleeps memory =>
      rw [hfate] at hget
      cases hget
      exact .inl ⟨hc, rfl, rfl⟩
  · next hc =>
    obtain ⟨s, hs, rfl⟩ := Option.map_eq_some_iff.1 hget
    exact .inr ⟨hc, s, hs, rfl⟩

/-- The other calls asleep stay so. -/
theorem sleeper_looked_ne {c : Nat} {s : Sleeper Waiting} (hget : m.sleepers.get? c = some s)
    (hc : c ≠ call) : m'.sleepers.get? c = some (s.nudged look.notify) := by
  obtain ⟨-, _, hsleepers⟩ := hlooked
  rw [hsleepers, if_neg hc, hget]
  rfl

include howns

theorem asleep_returned {result : LockState.Outcome} (hfate : look.fate = .returns result)
    (r' : LockRequest) : m'.Asleep r' ↔ m.Asleep r' ∧ r'.txn ≠ r.txn := by
  constructor
  · rintro ⟨c, s', hget, rfl⟩
    rcases sleeper_looked hlooked hget with ⟨-, hsleeps, -⟩ | ⟨hc, s, hs, rfl⟩
    · rw [hfate] at hsleeps
      cases hsleeps
    · exact ⟨⟨c, s, hs, rfl⟩, fun htxn => hc ((howns c s hs).2 htxn)⟩
  · rintro ⟨⟨c, s, hget, rfl⟩, hne⟩
    exact ⟨c, _, sleeper_looked_ne hlooked hget (howns.ne_of_txn_ne hget hne), rfl⟩

theorem asleep_slept {w : Waiting} (hr : w.request = r) (hfate : look.fate = .sleeps w)
    (r' : LockRequest) : m'.Asleep r' ↔ r' = r ∨ m.Asleep r' := by
  constructor
  · rintro ⟨c, s', hget, rfl⟩
    rcases sleeper_looked hlooked hget with ⟨-, hsleeps, -⟩ | ⟨-, s, hs, rfl⟩
    · rw [hfate] at hsleeps
      cases hsleeps
      exact .inl hr
    · exact .inr ⟨c, s, hs, rfl⟩
  · intro h
    have hself : m'.Asleep r := by
      obtain ⟨-, token, hsleepers⟩ := hlooked
      exact ⟨call, ⟨w, token, false⟩, by rw [hsleepers, if_pos rfl, hfate]; rfl, hr⟩
    rcases h with rfl | ⟨c, s, hget, rfl⟩
    · exact hself
    · by_cases hc : c = call
      · rw [(howns c s hget).1 hc]
        exact hself
      · exact ⟨c, _, sleeper_looked_ne hlooked hget hc, rfl⟩

theorem unique_looked (h : m.Consistent) (hfate : ∀ w, look.fate = .sleeps w → w.request = r) :
    ∀ c₁ s₁ c₂ s₂, m'.sleepers.get? c₁ = some s₁ → m'.sleepers.get? c₂ = some s₂ →
      s₁.memory.request.txn = s₂.memory.request.txn → c₁ = c₂ := by
  intro c₁ s₁ c₂ s₂ h₁ h₂ htxn
  rcases sleeper_looked hlooked h₁ with ⟨hc₁, hw₁, -⟩ | ⟨-, t₁, ht₁, rfl⟩ <;>
    rcases sleeper_looked hlooked h₂ with ⟨hc₂, hw₂, -⟩ | ⟨-, t₂, ht₂, rfl⟩
  · exact hc₁.trans hc₂.symm
  · rw [hfate _ hw₁] at htxn
    exact hc₁.trans ((howns c₂ t₂ ht₂).2 htxn.symm).symm
  · rw [hfate _ hw₂] at htxn
    exact ((howns c₁ t₁ ht₁).2 htxn).trans hc₂.symm
  · exact h.unique c₁ t₁ c₂ t₂ ht₁ ht₂ htxn

/-- A call that returns takes its request out of the table and is asleep no more. -/
theorem Consistent.departed (h : m.Consistent) {result : LockState.Outcome}
    (hfate : look.fate = .returns result) (hdeparts : LockState.Departs r m.shared.table look) :
    m'.Consistent := by
  have hasleep {r' : LockRequest} := asleep_returned hlooked howns hfate r'
  have hqueue (res : Resource) (q : Queued) : q ∈ (m'.shared.table.lock res).queue ↔
      q ∈ (m.shared.table.lock res).queue ∧ (res = r.resource → q.txn ≠ r.txn) := by
    rw [hlooked.shared, hdeparts.queue]
    split
    · next hres => simp [ResourceLock.mem_queue_dequeue, hres]
    · next hres => simp [hres]
  refine ⟨unique_looked hlooked howns h fun w hw => ?_, fun res q => ?_, fun res => ?_,
    fun a b hedge => ?_, fun v cycle hv => ?_⟩
  · rw [hfate] at hw
    cases hw
  · rw [hqueue, h.queued]
    constructor
    · rintro ⟨⟨r', hr', hres, rfl⟩, hne⟩
      -- An owner is asleep for one resource only, so elsewhere this is another owner.
      refine ⟨r', hasleep.2 ⟨hr', fun htxn => ?_⟩, hres, rfl⟩
      obtain ⟨c, s, hget, rfl⟩ := hr'
      have hr : s.memory.request = r := (howns c s hget).1 ((howns c s hget).2 htxn)
      exact hne (by rw [← hres, hr]) htxn
    · rintro ⟨r', hr', hres, rfl⟩
      obtain ⟨hr', hne⟩ := hasleep.1 hr'
      exact ⟨⟨r', hr', hres, rfl⟩, fun _ => hne⟩
  · rw [hlooked.shared, hdeparts.queue]
    split
    · exact (h.nodup res).sublist (List.filter_sublist.map _)
    · exact h.nodup res
  · rw [hlooked.shared] at hedge
    obtain ⟨hne, hedge⟩ := hdeparts.edges a b hedge
    obtain ⟨c, s, hget, rfl⟩ := h.edges a b hedge
    exact (hasleep.2 ⟨⟨c, s, hget, rfl⟩, hne⟩).isAsleep
  · rw [hlooked.shared] at hv
    obtain ⟨hne, hv⟩ := hdeparts.victims v cycle hv
    obtain ⟨c, s, hget, rfl, hwoken⟩ := h.victims v cycle hv
    refine ⟨c, _, sleeper_looked_ne hlooked hget (howns.ne_of_txn_ne hget hne), rfl, ?_⟩
    rw [Sleeper.woken_nudged, hwoken, Bool.true_or]

/-- A call that falls asleep has its request in the queue. -/
theorem Consistent.remained (h : m.Consistent) {w : Waiting} (hr : w.request = r)
    (hfate : look.fate = .sleeps w) {queued : Bool}
    (hremains : LockState.Remains queued r m.shared.table look)
    (hqueued : if queued then m.Asleep r ∧ m.shared.table.victims.get? r.txn = none
      else ¬m.IsAsleep r.txn) :
    m'.Consistent := by
  have hasleep {r' : LockRequest} := asleep_slept hlooked howns hr hfate r'
  have hvictim : m.shared.table.victims.get? r.txn = none := by
    cases queued
    · rw [Option.eq_none_iff_forall_ne_some]
      intro cycle hv
      obtain ⟨c, s, hget, htxn, -⟩ := h.victims r.txn cycle hv
      exact hqueued ⟨c, s, hget, htxn⟩
    · exact hqueued.2
  refine ⟨unique_looked hlooked howns h fun w' hw' => ?_, fun res q => ?_, fun res => ?_,
    fun a b hedge => ?_, fun v cycle hv => ?_⟩
  · rw [hfate] at hw'
    cases hw'
    exact hr
  · have hqueue : q ∈ (m'.shared.table.lock res).queue ↔
        (res = r.resource ∧ q = ⟨r.txn, r.mode⟩) ∨ q ∈ (m.shared.table.lock res).queue := by
      rw [hlooked.shared, hremains.queue]
      cases queued
      · by_cases hres : res = r.resource
        · simp [hres, ResourceLock.mem_queue_enqueue]
        · simp [hres]
      · rw [if_neg (fun hcond => nomatch hcond.2)]
        refine ⟨.inr, ?_⟩
        rintro (⟨rfl, rfl⟩ | hq)
        · exact (h.queued _ _).2 ⟨r, hqueued.1, rfl, rfl⟩
        · exact hq
    rw [hqueue, h.queued]
    simp only [hasleep]
    constructor
    · rintro (⟨rfl, rfl⟩ | ⟨r', hr', hres, rfl⟩)
      · exact ⟨r, .inl rfl, rfl, rfl⟩
      · exact ⟨r', .inr hr', hres, rfl⟩
    · rintro ⟨r', rfl | hr', hres, rfl⟩
      · exact .inl ⟨hres.symm, rfl⟩
      · exact .inr ⟨r', hr', hres, rfl⟩
  · rw [hlooked.shared, hremains.queue]
    split
    · next hcond =>
      rw [hcond.2] at hqueued
      exact ResourceLock.nodup_enqueue r.mode (h.nodup res) (h.txn_ne hqueued res)
    · exact h.nodup res
  · rw [hlooked.shared] at hedge
    rcases hremains.edges a b hedge with rfl | hedge
    · exact (hasleep.2 (.inl rfl)).isAsleep
    · obtain ⟨c, s, hget, rfl⟩ := h.edges a b hedge
      exact (hasleep.2 (.inr ⟨c, s, hget, rfl⟩)).isAsleep
  · rw [hlooked.shared] at hv
    have hawake : v ≠ r.txn ∧ ∃ c s, m.sleepers.get? c = some s ∧ s.memory.request.txn = v ∧
        (s.woken || look.notify) = true := by
      rcases hremains.victims v cycle hv with hv | ⟨hne, hnotify, b, hedge⟩
      · obtain ⟨c, s, hget, rfl, hwoken⟩ := h.victims v cycle hv
        refine ⟨fun hne => ?_, c, s, hget, rfl, by rw [hwoken, Bool.true_or]⟩
        rw [hne, hvictim] at hv
        cases hv
      · obtain ⟨c, s, hget, rfl⟩ := h.edges v b hedge
        exact ⟨hne, c, s, hget, rfl, by rw [hnotify, Bool.or_true]⟩
    obtain ⟨hne, c, s, hget, rfl, hwoken⟩ := hawake
    exact ⟨c, _, sleeper_looked_ne hlooked hget (howns.ne_of_txn_ne hget hne), rfl, hwoken⟩

end Looks

/-- Steps that leave the queues and the calls asleep as they are. -/
theorem Consistent.nudged {m m' : LockManager} (h : m.Consistent) {nudge : Nat → Bool}
    (hsleepers : ∀ c, m'.sleepers.get? c = (m.sleepers.get? c).map (·.nudged (nudge c)))
    (hqueue : ∀ res, (m'.shared.table.lock res).queue = (m.shared.table.lock res).queue)
    (hedges : ∀ a b, m'.shared.table.graph.Edge a b → m.shared.table.graph.Edge a b)
    (hvictims : ∀ v cycle, m'.shared.table.victims.get? v = some cycle →
      m.shared.table.victims.get? v = some cycle) : m'.Consistent := by
  have hget {c : Nat} {s : Sleeper Waiting} (hs : m.sleepers.get? c = some s) :
      m'.sleepers.get? c = some (s.nudged (nudge c)) := by
    rw [hsleepers, hs]
    rfl
  refine ⟨fun c₁ s₁ c₂ s₂ h₁ h₂ htxn => ?_, fun res q => ?_, fun res => ?_, fun a b hedge => ?_,
    fun v cycle hv => ?_⟩
  · rw [hsleepers] at h₁ h₂
    obtain ⟨t₁, ht₁, rfl⟩ := Option.map_eq_some_iff.1 h₁
    obtain ⟨t₂, ht₂, rfl⟩ := Option.map_eq_some_iff.1 h₂
    exact h.unique c₁ t₁ c₂ t₂ ht₁ ht₂ htxn
  · simp only [hqueue, h.queued, asleep_nudged hsleepers]
  · rw [hqueue]
    exact h.nodup res
  · obtain ⟨c, s, hs, rfl⟩ := h.edges a b (hedges a b hedge)
    exact ⟨c, _, hget hs, rfl⟩
  · obtain ⟨c, s, hs, rfl, hwoken⟩ := h.victims v cycle (hvictims v cycle hv)
    exact ⟨c, _, hget hs, rfl, by rw [Sleeper.woken_nudged, hwoken, Bool.true_or]⟩

/-! ## Steps and runs -/

/-- A request that needed no lock leaves nothing behind. -/
theorem Consistent.departs_held {m : LockManager} (h : m.Consistent) {r : LockRequest}
    (hfree : ¬m.IsAsleep r.txn) {look : LockState.RequestLook}
    (htable : look.state.table = m.shared.table) : LockState.Departs r m.shared.table look := by
  refine ⟨fun res => ?_, fun a b hedge => ?_, fun v cycle hv => ?_⟩
  · rw [htable]
    split
    · rw [ResourceLock.dequeue_eq_self (h.txn_ne hfree res)]
    · rfl
  · rw [htable] at hedge
    exact ⟨fun ha => hfree (ha ▸ h.edges a b hedge), hedge⟩
  · rw [htable] at hv
    obtain ⟨c, s, hget, rfl, -⟩ := h.victims v cycle hv
    exact ⟨fun heq => hfree ⟨c, s, hget, heq⟩, hv⟩

/-- **A step keeps the table and the calls asleep consistent.** -/
theorem consistent_step {m : LockManager} (h : m.Consistent) {e : Event} (he : e.Orderly m) :
    (m.step e).Consistent := by
  cases m.step_effect e with
  | @arrive now call token r cancelled look m' harrival hlooked =>
    obtain ⟨hcall, hfree⟩ := he
    have howns := owns_of_fresh hcall hfree
    cases harrival with
    | held => exact h.departed hlooked howns rfl (h.departs_held hfree rfl)
    | attempt _ hattempt =>
      cases hfate : look.fate with
      | returns => exact h.departed hlooked howns hfate (hattempt.departs hfate)
      | sleeps memory =>
        obtain ⟨rfl, -⟩ := hattempt.sleeps hfate
        have hremains : LockState.Remains false r m.shared.table look := hattempt.remains hfate
        exact h.remained hlooked howns rfl hfate hremains hfree
  | @again now call s cancelled look m' hget hwoken hattempt hlooked =>
    have howns := h.owns hget
    cases hfate : look.fate with
    | returns => exact h.departed hlooked howns hfate (hattempt.departs hfate)
    | sleeps memory =>
      obtain ⟨rfl, hvictim, -⟩ := hattempt.sleeps hfate
      exact h.remained hlooked howns rfl hfate (hattempt.remains hfate)
        ⟨⟨call, s, hget, rfl⟩, hvictim⟩
  | @release txn res m' hshared hsleepers =>
    refine h.nudged hsleepers (fun res' => ?_) (fun a b hedge => ?_) fun v cycle hv => ?_
    · rw [hshared, LockTable.lock_release]
      split
      · next heq => rw [heq, ResourceLock.queue_unhold]
      · rfl
    · rwa [hshared, LockTable.graph_release] at hedge
    · rwa [hshared, LockTable.victims_release] at hv
  | @releaseAll txn m' hshared hsleepers =>
    refine h.nudged hsleepers (fun res => ?_) (fun a b hedge => ?_) fun v cycle hv => ?_
    · rw [hshared, LockTable.lock_releaseAll]
      split <;> rfl
    · rw [hshared, LockTable.graph_releaseAll] at hedge
      exact (WaitGraph.edge_remove.1 hedge).2.2
    · rw [hshared, LockTable.victims_releaseAll, SortedMap.get?_erase] at hv
      split at hv
      · cases hv
      · exact hv
  | @wake _ m' nudge hshared hsleepers =>
    refine h.nudged hsleepers (fun res => ?_) (fun a b hedge => ?_) fun v cycle hv => ?_
    · rw [hshared]
    · rwa [hshared] at hedge
    · rwa [hshared] at hv

theorem consistent_of_run {m : LockManager} (h : m.Consistent) {events : List Event}
    (horderly : Orderly m events) : (m.run events).Consistent := by
  induction events generalizing m with
  | nil => exact h
  | cons e es ih => exact ih (consistent_step h horderly.1) horderly.2

end LockManager
end WalStore

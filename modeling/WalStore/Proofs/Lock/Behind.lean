import WalStore.Proofs.Lock.Holding
import WalStore.Proofs.Lock.Turn
import WalStore.Proofs.Lock.Victim

/-!
# Who waits behind a victim

Of the owners on a cycle that was found the youngest gives way, and it does so only if another owner
on the cycle waits for it. That one may wait for a lock that the victim holds. But a victim that
holds nothing is waited for in a queue only: the other has asked for the same resource and stands
behind the victim there (`Picks.exists_behind`).

**Why the edges can be trusted.** An edge may be left over from a wait that is over (`OverdueAt`).
One to an owner that has held nothing since it fell asleep cannot, for it was noted by a request
that stood behind this owner, and two requests that stay queued keep their order (`Trailed.step`).
-/

namespace WalStore

open Monitor

/-! ## The youngest gives way -/

namespace LockState

variable {s s' : LockState} {r : LockRequest}

/-- Whoever is marked is the youngest on its cycle, and deadlocks are looked for. -/
def MarksYoungest (s : LockState) : Prop :=
  ∀ victim cycle, s.table.victims.get? victim = some cycle →
    s.detection = true ∧ WaitGraph.victim? cycle = some victim

theorem MarksYoungest.mono (h : s.MarksYoungest) (hdetection : s'.detection = s.detection)
    (hvictims : ∀ victim cycle, s'.table.victims.get? victim = some cycle →
      s.table.victims.get? victim = some cycle) : s'.MarksYoungest := by
  intro victim cycle hmark
  rw [hdetection]
  exact h victim cycle (hvictims victim cycle hmark)

theorem MarksYoungest.erase (h : s.MarksYoungest) (hdetection : s'.detection = s.detection)
    {owner : TxnId} (hvictims : s'.table.victims = s.table.victims.erase owner) :
    s'.MarksYoungest := by
  refine h.mono hdetection fun victim cycle hmark => ?_
  rw [hvictims, SortedMap.get?_erase] at hmark
  split at hmark
  · cases hmark
  · exact hmark

theorem MarksYoungest.breakCycle (h : s.MarksYoungest) (hdetection : s.detection = true)
    (txn : TxnId) : ({ s with table := (s.table.breakCycle txn).1 } : LockState).MarksYoungest := by
  unfold LockTable.breakCycle
  split
  · exact h
  split
  · exact h
  · next hvictim =>
    intro victim cycle hmark
    rw [SortedMap.get?_insert] at hmark
    split at hmark
    · next heq =>
      cases hmark
      rw [heq]
      exact ⟨hdetection, hvictim⟩
    · exact h victim cycle hmark

/-- The look marks only who is the youngest on a cycle, and fails only as that. -/
structure SparesElders (detection : Bool) (look : RequestLook) : Prop where
  marks : look.state.MarksYoungest
  fails : ∀ victim cycle, look.fate.result? = some (.error (.deadlock victim cycle)) →
    detection = true ∧ WaitGraph.victim? cycle = some victim

theorem sparesElders_sacrifice (h : s.MarksYoungest) {cycle : List TxnId}
    (hmark : s.table.victims.get? r.txn = some cycle) :
    SparesElders s.detection (s.sacrifice r cycle) := by
  refine ⟨h.erase rfl (LockTable.victims_abandon ..), fun victim cycle' hresult => ?_⟩
  cases hresult
  exact h _ _ hmark

theorem sparesElders_stay (h : s.MarksYoungest) (w : Waiting) :
    SparesElders s.detection (s.stay w) := by
  have hnoted : ({ s with table := s.noted w.request } : LockState).MarksYoungest := h
  have hbroken : ({ s with table := (if s.detection then
      (s.noted w.request).breakCycle w.request.txn else (s.noted w.request, none)).1 } :
        LockState).MarksYoungest := by
    by_cases hdetection : s.detection = true
    · rw [if_pos hdetection]
      exact hnoted.breakCycle hdetection w.request.txn
    · rw [if_neg hdetection]
      exact hnoted
  rw [stay_eq]
  generalize (if s.detection then (s.noted w.request).breakCycle w.request.txn
    else (s.noted w.request, none)) = broken at hbroken ⊢
  unfold settled
  split
  · next hmark => exact sparesElders_sacrifice hbroken hmark
  · exact ⟨hbroken, nofun⟩

theorem sparesElders_attempt (h : s.MarksYoungest) (queued : Bool) (sight : Sight) (w : Waiting) :
    SparesElders s.detection (s.attempt queued sight w) := by
  rw [attempt_eq]
  split
  · next hmark => exact sparesElders_sacrifice h hmark
  split
  · refine ⟨h.mono rfl fun victim cycle hmark => ?_, nofun⟩
    rwa [LockTable.victims_grant] at hmark
  split
  · next hfailure =>
    refine ⟨h.erase rfl (LockTable.victims_abandon ..), fun victim cycle hresult => ?_⟩
    cases hresult
    exact absurd rfl (failure?_ne_deadlock hfailure victim cycle)
  · have hqueued : (if queued then s else s.queueUp w.request).detection = s.detection := by
      cases queued <;> rfl
    rw [← hqueued]
    refine sparesElders_stay (h.mono hqueued fun victim cycle hmark => ?_) w
    rwa [victims_queueUp] at hmark

theorem sparesElders_arrive (h : s.MarksYoungest) (sight : Sight) (r : LockRequest) :
    SparesElders s.detection (s.arrive sight r) := by
  unfold arrive
  dsimp only
  split
  · exact ⟨h, nofun⟩
  · exact sparesElders_attempt (s := { s with counters.requests := s.counters.requests + 1 }) h ..

end LockState

namespace LockManager

variable {m : LockManager} {e : Event} {a b victim : TxnId} {cycle : List TxnId}

/-- **Only the youngest gives way**, and only where deadlocks are looked for. -/
theorem marksYoungest_step (h : m.shared.MarksYoungest) (e : Event) :
    (m.step e).shared.MarksYoungest ∧ ∀ victim cycle,
      m.outcome? e = some (.error (.deadlock victim cycle)) →
        m.shared.detection = true ∧ WaitGraph.victim? cycle = some victim := by
  -- Only a look has an outcome.
  have hsilent {outcome : Option LockState.Outcome} (hnone : outcome = none) (victim : TxnId)
      (cycle : List TxnId) (houtcome : outcome = some (.error (.deadlock victim cycle))) :
      m.shared.detection = true ∧ WaitGraph.victim? cycle = some victim := by
    rw [hnone] at houtcome
    cases houtcome
  cases e with
  | acquire now call token r =>
    obtain ⟨hmarks, hfails⟩ := LockState.sparesElders_arrive h
      ((m.register token).1.sight now token) r
    rw [step, outcome?, enter_eq, shared_afterLook, result_afterLook]
    exact ⟨hmarks, hfails⟩
  | recheck now call =>
    rw [step, outcome?]
    rcases m.recheck_cases call LockState.discipline now with hrest | ⟨s, -, -, heq⟩
    · rw [hrest]
      exact ⟨h, hsilent rfl⟩
    · obtain ⟨hmarks, hfails⟩ := LockState.sparesElders_attempt h true
        (m.sight now (s.token.map (·.1))) s.memory
      rw [heq, shared_afterLook, result_afterLook]
      exact ⟨hmarks, hfails⟩
  | release txn res =>
    refine ⟨?_, hsilent rfl⟩
    rw [step, shared_act]
    refine h.mono rfl fun victim cycle hmark => ?_
    rwa [LockState.release, LockTable.victims_release] at hmark
  | releaseAll txn =>
    refine ⟨?_, hsilent rfl⟩
    rw [step, shared_act]
    exact h.erase rfl (LockTable.victims_releaseAll ..)
  | raise => exact ⟨h, hsilent rfl⟩
  | notify => exact ⟨h, hsilent rfl⟩
  | wake call =>
    refine ⟨?_, hsilent rfl⟩
    rw [step, shared_wake]
    exact h

theorem Picks.youngest (h : m.Picks e victim cycle) (hmarks : m.shared.MarksYoungest) :
    m.shared.detection = true ∧ WaitGraph.victim? cycle = some victim := by
  obtain ⟨hmarks', hfails⟩ := marksYoungest_step hmarks e
  rw [← m.detection_step e] at hfails ⊢
  exact h.2.elim (hmarks' victim cycle) (hfails victim cycle)

/-! ## Requests asleep -/

/-- A request asleep after a step was asleep before, or arrives. -/
theorem Asleep.before {r : LockRequest} (h : (m.step e).Asleep r) :
    m.Asleep r ∨ ∃ now call token, e = .acquire now call token r := by
  obtain ⟨c, s', hget, rfl⟩ := h
  by_cases hstart : ∃ now token r, e = .acquire now c token r
  · obtain ⟨now, token, r, rfl⟩ := hstart
    rw [(m.enter_keeps now c token r).2.1 s' hget]
    exact .inr ⟨now, c, token, rfl⟩
  · obtain ⟨s, hs, hmemory⟩ :=
      m.memory_step (fun now token r he => hstart ⟨now, token, r, he⟩) hget
    exact .inl ⟨c, s, hs, by rw [hmemory]⟩

/-- An owner that is asleep before and after a step sleeps for the same request. -/
theorem Consistent.asleep_step (hc : m.Consistent) (he : e.Orderly m) {r : LockRequest}
    (h : m.Asleep r) (hafter : (m.step e).IsAsleep r.txn) : (m.step e).Asleep r := by
  obtain ⟨c', s', hget', htxn⟩ := hafter
  have hasleep' : (m.step e).Asleep s'.memory.request := ⟨c', s', hget', rfl⟩
  rcases hasleep'.before with ⟨c₁, s₁, hget₁, hr₁⟩ | ⟨now, call, token, rfl⟩
  · obtain ⟨c, s, hget, rfl⟩ := h
    obtain rfl := hc.unique c₁ s₁ c s hget₁ hget (by rw [hr₁, htxn])
    rw [hget, Option.some.injEq] at hget₁
    rwa [hget₁, hr₁]
  · exact absurd h.isAsleep (htxn ▸ he.2)

end LockManager

/-! ## Queued behind -/

/-- Around a cycle there is an edge to everyone on it. -/
theorem WaitGraph.exists_edge_of_forall₂ {g : WaitGraph} {cycle : List TxnId}
    (h : List.Forall₂ g.Edge cycle (cycle.rotate 1)) {x : TxnId} (hx : x ∈ cycle) :
    ∃ a ∈ cycle, g.Edge a x := by
  obtain ⟨i, hi, rfl⟩ := List.getElem_of_mem ((List.mem_rotate (n := 1)).2 hx)
  have hlt : i < cycle.length := by rwa [List.length_rotate] at hi
  exact ⟨cycle[i], List.getElem_mem hlt, h.get hlt hi⟩

/-- Who is ahead of a request that is queued stands in front of it. -/
theorem ResourceLock.sublist_of_mem_ahead {l : ResourceLock} {a b : Queued} (hb : b ∈ l.queue)
    (h : a ∈ l.ahead b.txn) : [a, b].Sublist l.queue := by
  rw [ahead] at h
  rw [← List.takeWhile_append_dropWhile (p := (·.txn ≠ b.txn)) (l := l.queue)] at hb ⊢
  refine (List.singleton_sublist.2 h).append (List.singleton_sublist.2 ?_)
  exact (List.mem_append.1 hb).resolve_left fun hmem => by simpa using List.mem_takeWhile_imp hmem

/-- The request `r` is queued, and ahead of it is one of `owner` that it conflicts with. -/
structure LockTable.Behind (t : LockTable) (r : LockRequest) (owner : TxnId) : Prop where
  queued : ⟨r.txn, r.mode⟩ ∈ (t.lock r.resource).queue
  ahead : owner ∈ (t.lock r.resource).conflictingAhead r.txn r.mode

/-- Who is blocked behind an owner that holds nothing is behind it in a queue. -/
theorem LockTable.behind_of_mem_blockers {t : LockTable} {r : LockRequest} {owner : TxnId}
    (hqueued : ⟨r.txn, r.mode⟩ ∈ (t.lock r.resource).queue)
    (hfree : ∀ res, t.holding owner res = none)
    (h : owner ∈ (t.lock r.resource).blockers r.txn r.mode) : t.Behind r owner := by
  refine ⟨hqueued, (ResourceLock.mem_blockers.1 h).resolve_left fun hholder => ?_⟩
  obtain ⟨held, hheld, -⟩ := ResourceLock.mem_conflictingHolders.1 hholder
  rw [show (t.lock r.resource).holders.get? owner = none from hfree _] at hheld
  cases hheld

namespace LockManager

variable {m : LockManager} {e : Event} {r : LockRequest} {a b owner victim : TxnId}
  {cycle : List TxnId}

/-- Two requests that stay queued stay behind one another. -/
theorem Consistent.behind_step (hc : m.Consistent) (he : e.Orderly m)
    (h : m.shared.table.Behind r owner) (hr : (m.step e).Asleep r)
    (howner : (m.step e).IsAsleep owner) : (m.step e).shared.table.Behind r owner := by
  have hc' := consistent_step hc he
  have hqueued' := (hc'.queued _ _).2 ⟨r, hr, rfl, rfl⟩
  obtain ⟨asked, hahead, hconflict⟩ := ResourceLock.mem_conflictingAhead.1 h.ahead
  have hqueue := List.takeWhile_subset _ hahead
  -- The request that is ahead is asleep after the step too, so it is in the same queue.
  obtain ⟨first, hfirst, hres, heq⟩ := (hc.queued _ _).1 hqueue
  rw [Queued.mk.injEq] at heq
  obtain ⟨rfl, rfl⟩ := heq
  have hqueue' := (hc'.queued _ _).2 ⟨first, hc.asleep_step he hfirst howner, hres, rfl⟩
  have hfront := (hc.inFront_step he hqueue h.queued hqueue' hqueued').2
    (ResourceLock.sublist_of_mem_ahead h.queued hahead)
  exact ⟨hqueued', ResourceLock.mem_conflictingAhead.2
    ⟨first.mode, ResourceLock.mem_ahead_of_sublist (hc'.nodup _) hfront, hconflict⟩⟩

/-- An edge after a step was there before, or its owner is blocked so now. -/
theorem edge_step (hedge : (m.step e).shared.table.graph.Edge a b) :
    m.shared.table.graph.Edge a b ∨ ∃ r, (m.step e).Asleep r ∧ r.txn = a ∧
      b ∈ ((m.step e).shared.table.lock r.resource).blockers r.txn r.mode := by
  have hattempt {queued : Bool} {sight : Sight} {s : LockState} {w : Waiting}
      {look : LockState.RequestLook} {call : Nat} {m' : LockManager}
      (hattempt : LockState.Attempt queued sight w s look)
      (hgraph : s.table.graph = m.shared.table.graph) (hlooked : m.Looked call look m')
      (hedge : m'.shared.table.graph.Edge a b) :
      m.shared.table.graph.Edge a b ∨ ∃ r, m'.Asleep r ∧ r.txn = a ∧
        b ∈ (m'.shared.table.lock r.resource).blockers r.txn r.mode := by
    rw [hlooked.shared] at hedge ⊢
    rw [← hgraph]
    cases hfate : look.fate with
    | returns => exact .inl ((hattempt.departs hfate).edges a b hedge).2
    | sleeps memory =>
      rcases (hattempt.remains hfate).edges a b hedge with rfl | hold
      · obtain ⟨rfl, -⟩ := hattempt.sleeps hfate
        obtain ⟨-, token, hsleepers⟩ := hlooked
        refine .inr ⟨_, ⟨call, ⟨memory, token, false⟩, ?_, rfl⟩, rfl,
          hattempt.mem_blockers hfate hedge⟩
        rw [hsleepers, if_pos rfl, hfate]
        rfl
      · exact .inl hold
  cases m.step_effect e with
  | arrive _ harrival hlooked =>
    cases harrival with
    | held =>
      rw [hlooked.shared] at hedge
      exact .inl hedge
    | attempt _ hlook => exact hattempt hlook rfl hlooked hedge
  | again _ _ _ hlook hlooked => exact hattempt hlook rfl hlooked hedge
  | release hshared =>
    rw [hshared, LockTable.graph_release] at hedge
    exact .inl hedge
  | releaseAll hshared =>
    rw [hshared, LockTable.graph_releaseAll] at hedge
    exact .inl (WaitGraph.edge_remove.1 hedge).2.2
  | wake _ hshared =>
    rw [hshared] at hedge
    exact .inl hedge

/-- Whoever has an edge to the owner is queued behind it. -/
def Trailed (m : LockManager) (owner : TxnId) : Prop :=
  ∀ a, m.shared.table.graph.Edge a owner →
    ∃ r, m.Asleep r ∧ r.txn = a ∧ m.shared.table.Behind r owner

/-- **While an owner sleeps and holds nothing, it is waited for in a queue only.** -/
theorem Trailed.step (h : m.Trailed owner) (hc : m.Consistent) (he : e.Orderly m)
    (hasleep : (m.step e).IsAsleep owner)
    (hfree : ∀ res, (m.step e).shared.table.holding owner res = none) :
    (m.step e).Trailed owner := by
  intro a hedge
  have hc' := consistent_step hc he
  rcases edge_step hedge with hold | ⟨r, hr, rfl, hblocked⟩
  · obtain ⟨r, hr, rfl, hbehind⟩ := h a hold
    have hr' := hc.asleep_step he hr (hc'.edges _ _ hedge)
    exact ⟨r, hr', rfl, hc.behind_step he hbehind hr' hasleep⟩
  · have hqueued := (hc'.queued _ _).2 ⟨r, hr, rfl, rfl⟩
    exact ⟨r, hr, rfl, LockTable.behind_of_mem_blockers hqueued hfree hblocked⟩

theorem holding_tableAt (m : LockManager) (e : Event) (owner : TxnId) (res : Resource) :
    (m.tableAt e).holding owner res = m.shared.table.holding owner res := by
  cases e with
  | acquire now call token r =>
    rw [tableAt, LockTable.holding, LockTable.lock_enqueue]
    split
    · next hres => rw [ResourceLock.holders_enqueue, hres, LockTable.holding]
    · rfl
  | _ => rfl

/-- Someone on the cycle is queued behind a victim that holds nothing. -/
theorem Picks.exists_behind (h : m.Picks e victim cycle) (hc : m.Consistent) (he : e.Orderly m)
    (htrailed : m.Trailed victim) (hfree : ∀ res, m.shared.table.holding victim res = none) :
    ∃ r, m.PresentAt e r ∧ r.txn ∈ cycle ∧ (m.tableAt e).Behind r victim := by
  obtain ⟨looking, hlooks, hmem, hcycle⟩ := h.exists_looksAt hc he
  obtain ⟨a, ha, hedge⟩ := WaitGraph.exists_edge_of_forall₂ hcycle hmem
  rcases edge_graphAt hlooks.graph hedge with ⟨rfl, hblocked⟩ | ⟨-, hold⟩
  · refine ⟨looking, hlooks.present, ha, ?_⟩
    refine LockTable.behind_of_mem_blockers hlooks.queued (fun res => ?_) hblocked
    rw [holding_tableAt, hfree]
  · obtain ⟨r, hr, rfl, hbehind⟩ := htrailed a hold
    have hpresses := hlooks.presses r.resource
    exact ⟨r, .inl hr, ha, hpresses.queue _ hbehind.queued,
      hpresses.ahead _ hbehind.queued _ hbehind.ahead⟩

/-- What is behind a request asleep has asked for the same resource. -/
theorem Consistent.resource_of_behind (hc : m.Consistent) (he : e.Orderly m)
    (h : (m.tableAt e).Behind r owner) {first : LockRequest} (hfirst : m.Asleep first)
    (howner : first.txn = owner) : r.resource = first.resource := by
  subst howner
  obtain ⟨asked, hahead, -⟩ := ResourceLock.mem_conflictingAhead.1 h.ahead
  have hqueue : ⟨first.txn, asked⟩ ∈ (m.shared.table.lock r.resource).queue := by
    have hmem := List.takeWhile_subset _ hahead
    cases e with
    | acquire now call token arriving =>
      rw [tableAt, LockTable.lock_enqueue] at hmem
      split at hmem
      · next hres =>
        rcases ResourceLock.mem_queue_enqueue.1 hmem with heq | hold
        · have hnew : first.txn = arriving.txn := congrArg Queued.txn heq
          exact absurd hfirst.isAsleep (hnew ▸ he.2)
        · rwa [hres]
      · exact hmem
    | _ => exact hmem
  obtain ⟨_, ⟨c', s', hget', rfl⟩, hres, heq⟩ := (hc.queued _ _).1 hqueue
  obtain ⟨c, s, hget, rfl⟩ := hfirst
  obtain rfl := hc.unique c s c' s' hget hget' (congrArg Queued.txn heq)
  rw [hget, Option.some.injEq] at hget'
  rw [← hres, hget']

end LockManager
end WalStore

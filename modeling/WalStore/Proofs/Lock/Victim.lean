import Mathlib.Data.List.Forall2
import Mathlib.Data.List.Rotate
import WalStore.Proofs.Lock.Resting

/-!
# Who is picked to break a deadlock

**Theorem (`picks_run`).** When a victim is picked for a cycle, every owner on the cycle is blocked
behind the next one at that moment, unless its request has been woken and has not looked again. No
request fails as a victim that was not picked in this way.

**Why edges are true until a call is woken.** A request notes whom it is blocked behind when it
looks. Whoever stops being in its way, by a release or by leaving the queue, wakes all calls asleep,
and a step that wakes nobody takes no one out of the way (`Presses`). So a request that rests has
true edges only (`Truthful`).

**Why a call that was woken is excepted.** Releasing one lock leaves the edges that lead to its
owner where they are until the calls it woke look again. If the owner asks for another lock before
that, it may find a cycle where no deadlock is (`exists_picks_not_blocked`). Releasing all locks
drops these edges at once.
-/

namespace WalStore

open Monitor

/-! ## Cycles that are found -/

/-- Each owner on a cycle that was found has an edge to the next. -/
theorem WaitGraph.forall₂_cycleThrough {g : WaitGraph} {start : TxnId} {cycle : List TxnId}
    (h : g.cycleThrough start = some cycle) : List.Forall₂ g.Edge cycle (cycle.rotate 1) := by
  have hchain := isChain_cycleThrough h
  obtain ⟨way, -, rfl⟩ := Option.map_eq_some_iff.1 h
  rw [List.rotate_cons_succ, List.rotate_zero]
  exact List.isChain_cons_append_singleton_iff_forall₂.1 hchain

namespace LockState

variable {queued : Bool} {sight : Sight} {s : LockState} {w : Waiting} {look : RequestLook}

/-- Giving up is not giving way. -/
theorem failure?_ne_deadlock {r : LockRequest} {expiry : Option Expiry} {counters : LockCounters}
    {e : Error} (h : s.failure? sight r expiry = some (counters, e)) (txn : TxnId)
    (cycle : List TxnId) : e ≠ .deadlock txn cycle := by
  unfold failure? at h
  dsimp only at h
  split at h
  · cases h
    exact nofun
  · split at h <;> cases h <;> exact nofun

/-- A new victim comes from a cycle that the look found. -/
theorem Attempt.found (h : Attempt queued sight w s look) {victim : TxnId} {cycle : List TxnId}
    (hnew : s.table.victims.get? victim ≠ some cycle)
    (hpicked : look.state.table.victims.get? victim = some cycle ∨
      look.fate.result? = some (.error (.deadlock victim cycle))) :
    victim ∈ cycle ∧ ((if queued then s else s.queueUp w.request).noted
      w.request).graph.cycleThrough w.request.txn = some cycle := by
  have habandoned {t : LockTable} {txn : TxnId} {res : Resource}
      (ht : ∀ v, v ≠ txn → t.victims.get? v = s.table.victims.get? v) :
      (t.abandon txn res).victims.get? victim ≠ some cycle := by
    rw [LockTable.victims_abandon, SortedMap.get?_erase]
    split
    · exact nofun
    · next hne => rwa [ht victim hne]
  cases h with
  | victim hvictim =>
    rcases hpicked with hmark | hresult
    · exact absurd hmark (habandoned fun _ _ => rfl)
    · cases hresult
      exact absurd hvictim hnew
  | grant =>
    rcases hpicked with hmark | hresult
    · rw [LockTable.victims_grant] at hmark
      exact absurd hmark hnew
    · cases hresult
  | fail _ _ hfailure =>
    rcases hpicked with hmark | hresult
    · exact absurd hmark (habandoned fun _ _ => rfl)
    · cases hresult
      exact absurd rfl (failure?_ne_deadlock hfailure victim cycle)
  | stay _ _ _ _ hstay =>
    have hvictims (v : TxnId) : ((if queued then s else s.queueUp w.request).noted
        w.request).victims.get? v = s.table.victims.get? v := by
      rw [noted, LockTable.victims_noteWaits, victims_queueUp]
    cases hstay with
    | sleep =>
      rcases hpicked with hmark | hresult
      · exact absurd ((hvictims victim).symm.trans hmark) hnew
      · cases hresult
    | spare hcycle hmem =>
      rcases hpicked with hmark | hresult
      · rw [LockTable.markVictim, SortedMap.get?_insert] at hmark
        split at hmark
        · next heq =>
          cases hmark
          exact ⟨heq ▸ hmem, hcycle⟩
        · exact absurd ((hvictims victim).symm.trans hmark) hnew
      · cases hresult
    | yield hcycle hmem =>
      rcases hpicked with hmark | hresult
      · refine absurd hmark (habandoned fun v hv => ?_)
        rw [LockTable.markVictim, SortedMap.get?_insert, if_neg hv]
        exact hvictims v
      · cases hresult
        exact ⟨hmem, hcycle⟩

/-- A request that falls asleep has edges to those it is blocked behind only. -/
theorem Attempt.mem_blockers (h : Attempt queued sight w s look) {memory : Waiting}
    (hfate : look.fate = .sleeps memory) {b : TxnId}
    (hedge : look.state.table.graph.Edge w.request.txn b) :
    b ∈ (look.state.table.lock w.request.resource).blockers w.request.txn w.request.mode := by
  have hnoted {b : TxnId} (hedge : ((if queued then s else s.queueUp w.request).noted
      w.request).graph.Edge w.request.txn b) :
      b ∈ (((if queued then s else s.queueUp w.request).noted w.request).lock
        w.request.resource).blockers w.request.txn w.request.mode := by
    rw [noted, LockTable.graph_noteWaits, WaitGraph.Edge, WaitGraph.blockers_setWaits,
      if_pos rfl] at hedge
    exact hedge
  obtain ⟨rfl, -, -, hstay⟩ := h.sleeps hfate
  cases hstay with
  | sleep => exact hnoted hedge
  | spare => exact hnoted (WaitGraph.edge_clearWaits.1 hedge).2
  | yield => cases hfate

end LockState

namespace LockManager

/-! ## Edges of requests that rest -/

/-- A request that rests is blocked behind all that it has an edge to. -/
def Truthful (m : LockManager) : Prop :=
  ∀ r, m.Resting r → ∀ b, m.shared.table.graph.Edge r.txn b →
    b ∈ (m.shared.table.lock r.resource).blockers r.txn r.mode

theorem truthful_of_not_resting {m : LockManager} (h : ∀ r, ¬m.Resting r) : m.Truthful :=
  fun r hr => absurd hr (h r)

theorem steady_truthful : Steady fun t r => ∀ b, t.graph.Edge r.txn b →
    b ∈ (t.lock r.resource).blockers r.txn r.mode where
  asleep hattempt hfate _ _ hedge := hattempt.mem_blockers hfate hedge
  quiet hquietly hne hqueue h b hedge :=
    (hquietly.locks _).blockers hqueue (h b ((hquietly.edges _ b hne).1 hedge))
  same hlock hgraph h b hedge := by
    rw [hgraph] at hedge
    rw [hlock]
    exact h b hedge

theorem truthful_of_run {m : LockManager} (h : m.Truthful) (hc : m.Consistent)
    {events : List Event} (horderly : Orderly m events) : (m.run events).Truthful :=
  steady_truthful.run h hc horderly

/-! ## The moment of a look -/

/-- In the event `victim` is picked to break `cycle`: it is marked, or it looks itself and fails. -/
def Picks (m : LockManager) (e : Event) (victim : TxnId) (cycle : List TxnId) : Prop :=
  m.shared.table.victims.get? victim ≠ some cycle ∧
    ((m.step e).shared.table.victims.get? victim = some cycle ∨
      m.outcome? e = some (.error (.deadlock victim cycle)))

instance (m : LockManager) (e : Event) (victim : TxnId) (cycle : List TxnId) :
    Decidable (m.Picks e victim cycle) := inferInstanceAs (Decidable (_ ∧ _))

/-- The table that a request which stays queued sees: a request that arrives is in its queue. -/
def tableAt (m : LockManager) : Event → LockTable
  | .acquire _ _ _ r => m.shared.table.enqueue r.txn r.resource r.mode
  | _ => m.shared.table

/-- The request is asleep or arrives. -/
def PresentAt (m : LockManager) (e : Event) (r : LockRequest) : Prop :=
  m.Asleep r ∨ ∃ now call token, e = .acquire now call token r

/-- A request of `a` waits for `b` at the moment of the look. -/
def BlockedAt (m : LockManager) (e : Event) (a b : TxnId) : Prop :=
  ∃ r, m.PresentAt e r ∧ r.txn = a ∧ WaitsFor (m.tableAt e) r b

/-- A request of `a` has been woken, and it is not the one that looks. -/
def OverdueAt (m : LockManager) (e : Event) (a : TxnId) : Prop :=
  ∃ call s, m.sleepers.get? call = some s ∧ s.memory.request.txn = a ∧ s.woken = true ∧
    e.call? ≠ some call

theorem waitsFor_of_mem_blockers {t : LockTable} {r : LockRequest} {u : TxnId}
    (hqueued : ⟨r.txn, r.mode⟩ ∈ (t.lock r.resource).queue)
    (hnodup : ((t.lock r.resource).queue.map (·.txn)).Nodup)
    (h : u ∈ (t.lock r.resource).blockers r.txn r.mode) : WaitsFor t r u := by
  rcases ResourceLock.mem_blockers.1 h with hholder | hahead
  · obtain ⟨held, hheld, hne, hconflict⟩ := ResourceLock.mem_conflictingHolders.1 hholder
    exact .inl ⟨held, SortedMap.get?_eq_some_iff.1 hheld, hne, hconflict⟩
  · obtain ⟨asked, hmem, hconflict⟩ := ResourceLock.mem_conflictingAhead.1 hahead
    obtain ⟨front, back, hqueue⟩ := List.append_of_mem hqueued
    rw [ResourceLock.ahead_eq_of_nodup hqueue hnodup] at hmem
    exact .inr ⟨front, back, asked, hqueue, hmem, hconflict⟩

/-- The request `r` looks, and has queued. Nobody who is in the queue has less to wait for. -/
structure LooksAt (m : LockManager) (e : Event) (r : LockRequest) : Prop where
  present : m.PresentAt e r
  call : ∃ call, e.call? = some call ∧ m.Owns call r
  queued : ⟨r.txn, r.mode⟩ ∈ ((m.tableAt e).lock r.resource).queue
  nodup : ∀ res, (((m.tableAt e).lock res).queue.map (·.txn)).Nodup
  graph : (m.tableAt e).graph = m.shared.table.graph
  presses : ∀ res, (m.shared.table.lock res).Presses r.txn ((m.tableAt e).lock res)

/-- The waits that are noted when `r` looks. -/
def graphAt (m : LockManager) (e : Event) (r : LockRequest) : WaitGraph :=
  ((m.tableAt e).noteWaits r.txn r.resource r.mode).graph

section Edges

variable {m : LockManager} {e : Event} {r : LockRequest} {a b victim : TxnId}
  {cycle : List TxnId}

/-- Who looks notes whom it is blocked behind, and nothing about others. -/
theorem edge_graphAt (hgraph : (m.tableAt e).graph = m.shared.table.graph)
    (hedge : (m.graphAt e r).Edge a b) :
    (a = r.txn ∧ b ∈ ((m.tableAt e).lock r.resource).blockers r.txn r.mode) ∨
      a ≠ r.txn ∧ m.shared.table.graph.Edge a b := by
  rw [graphAt, LockTable.graph_noteWaits] at hedge
  by_cases ha : a = r.txn
  · subst ha
    rw [WaitGraph.Edge, WaitGraph.blockers_setWaits, if_pos rfl] at hedge
    exact .inl ⟨rfl, hedge⟩
  · rw [WaitGraph.edge_setWaits_of_ne ha, hgraph] at hedge
    exact .inr ⟨ha, hedge⟩

theorem Consistent.looksAt_acquire (hc : m.Consistent) {now : Instant} {call : Nat}
    {token : Option TokenId} (he : (Event.acquire now call token r).Orderly m)
    (hshort : ∀ mode, (m.shared.table.lock r.resource).holders.get? r.txn = some mode →
      mode.covers r.mode = false) : m.LooksAt (.acquire now call token r) r := by
  obtain ⟨hcall, hfree⟩ := he
  have hlock (res : Resource) :=
    LockTable.lock_enqueue m.shared.table r.txn r.resource res r.mode
  refine ⟨.inr ⟨now, call, token, rfl⟩, ⟨call, rfl, owns_of_fresh hcall hfree⟩, ?_, fun res => ?_,
    LockTable.graph_enqueue .., fun res => ?_⟩
  · rw [tableAt, hlock, if_pos rfl]
    exact ResourceLock.mem_queue_enqueue.2 (.inl rfl)
  · rw [tableAt, hlock]
    split
    · exact ResourceLock.nodup_enqueue r.mode (hc.nodup _) (hc.txn_ne hfree _)
    · exact hc.nodup res
  · rw [tableAt, hlock]
    split
    · next hres =>
      rw [hres]
      exact ResourceLock.presses_enqueue (hc.txn_ne hfree _) hshort
    · exact .refl _ _

theorem Consistent.looksAt_recheck (hc : m.Consistent) (now : Instant) {call : Nat}
    {s : Sleeper Waiting} (hget : m.sleepers.get? call = some s) :
    m.LooksAt (.recheck now call) s.memory.request := by
  have hasleep : m.Asleep s.memory.request := ⟨call, s, hget, rfl⟩
  exact ⟨.inl hasleep, ⟨call, rfl, hc.owns hget⟩, (hc.queued _ _).2 ⟨_, hasleep, rfl, rfl⟩,
    hc.nodup, rfl, fun res => .refl _ _⟩

/-- Who picks a victim looks, and has found the cycle among the waits noted. -/
theorem Picks.exists_looksAt (h : m.Picks e victim cycle) (hc : m.Consistent) (he : e.Orderly m) :
    ∃ r, m.LooksAt e r ∧ victim ∈ cycle ∧
      List.Forall₂ (m.graphAt e r).Edge cycle (cycle.rotate 1) := by
  obtain ⟨hnew, hpicked⟩ := h
  have hsame (hshared : (m.step e).shared.table.victims.get? victim = some cycle →
      m.shared.table.victims.get? victim = some cycle) (hnone : m.outcome? e = none) : False := by
    rcases hpicked with hmark | hresult
    · exact hnew (hshared hmark)
    · rw [hnone] at hresult
      cases hresult
  cases e with
  | acquire now call token r =>
    obtain ⟨cancelled, look, harrival, hlooked, hresult⟩ := m.enter_spec now call token r
    rw [show (m.step (.acquire now call token r)).shared = look.state from hlooked.shared,
      show m.outcome? (.acquire now call token r) = look.fate.result? from hresult] at hpicked
    cases harrival with
    | held =>
      rcases hpicked with hmark | hresult
      · exact absurd hmark hnew
      · cases hresult
    | attempt hshort hattempt =>
      obtain ⟨hmem, hcycle⟩ := hattempt.found hnew hpicked
      exact ⟨r, hc.looksAt_acquire he hshort, hmem, WaitGraph.forall₂_cycleThrough hcycle⟩
  | recheck now call =>
    rcases m.recheck_spec now call with
      hrest | ⟨s, cancelled, look, hget, hwoken, hattempt, hlooked, hresult⟩
    · refine (hsame ?_ (congrArg Prod.snd hrest)).elim
      rw [show m.step (.recheck now call) = m from congrArg Prod.fst hrest]
      exact id
    · rw [show (m.step (.recheck now call)).shared = look.state from hlooked.shared,
        show m.outcome? (.recheck now call) = look.fate.result? from hresult] at hpicked
      obtain ⟨hmem, hcycle⟩ := hattempt.found hnew hpicked
      exact ⟨_, hc.looksAt_recheck now hget, hmem, WaitGraph.forall₂_cycleThrough hcycle⟩
  | release txn res =>
    refine (hsame (fun hmark => ?_) rfl).elim
    rwa [step, shared_act, LockState.release, LockTable.victims_release] at hmark
  | releaseAll txn =>
    refine (hsame (fun hmark => ?_) rfl).elim
    rw [step, shared_act, LockState.releaseAll, LockTable.victims_releaseAll,
      SortedMap.get?_erase] at hmark
    split at hmark
    · cases hmark
    · exact hmark
  | raise token => exact (hsame id rfl).elim
  | notify => exact (hsame id rfl).elim
  | wake call =>
    refine (hsame (fun hmark => ?_) rfl).elim
    rwa [step, shared_wake] at hmark

/-- What an edge says when the request `r` has queued and noted its waits. -/
theorem LooksAt.blockedAt_or (h : m.LooksAt e r) (htruthful : m.Truthful) (hc : m.Consistent)
    (hedge : (m.graphAt e r).Edge a b) : m.BlockedAt e a b ∨ m.OverdueAt e a := by
  obtain ⟨call, hcall, howns⟩ := h.call
  rcases edge_graphAt h.graph hedge with ⟨rfl, hblocked⟩ | ⟨ha, hedge⟩
  · exact .inl ⟨r, h.present, rfl, waitsFor_of_mem_blockers h.queued (h.nodup _) hblocked⟩
  obtain ⟨c, s, hget, rfl⟩ := hc.edges a b hedge
  cases hwoken : s.woken with
  | true =>
    refine .inr ⟨c, s, hget, rfl, hwoken, ?_⟩
    rw [hcall, ne_eq, Option.some.injEq]
    exact (howns.ne_of_txn_ne hget ha).symm
  | false =>
    have hrest : m.Resting s.memory.request := ⟨c, s, hget, rfl, hwoken⟩
    have hmem := (hc.queued s.memory.request.resource _).2 ⟨_, hrest.asleep, rfl, rfl⟩
    refine .inl ⟨s.memory.request, .inl hrest.asleep, rfl, ?_⟩
    exact waitsFor_of_mem_blockers ((h.presses _).queue _ hmem) (h.nodup _)
      ((h.presses _).blockers hmem (htruthful _ hrest b hedge))

/-- The cycle for which a victim is picked. -/
theorem Picks.forall₂ (h : m.Picks e victim cycle) (htruthful : m.Truthful) (hc : m.Consistent)
    (he : e.Orderly m) : victim ∈ cycle ∧
      List.Forall₂ (fun a b => m.BlockedAt e a b ∨ m.OverdueAt e a) cycle (cycle.rotate 1) := by
  obtain ⟨r, hlooks, hmem, hcycle⟩ := h.exists_looksAt hc he
  exact ⟨hmem, hcycle.imp fun a b => hlooks.blockedAt_or htruthful hc⟩

end Edges

/-! ## Runs -/

/-- Who is marked as a victim has been picked at some time. -/
theorem exists_picks_of_marked (detection : Bool) (events : List Event) {victim : TxnId}
    {cycle : List TxnId}
    (h : ((fresh detection).run events).shared.table.victims.get? victim = some cycle) :
    ∃ before e after, events = before ++ e :: after ∧
      ((fresh detection).run before).Picks e victim cycle := by
  induction events using List.reverseRecOn with
  | nil => cases h
  | append_singleton events e ih =>
    by_cases hold : ((fresh detection).run events).shared.table.victims.get? victim = some cycle
    · obtain ⟨before, e', after, rfl, hpicks⟩ := ih hold
      exact ⟨before, e', after ++ [e], by simp, hpicks⟩
    · rw [run_append_singleton] at h
      exact ⟨events, e, [], rfl, hold, .inl h⟩

/-- **Victims are picked for deadlocks.** Whenever a victim is picked for a cycle, each owner on it
is blocked behind the next, or has been woken and not looked since. And whoever fails as a victim
has been picked for the cycle that its error names, now or earlier. -/
theorem picks_run (detection : Bool) {events : List Event}
    (horderly : Orderly (fresh detection) events) {e : Event}
    (he : e.Orderly ((fresh detection).run events)) :
    let m := (fresh detection).run events
    (∀ victim cycle, m.Picks e victim cycle → victim ∈ cycle ∧
      List.Forall₂ (fun a b => m.BlockedAt e a b ∨ m.OverdueAt e a) cycle (cycle.rotate 1)) ∧
    ∀ victim cycle, m.outcome? e = some (.error (.deadlock victim cycle)) →
      ∃ before e' after, events ++ [e] = before ++ e' :: after ∧
        ((fresh detection).run before).Picks e' victim cycle := by
  refine ⟨fun victim cycle hpicks => ?_, fun victim cycle houtcome => ?_⟩
  · have hnone : ∀ r, ¬(fresh detection).Resting r := fun r ⟨_, _, hget, _⟩ => nomatch hget
    exact hpicks.forall₂ (truthful_of_run (truthful_of_not_resting hnone)
      (consistent_fresh detection) horderly)
      (consistent_of_run (consistent_fresh detection) horderly) he
  · by_cases hmarked : ((fresh detection).run events).shared.table.victims.get? victim = some cycle
    · obtain ⟨before, e', after, rfl, hpicks⟩ := exists_picks_of_marked detection events hmarked
      exact ⟨before, e', after ++ [e], by simp, hpicks⟩
    · exact ⟨events, e, [], rfl, hmarked, .inr houtcome⟩

/-- In a crossing the younger looks last, and is picked for the cycle of the two. -/
theorem picks_run_crossing :
    let m := (fresh true).run (crossing.take 3)
    let e := .acquire 0 3 none ⟨⟨2⟩, ⟨[1]⟩, .write, .unbounded⟩
    m.Picks e ⟨2⟩ [⟨2⟩, ⟨1⟩] ∧
      List.Forall₂ (fun a b => m.BlockedAt e a b ∨ m.OverdueAt e a) [⟨2⟩, ⟨1⟩] [⟨1⟩, ⟨2⟩] :=
  have hpicks : ((fresh true).run (crossing.take 3)).Picks
      (.acquire 0 3 none ⟨⟨2⟩, ⟨[1]⟩, .write, .unbounded⟩) ⟨2⟩ [⟨2⟩, ⟨1⟩] := by decide +kernel
  ⟨hpicks, ((picks_run true (by decide +kernel) (by decide +kernel)).1 _ _ hpicks).2⟩

/-- The first owner releases the one lock that the second sleeps for. It holds no other, while the
second holds another. -/
def handedOver : List Event :=
  let ask (call : Nat) (txn : TxnId) (res : Resource) : Event :=
    .acquire 0 call none ⟨txn, res, .write, .unbounded⟩
  [ask 0 ⟨1⟩ ⟨[1]⟩, ask 1 ⟨2⟩ ⟨[2]⟩, ask 2 ⟨2⟩ ⟨[1]⟩, .release ⟨1⟩ ⟨[1]⟩]

/-- **A victim without a deadlock.** Before the second has looked again, the first asks for what the
second holds. The second is picked for a cycle although it waits for nobody: the lock it asked for
is there to be granted. -/
theorem exists_picks_not_blocked : ∃ events e victim cycle, Orderly (fresh true) events ∧
    e.Orderly ((fresh true).run events) ∧ ((fresh true).run events).Picks e victim cycle ∧
    ¬List.Forall₂ (((fresh true).run events).BlockedAt e) cycle (cycle.rotate 1) := by
  let m := (fresh true).run handedOver
  let e : Event := .acquire 0 3 none ⟨⟨1⟩, ⟨[2]⟩, .write, .unbounded⟩
  have hasleep : ∀ p ∈ m.sleepers.entries,
      let r := p.2.memory.request
      let lock := (m.tableAt e).lock r.resource
      (lock.queue.map (·.txn)).Nodup ∧ ⟨1⟩ ∉ lock.blockers r.txn r.mode := by decide +kernel
  refine ⟨handedOver, e, ⟨2⟩, [⟨1⟩, ⟨2⟩], by decide +kernel, by decide +kernel, by decide +kernel,
    fun hblocked => ?_⟩
  obtain ⟨-, hlast⟩ := List.forall₂_cons.1 hblocked
  obtain ⟨⟨r, hpresent, htxn, hwaits⟩, -⟩ := List.forall₂_cons.1 hlast
  rcases hpresent with ⟨call, s, hget, rfl⟩ | ⟨now, call, token, he⟩
  · obtain ⟨hnodup, hblockers⟩ := hasleep _ (SortedMap.get?_eq_some_iff.1 hget)
    exact hblockers (hwaits.mem_blockers hnodup)
  · simp only [e, Event.acquire.injEq] at he
    rw [← he.2.2.2] at htxn
    exact absurd htxn (by decide)

end LockManager
end WalStore

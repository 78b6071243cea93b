import WalStore.Proofs.Lock.Deadlock
import WalStore.Proofs.Lock.Tidy
import WalStore.Proofs.Lock.Waits

/-!
# Requests take turns

**Theorem (`takesTurns_run`).** In an orderly run no request is granted before a conflicting one
that joined the queue of its resource earlier, unless its owner holds the resource already. Of two
requests that stay queued the one in front stays in front.

**Why the order says who came first.** A request joins at the back, or in front if its owner is a
holder (`queue_of_joined`). After that requests only leave the queue, which keeps the order of the
rest (`Consistent.inFront_step`), and what an owner holds does not change while it sleeps
(`Waits.holders_step`). So a request whose owner holds nothing has all that joined earlier in front
of it (`Waits.inFront`), and to be granted it must not conflict with what is in front.
-/

namespace WalStore

open Monitor

/-! ## The order of a queue -/

/-- `queue'` is `queue` without some of its requests. -/
def Thinned (queue queue' : List Queued) : Prop := ∃ p : Queued → Bool, queue' = queue.filter p

theorem Thinned.refl (queue : List Queued) : Thinned queue queue :=
  ⟨fun _ => true, (List.filter_true queue).symm⟩

/-- The requests that remain stand in the order in which they stood. -/
theorem Thinned.pair_sublist_iff {queue queue' : List Queued} (h : Thinned queue queue')
    {a b : Queued} (ha : a ∈ queue') (hb : b ∈ queue') :
    [a, b].Sublist queue' ↔ [a, b].Sublist queue := by
  obtain ⟨p, rfl⟩ := h
  constructor
  · exact fun h => h.trans List.filter_sublist
  · intro h
    have hfilter := h.filter p
    rwa [List.filter_cons_of_pos (List.mem_filter.1 ha).2,
      List.filter_cons_of_pos (List.mem_filter.1 hb).2, List.filter_nil] at hfilter

/-- Who stands in front of a request is ahead of it. -/
theorem ResourceLock.mem_ahead_of_sublist {l : ResourceLock} {a b : Queued}
    (hnodup : (l.queue.map (·.txn)).Nodup) (h : [a, b].Sublist l.queue) : a ∈ l.ahead b.txn := by
  obtain ⟨front, rest, hqueue, ha, hb⟩ := List.cons_sublist_iff.1 h
  obtain ⟨between, back, rfl⟩ := List.append_of_mem (List.singleton_sublist.1 hb)
  rw [← List.append_assoc] at hqueue
  rw [ResourceLock.ahead_eq_of_nodup hqueue hnodup]
  exact List.mem_append_left _ ha

/-! ## Looks that grant -/

namespace LockState

variable {sight : Sight} {s : LockState} {look : RequestLook}

theorem Attempt.grantable_of_ok {queued : Bool} {w : Waiting} (h : Attempt queued sight w s look)
    {g : Grant} (hresult : look.fate.result? = some (.ok g)) :
    (s.table.lock w.request.resource).grantable w.request.txn w.request.mode = true := by
  cases h with
  | victim => cases hresult
  | grant _ _ hturn => exact hturn
  | fail => cases hresult
  | stay _ _ _ _ hstay => cases hstay <;> cases hresult

theorem Arrival.grantable_of_ok {r : LockRequest} (h : Arrival sight r s look) {g : Grant}
    (hresult : look.fate.result? = some (.ok g)) (hnew : g.isNew = true) :
    (s.table.lock r.resource).grantable r.txn r.mode = true := by
  cases h with
  | held =>
    cases hresult
    cases hnew
  | attempt _ hattempt => exact hattempt.grantable_of_ok hresult

end LockState

namespace LockManager

variable {m : LockManager} {e : Event} {events : List Event} {i k call c : Nat} {r r' : LockRequest}

/-! ## What a step does to a queue -/

/-- A call that falls asleep at its start has joined the queue: in front if its owner is a holder,
at the back otherwise. -/
theorem queue_of_joined {now : Instant} {token : Option TokenId}
    (hsome : ((m.step (.acquire now call token r)).sleepers.get? call).isSome = true) :
    ((m.step (.acquire now call token r)).shared.table.lock r.resource).queue =
        ((m.shared.table.lock r.resource).enqueue r.txn r.mode).queue ∧
      ∀ res, ((m.step (.acquire now call token r)).shared.table.lock res).holders =
        (m.shared.table.lock res).holders := by
  obtain ⟨cancelled, look, harrival, hlooked, -⟩ := m.enter_spec now call token r
  obtain ⟨registration, hsleepers⟩ := hlooked.sleepers
  rw [step, hsleepers, if_pos rfl] at hsome
  rw [step, hlooked.shared]
  cases hfate : look.fate with
  | returns result =>
    rw [hfate] at hsome
    cases hsome
  | sleeps w =>
    refine ⟨?_, harrival.holders_eq fun g hg => by rw [hfate] at hg; cases hg⟩
    cases harrival with
    | held => cases hfate
    | attempt _ hattempt =>
      exact ((hattempt.remains hfate).queue r.resource).trans (if_pos ⟨rfl, rfl⟩)

/-- In a step requests leave a queue, or one joins it. -/
theorem Consistent.queue_step (h : m.Consistent) (he : e.Orderly m) (res : Resource) :
    Thinned (m.shared.table.lock res).queue ((m.step e).shared.table.lock res).queue ∨
      Thinned ((m.step e).shared.table.lock res).queue (m.shared.table.lock res).queue := by
  have hdeparts {r : LockRequest} {look : LockState.RequestLook}
      (h : LockState.Departs r m.shared.table look) :
      Thinned (m.shared.table.lock res).queue (look.state.table.lock res).queue := by
    rw [h.queue]
    split
    · exact ⟨_, ResourceLock.queue_dequeue _ _⟩
    · exact .refl _
  have hsame {queue : List Queued} (hqueue : queue = (m.shared.table.lock res).queue) :
      Thinned (m.shared.table.lock res).queue queue := hqueue ▸ .refl _
  cases m.step_effect e with
  | @arrive now call token r cancelled look m' harrival hlooked =>
    rw [hlooked.shared]
    cases harrival with
    | held => exact .inl (hdeparts (h.departs_held he.2 rfl))
    | attempt _ hattempt =>
      cases hfate : look.fate with
      | returns => exact .inl (hdeparts (hattempt.departs hfate))
      | sleeps =>
        -- Taking the newcomer out again gives the queue that it has joined.
        have hnew := congrArg ResourceLock.queue
          (ResourceLock.dequeue_eq_self (h.txn_ne he.2 res))
        rw [ResourceLock.queue_dequeue] at hnew
        have hqueue : (look.state.table.lock res).queue =
            if res = r.resource ∧ false = false then
              ((m.shared.table.lock res).enqueue r.txn r.mode).queue
            else (m.shared.table.lock res).queue := (hattempt.remains hfate).queue res
        refine .inr ⟨(·.txn ≠ r.txn), ?_⟩
        rw [hqueue]
        split
        · rw [ResourceLock.filter_queue_enqueue, hnew]
        · exact hnew.symm
  | @again now call s cancelled look m' hget hwoken hattempt hlooked =>
    rw [hlooked.shared]
    cases hfate : look.fate with
    | returns => exact .inl (hdeparts (hattempt.departs hfate))
    | sleeps =>
      exact .inl (hsame (((hattempt.remains hfate).queue res).trans (if_neg fun h => nomatch h.2)))
  | @release txn res' m' hshared hsleepers =>
    refine .inl (hsame ?_)
    rw [hshared, LockTable.lock_release]
    split
    · next hres => rw [hres, ResourceLock.queue_unhold]
    · rfl
  | @releaseAll txn m' hshared hsleepers =>
    refine .inl (hsame ?_)
    rw [hshared, LockTable.lock_releaseAll]
    split <;> rfl
  | @wake _ m' nudge hshared hsleepers => exact .inl (hsame (by rw [hshared]))

/-- Two requests that stay queued keep their order. -/
theorem Consistent.inFront_step (h : m.Consistent) (he : e.Orderly m) {res : Resource}
    {a b : Queued} (ha : a ∈ (m.shared.table.lock res).queue)
    (hb : b ∈ (m.shared.table.lock res).queue)
    (ha' : a ∈ ((m.step e).shared.table.lock res).queue)
    (hb' : b ∈ ((m.step e).shared.table.lock res).queue) :
    [a, b].Sublist ((m.step e).shared.table.lock res).queue ↔
      [a, b].Sublist (m.shared.table.lock res).queue := by
  rcases h.queue_step he res with hthinned | hthinned
  · exact hthinned.pair_sublist_iff ha' hb'
  · exact (hthinned.pair_sublist_iff ha hb).symm

/-! ## Calls that wait -/

/-- In the queue of the resource that `r'` is for, `r` stands in front of it. -/
def InFront (m : LockManager) (r r' : LockRequest) : Prop :=
  [⟨r.txn, r.mode⟩, ⟨r'.txn, r'.mode⟩].Sublist (m.shared.table.lock r'.resource).queue

/-- The request of a call that waits is in the queue. -/
theorem Waits.mem_queue (h : m.Waits events i call r) (hc : (m.run events).Consistent) :
    ⟨r.txn, r.mode⟩ ∈ ((m.run events).shared.table.lock r.resource).queue := by
  obtain ⟨s, hget, hr⟩ := h.exists_sleeper
  exact (hc.queued _ _).2 ⟨r, ⟨call, s, hget, hr⟩, rfl, rfl⟩

/-- While a call waits its owner holds what it held before. -/
theorem Waits.holders_step (h : m.Waits events i call r) (h' : m.Waits (events ++ [e]) i call r)
    (hc : (m.run events).Consistent) (he : e.Orderly (m.run events)) (res : Resource) :
    ((m.run (events ++ [e])).shared.table.lock res).holders.get? r.txn =
      ((m.run events).shared.table.lock res).holders.get? r.txn := by
  obtain ⟨s, hget, rfl⟩ := h.exists_sleeper
  obtain ⟨s', hget', -⟩ := h'.exists_sleeper
  rw [run_append_singleton] at hget' ⊢
  by_cases hown : ∃ now, e = .recheck now call
  swap
  · exact (hc.holders_step he hget (not_exists.1 hown)).2 res
  obtain ⟨now, rfl⟩ := hown
  rcases (m.run events).recheck_spec now call with
    hrest | ⟨_, cancelled, look, -, -, hattempt, hlooked, -⟩
  · rw [step, hrest]
  · -- It has looked and is still asleep, so its look granted nothing.
    rcases sleeper_looked hlooked hget' with ⟨-, hfate, -⟩ | ⟨hne, -⟩
    · rw [step, hlooked.shared, hattempt.holders_eq fun g hg => by rw [hfate] at hg; cases hg]
    · exact absurd rfl hne

/-- **Who joined earlier is in front** of a request whose owner is not a holder. -/
theorem Waits.inFront {detection : Bool} (horderly : Orderly (fresh detection) events)
    (h : (fresh detection).Waits events i call r) (h' : (fresh detection).Waits events k c r')
    (hlt : i < k) (hres : r.resource = r'.resource)
    (hholder : (((fresh detection).run events).shared.table.lock r'.resource).isHolder r'.txn =
      false) : ((fresh detection).run events).InFront r r' := by
  induction events using List.reverseRecOn with
  | nil => exact absurd h.lt_length (Nat.not_lt_zero i)
  | append_singleton events e ih =>
    have hafter := consistent_of_run (consistent_fresh detection) horderly
    obtain ⟨hbefore, he, -⟩ := orderly_append.1 horderly
    have hc := consistent_of_run (consistent_fresh detection) hbefore
    have hold : (fresh detection).Waits events i call r := by
      refine h.of_append (hlt.trans_le ?_)
      rcases h'.last with ⟨rfl, -⟩ | ⟨hold', -⟩
      · exact le_rfl
      · exact hold'.lt_length.le
    have hmem := hold.mem_queue hc
    rw [hres] at hmem
    rcases h'.last with ⟨rfl, now, token, rfl⟩ | ⟨hold', -⟩
    · -- It joins now, at the back.
      have hsome := h'.isSome
      rw [run_append_singleton] at hsome hholder ⊢
      obtain ⟨hqueue, hholders⟩ := queue_of_joined hsome
      rw [ResourceLock.isHolder, hholders] at hholder
      rw [InFront, hqueue, ResourceLock.enqueue, ResourceLock.isHolder, hholder,
        if_neg Bool.false_ne_true]
      exact (List.singleton_sublist.2 hmem).append (.refl _)
    · have hmem' := hold'.mem_queue hc
      have hstays := h.mem_queue hafter
      have hstays' := h'.mem_queue hafter
      rw [ResourceLock.isHolder, SortedMap.contains, hold'.holders_step h' hc he] at hholder
      rw [run_append_singleton] at hstays hstays' ⊢
      rw [hres] at hstays
      exact (hc.inFront_step he hmem hmem' hstays hstays').2 (ih hbefore hold hold' hholder)

/-- Two requests that wait on keep their order. -/
theorem Waits.inFront_iff {detection : Bool} {before later : List Event}
    (horderly : Orderly (fresh detection) (before ++ later))
    (h : (fresh detection).Waits (before ++ later) i call r)
    (h' : (fresh detection).Waits (before ++ later) k c r') (hi : i < before.length)
    (hk : k < before.length) (hres : r.resource = r'.resource) :
    ((fresh detection).run (before ++ later)).InFront r r' ↔
      ((fresh detection).run before).InFront r r' := by
  induction later using List.reverseRecOn with
  | nil => rw [List.append_nil]
  | append_singleton later e ih =>
    have hafter := consistent_of_run (consistent_fresh detection) horderly
    rw [← List.append_assoc] at h h' horderly hafter ⊢
    obtain ⟨hbefore, he, -⟩ := orderly_append.1 horderly
    have hc := consistent_of_run (consistent_fresh detection) hbefore
    have hle : before.length ≤ (before ++ later).length := by simp
    have hold := h.of_append (hi.trans_le hle)
    have hold' := h'.of_append (hk.trans_le hle)
    have hmem := hold.mem_queue hc
    have hstays := h.mem_queue hafter
    have hstays' := h'.mem_queue hafter
    rw [run_append_singleton] at hstays hstays' ⊢
    rw [hres] at hmem hstays
    exact (hc.inFront_step he hmem (hold'.mem_queue hc) hstays hstays').trans
      (ih hbefore hold hold')

/-! ## Grants -/

/-- A request that is granted conflicts with nothing in front of it unless its owner is a holder. -/
theorem LooksNext.compatible {now : Instant} (hlooks : LooksNext m events call r k e now)
    {g : Grant} (hgrant : (m.run events).outcome? e = some (.ok g)) (hnew : g.isNew = true)
    (hholder : ((m.run events).shared.table.lock r.resource).isHolder r.txn = false) :
    ∀ q ∈ ((m.run events).shared.table.lock r.resource).ahead r.txn,
      q.mode.compatible r.mode = true := by
  have hturn : ((m.run events).shared.table.lock r.resource).grantable r.txn r.mode = true := by
    obtain ⟨cancelled, look, houtcome, hlook⟩ := hlooks.exists_look
    rw [houtcome] at hgrant
    rcases hlook with harrival | ⟨w, rfl, hattempt⟩
    · exact harrival.grantable_of_ok hgrant hnew
    · exact hattempt.grantable_of_ok hgrant
  obtain ⟨-, hturn⟩ := ResourceLock.grantable_iff.1 hturn
  rw [hholder] at hturn
  intro q hq
  by_contra hconflict
  exact hturn.resolve_left Bool.false_ne_true q.txn
    (ResourceLock.mem_conflictingAhead.2 ⟨q.mode, hq, Bool.eq_false_iff.2 hconflict⟩)

/-! ## Runs -/

/-- How the requests of a run take turns. -/
structure TakesTurns (m : LockManager) (events : List Event) : Prop where
  /-- The queue of a resource lists the requests of the calls that wait for it. -/
  queued : ∀ res q, q ∈ ((m.run events).shared.table.lock res).queue ↔
    ∃ i call r, m.Waits events i call r ∧ r.resource = res ∧ q = ⟨r.txn, r.mode⟩
  /-- When a request is granted, nothing waits that conflicts with it and has joined the queue
  before it, unless its owner is a holder already. -/
  granted : ∀ e call r k now g, LooksNext m events call r k e now → e.Orderly (m.run events) →
    (m.run events).outcome? e = some (.ok g) → g.isNew = true →
    ((m.run events).shared.table.lock r.resource).isHolder r.txn = false →
    ∀ i c r', m.Waits events i c r' → i < k → r'.resource = r.resource →
      r'.mode.compatible r.mode = true
  /-- Requests that wait on keep their order. -/
  kept : ∀ before later i call r k c r', events = before ++ later → m.Waits events i call r →
    m.Waits events k c r' → i < before.length → k < before.length → r.resource = r'.resource →
    ((m.run events).InFront r r' ↔ (m.run before).InFront r r')
  /-- A request joins at the back, or in front if its owner is a holder. -/
  joined : ∀ before now call token r later, events = before ++ .acquire now call token r :: later →
    ((m.run (before ++ [.acquire now call token r])).sleepers.get? call).isSome = true →
    ((m.run (before ++ [.acquire now call token r])).shared.table.lock r.resource).queue =
      if ((m.run before).shared.table.lock r.resource).isHolder r.txn then
        ⟨r.txn, r.mode⟩ :: ((m.run before).shared.table.lock r.resource).queue
      else ((m.run before).shared.table.lock r.resource).queue ++ [⟨r.txn, r.mode⟩]

/-- **Requests take turns.** -/
theorem takesTurns_run (detection : Bool) {events : List Event}
    (horderly : Orderly (fresh detection) events) : (fresh detection).TakesTurns events := by
  have hc := consistent_of_run (consistent_fresh detection) horderly
  refine ⟨fun res q => ?_, ?_, ?_, ?_⟩
  · rw [hc.queued]
    constructor
    · rintro ⟨_, ⟨call, s, hget, rfl⟩, hres, rfl⟩
      obtain ⟨i, hwaits⟩ := exists_waits detection hget
      exact ⟨i, call, _, hwaits, hres, rfl⟩
    · rintro ⟨i, call, r, hwaits, rfl, rfl⟩
      exact (hc.queued _ _).1 (hwaits.mem_queue hc)
  · intro e call r k now g hlooks he hgrant hnew hholder i c r' hwaits hlt hres
    have hcompatible := hlooks.compatible hgrant hnew hholder
    refine hcompatible ⟨r'.txn, r'.mode⟩ ?_
    cases hlooks with
    | first =>
      rw [ResourceLock.ahead_of_new (hc.txn_ne he.2 r.resource), ← hres]
      exact hwaits.mem_queue hc
    | again hwaits' =>
      have hfront := hwaits.inFront horderly hwaits' hlt hres hholder
      exact ResourceLock.mem_ahead_of_sublist (hc.nodup _) hfront
  · rintro before later i call r k c r' rfl hwaits hwaits' hi hk hres
    exact hwaits.inFront_iff horderly hwaits' hi hk hres
  · rintro before now call token r later rfl hsome
    rw [run_append_singleton] at hsome ⊢
    rw [(queue_of_joined hsome).1, ResourceLock.enqueue]
    split <;> rfl

/-- An owner reads a resource, another asks to write it, and a third to read it. -/
def behindWriter : List Event :=
  let ask (call : Nat) (txn : TxnId) (mode : Mode) : Event :=
    .acquire 0 call none ⟨txn, ⟨[1]⟩, mode, .unbounded⟩
  [ask 0 ⟨1⟩ .read, ask 1 ⟨2⟩ .write, ask 2 ⟨3⟩ .read]

/-- A reader that comes now gets no lock before the writer, nor does the one that waits. -/
theorem takesTurns_run_behindWriter : Orderly (fresh true) behindWriter ∧
    ((fresh true).run behindWriter).InFront ⟨⟨2⟩, ⟨[1]⟩, .write, .unbounded⟩
      ⟨⟨3⟩, ⟨[1]⟩, .read, .unbounded⟩ ∧
    ∀ g, ((fresh true).run behindWriter).outcome?
        (.acquire 0 3 none ⟨⟨4⟩, ⟨[1]⟩, .read, .unbounded⟩) = some (.ok g) → g.isNew = false := by
  have horderly : Orderly (fresh true) behindWriter := by decide +kernel
  have hturns := takesTurns_run true horderly
  have hqueued : ⟨⟨2⟩, .write⟩ ∈
      (((fresh true).run behindWriter).shared.table.lock ⟨[1]⟩).queue := by decide +kernel
  obtain ⟨i, c, r, hwaits, hres, hentry⟩ := (hturns.queued _ _).1 hqueued
  refine ⟨horderly, by unfold InFront; decide +kernel, fun g hgrant => ?_⟩
  by_contra hnew
  have hmode : r.mode = .write := (congrArg Queued.mode hentry).symm
  have hcompatible := hturns.granted _ _ _ _ _ g .first (by decide +kernel) hgrant
    (by simpa using hnew) (by decide +kernel) i c r hwaits hwaits.lt_length hres
  rw [hmode] at hcompatible
  cases hcompatible

end LockManager
end WalStore

import Mathlib.Data.List.TakeWhile
import WalStore.Proofs.Lock.Exclusive
import WalStore.Proofs.Lock.Queue

/-!
# No deadlock stays

**Theorem (`not_deadlocked_run`).** When deadlocks are looked for and all that was woken has looked
again, the owners of the requests asleep do not wait for each other in a cycle, whatever the run.

**Why stale edges do no harm.** A request notes whom it waits for only when it looks, and a step
that wakes nobody may block it behind another owner still. Such an owner reads the resource and
asks to write it (`Presses`). The request in question then reads as well, so it sleeps behind
somebody in the queue who writes, and that one waits for the newcomer in any case. The edges noted
therefore reach everybody in two steps (`Guarded.covered`).

**Why every cycle is found.** Edges are noted by a request that looks, and its look finds a cycle
that they close. It wakes everybody unless it finds none, so among the requests that nobody has
woken there is no cycle of noted edges while no victim has yet to be told (`Guarded.acyclic`).
-/

namespace WalStore

open Relation

/-! ## Changes that wake nobody -/

namespace Mode

/-- A mode that does not cover another reads, and the other writes. -/
theorem eq_of_not_covers {held asked : Mode} (h : held.covers asked = false) :
    held = .read ∧ asked = .write := by
  cases held <;> cases asked <;> first | exact ⟨rfl, rfl⟩ | cases h

theorem eq_of_compatible {a b : Mode} (h : a.compatible b = true) : a = .read ∧ b = .read := by
  cases a <;> cases b <;> first | exact ⟨rfl, rfl⟩ | cases h

theorem join_self (a : Mode) : a.join a = a := by
  cases a <;> rfl

/-- A holder that conflicts still does when it holds more. -/
theorem conflicts_join {held asked mode : Mode} (h : held.compatible mode = false) :
    (asked.join held).compatible mode = false := by
  cases held <;> cases asked <;> cases mode <;> first | rfl | cases h

end Mode

namespace ResourceLock

/-- A change that `t`, who is not in the queue, makes to a lock without waking anybody. No request
in the queue has less to wait for, and `t` is in the way of others only if it upgrades. -/
structure Presses (t : TxnId) (l l' : ResourceLock) : Prop where
  holder : ∀ u, u ≠ t → l'.isHolder u = l.isHolder u
  queue : ∀ q ∈ l.queue, q ∈ l'.queue
  holders : ∀ q ∈ l.queue, ∀ u, u ∈ l.conflictingHolders q.txn q.mode →
    u ∈ l'.conflictingHolders q.txn q.mode
  ahead : ∀ q ∈ l.queue, ∀ u, u ∈ l.conflictingAhead q.txn q.mode →
    u ∈ l'.conflictingAhead q.txn q.mode
  newcomer : ∀ q ∈ l.queue, ∀ u, u ∈ l'.blockers q.txn q.mode →
    u ∈ l.blockers q.txn q.mode ∨ u = t ∧ (∀ p ∈ l.queue, p.txn ≠ t) ∧ q.mode = .read ∧
      l.holders.get? t = some .read

theorem Presses.refl (t : TxnId) (l : ResourceLock) : Presses t l l :=
  ⟨fun _ _ => rfl, fun _ hq => hq, fun _ _ _ hu => hu, fun _ _ _ hu => hu, fun _ _ _ hu => .inl hu⟩

theorem Presses.blockers {t : TxnId} {l l' : ResourceLock} (h : Presses t l l') {txn u : TxnId}
    {mode : Mode} (hq : ⟨txn, mode⟩ ∈ l.queue) (hu : u ∈ l.blockers txn mode) :
    u ∈ l'.blockers txn mode := by
  rw [mem_blockers] at hu ⊢
  exact hu.imp (h.holders _ hq u) (h.ahead _ hq u)

/-- A request that could not be granted still cannot. -/
theorem Presses.not_grantable {t : TxnId} {l l' : ResourceLock} (h : Presses t l l') {q : Queued}
    (hq : q ∈ l.queue) (hne : q.txn ≠ t) (hblocked : l.grantable q.txn q.mode = false) :
    l'.grantable q.txn q.mode = false := by
  rw [← Bool.not_eq_true, grantable_iff] at hblocked ⊢
  rintro ⟨hholders, hturn⟩
  refine hblocked ⟨fun u hu => hholders u (h.holders q hq u hu), ?_⟩
  rw [h.holder q.txn hne] at hturn
  exact hturn.imp_right fun hahead u hu => hahead u (h.ahead q hq u hu)

variable {l : ResourceLock} {t : TxnId} {mode : Mode}

theorem ahead_of_new (hnew : ∀ q ∈ l.queue, q.txn ≠ t) : l.ahead t = l.queue :=
  List.takeWhile_eq_self_iff.2 fun q hq => decide_eq_true (hnew q hq)

/-- What comes to the back of the queue is ahead of nobody who is in it. -/
theorem ahead_append {q : Queued} (hq : q ∈ l.queue) (rest : List Queued) :
    ({ l with queue := l.queue ++ rest } : ResourceLock).ahead q.txn = l.ahead q.txn := by
  rw [ahead, ahead, List.takeWhile_append, if_neg]
  intro hlength
  have hall := List.takeWhile_eq_self_iff.1 ((List.takeWhile_prefix _).eq_of_length hlength)
  exact absurd rfl (of_decide_eq_true (hall q hq))

theorem ahead_cons {u : TxnId} (hne : t ≠ u) :
    ({ l with queue := ⟨t, mode⟩ :: l.queue } : ResourceLock).ahead u = ⟨t, mode⟩ :: l.ahead u :=
  List.takeWhile_cons_of_pos (decide_eq_true hne)

/-- Who is queued once is behind those in front of its request. -/
theorem ahead_eq_of_nodup {front back : List Queued} (hqueue : l.queue = front ++ ⟨t, mode⟩ :: back)
    (hnodup : (l.queue.map (·.txn)).Nodup) : l.ahead t = front := by
  have hfront : ∀ q ∈ front, decide (q.txn ≠ t) = true := by
    intro q hq
    rw [hqueue, List.map_append, List.nodup_append] at hnodup
    exact decide_eq_true (hnodup.2.2 q.txn (List.mem_map_of_mem hq) t (by simp))
  rw [ahead, hqueue, List.takeWhile_append_of_pos hfront, List.takeWhile_cons_of_neg (by simp),
    List.append_nil]

/-- A request that is granted at once. -/
theorem presses_hold (hnew : ∀ q ∈ l.queue, q.txn ≠ t) (hturn : l.grantable t mode = true) :
    Presses t l (l.hold t mode) := by
  obtain ⟨-, hahead⟩ := grantable_iff.1 hturn
  refine ⟨fun u hu => ?_, fun _ hq => hq, fun q _ u hu => ?_, fun _ _ _ hu => hu,
    fun q hq u hu => ?_⟩
  · rw [Bool.eq_iff_iff, isHolder_iff, isHolder_iff, get?_hold, if_neg hu]
  · obtain ⟨m, hm, hne, hconflict⟩ := mem_conflictingHolders.1 hu
    rw [mem_conflictingHolders, get?_hold]
    by_cases hut : u = t
    · subst hut
      rw [if_pos rfl, SortedMap.getD, hm]
      exact ⟨_, rfl, hne, Mode.conflicts_join hconflict⟩
    · rw [if_neg hut]
      exact ⟨m, hm, hne, hconflict⟩
  · rw [mem_blockers] at hu ⊢
    refine or_assoc.2 (hu.elim (fun hu => ?_) fun hu => .inr (.inl hu))
    obtain ⟨m, hm, hne, hconflict⟩ := mem_conflictingHolders.1 hu
    rw [get?_hold] at hm
    by_cases hut : u = t
    swap
    · rw [if_neg hut] at hm
      exact .inl (mem_conflictingHolders.2 ⟨m, hm, hne, hconflict⟩)
    subst hut
    rw [if_pos rfl, SortedMap.getD, Option.some.injEq] at hm
    subst hm
    cases hget : l.holders.get? u with
    | none =>
      -- A new holder was behind the whole queue, so it conflicts with nobody there.
      rw [hget, Option.getD_none, Mode.join_self, Mode.compatible_comm] at hconflict
      have hnone : ¬l.isHolder u = true := fun h => by
        obtain ⟨m, hm⟩ := isHolder_iff.1 h
        rw [hget] at hm
        cases hm
      refine absurd (mem_conflictingAhead.2 ⟨q.mode, ?_, hconflict⟩)
        (hahead.resolve_left hnone q.txn)
      rw [ahead_of_new hnew]
      exact hq
    | some before =>
      by_cases hbefore : before.compatible q.mode = true
      · obtain ⟨rfl, hread⟩ := Mode.eq_of_compatible hbefore
        exact .inr (.inr ⟨rfl, hnew, hread, rfl⟩)
      · exact .inl (mem_conflictingHolders.2 ⟨before, hget, hne, Bool.eq_false_iff.2 hbefore⟩)

/-- A request that is queued. -/
theorem presses_enqueue (hnew : ∀ q ∈ l.queue, q.txn ≠ t)
    (hshort : ∀ m, l.holders.get? t = some m → m.covers mode = false) :
    Presses t l (l.enqueue t mode) := by
  have hholders (u : TxnId) (m : Mode) :
      (l.enqueue t mode).conflictingHolders u m = l.conflictingHolders u m := by
    rw [conflictingHolders, holders_enqueue, conflictingHolders]
  refine ⟨fun u _ => ?_, fun q hq => mem_queue_enqueue.2 (.inr hq), fun q _ u hu => ?_,
    fun q hq u hu => ?_, fun q hq u hu => ?_⟩
  · rw [isHolder, holders_enqueue, isHolder]
  · rwa [hholders]
  · rw [mem_conflictingAhead] at hu ⊢
    refine hu.imp fun m hm => hm.imp_left fun hmem => ?_
    unfold enqueue
    split
    · rw [ahead_cons (hnew q hq).symm]
      exact List.mem_cons_of_mem _ hmem
    · rwa [ahead_append hq]
  · rw [mem_blockers, hholders] at hu
    rw [mem_blockers]
    rcases hu with hu | hu
    · exact .inl (.inl hu)
    obtain ⟨m, hmem, hconflict⟩ := mem_conflictingAhead.1 hu
    unfold enqueue at hmem
    split at hmem
    swap
    · rw [ahead_append hq] at hmem
      exact .inl (.inr (mem_conflictingAhead.2 ⟨m, hmem, hconflict⟩))
    next hholder =>
    rw [ahead_cons (hnew q hq).symm, List.mem_cons, Queued.mk.injEq] at hmem
    rcases hmem with ⟨rfl, rfl⟩ | hmem
    swap
    · exact .inl (.inr (mem_conflictingAhead.2 ⟨m, hmem, hconflict⟩))
    -- A holder that has to queue reads, and is in the way of a writer already.
    obtain ⟨held, hheld⟩ := isHolder_iff.1 hholder
    obtain ⟨rfl, -⟩ := Mode.eq_of_not_covers (hshort held hheld)
    by_cases hread : Mode.read.compatible q.mode = true
    · exact .inr ⟨rfl, hnew, (Mode.eq_of_compatible hread).2, hheld⟩
    · exact .inl (.inl (mem_conflictingHolders.2
        ⟨.read, hheld, (hnew q hq).symm, Bool.eq_false_iff.2 hread⟩))

/-- Whether a request can be granted does not depend on its being queued. -/
theorem grantable_enqueue (hnew : ∀ q ∈ l.queue, q.txn ≠ t) :
    (l.enqueue t mode).grantable t mode = l.grantable t mode := by
  unfold enqueue
  split
  · next hholder =>
    unfold isHolder at hholder
    simp [grantable, conflictingHolders, isHolder, hholder]
  · have hahead : ({ l with queue := l.queue ++ [⟨t, mode⟩] } : ResourceLock).ahead t =
        l.ahead t := by
      rw [ahead_of_new hnew, ahead, List.takeWhile_append_of_pos fun q hq =>
        decide_eq_true (hnew q hq)]
      simp
    simp only [grantable, conflictingHolders, isHolder, conflictingAhead, hahead]

end ResourceLock

namespace LockState

/-- What a look of the request `r` does if it wakes nobody. -/
structure Quietly (r : LockRequest) (t : LockTable) (look : RequestLook) : Prop where
  locks : ∀ res, (t.lock res).Presses r.txn (look.state.table.lock res)
  edges : ∀ a b, a ≠ r.txn → (look.state.table.graph.Edge a b ↔ t.graph.Edge a b)
  victims : ∀ v, v ≠ r.txn → look.state.table.victims.get? v = t.victims.get? v

variable {queued : Bool} {sight : Monitor.Sight} {s : LockState} {w : Waiting} {look : RequestLook}

theorem Attempt.quietly (h : Attempt queued sight w s look) (hnotify : look.notify = false)
    (hnew : queued = false → ∀ res, ∀ q ∈ (s.table.lock res).queue, q.txn ≠ w.request.txn)
    (hshort : queued = false → ∀ m,
      (s.table.lock w.request.resource).holders.get? w.request.txn = some m →
        m.covers w.request.mode = false) : Quietly w.request s.table look := by
  cases h with
  | victim => cases hnotify
  | grant _ _ hturn =>
    cases queued
    swap
    · cases hnotify
    refine ⟨fun res => ?_, fun a b ha => ?_, fun v _ => ?_⟩
    · rw [LockTable.lock_grant]
      split
      · next hres =>
        rw [hres, ResourceLock.dequeue_eq_self (hnew rfl _)]
        exact ResourceLock.presses_hold (hnew rfl _) hturn
      · exact .refl _ _
    · rw [LockTable.graph_grant, WaitGraph.edge_clearWaits, and_iff_right ha]
    · rw [LockTable.victims_grant]
  | fail =>
    cases queued
    swap
    · cases hnotify
    refine ⟨fun res => ?_, fun a b ha => ?_, fun v hv => ?_⟩
    · rw [giveUp, LockTable.lock_abandon]
      split
      · next hres =>
        rw [hres, ResourceLock.dequeue_eq_self (hnew rfl _)]
        exact .refl _ _
      · exact .refl _ _
    · rw [giveUp, LockTable.graph_abandon, WaitGraph.edge_clearWaits, and_iff_right ha]
    · rw [giveUp, LockTable.victims_abandon, SortedMap.get?_erase, if_neg hv]
  | stay _ _ _ _ hstay =>
    cases hstay with
    | spare => cases hnotify
    | yield => cases hnotify
    | sleep =>
      refine ⟨fun res => ?_, fun a b ha => ?_, fun v _ => ?_⟩
      · rw [noted, LockTable.lock_noteWaits]
        cases queued
        swap
        · exact .refl _ _
        simp only [queueUp, LockTable.lock_enqueue, Bool.false_eq_true, if_false]
        split
        · next hres =>
          rw [hres]
          exact ResourceLock.presses_enqueue (hnew rfl _) (hshort rfl)
        · exact .refl _ _
      · rw [noted, LockTable.graph_noteWaits, WaitGraph.edge_setWaits_of_ne ha, graph_queueUp]
      · rw [noted, LockTable.victims_noteWaits, victims_queueUp]

/-- What a request that falls asleep knows. -/
structure Watches (r : LockRequest) (detection : Bool) (look : RequestLook) : Prop where
  blocked : (look.state.table.lock r.resource).grantable r.txn r.mode = false
  edges : ∀ b, b ∈ (look.state.table.lock r.resource).blockers r.txn r.mode →
    look.state.table.graph.Edge r.txn b
  /-- It woke the others because one of them is a victim, or it is on no cycle. -/
  alert : if look.notify then ∃ v cycle, look.state.table.victims.get? v = some cycle
    else detection = true → ¬TransGen look.state.table.graph.Edge r.txn r.txn

theorem Attempt.watches (h : Attempt queued sight w s look) {memory : Waiting}
    (hfate : look.fate = .sleeps memory)
    (hnew : queued = false → ∀ res, ∀ q ∈ (s.table.lock res).queue, q.txn ≠ w.request.txn) :
    Watches w.request s.detection look := by
  obtain ⟨rfl, -, hturn, hstay⟩ := h.sleeps hfate
  have hblocked : ((if queued then s else s.queueUp memory.request).table.lock
      memory.request.resource).grantable memory.request.txn memory.request.mode = false := by
    cases queued
    · simp only [queueUp, LockTable.lock_enqueue, Bool.false_eq_true, if_false, if_true]
      rw [ResourceLock.grantable_enqueue (hnew rfl _), hturn]
    · exact hturn
  have hedge {b : TxnId} (hb : b ∈ ((if queued then s else s.queueUp memory.request).table.lock
      memory.request.resource).blockers memory.request.txn memory.request.mode) :
      ((if queued then s else s.queueUp memory.request).noted memory.request).graph.Edge
        memory.request.txn b := by
    rw [noted, LockTable.graph_noteWaits, WaitGraph.Edge, WaitGraph.blockers_setWaits, if_pos rfl]
    exact hb
  cases hstay with
  | sleep hcycle =>
    refine ⟨hblocked, fun b hb => hedge hb, fun hdet => ?_⟩
    refine WaitGraph.cycleThrough_eq_none (hcycle ?_)
    cases queued <;> exact hdet
  | spare _ _ hne =>
    refine ⟨hblocked, fun b hb => WaitGraph.edge_clearWaits.2 ⟨hne.symm, hedge hb⟩, ?_⟩
    exact ⟨_, _, (SortedMap.get?_insert ..).trans (if_pos rfl)⟩
  | yield => cases hfate

end LockState

/-! ## The edges noted -/

/-- A relation that changes at `t` only has no new cycle if `t` is on none. -/
theorem not_transGen_self_of_ne {α : Type} {R R' : α → α → Prop} {t : α}
    (hne : ∀ a b, a ≠ t → R' a b → R a b) (hR : ∀ a, ¬TransGen R a a)
    (ht : ¬TransGen R' t t) (a : α) : ¬TransGen R' a a := by
  -- A way goes through `t` or is an old one.
  have hway {b : α} (h : TransGen R' a b) :
      TransGen R a b ∨ ReflTransGen R' a t ∧ TransGen R' t b := by
    induction h with
    | @single b hedge =>
      by_cases ha : a = t
      · subst ha
        exact .inr ⟨.refl, .single hedge⟩
      · exact .inl (.single (hne a b ha hedge))
    | @tail b c hab hedge ih =>
      rcases ih with hold | ⟨hat, htb⟩
      · by_cases hb : b = t
        · subst hb
          exact .inr ⟨hab.to_reflTransGen, .single hedge⟩
        · exact .inl (hold.tail (hne b c hb hedge))
      · exact .inr ⟨hat, htb.tail hedge⟩
  intro hcycle
  rcases hway hcycle with hold | ⟨hat, hta⟩
  · exact hR a hold
  · exact ht (hta.trans_left hat)

namespace LockManager

open Monitor

/-- An edge of an owner whose request rests. -/
def RestingEdge (m : LockManager) (a b : TxnId) : Prop :=
  (∃ r, m.Resting r ∧ r.txn = a) ∧ m.shared.table.graph.Edge a b

/-- The edges that the resting requests have noted are enough to see every deadlock by. -/
structure Guarded (m : LockManager) : Prop where
  blocked : ∀ r, m.Resting r →
    (m.shared.table.lock r.resource).grantable r.txn r.mode = false
  /-- What is not noted is at least waited for by a writer that is. -/
  covered : ∀ r, m.Resting r → ∀ b, b ∈ (m.shared.table.lock r.resource).blockers r.txn r.mode →
    m.shared.table.graph.Edge r.txn b ∨ r.mode = .read ∧ ∃ x, m.shared.table.graph.Edge r.txn x ∧
      ⟨x, .write⟩ ∈ (m.shared.table.lock r.resource).queue ∧
      b ∈ (m.shared.table.lock r.resource).blockers x .write
  acyclic : (∀ v, m.shared.table.victims.get? v = none) → ∀ a, ¬TransGen m.RestingEdge a a

theorem guarded_of_not_resting {m : LockManager} (h : ∀ r, ¬m.Resting r) : m.Guarded := by
  refine ⟨fun r hr => absurd hr (h r), fun r hr => absurd hr (h r), fun _ a hcycle => ?_⟩
  obtain ⟨_, ⟨⟨r, hr, -⟩, -⟩, -⟩ := TransGen.head'_iff.1 hcycle
  exact h r hr

/-- Steps that nothing but waking comes of. -/
theorem Guarded.mono {m m' : LockManager} (h : m.Guarded)
    (hresting : ∀ r, m'.Resting r → m.Resting r)
    (hlock : ∀ res, m'.shared.table.lock res = m.shared.table.lock res)
    (hgraph : m'.shared.table.graph = m.shared.table.graph)
    (hvictims : m'.shared.table.victims = m.shared.table.victims) : m'.Guarded := by
  refine ⟨fun r hr => ?_, fun r hr => ?_, fun hnone a => ?_⟩
  · rw [hlock]
    exact h.blocked r (hresting r hr)
  · rw [hlock, hgraph]
    exact h.covered r (hresting r hr)
  · rw [hvictims] at hnone
    refine fun hcycle => h.acyclic hnone a (TransGen.mono (fun x y hedge => ?_) a a hcycle)
    obtain ⟨⟨r, hr, hx⟩, hedge⟩ := hedge
    exact ⟨⟨r, hresting r hr, hx⟩, hgraph ▸ hedge⟩

/-- A resting reader that an upgrade comes in front of sleeps behind a writer already. -/
theorem Guarded.writer_between {m : LockManager} (h : m.Guarded)
    (hexclusive : m.shared.table.Exclusive) {r : LockRequest} (hr : m.Resting r)
    (hmode : r.mode = .read) {t : TxnId}
    (ht : (m.shared.table.lock r.resource).holders.get? t = some .read)
    (hnew : ∀ q ∈ (m.shared.table.lock r.resource).queue, q.txn ≠ t) :
    ∃ x, m.shared.table.graph.Edge r.txn x ∧
      ⟨x, .write⟩ ∈ (m.shared.table.lock r.resource).queue ∧
      t ∈ (m.shared.table.lock r.resource).blockers x .write := by
  have hbehind {x : TxnId} (hx : ⟨x, .write⟩ ∈ (m.shared.table.lock r.resource).queue) :
      t ∈ (m.shared.table.lock r.resource).blockers x .write :=
    ResourceLock.mem_blockers.2 (.inl (ResourceLock.mem_conflictingHolders.2
      ⟨.read, ht, (hnew _ hx).symm, rfl⟩))
  have hwriter {mode : Mode} (hconflict : mode.compatible r.mode = false) : mode = .write := by
    rw [hmode] at hconflict
    cases mode
    · cases hconflict
    · rfl
  have hblocked := h.blocked r hr
  rw [← Bool.not_eq_true, ResourceLock.grantable_iff, not_and_or] at hblocked
  rcases hblocked with hholder | hahead
  · -- The only holders are readers, as `t` is one.
    obtain ⟨u, hu⟩ := not_forall_not.1 hholder
    obtain ⟨mode, hget, -, hconflict⟩ := ResourceLock.mem_conflictingHolders.1 hu
    have hmode := hwriter hconflict
    subst hmode
    have hne : t ≠ u := by
      rintro rfl
      rw [ht] at hget
      cases hget
    cases hexclusive r.resource t u .read .write ht hget hne
  · obtain ⟨u, hu⟩ := not_forall_not.1 (not_or.1 hahead).2
    obtain ⟨mode, hmem, hconflict⟩ := ResourceLock.mem_conflictingAhead.1 hu
    have hmode := hwriter hconflict
    subst hmode
    rcases h.covered r hr u (ResourceLock.mem_blockers.2 (.inr hu)) with
      hedge | ⟨-, x, hedge, hx, -⟩
    · have hqueue := List.takeWhile_subset _ hmem
      exact ⟨u, hedge, hqueue, hbehind hqueue⟩
    · exact ⟨x, hedge, hx, hbehind hx⟩

theorem resting_of_nudged {m m' : LockManager} {nudge : Nat → Bool}
    (hsleepers : ∀ c, m'.sleepers.get? c = (m.sleepers.get? c).map (·.nudged (nudge c)))
    {r : LockRequest} (h : m'.Resting r) : m.Resting r := by
  obtain ⟨c, s', hget, rfl, hwoken⟩ := h
  rw [hsleepers] at hget
  obtain ⟨s, hs, rfl⟩ := Option.map_eq_some_iff.1 hget
  exact ⟨c, s, hs, rfl, (Bool.or_eq_false_iff.1 hwoken).1⟩

/-- After everybody was woken nobody rests. -/
theorem not_resting_nudged {m m' : LockManager}
    (hsleepers : ∀ c, m'.sleepers.get? c = (m.sleepers.get? c).map (·.nudged true))
    (r : LockRequest) : ¬m'.Resting r := by
  rintro ⟨c, s', hget, -, hwoken⟩
  rw [hsleepers] at hget
  obtain ⟨s, -, rfl⟩ := Option.map_eq_some_iff.1 hget
  rw [Sleeper.woken_nudged, Bool.or_true] at hwoken
  cases hwoken

section Looks

variable {m m' : LockManager} {call : Nat} {r : LockRequest} {look : LockState.RequestLook}
  (hlooked : Looked m call look m') (howns : m.Owns call r)

include hlooked howns

theorem resting_looked {r' : LockRequest} (h : m'.Resting r') :
    (∃ w, look.fate = .sleeps w ∧ r' = w.request) ∨
      look.notify = false ∧ m.Resting r' ∧ r'.txn ≠ r.txn := by
  obtain ⟨c, s', hget, rfl, hwoken⟩ := h
  rcases sleeper_looked hlooked hget with ⟨-, hsleeps, -⟩ | ⟨hc, s, hs, rfl⟩
  · exact .inl ⟨s'.memory, hsleeps, rfl⟩
  · rw [Sleeper.woken_nudged, Bool.or_eq_false_iff] at hwoken
    exact .inr ⟨hwoken.2, ⟨c, s, hs, rfl, hwoken.1⟩, fun htxn => hc ((howns c s hs).2 htxn)⟩

/-- A look that wakes everybody leaves nobody but itself to vouch for. -/
theorem guarded_loud (hnotify : look.notify = true)
    (hwatches : ∀ w, look.fate = .sleeps w → w.request = r ∧
      LockState.Watches r m.shared.detection look) : m'.Guarded := by
  have hresting {r' : LockRequest} (hr' : m'.Resting r') :
      r' = r ∧ LockState.Watches r m.shared.detection look := by
    rcases resting_looked hlooked howns hr' with ⟨w, hw, rfl⟩ | ⟨hquiet, -⟩
    · exact hwatches w hw
    · rw [hnotify] at hquiet
      cases hquiet
  refine ⟨fun r' hr' => ?_, fun r' hr' b hb => ?_, fun hvictims a hcycle => ?_⟩
  · obtain ⟨rfl, hw⟩ := hresting hr'
    rw [hlooked.shared]
    exact hw.blocked
  · obtain ⟨rfl, hw⟩ := hresting hr'
    rw [hlooked.shared] at hb ⊢
    exact .inl (hw.edges b hb)
  · obtain ⟨b, ⟨⟨r', hr', -⟩, -⟩, -⟩ := TransGen.head'_iff.1 hcycle
    have halert := (hresting hr').2.alert
    rw [hnotify, if_pos rfl, ← hlooked.shared] at halert
    obtain ⟨v, cycle, hv⟩ := halert
    rw [hvictims v] at hv
    cases hv

/-- A look that wakes nobody. -/
theorem Guarded.quiet (h : m.Guarded) (hc : m.Consistent) (hexclusive : m.shared.table.Exclusive)
    (hdet : m.shared.detection = true) (hnotify : look.notify = false)
    (hquietly : LockState.Quietly r m.shared.table look)
    (hvictim : m.shared.table.victims.get? r.txn = none)
    (hwatches : ∀ w, look.fate = .sleeps w → w.request = r ∧
      LockState.Watches r m.shared.detection look) : m'.Guarded := by
  have hresting {r' : LockRequest} (hr' : m'.Resting r') :
      r' = r ∧ LockState.Watches r m.shared.detection look ∨ m.Resting r' ∧ r'.txn ≠ r.txn := by
    rcases resting_looked hlooked howns hr' with ⟨w, hw, rfl⟩ | ⟨-, hold⟩
    · exact .inl (hwatches w hw)
    · exact .inr hold
  have hqueued {r' : LockRequest} (hr' : m.Resting r') :
      ⟨r'.txn, r'.mode⟩ ∈ (m.shared.table.lock r'.resource).queue :=
    (hc.queued _ _).2 ⟨r', hr'.asleep, rfl, rfl⟩
  refine ⟨fun r' hr' => ?_, fun r' hr' b hb => ?_, fun hvictims => ?_⟩
  · rw [hlooked.shared]
    rcases hresting hr' with ⟨rfl, hw⟩ | ⟨hold, hne⟩
    · exact hw.blocked
    · exact (hquietly.locks r'.resource).not_grantable (hqueued hold) hne (h.blocked r' hold)
  · rw [hlooked.shared] at hb ⊢
    rcases hresting hr' with ⟨rfl, hw⟩ | ⟨hold, hne⟩
    · exact .inl (hw.edges b hb)
    have hpresses := hquietly.locks r'.resource
    have hgoes {x : TxnId} (hx : m.shared.table.graph.Edge r'.txn x ∧
        ⟨x, .write⟩ ∈ (m.shared.table.lock r'.resource).queue ∧
        b ∈ (m.shared.table.lock r'.resource).blockers x .write) :
        look.state.table.graph.Edge r'.txn x ∧
          ⟨x, .write⟩ ∈ (look.state.table.lock r'.resource).queue ∧
          b ∈ (look.state.table.lock r'.resource).blockers x .write :=
      ⟨(hquietly.edges r'.txn x hne).2 hx.1, hpresses.queue _ hx.2.1,
        hpresses.blockers hx.2.1 hx.2.2⟩
    rcases hpresses.newcomer _ (hqueued hold) b hb with hb | ⟨rfl, hnew, hread, hheld⟩
    · rcases h.covered r' hold b hb with hedge | ⟨hread, x, hx⟩
      · exact .inl ((hquietly.edges r'.txn b hne).2 hedge)
      · exact .inr ⟨hread, x, hgoes hx⟩
    · obtain ⟨x, hx⟩ := h.writer_between hexclusive hold hread hheld hnew
      exact .inr ⟨hread, x, hgoes hx⟩
  · have hvictims (v : TxnId) : m.shared.table.victims.get? v = none := by
      by_cases hv : v = r.txn
      · rw [hv, hvictim]
      · rw [← hquietly.victims v hv, ← hlooked.shared, hvictims]
    refine not_transGen_self_of_ne (t := r.txn) (fun a b ha hedge => ?_) (h.acyclic hvictims) ?_
    · obtain ⟨⟨r', hr', rfl⟩, hedge⟩ := hedge
      rw [hlooked.shared] at hedge
      rcases hresting hr' with ⟨rfl, -⟩ | ⟨hold, hne⟩
      · exact absurd rfl ha
      · exact ⟨⟨r', hold, rfl⟩, (hquietly.edges r'.txn b hne).1 hedge⟩
    · intro hcycle
      obtain ⟨b, ⟨⟨r', hr', htxn⟩, -⟩, -⟩ := TransGen.head'_iff.1 hcycle
      rcases hresting hr' with ⟨-, hw⟩ | ⟨-, hne⟩
      · have halert := hw.alert
        rw [hnotify, if_neg Bool.false_ne_true] at halert
        refine halert hdet (TransGen.mono (fun x y hedge => ?_) _ _ hcycle)
        rw [← hlooked.shared]
        exact hedge.2
      · exact hne htxn

end Looks

/-! ## Steps and runs -/

theorem guarded_attempt {m m' : LockManager} {call : Nat} {w : Waiting} {queued : Bool}
    {sight : Sight} {s : LockState} {look : LockState.RequestLook} (h : m.Guarded)
    (hc : m.Consistent) (hexclusive : m.shared.table.Exclusive) (hdet : m.shared.detection = true)
    (hlooked : Looked m call look m') (howns : m.Owns call w.request)
    (hattempt : LockState.Attempt queued sight w s look)
    (htable : s.table = m.shared.table) (hdetection : s.detection = m.shared.detection)
    (hfresh : queued = false → ¬m.IsAsleep w.request.txn)
    (hshort : queued = false → ∀ mode,
      (m.shared.table.lock w.request.resource).holders.get? w.request.txn = some mode →
        mode.covers w.request.mode = false) : m'.Guarded := by
  have hnew (hq : queued = false) (res : Resource) :
      ∀ q ∈ (s.table.lock res).queue, q.txn ≠ w.request.txn := by
    rw [htable]
    exact hc.txn_ne (hfresh hq) res
  have hwatches (w' : Waiting) (hfate : look.fate = .sleeps w') : w'.request = w.request ∧
      LockState.Watches w.request m.shared.detection look := by
    rw [← hdetection]
    exact ⟨congrArg (·.request) (hattempt.sleeps hfate).1, hattempt.watches hfate hnew⟩
  cases hnotify : look.notify with
  | true => exact guarded_loud hlooked howns hnotify hwatches
  | false =>
    have hquietly : LockState.Quietly w.request m.shared.table look := by
      rw [← htable] at hshort ⊢
      exact hattempt.quietly hnotify hnew hshort
    refine h.quiet hlooked howns hc hexclusive hdet hnotify hquietly ?_ hwatches
    rw [← htable]
    cases hattempt with
    | victim => cases hnotify
    | grant hvictim => exact hvictim
    | fail hvictim => exact hvictim
    | stay hvictim => exact hvictim

theorem guarded_step {m : LockManager} (h : m.Guarded) (hc : m.Consistent)
    (hexclusive : m.shared.table.Exclusive) (hdet : m.shared.detection = true) {e : Event}
    (he : e.Orderly m) : (m.step e).Guarded := by
  cases m.step_effect e with
  | @arrive now call token r cancelled look m' harrival hlooked =>
    obtain ⟨hcall, hfree⟩ := he
    have howns := owns_of_fresh hcall hfree
    cases harrival with
    | held =>
      refine h.mono (fun r' hr' => ?_) (fun res => ?_) ?_ ?_
      rotate_left
      · rw [hlooked.shared]
      · rw [hlooked.shared]
      · rw [hlooked.shared]
      rcases resting_looked hlooked howns hr' with ⟨w, hw, -⟩ | ⟨-, hold, -⟩
      · cases hw
      · exact hold
    | attempt hshort hattempt =>
      exact guarded_attempt (w := ⟨r, now⟩) h hc hexclusive hdet hlooked howns hattempt rfl rfl
        (fun _ => hfree) fun _ => hshort
  | @again now call s cancelled look m' hget hwoken hattempt hlooked =>
    exact guarded_attempt h hc hexclusive hdet hlooked (hc.owns hget) hattempt rfl rfl nofun nofun
  | @release txn res m' hshared hsleepers =>
    cases hheld : (m.shared.table.lock res).isHolder txn with
    | true =>
      rw [hheld] at hsleepers
      exact guarded_of_not_resting (not_resting_nudged hsleepers)
    | false =>
      refine h.mono (fun r => resting_of_nudged hsleepers) (fun res' => ?_) ?_ ?_
      · rw [hshared, LockTable.lock_release]
        split
        · next heq => rw [heq, ResourceLock.unhold_eq_self hheld]
        · rfl
      · rw [hshared, LockTable.graph_release]
      · rw [hshared, LockTable.victims_release]
  | @releaseAll txn m' hshared hsleepers =>
    exact guarded_of_not_resting (not_resting_nudged hsleepers)
  | @wake _ m' nudge hshared hsleepers =>
    refine h.mono (fun r => resting_of_nudged hsleepers) (fun res => ?_) ?_ ?_
    all_goals rw [hshared]

theorem detection_step (m : LockManager) (e : Event) :
    (m.step e).shared.detection = m.shared.detection := by
  cases m.step_effect e with
  | arrive _ harrival hlooked =>
    rw [hlooked.shared]
    cases harrival with
    | held => rfl
    | attempt _ hattempt => exact hattempt.detection
  | again _ _ _ hattempt hlooked =>
    rw [hlooked.shared]
    exact hattempt.detection
  | release hshared => rw [hshared]
  | releaseAll hshared => rw [hshared]
  | wake _ hshared => rw [hshared]

theorem guarded_of_run {m : LockManager} (h : m.Guarded) (hc : m.Consistent)
    (hexclusive : m.shared.table.Exclusive) (hdet : m.shared.detection = true)
    {events : List Event} (horderly : Orderly m events) : (m.run events).Guarded := by
  induction events generalizing m with
  | nil => exact h
  | cons e es ih =>
    obtain ⟨he, hes⟩ := horderly
    exact ih (guarded_step h hc hexclusive hdet he) (consistent_step hc he)
      (exclusive_step hexclusive e) ((m.detection_step e).trans hdet) hes

/-! ## Who waits for whom -/

/-- The request `r` waits for `u`: `u` holds its resource in a mode that conflicts, or a request
of `u` that conflicts is queued ahead of `r`. -/
def WaitsFor (t : LockTable) (r : LockRequest) (u : TxnId) : Prop :=
  (∃ held, (u, held) ∈ t.holders r.resource ∧ u ≠ r.txn ∧ held.compatible r.mode = false) ∨
    ∃ front back asked, (t.lock r.resource).queue = front ++ ⟨r.txn, r.mode⟩ :: back ∧
      ⟨u, asked⟩ ∈ front ∧ asked.compatible r.mode = false

/-- A request of `a` that is asleep waits for `b`, who has a request asleep as well. -/
def BlockedBehind (m : LockManager) (a b : TxnId) : Prop :=
  (∃ r, m.Asleep r ∧ r.txn = a ∧ WaitsFor m.shared.table r b) ∧ m.IsAsleep b

theorem WaitsFor.mem_blockers {t : LockTable} {r : LockRequest} {u : TxnId}
    (hnodup : ((t.lock r.resource).queue.map (·.txn)).Nodup) (h : WaitsFor t r u) :
    u ∈ (t.lock r.resource).blockers r.txn r.mode := by
  rw [ResourceLock.mem_blockers]
  rcases h with ⟨held, hheld, hne, hconflict⟩ | ⟨front, back, asked, hqueue, hmem, hconflict⟩
  · exact .inl (ResourceLock.mem_conflictingHolders.2
      ⟨held, SortedMap.get?_eq_some_iff.2 hheld, hne, hconflict⟩)
  · refine .inr (ResourceLock.mem_conflictingAhead.2 ⟨asked, ?_, hconflict⟩)
    rwa [ResourceLock.ahead_eq_of_nodup hqueue hnodup]

theorem Consistent.victims_eq_none {m : LockManager} (h : m.Consistent) (hquiet : m.isQuiet = true)
    (v : TxnId) : m.shared.table.victims.get? v = none := by
  rw [Option.eq_none_iff_forall_ne_some]
  intro cycle hv
  obtain ⟨c, s, hget, -, hwoken⟩ := h.victims v cycle hv
  rw [isQuiet_iff.1 hquiet c s hget] at hwoken
  cases hwoken

/-- Whoever is waited for can be reached over edges that were noted. -/
theorem Guarded.transGen_of_blockedBehind {m : LockManager} (h : m.Guarded) (hc : m.Consistent)
    (hquiet : m.isQuiet = true) {a b : TxnId} (hwaits : m.BlockedBehind a b) :
    TransGen m.RestingEdge a b := by
  have hresting {r : LockRequest} (hr : m.Asleep r) : m.Resting r := by
    obtain ⟨c, s, hget, rfl⟩ := hr
    exact ⟨c, s, hget, rfl, isQuiet_iff.1 hquiet c s hget⟩
  obtain ⟨⟨r, hr, rfl, hwaits⟩, -⟩ := hwaits
  have hself : ∃ r', m.Resting r' ∧ r'.txn = r.txn := ⟨r, hresting hr, rfl⟩
  rcases h.covered r (hresting hr) b (hwaits.mem_blockers (hc.nodup _)) with
    hedge | ⟨-, x, hedge, hx, hb⟩
  · exact .single ⟨hself, hedge⟩
  · -- The writer in between is asleep too, and its edges are complete.
    obtain ⟨r', hr', hres, heq⟩ := (hc.queued _ _).1 hx
    rw [Queued.mk.injEq] at heq
    obtain ⟨rfl, hwrite⟩ := heq
    rw [← hres, hwrite] at hb
    rcases h.covered r' (hresting hr') b hb with hnext | ⟨hread, -⟩
    · exact .tail (.single ⟨hself, hedge⟩) ⟨⟨r', hresting hr', rfl⟩, hnext⟩
    · rw [hread] at hwrite
      cases hwrite

/-- **No deadlock stays.** However the calls got there, when all that were woken have looked again
the owners asleep do not wait for each other in a cycle. -/
theorem not_deadlocked_run (events : List Event) (horderly : Orderly (fresh true) events)
    (hquiet : ((fresh true).run events).isQuiet = true) (txn : TxnId) :
    ¬TransGen ((fresh true).run events).BlockedBehind txn txn := by
  have hc := consistent_of_run (consistent_fresh true) horderly
  have hg : ((fresh true).run events).Guarded :=
    guarded_of_run (guarded_of_not_resting fun r ⟨_, _, hget, _⟩ => nomatch hget)
      (consistent_fresh true) LockTable.exclusive_empty rfl horderly
  intro hcycle
  exact hg.acyclic (hc.victims_eq_none hquiet) txn
    (TransGen.closed (fun a b => hg.transGen_of_blockedBehind hc hquiet) _ _ hcycle)

/-- Two owners write one resource each and ask for the other. The younger gives way and keeps its
lock, and the elder stays asleep behind it. -/
def crossing : List Event :=
  let ask (call : Nat) (txn : TxnId) (res : Resource) : Event :=
    .acquire 0 call none ⟨txn, res, .write, .unbounded⟩
  [ask 0 ⟨1⟩ ⟨[1]⟩, ask 1 ⟨2⟩ ⟨[2]⟩, ask 2 ⟨1⟩ ⟨[2]⟩, ask 3 ⟨2⟩ ⟨[1]⟩, .recheck 0 2]

theorem not_deadlocked_crossing : ((fresh true).run crossing).IsAsleep ⟨1⟩ ∧
    ¬TransGen ((fresh true).run crossing).BlockedBehind ⟨1⟩ ⟨1⟩ :=
  ⟨by decide +kernel,
    not_deadlocked_run crossing (by decide +kernel) (by decide +kernel) ⟨1⟩⟩

end LockManager
end WalStore

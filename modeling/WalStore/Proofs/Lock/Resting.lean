import WalStore.Proofs.Lock.Deadlock

/-!
# What holds of requests that rest

A request that has not been woken since it fell asleep has seen no step that woke anybody. So what
is true of it when it falls asleep stays true, provided that looks which wake nobody keep it
(`Steady.run`). Two such properties are that it cannot be granted, and that it is blocked behind all
that it has edges to.
-/

namespace WalStore.LockManager

open Monitor

/-- What a request and the table have in common from when the request falls asleep until it is
woken. -/
structure Steady (P : LockTable → LockRequest → Prop) : Prop where
  asleep : ∀ {queued sight s w look memory}, LockState.Attempt queued sight w s look →
    look.fate = .sleeps memory →
    (queued = false → ∀ res, ∀ q ∈ (s.table.lock res).queue, q.txn ≠ w.request.txn) →
      P look.state.table w.request
  quiet : ∀ {r r' t look}, LockState.Quietly r t look → r'.txn ≠ r.txn →
    ⟨r'.txn, r'.mode⟩ ∈ (t.lock r'.resource).queue → P t r' → P look.state.table r'
  same : ∀ {r t t'}, (∀ res, t'.lock res = t.lock res) → t'.graph = t.graph → P t r → P t' r

variable {P : LockTable → LockRequest → Prop} {m : LockManager}

/-- Steps that nothing but waking comes of. -/
theorem Steady.mono (hP : Steady P) (h : ∀ r, m.Resting r → P m.shared.table r)
    {m' : LockManager} (hresting : ∀ r, m'.Resting r → m.Resting r)
    (hlock : ∀ res, m'.shared.table.lock res = m.shared.table.lock res)
    (hgraph : m'.shared.table.graph = m.shared.table.graph) (r : LockRequest)
    (hr : m'.Resting r) : P m'.shared.table r :=
  hP.same hlock hgraph (h r (hresting r hr))

theorem Steady.attempt (hP : Steady P) (h : ∀ r, m.Resting r → P m.shared.table r)
    (hc : m.Consistent) {m' : LockManager} {call : Nat} {w : Waiting} {queued : Bool}
    {sight : Sight} {s : LockState} {look : LockState.RequestLook}
    (hlooked : Looked m call look m') (howns : m.Owns call w.request)
    (hattempt : LockState.Attempt queued sight w s look) (htable : s.table = m.shared.table)
    (hfresh : queued = false → ¬m.IsAsleep w.request.txn)
    (hshort : queued = false → ∀ mode,
      (m.shared.table.lock w.request.resource).holders.get? w.request.txn = some mode →
        mode.covers w.request.mode = false) (r : LockRequest) (hr : m'.Resting r) :
    P m'.shared.table r := by
  have hnew (hq : queued = false) (res : Resource) :
      ∀ q ∈ (s.table.lock res).queue, q.txn ≠ w.request.txn := by
    rw [htable]
    exact hc.txn_ne (hfresh hq) res
  rw [hlooked.shared]
  rcases resting_looked hlooked howns hr with ⟨memory, hfate, rfl⟩ | ⟨hnotify, hrest, hne⟩
  · obtain ⟨rfl, -⟩ := hattempt.sleeps hfate
    exact hP.asleep hattempt hfate hnew
  · have hquietly : LockState.Quietly w.request m.shared.table look := by
      rw [← htable] at hshort ⊢
      exact hattempt.quietly hnotify hnew hshort
    exact hP.quiet hquietly hne ((hc.queued _ _).2 ⟨r, hrest.asleep, rfl, rfl⟩) (h r hrest)

theorem Steady.step (hP : Steady P) (h : ∀ r, m.Resting r → P m.shared.table r)
    (hc : m.Consistent) {e : Event} (he : e.Orderly m) (r : LockRequest)
    (hr : (m.step e).Resting r) : P (m.step e).shared.table r := by
  revert r
  cases m.step_effect e with
  | @arrive now call token request cancelled look m' harrival hlooked =>
    obtain ⟨hcall, hfree⟩ := he
    have howns := owns_of_fresh hcall hfree
    cases harrival with
    | held =>
      refine hP.mono h (fun r hr => ?_) (fun res => ?_) ?_
      · rcases resting_looked hlooked howns hr with ⟨w, hw, -⟩ | ⟨-, hold, -⟩
        · cases hw
        · exact hold
      · rw [hlooked.shared]
      · rw [hlooked.shared]
    | attempt hshort hattempt =>
      exact hP.attempt h hc hlooked (w := ⟨request, now⟩) howns hattempt rfl (fun _ => hfree)
        fun _ => hshort
  | again _ hget _ hattempt hlooked =>
    exact hP.attempt h hc hlooked (hc.owns hget) hattempt rfl nofun nofun
  | @release txn res m' hshared hsleepers =>
    cases hheld : (m.shared.table.lock res).isHolder txn with
    | true =>
      rw [hheld] at hsleepers
      exact fun r hr => absurd hr (not_resting_nudged hsleepers r)
    | false =>
      refine hP.mono h (fun r => resting_of_nudged hsleepers) (fun res' => ?_) ?_
      · rw [hshared, LockTable.lock_release]
        split
        · next heq => rw [heq, ResourceLock.unhold_eq_self hheld]
        · rfl
      · rw [hshared, LockTable.graph_release]
  | releaseAll _ hsleepers => exact fun r hr => absurd hr (not_resting_nudged hsleepers r)
  | wake _ hshared hsleepers =>
    refine hP.mono h (fun r => resting_of_nudged hsleepers) (fun res => ?_) ?_
    all_goals rw [hshared]

theorem Steady.run (hP : Steady P) (h : ∀ r, m.Resting r → P m.shared.table r)
    (hc : m.Consistent) {events : List Event} (horderly : Orderly m events) :
    ∀ r, (m.run events).Resting r → P (m.run events).shared.table r := by
  induction events generalizing m with
  | nil => exact h
  | cons e es ih =>
    obtain ⟨he, horderly⟩ := horderly
    exact ih (hP.step h hc he) (consistent_step hc he) horderly

/-! ## Requests that rest cannot be granted -/

theorem steady_blocked : Steady fun t r =>
    (t.lock r.resource).grantable r.txn r.mode = false where
  asleep hattempt hfate hnew := (hattempt.watches hfate hnew).blocked
  quiet hquietly hne hqueue hblocked :=
    (hquietly.locks _).not_grantable hqueue hne hblocked
  same hlock _ hblocked := by rwa [hlock]

end WalStore.LockManager

import WalStore.Proofs.Lock.Run

/-!
# Invariants of the lock table

What every single change of the table keeps, no run of the lock manager can break
(`LockTable.Invariant.run`). A grant may rely on the request being grantable, and noting whom an
owner waits for may rely on the owner not being marked as a victim. No order among the events is
assumed.
-/

namespace WalStore

/-- A property of lock tables that each of their changes keeps. -/
structure LockTable.Invariant (P : LockTable → Prop) : Prop where
  grant : ∀ {t txn res mode}, P t → (t.lock res).grantable txn mode = true →
    P (t.grant txn res mode)
  abandon : ∀ {t}, P t → ∀ txn res, P (t.abandon txn res)
  enqueue : ∀ {t}, P t → ∀ txn res mode, P (t.enqueue txn res mode)
  noteWaits : ∀ {t txn}, P t → t.victims.get? txn = none → ∀ res mode,
    P (t.noteWaits txn res mode)
  markVictim : ∀ {t}, P t → ∀ victim cycle, P (t.markVictim victim cycle)
  release : ∀ {t}, P t → ∀ txn res, P (t.release txn res).1
  releaseAll : ∀ {t}, P t → ∀ txn, P (t.releaseAll txn).1

namespace LockTable.Invariant

open Monitor LockState

variable {P : LockTable → Prop} (hP : Invariant P)

include hP

theorem stay {s : LockState} {w : Waiting} {look : RequestLook}
    (hvictim : s.table.victims.get? w.request.txn = none) (hstay : Stay s w look)
    (h : P s.table) : P look.state.table := by
  have hnoted : P (s.noted w.request) := hP.noteWaits h hvictim _ _
  cases hstay with
  | sleep => exact hnoted
  | spare => exact hP.markVictim hnoted _ _
  | yield => exact hP.abandon (hP.markVictim hnoted _ _) _ _

theorem attempt {queued : Bool} {sight : Sight} {s : LockState} {w : Waiting} {look : RequestLook}
    (hattempt : Attempt queued sight w s look) (h : P s.table) : P look.state.table := by
  cases hattempt with
  | victim => exact hP.abandon h _ _
  | grant _ _ hturn => exact hP.grant h hturn
  | fail => exact hP.abandon h _ _
  | stay hvictim _ _ _ hstay =>
    cases queued with
    | true => exact hP.stay hvictim hstay h
    | false =>
      have hqueued : (s.queueUp w.request).table.victims.get? w.request.txn = none := by
        rw [queueUp, LockTable.victims_enqueue, hvictim]
      exact hP.stay hqueued hstay (hP.enqueue h _ _ _)

theorem arrival {sight : Sight} {r : LockRequest} {s : LockState} {look : RequestLook}
    (harrival : Arrival sight r s look) (h : P s.table) : P look.state.table := by
  cases harrival with
  | held => exact h
  | attempt _ hattempt => exact hP.attempt hattempt h

theorem step {m : LockManager} (h : P m.shared.table) (e : LockManager.Event) :
    P (m.step e).shared.table := by
  cases m.step_effect e with
  | arrive _ harrival hlooked =>
    rw [hlooked.shared]
    exact hP.arrival harrival h
  | again _ _ _ hattempt hlooked =>
    rw [hlooked.shared]
    exact hP.attempt hattempt h
  | release hshared =>
    rw [hshared]
    exact hP.release h _ _
  | releaseAll hshared =>
    rw [hshared]
    exact hP.releaseAll h _
  | wake _ hshared =>
    rw [hshared]
    exact h

theorem run {m : LockManager} (h : P m.shared.table) (events : List LockManager.Event) :
    P (m.run events).shared.table := by
  induction events generalizing m with
  | nil => exact h
  | cons e es ih => exact ih (hP.step h e)

end LockTable.Invariant
end WalStore

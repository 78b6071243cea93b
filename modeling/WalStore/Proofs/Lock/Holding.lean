import WalStore.Proofs.Lock.Tidy

/-!
# What an owner holds

A look changes what its own owner holds at most, and only if it ends with a new grant (`Obtains`).
A release takes away what it says and nothing else.
-/

namespace WalStore

open Monitor

/-- The mode in which an owner holds a resource, if it does. -/
def LockTable.holding (t : LockTable) (owner : TxnId) (res : Resource) : Option Mode :=
  (t.lock res).holders.get? owner

namespace LockState

/-- What the owner of the request `r` holds after a look that has come to `outcome`. -/
inductive Obtains (t : LockTable) (r : LockRequest) (t' : LockTable) : Option Outcome → Prop
  /-- What it held before. -/
  | same {outcome : Option Outcome} (hold : ∀ g, outcome = some (.ok g) → g.isNew = false)
      (hsame : ∀ res, t'.holding r.txn res = t.holding r.txn res) : Obtains t r t' outcome
  /-- The resource it asked for in that mode too. -/
  | more {g : Grant} (hnew : g.isNew = true)
      (hmore : ∀ res, t'.holding r.txn res =
        if res = r.resource then some (r.mode.join ((t.holding r.txn res).getD r.mode))
        else t.holding r.txn res) : Obtains t r t' (some (.ok g))

/-- What the owner `txn` holds after a look of its request to read `res`. -/
inductive Lends (t : LockTable) (txn : TxnId) (res : Resource) (t' : LockTable) :
    Option Outcome → Prop
  /-- What it held before, which is nothing on `res` if the request waits. -/
  | same {outcome : Option Outcome} (hold : ∀ g, outcome = some (.ok g) → g.isNew = false)
      (hwaits : outcome = none → t.holding txn res = none)
      (hsame : ∀ res', t'.holding txn res' = t.holding txn res') : Lends t txn res t' outcome
  /-- It held nothing on `res`, and now it has that to read. -/
  | more {g : Grant} (hnew : g.isNew = true) (hnone : t.holding txn res = none)
      (hmore : ∀ res', t'.holding txn res' =
        if res' = res then some .read else t.holding txn res') : Lends t txn res t' (some (.ok g))

theorem Obtains.lends {t t' : LockTable} {r : LockRequest} {outcome : Option Outcome}
    (h : Obtains t r t' outcome) (hmode : r.mode = .read)
    (hnone : outcome ≠ some (.ok .alreadyHeld) → t.holding r.txn r.resource = none) :
    Lends t r.txn r.resource t' outcome := by
  cases h with
  | same hold hsame =>
    refine .same hold (fun hwaits => hnone ?_) hsame
    rw [hwaits]
    nofun
  | @more g hnew hmore =>
    have hbefore := hnone fun hheld => by
      cases hheld
      cases hnew
    refine .more hnew hbefore fun res => ?_
    rw [hmore]
    split
    · next hres =>
      rw [hres, hbefore, hmode]
      rfl
    · rfl

variable {sight : Sight} {s : LockState} {look : RequestLook}

theorem Attempt.holding_of_ne {queued : Bool} {w : Waiting} (h : Attempt queued sight w s look)
    {u : TxnId} (hu : u ≠ w.request.txn) (res : Resource) :
    look.state.table.holding u res = s.table.holding u res := h.holders_of_ne hu res

theorem Attempt.obtains {queued : Bool} {w : Waiting} (h : Attempt queued sight w s look) :
    Obtains s.table w.request look.state.table look.fate.result? := by
  by_cases hgrant : ∃ g, look.fate = .returns (.ok g)
  swap
  · refine .same (fun g hg => absurd hg fun hg => hgrant ⟨g, ?_⟩) fun res => ?_
    · cases hfate : look.fate <;> rw [hfate] at hg <;> cases hg
      rfl
    · exact congrArg (·.get? w.request.txn) (h.holders_eq (not_exists.1 hgrant) res)
  obtain ⟨g, hg⟩ := hgrant
  cases h with
  | victim => cases hg
  | grant _ _ _ g hnew =>
    refine .more hnew fun res => ?_
    rw [LockTable.holding, LockTable.lock_grant]
    split
    · next hres =>
      subst hres
      rw [ResourceLock.get?_hold, if_pos rfl, ResourceLock.holders_dequeue]
      rfl
    · rfl
  | fail => cases hg
  | stay _ _ _ _ hstay => cases hstay <;> cases hg

theorem Arrival.holding_of_ne {r : LockRequest} (h : Arrival sight r s look) {u : TxnId}
    (hu : u ≠ r.txn) (res : Resource) :
    look.state.table.holding u res = s.table.holding u res := h.holders_of_ne hu res

/-- A request that arrives finds that its owner holds enough already, or not enough. -/
theorem Arrival.obtains {r : LockRequest} (h : Arrival sight r s look) :
    Obtains s.table r look.state.table look.fate.result? ∧
      (look.fate.result? = some (.ok .alreadyHeld) ∨
        ∀ held, s.table.holding r.txn r.resource = some held → held.covers r.mode = false) := by
  cases h with
  | held =>
    refine ⟨.same (fun g hg => ?_) fun _ => rfl, .inl rfl⟩
    cases hg
    rfl
  | attempt hshort hattempt => exact ⟨hattempt.obtains, .inr hshort⟩

end LockState

namespace LockManager

variable (m : LockManager)

/-- What a request that arrives means for what the owners hold. -/
theorem enter_holding (now : Instant) (call : Nat) (token : Option TokenId) (r : LockRequest) :
    (∀ u, u ≠ r.txn → ∀ res,
        (m.enter LockState.discipline now call token r).1.shared.table.holding u res =
          m.shared.table.holding u res) ∧
      LockState.Obtains m.shared.table r
        (m.enter LockState.discipline now call token r).1.shared.table
        (m.enter LockState.discipline now call token r).2 ∧
      ((m.enter LockState.discipline now call token r).2 = some (.ok .alreadyHeld) ∨
        ∀ held, m.shared.table.holding r.txn r.resource = some held →
          held.covers r.mode = false) := by
  obtain ⟨cancelled, look, harrival, hlooked, hresult⟩ := m.enter_spec now call token r
  rw [hresult, hlooked.shared]
  exact ⟨fun u hu => harrival.holding_of_ne hu, harrival.obtains⟩

/-- What a request that looks again means for what the owners hold. -/
theorem recheck_holding (now : Instant) (call : Nat) :
    (∀ u, (∀ s, m.sleepers.get? call = some s → u ≠ s.memory.request.txn) → ∀ res,
        (m.recheck LockState.discipline now call).1.shared.table.holding u res =
          m.shared.table.holding u res) ∧
      ∀ s, m.sleepers.get? call = some s → LockState.Obtains m.shared.table s.memory.request
        (m.recheck LockState.discipline now call).1.shared.table
        (m.recheck LockState.discipline now call).2 := by
  rcases m.recheck_spec now call with
    hrest | ⟨s, cancelled, look, hget, -, hattempt, hlooked, hresult⟩
  · rw [hrest]
    exact ⟨fun _ _ _ => rfl, fun s _ => .same nofun fun _ => rfl⟩
  · rw [hresult, hlooked.shared]
    refine ⟨fun u hu => hattempt.holding_of_ne (hu s hget), fun s' hget' => ?_⟩
    rw [hget, Option.some.injEq] at hget'
    exact hget' ▸ hattempt.obtains

/-- A request to read that arrives. -/
theorem enter_lends (now : Instant) (call : Nat) (token : Option TokenId) {r : LockRequest}
    (hmode : r.mode = .read) : LockState.Lends m.shared.table r.txn r.resource
      (m.enter LockState.discipline now call token r).1.shared.table
      (m.enter LockState.discipline now call token r).2 := by
  obtain ⟨-, hobtains, hshort⟩ := m.enter_holding now call token r
  refine hobtains.lends hmode fun hheld => Option.eq_none_iff_forall_ne_some.2 fun held hsome => ?_
  -- Whatever its owner held would do to read.
  have hcovers := hshort.resolve_left hheld held hsome
  rw [hmode] at hcovers
  cases held <;> cases hcovers

/-- A request to read that has been queued for a resource of which its owner holds nothing. -/
theorem recheck_lends (now : Instant) {call : Nat} {s : Sleeper Waiting}
    (hget : m.sleepers.get? call = some s) (hmode : s.memory.request.mode = .read)
    (hnone : m.shared.table.holding s.memory.request.txn s.memory.request.resource = none) :
    LockState.Lends m.shared.table s.memory.request.txn s.memory.request.resource
      (m.recheck LockState.discipline now call).1.shared.table
      (m.recheck LockState.discipline now call).2 :=
  ((m.recheck_holding now call).2 s hget).lends hmode fun _ => hnone

theorem recheck_of_none (now : Instant) {call : Nat} (hget : m.sleepers.get? call = none) :
    m.recheck LockState.discipline now call = (m, none) := by
  rcases m.recheck_spec now call with hrest | ⟨s, -, -, hs, -⟩
  · exact hrest
  · rw [hget] at hs
    cases hs

theorem holding_release (txn : TxnId) (res : Resource) (u : TxnId) (res' : Resource) :
    (m.act (LockState.release txn res)).1.shared.table.holding u res' =
      if res' = res ∧ u = txn then none else m.shared.table.holding u res' := by
  rw [shared_act]
  change ((m.shared.table.release txn res).1.lock res').holders.get? u = _
  rw [LockTable.lock_release]
  by_cases hres : res' = res
  · subst hres
    rw [if_pos rfl, ResourceLock.get?_unhold]
    simp only [true_and]
    rfl
  · rw [if_neg hres, if_neg fun h => hres h.1]
    rfl

theorem holding_releaseAll {txn u : TxnId} (hu : u ≠ txn) (res : Resource) :
    (m.act (LockState.releaseAll txn)).1.shared.table.holding u res =
      m.shared.table.holding u res := by
  rw [shared_act]
  change ((m.shared.table.releaseAll txn).1.lock res).holders.get? u = _
  rw [LockTable.lock_releaseAll]
  split
  · rw [ResourceLock.get?_unhold, if_neg hu]
    rfl
  · rfl

end LockManager
end WalStore

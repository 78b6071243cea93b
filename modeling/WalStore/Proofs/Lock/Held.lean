import WalStore.Proofs.Lock.Exclusive

/-!
# Locks are kept

An owner holds its locks until it releases them: a look of a request, its own or another's, takes
no lock away and weakens none. A look that ends with a grant leaves the owner with what it asked
for (`enter_keeps`, `recheck_keeps`).
-/

namespace WalStore

open Monitor

/-! ## The table -/

/-- The owner holds this mode or a stronger one. -/
def LockTable.Holds (t : LockTable) (owner : TxnId) (res : Resource) (mode : Mode) : Prop :=
  ∃ m, (t.lock res).holders.get? owner = some m ∧ m.covers mode = true

namespace LockTable

variable {t : LockTable} {owner : TxnId} {res : Resource} {mode : Mode}

theorem Holds.congr {t' : LockTable} (h : t.Holds owner res mode)
    (heq : (t'.lock res).holders = (t.lock res).holders) : t'.Holds owner res mode := by
  obtain ⟨m, hm, hcovers⟩ := h
  exact ⟨m, heq ▸ hm, hcovers⟩

/-- Whoever shares a resource with a writer is the writer. -/
theorem Exclusive.eq_of_holds (h : t.Exclusive) {writer : TxnId}
    (hwriter : t.Holds writer res .write) (howner : t.Holds owner res mode) : owner = writer := by
  obtain ⟨m, hm, hcovers⟩ := hwriter
  obtain ⟨m', hm', -⟩ := howner
  by_contra hne
  have hcompatible := h res owner writer m' m hm' hm hne
  cases m with
  | read => cases hcovers
  | write =>
    rw [Mode.compatible_write] at hcompatible
    cases hcompatible

theorem Holds.grant (h : t.Holds owner res mode) (txn : TxnId) (res' : Resource) (mode' : Mode) :
    (t.grant txn res' mode').Holds owner res mode := by
  obtain ⟨m, hm, hcovers⟩ := h
  rw [Holds, lock_grant]
  split
  · next hres =>
    subst hres
    rw [ResourceLock.get?_hold, ResourceLock.holders_dequeue]
    split
    · next howner =>
      subst howner
      refine ⟨_, rfl, ?_⟩
      rw [SortedMap.getD, hm, Option.getD_some]
      cases mode' <;> cases m <;> cases mode <;> first | rfl | cases hcovers
    · exact ⟨m, hm, hcovers⟩
  · exact ⟨m, hm, hcovers⟩

theorem holds_grant (t : LockTable) (owner : TxnId) (res : Resource) (mode : Mode) :
    (t.grant owner res mode).Holds owner res mode := by
  rw [Holds, lock_grant, if_pos rfl, ResourceLock.get?_hold, if_pos rfl]
  exact ⟨_, rfl, Mode.covers_join_left _ _⟩

theorem Holds.enqueue (h : t.Holds owner res mode) (txn : TxnId) (res' : Resource) (mode' : Mode) :
    (t.enqueue txn res' mode').Holds owner res mode := h.congr <| by
  rw [lock_enqueue]
  split
  · next hres => rw [hres, ResourceLock.holders_enqueue]
  · rfl

theorem Holds.abandon (h : t.Holds owner res mode) (txn : TxnId) (res' : Resource) :
    (t.abandon txn res').Holds owner res mode := h.congr <| by
  rw [lock_abandon]
  split
  · next hres => rw [hres, ResourceLock.holders_dequeue]
  · rfl

theorem Holds.releaseAll (h : t.Holds owner res mode) {txn : TxnId} (hne : owner ≠ txn) :
    (t.releaseAll txn).1.Holds owner res mode := by
  obtain ⟨m, hm, hcovers⟩ := h
  refine ⟨m, ?_, hcovers⟩
  rw [lock_releaseAll]
  split
  · rwa [ResourceLock.get?_unhold, if_neg hne]
  · exact hm

theorem Holds.release (h : t.Holds owner res mode) {txn : TxnId} (hne : owner ≠ txn)
    (res' : Resource) : (t.release txn res').1.Holds owner res mode := by
  obtain ⟨m, hm, hcovers⟩ := h
  refine ⟨m, ?_, hcovers⟩
  rw [lock_release]
  split
  · next hres => rwa [ResourceLock.get?_unhold, if_neg hne, ← hres]
  · exact hm

end LockTable

/-! ## Looks -/

namespace LockState

variable {s : LockState} {w : Waiting} {look : RequestLook} {sight : Sight} {r : LockRequest}
  {owner : TxnId} {res : Resource} {mode : Mode}

theorem Stay.holds (hstay : Stay s w look) (h : s.table.Holds owner res mode) :
    look.state.table.Holds owner res mode := by
  cases hstay with
  | sleep => exact h
  | spare => exact h
  | yield => exact LockTable.Holds.abandon (t := (s.noted w.request).markVictim _ _) h _ _

theorem Attempt.holds {queued : Bool} (hattempt : Attempt queued sight w s look)
    (h : s.table.Holds owner res mode) : look.state.table.Holds owner res mode := by
  cases hattempt with
  | victim => exact h.abandon _ _
  | grant => exact h.grant _ _ _
  | fail => exact h.abandon _ _
  | stay _ _ _ _ hstay =>
    refine hstay.holds ?_
    cases queued
    · exact h.enqueue _ _ _
    · exact h

theorem Attempt.holds_of_ok {queued : Bool} (hattempt : Attempt queued sight w s look) {g : Grant}
    (hresult : look.fate.result? = some (.ok g)) :
    look.state.table.Holds w.request.txn w.request.resource w.request.mode := by
  cases hattempt with
  | victim => cases hresult
  | grant => exact LockTable.holds_grant _ _ _ _
  | fail => cases hresult
  | stay _ _ _ _ hstay => cases hstay <;> cases hresult

theorem Attempt.memory_eq {queued : Bool} (hattempt : Attempt queued sight w s look)
    {token : Option (TokenId × Nat)} {sleeper : Sleeper Waiting}
    (hsleeper : look.fate.sleeper? token = some sleeper) : sleeper.memory = w := by
  cases hattempt with
  | victim => cases hsleeper
  | grant => cases hsleeper
  | fail => cases hsleeper
  | stay _ _ _ _ hstay => cases hstay <;> cases hsleeper <;> rfl

theorem Arrival.holds (harrival : Arrival sight r s look) (h : s.table.Holds owner res mode) :
    look.state.table.Holds owner res mode := by
  cases harrival with
  | held => exact h
  | attempt _ hattempt => exact hattempt.holds h

theorem Arrival.holds_of_ok (harrival : Arrival sight r s look) {g : Grant}
    (hresult : look.fate.result? = some (.ok g)) :
    look.state.table.Holds r.txn r.resource r.mode := by
  cases harrival with
  | held hheld hcovers => exact ⟨_, hheld, hcovers⟩
  | attempt _ hattempt => exact hattempt.holds_of_ok hresult

theorem Arrival.request_eq (harrival : Arrival sight r s look) {token : Option (TokenId × Nat)}
    {sleeper : Sleeper Waiting} (hsleeper : look.fate.sleeper? token = some sleeper) :
    sleeper.memory.request = r := by
  cases harrival with
  | held => cases hsleeper
  | attempt _ hattempt => rw [hattempt.memory_eq hsleeper]

end LockState

/-! ## The manager -/

namespace LockManager

/-- From `m` to `m'` the owners in `P` have kept their locks, and the calls in `Q` that sleep still
make the same requests. -/
structure Keeps (P : TxnId → Prop) (Q : Nat → Prop) (m m' : LockManager) : Prop where
  exclusive : m.shared.table.Exclusive → m'.shared.table.Exclusive
  holds : ∀ owner res mode, P owner → m.shared.table.Holds owner res mode →
    m'.shared.table.Holds owner res mode
  asleep : ∀ call s', Q call → m'.sleepers.get? call = some s' →
    ∃ s, m.sleepers.get? call = some s ∧ s'.memory = s.memory

theorem Keeps.mono {P P' : TxnId → Prop} {Q Q' : Nat → Prop} {m m' : LockManager}
    (h : Keeps P Q m m') (hP : ∀ owner, P' owner → P owner) (hQ : ∀ call, Q' call → Q call) :
    Keeps P' Q' m m' :=
  ⟨h.exclusive, fun owner res mode hp => h.holds owner res mode (hP owner hp),
    fun call s' hq => h.asleep call s' (hQ call hq)⟩

variable (m : LockManager)

theorem keeps_of_nudged {m' : LockManager} (hshared : m'.shared = m.shared)
    (hsleepers : ∀ c, ∃ notify,
      m'.sleepers.get? c = (m.sleepers.get? c).map (·.nudged notify)) :
    Keeps (fun _ => True) (fun _ => True) m m' := by
  refine ⟨fun h => hshared ▸ h, fun owner res mode _ h => hshared ▸ h, fun call s' _ hs' => ?_⟩
  obtain ⟨notify, hsleepers⟩ := hsleepers call
  rw [hsleepers, Option.map_eq_some_iff] at hs'
  obtain ⟨s, hs, rfl⟩ := hs'
  exact ⟨s, hs, rfl⟩

theorem keeps_refl : Keeps (fun _ => True) (fun _ => True) m m :=
  m.keeps_of_nudged rfl fun c => ⟨false, by simp⟩

theorem wake_keeps (call : Nat) :
    Keeps (fun _ => True) (fun _ => True) m (Monitor.wake m call) :=
  m.keeps_of_nudged (shared_wake m call) fun c => ⟨_, get?_wake m call c⟩

theorem cancel_keeps (t : TokenId) :
    Keeps (fun _ => True) (fun _ => True) m (Monitor.cancel m t) :=
  m.keeps_of_nudged (shared_cancel m t) fun c => get?_cancel m c t

theorem keeps_of_looked {m' : LockManager} {call : Nat} {look : LockState.RequestLook}
    (h : Looked m call look m')
    (hexclusive : m.shared.table.Exclusive → look.state.table.Exclusive)
    (hholds : ∀ owner res mode, m.shared.table.Holds owner res mode →
      look.state.table.Holds owner res mode) :
    Keeps (fun _ => True) (· ≠ call) m m' := by
  obtain ⟨hshared, token, hsleepers⟩ := h
  refine ⟨fun h => hshared ▸ hexclusive h,
    fun owner res mode _ h => hshared ▸ hholds owner res mode h, fun c s' hne hs' => ?_⟩
  rw [hsleepers, if_neg hne, Option.map_eq_some_iff] at hs'
  obtain ⟨s, hs, rfl⟩ := hs'
  exact ⟨s, hs, rfl⟩

/-- What a request that arrives means for the locks of all owners and for its own. -/
theorem enter_keeps (now : Instant) (call : Nat) (token : Option TokenId) (r : LockRequest) :
    Keeps (fun _ => True) (· ≠ call) m (m.enter LockState.discipline now call token r).1 ∧
      (∀ s, (m.enter LockState.discipline now call token r).1.sleepers.get? call = some s →
        s.memory.request = r) ∧
      ∀ g, (m.enter LockState.discipline now call token r).2 = some (.ok g) →
        (m.enter LockState.discipline now call token r).1.shared.table.Holds r.txn r.resource
          r.mode := by
  obtain ⟨cancelled, look, harrival, hlooked, hresult⟩ := m.enter_spec now call token r
  refine ⟨m.keeps_of_looked hlooked (LockTable.invariant_exclusive.arrival harrival)
      fun _ _ _ => harrival.holds,
    fun s hs => ?_, fun g hg => ?_⟩
  · obtain ⟨-, registration, hsleepers⟩ := hlooked
    rw [hsleepers, if_pos rfl] at hs
    exact harrival.request_eq hs
  · rw [hresult] at hg
    rw [hlooked.shared]
    exact harrival.holds_of_ok hg

/-- What a request that looks again means for the locks of all owners and for its own. -/
theorem recheck_keeps (now : Instant) (call : Nat) :
    Keeps (fun _ => True) (· ≠ call) m (m.recheck LockState.discipline now call).1 ∧
      (∀ s', (m.recheck LockState.discipline now call).1.sleepers.get? call = some s' →
        ∃ s, m.sleepers.get? call = some s ∧ s'.memory = s.memory) ∧
      ∀ g, (m.recheck LockState.discipline now call).2 = some (.ok g) →
        ∃ s, m.sleepers.get? call = some s ∧
          (m.recheck LockState.discipline now call).1.shared.table.Holds s.memory.request.txn
            s.memory.request.resource s.memory.request.mode := by
  rcases m.recheck_spec now call with
    hrest | ⟨s, cancelled, look, hget, -, hattempt, hlooked, hresult⟩
  · rw [hrest]
    refine ⟨⟨id, fun _ _ _ _ h => h, fun c s _ hs => ⟨s, hs, rfl⟩⟩, fun s hs => ⟨s, hs, rfl⟩, ?_⟩
    rintro g ⟨⟩
  · refine ⟨m.keeps_of_looked hlooked (LockTable.invariant_exclusive.attempt hattempt)
      fun _ _ _ => hattempt.holds, fun s' hs' => ⟨s, hget, ?_⟩, fun g hg => ⟨s, hget, ?_⟩⟩
    · obtain ⟨-, token, hsleepers⟩ := hlooked
      rw [hsleepers, if_pos rfl] at hs'
      exact hattempt.memory_eq hs'
    · rw [hresult] at hg
      rw [hlooked.shared]
      exact hattempt.holds_of_ok hg

/-- What changes only the table leaves the calls asleep with their requests. -/
theorem asleep_act {α : Type} (change : LockState → Change LockState α) {call : Nat}
    {s' : Sleeper Waiting} (hs' : (m.act change).1.sleepers.get? call = some s') :
    ∃ s, m.sleepers.get? call = some s ∧ s'.memory = s.memory := by
  rw [get?_act, Option.map_eq_some_iff] at hs'
  obtain ⟨s, hs, rfl⟩ := hs'
  exact ⟨s, hs, rfl⟩

theorem releaseAll_keeps (txn : TxnId) :
    Keeps (· ≠ txn) (fun _ => True) m (m.act (LockState.releaseAll txn)).1 := by
  have hshared : (m.act (LockState.releaseAll txn)).1.shared.table =
      (m.shared.table.releaseAll txn).1 := by
    rw [shared_act]
    rfl
  exact ⟨fun h => hshared ▸ h.releaseAll txn,
    fun owner res mode hne h => hshared ▸ h.releaseAll hne,
    fun call s' _ => m.asleep_act _⟩

theorem release_keeps (txn : TxnId) (res : Resource) :
    Keeps (· ≠ txn) (fun _ => True) m (m.act (LockState.release txn res)).1 := by
  have hshared : (m.act (LockState.release txn res)).1.shared.table =
      (m.shared.table.release txn res).1 := by
    rw [shared_act]
    rfl
  exact ⟨fun h => hshared ▸ h.release txn res,
    fun owner res' mode hne h => hshared ▸ h.release hne res,
    fun call s' _ => m.asleep_act _⟩

end LockManager
end WalStore

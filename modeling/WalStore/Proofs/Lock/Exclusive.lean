import WalStore.Proofs.Lock.Invariant

/-!
# Locks exclude each other

**Theorem (`exclusive_run`).** Whatever events a lock manager sees, in whatever order and under
any clock, a resource has either no writer among its holders or a single holder.

Only a grant adds a holder or strengthens what one holds, and a grant needs that no other holder
conflicts with the mode asked for. An upgrade goes past the queue, but not past the other holders.
The mode that is held afterwards can be stronger than the one asked for only if the owner was a
writer before, and then it was the only holder.
-/

namespace WalStore

theorem Mode.compatible_comm (a b : Mode) : a.compatible b = b.compatible a := by
  cases a <;> cases b <;> rfl

theorem Mode.compatible_write (m : Mode) : m.compatible write = false := by
  cases m <;> rfl

theorem Mode.covers_join_left (a b : Mode) : (a.join b).covers a = true := by
  cases a <;> cases b <;> rfl

/-! ## One lock -/

/-- No two holders conflict. -/
def ResourceLock.Exclusive (l : ResourceLock) : Prop :=
  ∀ t u m m', l.holders.get? t = some m → l.holders.get? u = some m' → t ≠ u →
    m.compatible m' = true

namespace ResourceLock

theorem exclusive_empty : empty.Exclusive := fun _ _ _ _ h => nomatch h

theorem Exclusive.congr {l l' : ResourceLock} (h : l.Exclusive) (heq : l'.holders = l.holders) :
    l'.Exclusive := fun t u m m' ht hu => h t u m m' (heq ▸ ht) (heq ▸ hu)

theorem Exclusive.unhold {l : ResourceLock} (h : l.Exclusive) (txn : TxnId) :
    (l.unhold txn).Exclusive := by
  intro t u m m' ht hu hne
  rw [get?_unhold] at ht hu
  split at ht
  · cases ht
  split at hu
  · cases hu
  exact h t u m m' ht hu hne

/-- A new holder conflicts with no other: neither in the mode it asks for, nor in the one it held
before. -/
theorem Exclusive.compatible_join {l : ResourceLock} (h : l.Exclusive) {txn u : TxnId}
    {mode m : Mode} (hturn : ∀ v, ¬v ∈ l.conflictingHolders txn mode)
    (hu : l.holders.get? u = some m) (hne : u ≠ txn) :
    (mode.join (l.holders.getD txn mode)).compatible m = true := by
  have hmode : m.compatible mode = true := by
    by_contra hconflict
    exact hturn u (mem_conflictingHolders.2 ⟨m, hu, hne, Bool.eq_false_iff.2 hconflict⟩)
  rw [Mode.compatible_comm] at hmode
  unfold SortedMap.getD
  cases htxn : l.holders.get? txn with
  | none => cases mode <;> exact hmode
  | some before =>
    have hbefore := h txn u before m htxn hu (Ne.symm hne)
    cases mode <;> cases before <;> first | exact hmode | exact hbefore

theorem Exclusive.hold {l : ResourceLock} (h : l.Exclusive) {txn : TxnId} {mode : Mode}
    (hturn : ∀ u, ¬u ∈ l.conflictingHolders txn mode) : (l.hold txn mode).Exclusive := by
  intro t u m m' ht hu hne
  rw [get?_hold] at ht hu
  split at ht
  · next htxn =>
    have hut : u ≠ txn := fun hu => hne (htxn.trans hu.symm)
    rw [if_neg hut] at hu
    cases ht
    exact h.compatible_join hturn hu hut
  split at hu
  · next hnt _ =>
    cases hu
    rw [Mode.compatible_comm]
    exact h.compatible_join hturn ht hnt
  · exact h t u m m' ht hu hne

/-- A lock without conflicts has no writer, or a writer as its only holder. -/
theorem Exclusive.writer {l : ResourceLock} (h : l.Exclusive) :
    (∀ e ∈ l.holders.entries, e.2 ≠ .write) ∨ ∃ t, l.holders.entries = [(t, .write)] := by
  by_cases hwriter : ∃ t, l.holders.get? t = some .write
  · obtain ⟨t, ht⟩ := hwriter
    right
    refine ⟨t, SortedMap.eq_of_mem_iff l.holders.sorted (List.pairwise_singleton _ _)
      fun ⟨u, m⟩ => ?_⟩
    rw [← SortedMap.get?_eq_some_iff, List.mem_singleton, Prod.mk.injEq]
    constructor
    · intro hu
      by_cases hut : u = t
      · subst hut
        rw [ht] at hu
        cases hu
        exact ⟨rfl, rfl⟩
      · have hconflict := h u t m .write hu ht hut
        rw [Mode.compatible_write] at hconflict
        cases hconflict
    · rintro ⟨rfl, rfl⟩
      exact ht
  · left
    rintro ⟨t, m⟩ he rfl
    exact hwriter ⟨t, SortedMap.get?_eq_some_iff.2 he⟩

end ResourceLock

/-! ## The table -/

/-- No two owners hold conflicting modes on one resource. -/
def LockTable.Exclusive (t : LockTable) : Prop := ∀ res, (t.lock res).Exclusive

namespace LockTable

variable {t : LockTable}

theorem exclusive_empty : empty.Exclusive := fun _ => ResourceLock.exclusive_empty

/-- Changes that leave all holders as they are. -/
theorem Exclusive.congr {t' : LockTable} (h : t.Exclusive)
    (heq : ∀ res, (t'.lock res).holders = (t.lock res).holders) : t'.Exclusive :=
  fun res => (h res).congr (heq res)

theorem Exclusive.enqueue (h : t.Exclusive) (txn : TxnId) (res : Resource) (mode : Mode) :
    (t.enqueue txn res mode).Exclusive := h.congr fun res' => by
  rw [lock_enqueue]
  split
  · next heq => rw [heq, ResourceLock.holders_enqueue]
  · rfl

theorem Exclusive.abandon (h : t.Exclusive) (txn : TxnId) (res : Resource) :
    (t.abandon txn res).Exclusive := h.congr fun res' => by
  rw [lock_abandon]
  split
  · next heq => rw [heq, ResourceLock.holders_dequeue]
  · rfl

theorem Exclusive.grant (h : t.Exclusive) {txn : TxnId} {res : Resource} {mode : Mode}
    (hturn : (t.lock res).grantable txn mode = true) : (t.grant txn res mode).Exclusive := by
  intro res'
  rw [lock_grant]
  split
  · exact ((h res).congr (ResourceLock.holders_dequeue _ txn)).hold
      (ResourceLock.grantable_iff.1 hturn).1
  · exact h res'

theorem Exclusive.release (h : t.Exclusive) (txn : TxnId) (res : Resource) :
    (t.release txn res).1.Exclusive := by
  intro res'
  rw [lock_release]
  split
  · exact (h res).unhold txn
  · exact h res'

theorem Exclusive.releaseAll (h : t.Exclusive) (txn : TxnId) : (t.releaseAll txn).1.Exclusive := by
  intro res
  rw [lock_releaseAll]
  split
  · exact (h res).unhold txn
  · exact h res

theorem invariant_exclusive : Invariant Exclusive where
  grant h hturn := h.grant hturn
  abandon h := h.abandon
  enqueue h := h.enqueue
  noteWaits h _ _ _ := h.congr fun _ => rfl
  markVictim h _ _ := h.congr fun _ => rfl
  release h := h.release
  releaseAll h := h.releaseAll

end LockTable

/-! ## Runs -/

namespace LockManager

theorem exclusive_step {m : LockManager} (h : m.shared.table.Exclusive) (e : Event) :
    (m.step e).shared.table.Exclusive := LockTable.invariant_exclusive.step h e

theorem exclusive_of_run {m : LockManager} (h : m.shared.table.Exclusive) (events : List Event) :
    (m.run events).shared.table.Exclusive := LockTable.invariant_exclusive.run h events

/-- **Locks exclude each other.** After any events, a resource has no writer among its holders, or
one holder, which is the writer; so two owners never hold conflicting modes. -/
theorem exclusive_run (detection : Bool) (events : List Event) (res : Resource) :
    let holders := ((fresh detection).run events).shared.table.holders res
    ((∀ h ∈ holders, h.2 ≠ .write) ∨ ∃ txn, holders = [(txn, .write)]) ∧
      ∀ a ∈ holders, ∀ b ∈ holders, a.1 ≠ b.1 → a.2.compatible b.2 = true := by
  have h : ((fresh detection).run events).shared.table.Exclusive :=
    exclusive_of_run LockTable.exclusive_empty events
  refine ⟨(h res).writer, fun a ha b hb hne => ?_⟩
  exact h res a.1 b.1 a.2 b.2 (SortedMap.get?_eq_some_iff.2 ha)
    (SortedMap.get?_eq_some_iff.2 hb) hne

end LockManager
end WalStore

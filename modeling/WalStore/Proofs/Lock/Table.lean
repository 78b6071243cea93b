import WalStore.Lock.Table
import WalStore.Proofs.Lock.WaitGraph

/-!
# What the lock table does

Each change of the lock table through four views: the lock on a resource (`lock`), the wait graph,
the victims, and what an owner holds (`heldBy`). A resource that is not in the table and one whose
lock is idle look the same through `lock`, so nothing has to be said about when entries come and
go.
-/

namespace WalStore

namespace ResourceLock

variable {l : ResourceLock} {txn : TxnId} {mode : Mode}

theorem eq_empty_of_isIdle (h : l.isIdle = true) : l = .empty := by
  obtain ⟨holders, queue⟩ := l
  simp only [isIdle, Bool.and_eq_true, SortedMap.isEmpty_iff, List.isEmpty_iff] at h
  obtain ⟨hholders, rfl⟩ := h
  rw [empty, ResourceLock.mk.injEq]
  exact ⟨SortedMap.ext_get? hholders, rfl⟩

theorem isHolder_iff : l.isHolder txn = true ↔ ∃ m, l.holders.get? txn = some m :=
  Option.isSome_iff_exists

theorem mem_conflictingHolders {u : TxnId} :
    u ∈ l.conflictingHolders txn mode ↔
      ∃ m, l.holders.get? u = some m ∧ u ≠ txn ∧ m.compatible mode = false := by
  simp only [conflictingHolders, List.mem_map, List.mem_filter, Prod.exists, exists_and_right,
    exists_eq_right, ← SortedMap.get?_eq_some_iff, decide_not, Bool.and_eq_true,
    Bool.not_eq_true', decide_eq_false_iff_not, ne_eq]

theorem mem_conflictingAhead {u : TxnId} :
    u ∈ l.conflictingAhead txn mode ↔
      ∃ m, ⟨u, m⟩ ∈ l.ahead txn ∧ m.compatible mode = false := by
  simp only [conflictingAhead, List.mem_map, List.mem_filter, Bool.not_eq_true']
  constructor
  · rintro ⟨⟨_, m⟩, h, rfl⟩
    exact ⟨m, h⟩
  · rintro ⟨m, h⟩
    exact ⟨⟨u, m⟩, h, rfl⟩

theorem mem_blockers {u : TxnId} :
    u ∈ l.blockers txn mode ↔
      u ∈ l.conflictingHolders txn mode ∨ u ∈ l.conflictingAhead txn mode := by
  rw [blockers, SortedSet.mem_ofList, List.mem_append]

theorem grantable_iff :
    l.grantable txn mode = true ↔
      (∀ u, ¬u ∈ l.conflictingHolders txn mode) ∧
        (l.isHolder txn = true ∨ ∀ u, ¬u ∈ l.conflictingAhead txn mode) := by
  simp only [grantable, Bool.and_eq_true, Bool.or_eq_true, List.isEmpty_iff,
    List.eq_nil_iff_forall_not_mem]

theorem get?_hold (l : ResourceLock) (txn u : TxnId) (mode : Mode) :
    (l.hold txn mode).holders.get? u =
      if u = txn then some (mode.join (l.holders.getD txn mode)) else l.holders.get? u :=
  SortedMap.get?_insert _ txn u _

theorem get?_unhold (l : ResourceLock) (txn u : TxnId) :
    (l.unhold txn).holders.get? u = if u = txn then none else l.holders.get? u :=
  SortedMap.get?_erase l.holders txn u

theorem unhold_eq_self (h : l.isHolder txn = false) : l.unhold txn = l := by
  rw [unhold, ResourceLock.mk.injEq]
  refine ⟨SortedMap.ext_get? fun u => ?_, rfl⟩
  rw [SortedMap.get?_erase]
  split
  · next heq => rw [heq, Option.not_isSome_iff_eq_none.1 (Bool.eq_false_iff.1 h)]
  · rfl

@[simp] theorem holders_enqueue (l : ResourceLock) (txn : TxnId) (mode : Mode) :
    (l.enqueue txn mode).holders = l.holders := by
  unfold enqueue
  split <;> rfl

@[simp] theorem holders_dequeue (l : ResourceLock) (txn : TxnId) :
    (l.dequeue txn).holders = l.holders := rfl

@[simp] theorem queue_unhold (l : ResourceLock) (txn : TxnId) :
    (l.unhold txn).queue = l.queue := rfl

@[simp] theorem queue_hold (l : ResourceLock) (txn : TxnId) (mode : Mode) :
    (l.hold txn mode).queue = l.queue := rfl

end ResourceLock

namespace LockTable

variable (t : LockTable)

/-! ## Entries -/

theorem lock_setLock (res res' : Resource) (l : ResourceLock) :
    (t.setLock res l).lock res' = if res' = res then l else t.lock res' := by
  unfold setLock lock
  by_cases h : l.isIdle
  · rw [if_pos h, SortedMap.getD_erase, ResourceLock.eq_empty_of_isIdle h]
  · rw [if_neg h, SortedMap.getD_insert]

@[simp] theorem held_setLock (res : Resource) (l : ResourceLock) :
    (t.setLock res l).held = t.held := by
  unfold setLock
  split <;> rfl

@[simp] theorem graph_setLock (res : Resource) (l : ResourceLock) :
    (t.setLock res l).graph = t.graph := by
  unfold setLock
  split <;> rfl

@[simp] theorem victims_setLock (res : Resource) (l : ResourceLock) :
    (t.setLock res l).victims = t.victims := by
  unfold setLock
  split <;> rfl

@[simp] theorem lock_setHeld (txn : TxnId) (resources : SortedSet Resource) (res : Resource) :
    (t.setHeld txn resources).lock res = t.lock res := by
  unfold setHeld
  split <;> rfl

@[simp] theorem graph_setHeld (txn : TxnId) (resources : SortedSet Resource) :
    (t.setHeld txn resources).graph = t.graph := by
  unfold setHeld
  split <;> rfl

@[simp] theorem victims_setHeld (txn : TxnId) (resources : SortedSet Resource) :
    (t.setHeld txn resources).victims = t.victims := by
  unfold setHeld
  split <;> rfl

/-! ## Grant and enqueue -/

theorem lock_grant (txn : TxnId) (res res' : Resource) (mode : Mode) :
    (t.grant txn res mode).lock res' =
      if res' = res then ((t.lock res).dequeue txn).hold txn mode else t.lock res' := by
  rw [← lock_setLock]
  exact lock_setHeld _ _ _ res'

@[simp] theorem graph_grant (txn : TxnId) (res : Resource) (mode : Mode) :
    (t.grant txn res mode).graph = t.graph.clearWaits txn := by
  simp [grant]

@[simp] theorem victims_grant (txn : TxnId) (res : Resource) (mode : Mode) :
    (t.grant txn res mode).victims = t.victims := by
  simp [grant]

theorem lock_enqueue (txn : TxnId) (res res' : Resource) (mode : Mode) :
    (t.enqueue txn res mode).lock res' =
      if res' = res then (t.lock res).enqueue txn mode else t.lock res' :=
  lock_setLock t res res' _

@[simp] theorem graph_enqueue (txn : TxnId) (res : Resource) (mode : Mode) :
    (t.enqueue txn res mode).graph = t.graph := graph_setLock t res _

@[simp] theorem victims_enqueue (txn : TxnId) (res : Resource) (mode : Mode) :
    (t.enqueue txn res mode).victims = t.victims := victims_setLock t res _

/-! ## Giving up -/

theorem lock_abandon (txn : TxnId) (res res' : Resource) :
    (t.abandon txn res).lock res' =
      if res' = res then (t.lock res).dequeue txn else t.lock res' :=
  lock_setLock t res res' _

@[simp] theorem graph_abandon (txn : TxnId) (res : Resource) :
    (t.abandon txn res).graph = t.graph.clearWaits txn := by
  simp [abandon]

@[simp] theorem victims_abandon (txn : TxnId) (res : Resource) :
    (t.abandon txn res).victims = t.victims.erase txn := by
  simp [abandon]

/-! ## Waiting -/

@[simp] theorem lock_noteWaits (txn : TxnId) (res res' : Resource) (mode : Mode) :
    (t.noteWaits txn res mode).lock res' = t.lock res' := rfl

@[simp] theorem graph_noteWaits (txn : TxnId) (res : Resource) (mode : Mode) :
    (t.noteWaits txn res mode).graph = t.graph.setWaits txn ((t.lock res).blockers txn mode) := rfl

@[simp] theorem victims_noteWaits (txn : TxnId) (res : Resource) (mode : Mode) :
    (t.noteWaits txn res mode).victims = t.victims := rfl

/-- A victim is picked to break a cycle and waits no longer. -/
def markVictim (t : LockTable) (victim : TxnId) (cycle : List TxnId) : LockTable :=
  { t with graph := t.graph.clearWaits victim, victims := t.victims.insert victim cycle }

@[simp] theorem lock_markVictim (victim : TxnId) (cycle : List TxnId) (res : Resource) :
    (t.markVictim victim cycle).lock res = t.lock res := rfl

/-- What looking for a deadlock comes to: nothing, or a victim from the cycle found. -/
theorem breakCycle_cases (txn : TxnId) :
    t.graph.cycleThrough txn = none ∧ t.breakCycle txn = (t, none) ∨
      ∃ cycle victim, t.graph.cycleThrough txn = some cycle ∧ victim ∈ cycle ∧
        t.breakCycle txn = (t.markVictim victim cycle, some victim) := by
  unfold breakCycle
  cases hcycle : t.graph.cycleThrough txn with
  | none => exact .inl ⟨rfl, rfl⟩
  | some cycle =>
    right
    -- A cycle that was found contains at least its start, so it has a largest member.
    obtain ⟨way, -, rfl⟩ := Option.map_eq_some_iff.1 hcycle
    exact ⟨_, _, rfl, WaitGraph.victim?_mem rfl, rfl⟩

/-! ## Release -/

theorem lock_release (txn : TxnId) (res res' : Resource) :
    (t.release txn res).1.lock res' =
      if res' = res then (t.lock res).unhold txn else t.lock res' := by
  rw [← lock_setLock]
  exact lock_setHeld _ _ _ res'

@[simp] theorem graph_release (txn : TxnId) (res : Resource) :
    (t.release txn res).1.graph = t.graph := by
  simp [release]

@[simp] theorem victims_release (txn : TxnId) (res : Resource) :
    (t.release txn res).1.victims = t.victims := by
  simp [release]

theorem lock_foldl_unhold (txn : TxnId) (resources : List Resource) (res : Resource) :
    (resources.foldl (fun t res => t.setLock res ((t.lock res).unhold txn)) t).lock res =
      if res ∈ resources then (t.lock res).unhold txn else t.lock res := by
  have hunhold (l : ResourceLock) : (l.unhold txn).unhold txn = l.unhold txn := by
    refine ResourceLock.unhold_eq_self (Bool.eq_false_iff.2 fun hholder => ?_)
    obtain ⟨m, hm⟩ := ResourceLock.isHolder_iff.1 hholder
    rw [ResourceLock.get?_unhold, if_pos rfl] at hm
    cases hm
  induction resources generalizing t with
  | nil => rfl
  | cons r rest ih =>
    rw [List.foldl_cons, ih, lock_setLock]
    by_cases hr : res = r
    · subst hr
      simp [hunhold]
    · simp [hr]

theorem lock_releaseAll (txn : TxnId) (res : Resource) :
    (t.releaseAll txn).1.lock res =
      if res ∈ t.heldBy txn then (t.lock res).unhold txn else t.lock res :=
  lock_foldl_unhold t txn (t.heldBy txn).toList res

@[simp] theorem graph_releaseAll (txn : TxnId) :
    (t.releaseAll txn).1.graph = t.graph.remove txn := by
  have h (resources : List Resource) :
      (resources.foldl (fun t res => t.setLock res ((t.lock res).unhold txn)) t).graph =
        t.graph := by
    induction resources generalizing t with
    | nil => rfl
    | cons r rest ih => rw [List.foldl_cons, ih, graph_setLock]
  simp only [releaseAll, h]

@[simp] theorem victims_releaseAll (txn : TxnId) :
    (t.releaseAll txn).1.victims = t.victims.erase txn := by
  have h (resources : List Resource) :
      (resources.foldl (fun t res => t.setLock res ((t.lock res).unhold txn)) t).victims =
        t.victims := by
    induction resources generalizing t with
    | nil => rfl
    | cons r rest ih => rw [List.foldl_cons, ih, victims_setLock]
  simp only [releaseAll, h]

end LockTable
end WalStore

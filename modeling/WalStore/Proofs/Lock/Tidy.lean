import Mathlib.Data.List.Perm.Basic
import WalStore.Proofs.Lock.Held
import WalStore.Proofs.Lock.Queue

/-!
# The lock table is kept tidy

**Theorem (`tidy_run`).** After any orderly run the lock table holds exactly what it has to. What an
owner holds is listed under the owner and under each resource, a resource that nobody holds or asks
for has no entry, the queues list the requests asleep one by one, and only owners of such requests
have edges or a mark (`Tidy`). A request that fails therefore leaves nothing behind, and its owner
keeps the locks it had (`forgotten_of_ends`).

The table by itself is tidy after each of its changes, whoever makes them (`LockTable.Tidy`). That
the calls asleep are the ones in the queues needs an orderly run (`Consistent`).
-/

namespace WalStore

open Monitor

/-! ## Edges -/

/-- Owners without edges are not kept. -/
def WaitGraph.Kept (g : WaitGraph) : Prop :=
  ∀ a bs, g.edges.get? a = some bs → bs.isEmpty = false

namespace WaitGraph

variable {g : WaitGraph}

theorem Kept.setWaits (h : g.Kept) (waiter : TxnId) (blockers : SortedSet TxnId) :
    (g.setWaits waiter blockers).Kept := by
  intro a bs hget
  unfold WaitGraph.setWaits at hget
  split at hget
  · rw [SortedMap.get?_erase] at hget
    split at hget
    · cases hget
    · exact h a bs hget
  · next hsome =>
    rw [SortedMap.get?_insert] at hget
    split at hget
    · cases hget
      exact Bool.eq_false_iff.2 hsome
    · exact h a bs hget

theorem Kept.clearWaits (h : g.Kept) (waiter : TxnId) : (g.clearWaits waiter).Kept := by
  intro a bs hget
  rw [WaitGraph.clearWaits, SortedMap.get?_erase] at hget
  split at hget
  · cases hget
  · exact h a bs hget

theorem kept_remove (g : WaitGraph) (owner : TxnId) : (g.remove owner).Kept := by
  intro a bs hget
  rw [remove, SortedMap.get?_filterMapValues, Option.bind_eq_some_iff] at hget
  obtain ⟨before, -, hrest⟩ := hget
  dsimp only at hrest
  split at hrest
  · cases hrest
  · next hsome =>
    cases hrest
    exact Bool.eq_false_iff.2 hsome

/-- Whoever is kept has an edge. -/
theorem Kept.exists_edge (h : g.Kept) {a : TxnId} {bs : SortedSet TxnId}
    (hget : g.edges.get? a = some bs) : ∃ b, g.Edge a b := by
  by_contra hnone
  have hempty : bs.isEmpty = true := by
    refine SortedSet.isEmpty_iff.2 fun b hb => hnone ⟨b, ?_⟩
    rw [Edge, WaitGraph.blockers, SortedMap.getD, hget]
    exact hb
  rw [h a bs hget] at hempty
  cases hempty

end WaitGraph

/-! ## The table -/

/-- The table says the same about each lock twice, and keeps nothing that says nothing. -/
structure LockTable.Tidy (t : LockTable) : Prop where
  held : ∀ txn res, res ∈ t.heldBy txn ↔ (t.lock res).isHolder txn = true
  kept : ∀ txn rs, t.held.get? txn = some rs → rs.isEmpty = false
  busy : ∀ res l, t.resources.get? res = some l → l.isIdle = false
  graph : t.graph.Kept

namespace LockTable

theorem tidy_empty : empty.Tidy where
  held _ _ := ⟨fun h => absurd h SortedSet.not_mem_empty, nofun⟩
  kept _ _ h := nomatch h
  busy _ _ h := nomatch h
  graph _ _ h := nomatch h

variable {t : LockTable}

theorem get?_resources_setLock (t : LockTable) (res res' : Resource) (l : ResourceLock) :
    (t.setLock res l).resources.get? res' =
      if res' = res then if l.isIdle then none else some l else t.resources.get? res' := by
  unfold setLock
  by_cases h : l.isIdle = true
  · rw [if_pos h, if_pos h, SortedMap.get?_erase]
  · rw [if_neg h, if_neg h, SortedMap.get?_insert]

theorem busy_setLock (h : ∀ res l, t.resources.get? res = some l → l.isIdle = false)
    (res : Resource) (l : ResourceLock) (res' : Resource) (l' : ResourceLock)
    (hget : (t.setLock res l).resources.get? res' = some l') : l'.isIdle = false := by
  rw [get?_resources_setLock] at hget
  split at hget
  · split at hget
    · cases hget
    · next hidle =>
      cases hget
      exact Bool.eq_false_iff.2 hidle
  · exact h res' l' hget

theorem get?_held_setHeld (t : LockTable) (txn u : TxnId) (rs : SortedSet Resource) :
    (t.setHeld txn rs).held.get? u =
      if u = txn then if rs.isEmpty then none else some rs else t.held.get? u := by
  unfold setHeld
  by_cases h : rs.isEmpty = true
  · rw [if_pos h, if_pos h, SortedMap.get?_erase]
  · rw [if_neg h, if_neg h, SortedMap.get?_insert]

theorem heldBy_setHeld (t : LockTable) (txn u : TxnId) (rs : SortedSet Resource) :
    (t.setHeld txn rs).heldBy u = if u = txn then rs else t.heldBy u := by
  rw [heldBy, SortedMap.getD, get?_held_setHeld]
  split
  · split
    · next hempty => exact (SortedSet.eq_empty_of_isEmpty hempty).symm
    · rfl
  · rfl

@[simp] theorem resources_setHeld (t : LockTable) (txn : TxnId) (rs : SortedSet Resource) :
    (t.setHeld txn rs).resources = t.resources := by
  unfold setHeld
  split <;> rfl

/-! ### Changes -/

/-- The graph and the victims say nothing about who holds what. -/
theorem Tidy.withGraph (h : t.Tidy) {g : WaitGraph} (hg : g.Kept)
    (victims : SortedMap TxnId (List TxnId)) : ({ t with graph := g, victims } : LockTable).Tidy :=
  ⟨h.held, h.kept, h.busy, hg⟩

/-- Queues may change as long as the holders do not. -/
theorem Tidy.setLock (h : t.Tidy) {res : Resource} {l : ResourceLock}
    (hl : l.holders = (t.lock res).holders) : (t.setLock res l).Tidy := by
  refine ⟨fun txn res' => ?_, fun txn rs hget => ?_, busy_setLock h.busy res l, ?_⟩
  · rw [heldBy, held_setLock, lock_setLock]
    refine (h.held txn res').trans ?_
    split
    · next hres => rw [hres, ResourceLock.isHolder, ResourceLock.isHolder, hl]
    · rfl
  · rw [held_setLock] at hget
    exact h.kept txn rs hget
  · rw [graph_setLock]
    exact h.graph

/-- One owner's hold on one resource changes. -/
theorem Tidy.setHold (h : t.Tidy) {txn : TxnId} {res : Resource} {l : ResourceLock}
    {rs : SortedSet Resource} (hothers : ∀ u, u ≠ txn → l.isHolder u = (t.lock res).isHolder u)
    (hself : res ∈ rs ↔ l.isHolder txn = true)
    (helse : ∀ res', res' ≠ res → (res' ∈ rs ↔ res' ∈ t.heldBy txn)) :
    ((t.setLock res l).setHeld txn rs).Tidy := by
  refine ⟨fun u res' => ?_, fun u rs' hget => ?_, fun res' l' hget => ?_, ?_⟩
  · rw [heldBy_setHeld, heldBy, held_setLock, lock_setHeld, lock_setLock]
    by_cases hu : u = txn <;> by_cases hres : res' = res
    · rw [if_pos hu, if_pos hres, hres, hu]
      exact hself
    · rw [if_pos hu, if_neg hres, hu, helse res' hres]
      exact h.held txn res'
    · rw [if_neg hu, if_pos hres, hres, hothers u hu]
      exact h.held u res
    · rw [if_neg hu, if_neg hres]
      exact h.held u res'
  · rw [get?_held_setHeld] at hget
    split at hget
    · split at hget
      · cases hget
      · next hsome =>
        cases hget
        exact Bool.eq_false_iff.2 hsome
    · rw [held_setLock] at hget
      exact h.kept u rs' hget
  · rw [resources_setHeld] at hget
    exact busy_setLock h.busy res l res' l' hget
  · rw [graph_setHeld, graph_setLock]
    exact h.graph

theorem Tidy.grant (h : t.Tidy) (txn : TxnId) (res : Resource) (mode : Mode) :
    (t.grant txn res mode).Tidy := by
  have hold (u : TxnId) : (((t.lock res).dequeue txn).hold txn mode).isHolder u =
      if u = txn then true else (t.lock res).isHolder u := by
    rw [ResourceLock.isHolder, SortedMap.contains, ResourceLock.get?_hold]
    split <;> rfl
  have hset : ((t.setLock res (((t.lock res).dequeue txn).hold txn mode)).setHeld txn
      ((t.heldBy txn).insert res)).Tidy := by
    refine h.setHold (fun u hu => ?_) ?_ fun res' hres => ?_
    · rw [hold, if_neg hu]
    · simp [hold, SortedSet.mem_insert]
    · simp [SortedSet.mem_insert, hres]
  have hheld : (t.setLock res (((t.lock res).dequeue txn).hold txn mode)).heldBy txn =
      t.heldBy txn := by
    rw [heldBy, held_setLock, heldBy]
  unfold LockTable.grant
  dsimp only
  rw [hheld]
  exact hset.withGraph (hset.graph.clearWaits txn) _

theorem Tidy.abandon (h : t.Tidy) (txn : TxnId) (res : Resource) : (t.abandon txn res).Tidy := by
  have hset : (t.setLock res ((t.lock res).dequeue txn)).Tidy :=
    h.setLock (ResourceLock.holders_dequeue _ txn)
  exact hset.withGraph (hset.graph.clearWaits txn) _

theorem Tidy.enqueue (h : t.Tidy) (txn : TxnId) (res : Resource) (mode : Mode) :
    (t.enqueue txn res mode).Tidy :=
  h.setLock (ResourceLock.holders_enqueue _ txn mode)

theorem Tidy.noteWaits (h : t.Tidy) (txn : TxnId) (res : Resource) (mode : Mode) :
    (t.noteWaits txn res mode).Tidy := h.withGraph (h.graph.setWaits txn _) t.victims

theorem Tidy.markVictim (h : t.Tidy) (victim : TxnId) (cycle : List TxnId) :
    (t.markVictim victim cycle).Tidy := h.withGraph (h.graph.clearWaits victim) _

theorem Tidy.release (h : t.Tidy) (txn : TxnId) (res : Resource) : (t.release txn res).1.Tidy := by
  have unhold (u : TxnId) : ((t.lock res).unhold txn).isHolder u =
      if u = txn then false else (t.lock res).isHolder u := by
    rw [ResourceLock.isHolder, SortedMap.contains, ResourceLock.get?_unhold]
    split <;> rfl
  have hheld : (t.setLock res ((t.lock res).unhold txn)).heldBy txn = t.heldBy txn := by
    rw [heldBy, held_setLock, heldBy]
  unfold LockTable.release
  dsimp only
  rw [hheld]
  refine h.setHold (fun u hu => ?_) ?_ fun res' hres => ?_
  · rw [unhold, if_neg hu]
  · simp [unhold, SortedSet.mem_erase]
  · simp [SortedSet.mem_erase, hres]

theorem Tidy.releaseAll (h : t.Tidy) (txn : TxnId) : (t.releaseAll txn).1.Tidy := by
  have hbusy (resources : List Resource) : ∀ res l,
      (resources.foldl (fun t res => t.setLock res ((t.lock res).unhold txn)) t).resources.get?
        res = some l → l.isIdle = false := by
    induction resources using List.reverseRecOn with
    | nil => exact h.busy
    | append_singleton rest res ih =>
      rw [List.foldl_append]
      exact busy_setLock ih res _
  have hheld (u : TxnId) : (t.releaseAll txn).1.held.get? u =
      if u = txn then none else t.held.get? u := by
    have hfold (resources : List Resource) :
        (resources.foldl (fun t res => t.setLock res ((t.lock res).unhold txn)) t).held =
          t.held := by
      induction resources using List.reverseRecOn with
      | nil => rfl
      | append_singleton rest res ih =>
        rw [List.foldl_append]
        exact (held_setLock _ res _).trans ih
    rw [← SortedMap.get?_erase, ← hfold (t.heldBy txn).toList]
    rfl
  refine ⟨fun u res => ?_, fun u rs hget => ?_, fun res l => hbusy _ res l, ?_⟩
  · rw [heldBy, SortedMap.getD, hheld, lock_releaseAll]
    by_cases hu : u = txn
    · subst hu
      simp only [if_true, Option.getD_none, SortedSet.not_mem_empty, false_iff]
      by_cases hres : res ∈ t.heldBy u
      · rw [if_pos hres, ResourceLock.isHolder, SortedMap.contains, ResourceLock.get?_unhold,
          if_pos rfl]
        exact Bool.false_ne_true
      · rw [if_neg hres, ← h.held]
        exact hres
    · rw [if_neg hu]
      refine (h.held u res).trans ?_
      split
      · rw [ResourceLock.isHolder, ResourceLock.isHolder, SortedMap.contains, SortedMap.contains,
          ResourceLock.get?_unhold, if_neg hu]
      · rfl
  · rw [hheld] at hget
    split at hget
    · cases hget
    · exact h.kept u rs hget
  · rw [graph_releaseAll]
    exact t.graph.kept_remove txn

theorem invariant_tidy : Invariant Tidy where
  grant h _ := h.grant _ _ _
  abandon h := h.abandon
  enqueue h := h.enqueue
  noteWaits h _ := h.noteWaits _
  markVictim h := h.markVictim
  release h := h.release
  releaseAll h := h.releaseAll

/-- How many locks an owner holds, counted over the resources. -/
theorem Tidy.count_releaseAll (h : t.Tidy) (txn : TxnId) :
    (t.releaseAll txn).2 = t.resources.entries.countP fun e => e.2.isHolder txn := by
  have hperm : (t.heldBy txn).toList.Perm
      ((t.resources.entries.filter fun e => e.2.isHolder txn).map (·.1)) := by
    refine (List.perm_ext_iff_of_nodup (SortedSet.nodup_toList _) ?_).2 fun res => ?_
    · exact t.resources.nodup_keys.sublist (List.filter_sublist.map _)
    · refine (h.held txn res).trans ?_
      simp only [List.mem_map, List.mem_filter, Prod.exists, exists_and_right, exists_eq_right,
        ← SortedMap.get?_eq_some_iff, lock, SortedMap.getD]
      cases t.resources.get? res with
      | none => simp [ResourceLock.empty, ResourceLock.isHolder, SortedMap.contains]
      | some l => simp
  rw [List.countP_eq_length_filter, ← List.length_map, ← hperm.length_eq]
  rfl

end LockTable

/-! ## Looks -/

namespace LockState

variable {s : LockState} {w : Waiting} {look : RequestLook} {sight : Sight} {r : LockRequest}

/-- Only a grant changes what is held. -/
theorem Attempt.holders_eq {queued : Bool} (h : Attempt queued sight w s look)
    (hfate : ∀ g, look.fate ≠ .returns (.ok g)) (res : Resource) :
    (look.state.table.lock res).holders = (s.table.lock res).holders := by
  have habandon (t : LockTable) (txn : TxnId) (res' : Resource) :
      ((t.abandon txn res').lock res).holders = (t.lock res).holders := by
    rw [LockTable.lock_abandon]
    split
    · next hres => rw [hres, ResourceLock.holders_dequeue]
    · rfl
  cases h with
  | victim => exact habandon _ _ _
  | grant _ _ _ g => exact absurd rfl (hfate g)
  | fail => exact habandon _ _ _
  | stay _ _ _ _ hstay =>
    have hqueued : ((if queued then s else s.queueUp w.request).table.lock res).holders =
        (s.table.lock res).holders := by
      cases queued
      · simp only [queueUp, LockTable.lock_enqueue, Bool.false_eq_true, if_false]
        split
        · next hres => rw [hres, ResourceLock.holders_enqueue]
        · rfl
      · rfl
    cases hstay with
    | sleep => exact hqueued
    | spare => exact hqueued
    | yield => exact (habandon _ _ _).trans hqueued

/-- A look changes what its own owner holds at most. -/
theorem Attempt.holders_of_ne {queued : Bool} (h : Attempt queued sight w s look) {u : TxnId}
    (hu : u ≠ w.request.txn) (res : Resource) :
    (look.state.table.lock res).holders.get? u = (s.table.lock res).holders.get? u := by
  by_cases hgrant : ∃ g, look.fate = .returns (.ok g)
  · obtain ⟨g, hg⟩ := hgrant
    cases h with
    | victim => cases hg
    | grant =>
      rw [LockTable.lock_grant]
      split
      · next hres => rw [hres, ResourceLock.get?_hold, if_neg hu, ResourceLock.holders_dequeue]
      · rfl
    | fail => cases hg
    | stay _ _ _ _ hstay => cases hstay <;> cases hg
  · rw [h.holders_eq (not_exists.1 hgrant)]

theorem Arrival.holders_eq (h : Arrival sight r s look)
    (hfate : ∀ g, look.fate ≠ .returns (.ok g)) (res : Resource) :
    (look.state.table.lock res).holders = (s.table.lock res).holders := by
  cases h with
  | held => exact absurd rfl (hfate _)
  | attempt _ hattempt => exact hattempt.holders_eq hfate res

theorem Arrival.holders_of_ne (h : Arrival sight r s look) {u : TxnId} (hu : u ≠ r.txn)
    (res : Resource) :
    (look.state.table.lock res).holders.get? u = (s.table.lock res).holders.get? u := by
  cases h with
  | held => rfl
  | attempt _ hattempt => exact hattempt.holders_of_ne hu res

end LockState

/-! ## The manager -/

namespace LockManager

/-- The requests asleep for a resource, one for each call. -/
def requestsFor (m : LockManager) (res : Resource) : List Queued :=
  (m.sleepers.entries.filter fun e => e.2.memory.request.resource = res).map fun e =>
    ⟨e.2.memory.request.txn, e.2.memory.request.mode⟩

/-- The table keeps what it has to and nothing else. -/
structure Tidy (m : LockManager) : Prop where
  /-- What an owner holds is what lists it as a holder. -/
  held : ∀ txn res, res ∈ m.shared.table.heldBy txn ↔
    ∃ mode, (txn, mode) ∈ m.shared.table.holders res
  /-- Owners of nothing are not kept. -/
  absent : ∀ txn, (∀ res mode, ¬(txn, mode) ∈ m.shared.table.holders res) →
    m.shared.table.held.get? txn = none
  /-- A resource has an entry only if it has a holder or a queued request. -/
  busy : ∀ res l, m.shared.table.resources.get? res = some l →
    l.holders.entries ≠ [] ∨ l.queue ≠ []
  /-- The requests queued are those of the calls asleep, one for each. -/
  queued : ∀ res, (m.shared.table.lock res).queue.Perm (m.requestsFor res)
  /-- An owner has one call asleep at most. -/
  single : ∀ c₁ s₁ c₂ s₂, m.sleepers.get? c₁ = some s₁ → m.sleepers.get? c₂ = some s₂ →
    s₁.memory.request.txn = s₂.memory.request.txn → c₁ = c₂
  waiting : ∀ a bs, m.shared.table.graph.edges.get? a = some bs → m.IsAsleep a
  marked : ∀ v cycle, m.shared.table.victims.get? v = some cycle → m.IsAsleep v

theorem Consistent.perm_requestsFor {m : LockManager} (h : m.Consistent) (res : Resource) :
    (m.shared.table.lock res).queue.Perm (m.requestsFor res) := by
  refine (List.perm_ext_iff_of_nodup ((h.nodup res).of_map _) ?_).2 fun q => ?_
  · refine List.Nodup.map_on ?_ (m.sleepers.nodup_entries.filter _)
    rintro ⟨c₁, s₁⟩ h₁ ⟨c₂, s₂⟩ h₂ heq
    have hget₁ := SortedMap.get?_eq_some_iff.2 (List.mem_filter.1 h₁).1
    have hget₂ := SortedMap.get?_eq_some_iff.2 (List.mem_filter.1 h₂).1
    cases h.unique c₁ s₁ c₂ s₂ hget₁ hget₂ (congrArg Queued.txn heq)
    rw [hget₁] at hget₂
    cases hget₂
    rfl
  · rw [h.queued, requestsFor, List.mem_map]
    constructor
    · rintro ⟨r, ⟨c, s, hget, rfl⟩, hres, rfl⟩
      exact ⟨(c, s),
        List.mem_filter.2 ⟨SortedMap.get?_eq_some_iff.1 hget, decide_eq_true hres⟩, rfl⟩
    · rintro ⟨⟨c, s⟩, he, rfl⟩
      obtain ⟨he, hres⟩ := List.mem_filter.1 he
      exact ⟨_, ⟨c, s, SortedMap.get?_eq_some_iff.2 he, rfl⟩, of_decide_eq_true hres, rfl⟩

theorem Consistent.tidy {m : LockManager} (h : m.Consistent) (ht : m.shared.table.Tidy) :
    m.Tidy := by
  have hholder (txn : TxnId) (res : Resource) : (m.shared.table.lock res).isHolder txn = true ↔
      ∃ mode, (txn, mode) ∈ m.shared.table.holders res := by
    simp only [ResourceLock.isHolder_iff, SortedMap.get?_eq_some_iff, LockTable.holders]
  refine ⟨fun txn res => (ht.held txn res).trans (hholder txn res), fun txn hnone => ?_,
    fun res l hget => ?_, h.perm_requestsFor, h.unique, fun a bs hget => ?_,
    fun v cycle hv => ?_⟩
  · rw [Option.eq_none_iff_forall_ne_some]
    intro rs hrs
    have hempty : rs.isEmpty = true := by
      refine SortedSet.isEmpty_iff.2 fun res hres => ?_
      have hmem : res ∈ m.shared.table.heldBy txn := by
        rw [LockTable.heldBy, SortedMap.getD, hrs]
        exact hres
      obtain ⟨mode, hmode⟩ := (hholder txn res).1 ((ht.held txn res).1 hmem)
      exact hnone res mode hmode
    rw [ht.kept txn rs hrs] at hempty
    cases hempty
  · have hbusy := ht.busy res l hget
    rw [ResourceLock.isIdle, Bool.and_eq_false_iff, SortedMap.isEmpty] at hbusy
    exact hbusy.imp List.isEmpty_eq_false_iff.1 List.isEmpty_eq_false_iff.1
  · obtain ⟨b, hedge⟩ := ht.graph.exists_edge hget
    exact h.edges a b hedge
  · obtain ⟨c, s, hs, htxn, -⟩ := h.victims v cycle hv
    exact ⟨c, s, hs, htxn⟩

/-! ## Requests that fail -/

/-- The result that a call gets by an event, if it gets one. -/
def outcomeOf? (m : LockManager) (call : Nat) (e : Event) : Option LockState.Outcome :=
  if e.call? = some call then m.outcome? e else none

/-- The call with number `call` gets this result by the last of the events. -/
inductive Ends (call : Nat) (outcome : LockState.Outcome) : LockManager → List Event → Prop
  | last {m : LockManager} {e : Event} (h : m.outcomeOf? call e = some outcome) :
      Ends call outcome m [e]
  | later {m : LockManager} {e : Event} {es : List Event} (h : m.outcomeOf? call e = none)
      (hes : Ends call outcome (m.step e) es) : Ends call outcome m (e :: es)

/-- A call gets its result by a look of its own. -/
theorem eq_of_outcomeOf? {m : LockManager} {call : Nat} {e : Event} {outcome : LockState.Outcome}
    (h : m.outcomeOf? call e = some outcome) :
    (∃ now, e = .recheck now call) ∨ ∃ now token r, e = .acquire now call token r := by
  unfold outcomeOf? at h
  split at h
  · next hcall =>
    cases e with
    | acquire now c token r =>
      cases hcall
      exact .inr ⟨now, token, r, rfl⟩
    | recheck now c =>
      cases hcall
      exact .inl ⟨now, rfl⟩
    | _ => cases hcall
  · cases h

/-- Nothing in the table is due to a request of this owner. -/
structure Forgotten (m : LockManager) (txn : TxnId) : Prop where
  queue : ∀ res, ∀ q ∈ (m.shared.table.lock res).queue, q.txn ≠ txn
  edges : m.shared.table.graph.edges.get? txn = none
  victims : m.shared.table.victims.get? txn = none

theorem Tidy.forgotten {m : LockManager} (h : m.Tidy) {txn : TxnId} (hfree : ¬m.IsAsleep txn) :
    m.Forgotten txn := by
  refine ⟨fun res q hq htxn => ?_, ?_, ?_⟩
  · obtain ⟨⟨c, s⟩, he, rfl⟩ := List.mem_map.1 ((h.queued res).subset hq)
    exact hfree ⟨c, s, SortedMap.get?_eq_some_iff.2 (List.mem_filter.1 he).1, htxn⟩
  · exact Option.eq_none_iff_forall_ne_some.2 fun bs hbs => hfree (h.waiting txn bs hbs)
  · exact Option.eq_none_iff_forall_ne_some.2 fun cycle hv => hfree (h.marked txn cycle hv)

/-- What is held by the owner of a call asleep does not change while others do something. -/
theorem Consistent.holders_step {m : LockManager} (h : m.Consistent) {e : Event}
    (he : e.Orderly m) {call : Nat} {s : Sleeper Waiting} (hget : m.sleepers.get? call = some s)
    (hother : ∀ now, e ≠ .recheck now call) :
    (∃ notify, (m.step e).sleepers.get? call = some (s.nudged notify)) ∧
      ∀ res, ((m.step e).shared.table.lock res).holders.get? s.memory.request.txn =
        (m.shared.table.lock res).holders.get? s.memory.request.txn := by
  have hasleep : m.IsAsleep s.memory.request.txn := ⟨call, s, hget, rfl⟩
  cases m.step_effect e with
  | @arrive now call' token r cancelled look m' harrival hlooked =>
    obtain ⟨hcall, hfree⟩ := he
    have hne : call ≠ call' := by
      rintro rfl
      rw [hget] at hcall
      cases hcall
    have htxn : s.memory.request.txn ≠ r.txn := fun heq => hfree (heq ▸ hasleep)
    rw [hlooked.shared]
    exact ⟨⟨_, sleeper_looked_ne hlooked hget hne⟩, harrival.holders_of_ne htxn⟩
  | @again now call' s' cancelled look m' hget' hwoken hattempt hlooked =>
    have hne : call ≠ call' := by
      rintro rfl
      exact hother now rfl
    have htxn : s.memory.request.txn ≠ s'.memory.request.txn := fun heq =>
      hne (h.unique call s call' s' hget hget' heq)
    rw [hlooked.shared]
    exact ⟨⟨_, sleeper_looked_ne hlooked hget hne⟩, hattempt.holders_of_ne htxn⟩
  | @release txn res m' hshared hsleepers =>
    have htxn : s.memory.request.txn ≠ txn := fun heq => he (heq ▸ hasleep)
    refine ⟨⟨_, by rw [hsleepers, hget]; rfl⟩, fun res' => ?_⟩
    rw [hshared, LockTable.lock_release]
    split
    · next hres => rw [hres, ResourceLock.get?_unhold, if_neg htxn]
    · rfl
  | @releaseAll txn m' hshared hsleepers =>
    have htxn : s.memory.request.txn ≠ txn := fun heq => he (heq ▸ hasleep)
    refine ⟨⟨_, by rw [hsleepers, hget]; rfl⟩, fun res' => ?_⟩
    rw [hshared, LockTable.lock_releaseAll]
    split
    · rw [ResourceLock.get?_unhold, if_neg htxn]
    · rfl
  | @wake _ m' nudge hshared hsleepers =>
    refine ⟨⟨_, by rw [hsleepers, hget]; rfl⟩, fun res' => ?_⟩
    rw [hshared]

/-- What a look of a call with the request `r` means for its owner, by its outcome. -/
structure Answered (m : LockManager) (call : Nat) (r : LockRequest)
    (outcome : Option LockState.Outcome) (m' : LockManager) : Prop where
  asleep : outcome = none → ∃ s, m'.sleepers.get? call = some s ∧ s.memory.request = r
  failed : ∀ e, outcome = some (.error e) → ¬m'.IsAsleep r.txn
  holders : (∀ g, outcome ≠ some (.ok g)) → ∀ res,
    (m'.shared.table.lock res).holders = (m.shared.table.lock res).holders

theorem answered_looked {m m' : LockManager} {call : Nat} {r : LockRequest}
    {look : LockState.RequestLook} (hlooked : Looked m call look m') (howns : m.Owns call r)
    (hholders : (∀ g, look.fate ≠ .returns (.ok g)) → ∀ res,
      (look.state.table.lock res).holders = (m.shared.table.lock res).holders)
    (hrequest : ∀ w, look.fate = .sleeps w → w.request = r) :
    m.Answered call r look.fate.result? m' := by
  refine ⟨fun hnone => ?_, fun e he => ?_, fun hok => ?_⟩
  · cases hfate : look.fate with
    | returns result =>
      rw [hfate] at hnone
      cases hnone
    | sleeps w =>
      obtain ⟨-, token, hsleepers⟩ := hlooked
      exact ⟨⟨w, token, false⟩, by rw [hsleepers, if_pos rfl, hfate]; rfl, hrequest w hfate⟩
  · cases hfate : look.fate with
    | returns result =>
      rintro ⟨c, s, hget, htxn⟩
      exact ((asleep_returned hlooked howns hfate _).1 ⟨c, s, hget, rfl⟩).2 htxn
    | sleeps w =>
      rw [hfate] at he
      cases he
  · rw [hlooked.shared]
    exact hholders fun g hg => hok g (by rw [hg]; rfl)

theorem Consistent.answered_recheck {m : LockManager} (h : m.Consistent) {call : Nat}
    {s : Sleeper Waiting} (hget : m.sleepers.get? call = some s) (now : Instant) :
    m.Answered call s.memory.request (m.outcomeOf? call (.recheck now call))
      (m.step (.recheck now call)) := by
  have houtcome : m.outcomeOf? call (.recheck now call) =
      (m.recheck LockState.discipline now call).2 := if_pos rfl
  rw [houtcome, step]
  rcases m.recheck_spec now call with
    hrest | ⟨s', cancelled, look, hget', -, hattempt, hlooked, hresult⟩
  · rw [hrest]
    refine ⟨fun _ => ⟨s, hget, rfl⟩, fun e hfailed => ?_, fun _ _ => rfl⟩
    cases hfailed
  · rw [hget] at hget'
    cases hget'
    rw [hresult]
    exact answered_looked hlooked (h.owns hget) (fun hfate => hattempt.holders_eq hfate)
      fun w hw => congrArg (·.request) (hattempt.sleeps hw).1

theorem answered_acquire {m : LockManager} {now : Instant} {call : Nat} {token : Option TokenId}
    {r : LockRequest} (he : (Event.acquire now call token r).Orderly m) :
    m.Answered call r (m.outcomeOf? call (.acquire now call token r))
      (m.step (.acquire now call token r)) := by
  have houtcome : m.outcomeOf? call (.acquire now call token r) =
      (m.enter LockState.discipline now call token r).2 := if_pos rfl
  obtain ⟨cancelled, look, harrival, hlooked, hresult⟩ := m.enter_spec now call token r
  rw [houtcome, hresult, step]
  refine answered_looked hlooked (owns_of_fresh he.1 he.2)
    (fun hfate => harrival.holders_eq hfate) fun w hw => ?_
  have hsleeper : look.fate.sleeper? none = some ⟨w, none, false⟩ := by
    rw [hw]
    rfl
  exact harrival.request_eq hsleeper

/-- When the request of a call asleep fails, its owner is left with what it held before. -/
theorem Consistent.holders_of_ends {m : LockManager} (h : m.Consistent) {events : List Event}
    (horderly : Orderly m events) {call : Nat} {s : Sleeper Waiting}
    (hget : m.sleepers.get? call = some s) {e : Error} (hends : Ends call (.error e) m events) :
    ¬(m.run events).IsAsleep s.memory.request.txn ∧
      ∀ res, ((m.run events).shared.table.lock res).holders.get? s.memory.request.txn =
        (m.shared.table.lock res).holders.get? s.memory.request.txn := by
  induction hends generalizing s with
  | @last m e' hout =>
    obtain ⟨he, -⟩ := horderly
    rcases eq_of_outcomeOf? hout with ⟨now, rfl⟩ | ⟨now, token, r, rfl⟩
    · have hanswered := h.answered_recheck hget now
      have hholders := hanswered.holders fun g hg => by simp [hout] at hg
      exact ⟨hanswered.failed e hout,
        fun res => congrArg (SortedMap.get? · s.memory.request.txn) (hholders res)⟩
    · rw [he.1] at hget
      cases hget
  | @later m e' es hout hes ih =>
    obtain ⟨he, horderly⟩ := horderly
    have hc := consistent_step h he
    by_cases hown : ∃ now, e' = .recheck now call
    · obtain ⟨now, rfl⟩ := hown
      have hanswered := h.answered_recheck hget now
      have hholders := hanswered.holders fun g hg => by simp [hout] at hg
      obtain ⟨s', hget', hr⟩ := hanswered.asleep hout
      obtain ⟨hfree, hkept⟩ := ih hc horderly hget'
      rw [hr] at hfree hkept
      exact ⟨hfree, fun res => (hkept res).trans
        (congrArg (SortedMap.get? · s.memory.request.txn) (hholders res))⟩
    · obtain ⟨⟨notify, hget'⟩, hholders⟩ := h.holders_step he hget (not_exists.1 hown)
      obtain ⟨hfree, hkept⟩ := ih hc horderly hget'
      exact ⟨hfree, fun res => (hkept res).trans (hholders res)⟩

/-- A request that fails, at once or after any time asleep, leaves its owner with what it held
before, and asleep no more. -/
theorem Consistent.holders_of_acquire {m : LockManager} (h : m.Consistent) {now : Instant}
    {call : Nat} {token : Option TokenId} {r : LockRequest} {later : List Event}
    (horderly : Orderly m (.acquire now call token r :: later)) {e : Error}
    (hends : Ends call (.error e) m (.acquire now call token r :: later)) :
    ¬(m.run (.acquire now call token r :: later)).IsAsleep r.txn ∧
      ∀ res, ((m.run (.acquire now call token r :: later)).shared.table.lock res).holders.get?
        r.txn = (m.shared.table.lock res).holders.get? r.txn := by
  obtain ⟨he, horderly⟩ := horderly
  have hanswered := answered_acquire he
  cases hends with
  | last hout =>
    have hholders := hanswered.holders fun g hg => by simp [hout] at hg
    exact ⟨hanswered.failed e hout,
      fun res => congrArg (SortedMap.get? · r.txn) (hholders res)⟩
  | later hout hes =>
    have hholders := hanswered.holders fun g hg => by simp [hout] at hg
    obtain ⟨s, hget, rfl⟩ := hanswered.asleep hout
    obtain ⟨hfree, hkept⟩ := (consistent_step h he).holders_of_ends horderly hget hes
    exact ⟨hfree, fun res => (hkept res).trans
      (congrArg (SortedMap.get? · s.memory.request.txn) (hholders res))⟩

/-- **The table is tidy after every orderly run.** A request that fails with the last event leaves
nothing of its own behind, no entry of an idle resource, and what its owner held when it started.
Releasing all locks of an owner counts the resources that list it as a holder. -/
theorem tidy_run (detection : Bool) (events : List Event)
    (horderly : Orderly (fresh detection) events) :
    ((fresh detection).run events).Tidy ∧
      (∀ before now call token r later e, events = before ++ .acquire now call token r :: later →
        Ends call (.error e) ((fresh detection).run before) (.acquire now call token r :: later) →
        ((fresh detection).run events).Forgotten r.txn ∧
          ∀ res, (((fresh detection).run events).shared.table.lock res).holders.get? r.txn =
            (((fresh detection).run before).shared.table.lock res).holders.get? r.txn) ∧
      ∀ txn, (((fresh detection).run events).act (LockState.releaseAll txn)).2 =
        ((fresh detection).run events).shared.table.resources.entries.countP
          fun e => e.2.isHolder txn := by
  have hconsistent := consistent_of_run (consistent_fresh detection) horderly
  have htable := LockTable.invariant_tidy.run (m := fresh detection) LockTable.tidy_empty events
  have htidy := hconsistent.tidy htable
  refine ⟨htidy, ?_, fun txn => htable.count_releaseAll txn⟩
  rintro before now call token r later e rfl hends
  obtain ⟨hbefore, hlater⟩ := orderly_append.1 horderly
  rw [run_append] at htidy ⊢
  obtain ⟨hfree, hholders⟩ :=
    (consistent_of_run (consistent_fresh detection) hbefore).holders_of_acquire hlater hends
  exact ⟨htidy.forgotten hfree, hholders⟩

/-- An owner with one lock asks for another that is held, and gives up after some time. -/
def givingUp : List Event :=
  [.acquire 0 0 none ⟨⟨1⟩, ⟨[1]⟩, .write, .unbounded⟩,
    .acquire 0 1 none ⟨⟨2⟩, ⟨[2]⟩, .read, .unbounded⟩,
    .acquire 0 2 none ⟨⟨2⟩, ⟨[1]⟩, .write, ⟨some ⟨5, 5⟩, none⟩⟩, .wake 2, .recheck 5 2]

theorem tidy_run_givingUp : Orderly (fresh true) givingUp ∧
    ((fresh true).run givingUp).Forgotten ⟨2⟩ ∧
      (((fresh true).run givingUp).shared.table.lock ⟨[2]⟩).holders.get? ⟨2⟩ = some .read ∧
      (((fresh true).run givingUp).act (LockState.releaseAll ⟨2⟩)).2 = 1 := by
  have horderly : Orderly (fresh true) givingUp := by decide +kernel
  obtain ⟨-, hfails, hcount⟩ := tidy_run true givingUp horderly
  obtain ⟨hforgotten, hholders⟩ := hfails (givingUp.take 2) 0 2 none
    ⟨⟨2⟩, ⟨[1]⟩, .write, ⟨some ⟨5, 5⟩, none⟩⟩ [.wake 2, .recheck 5 2] (.lockTimeout ⟨2⟩ ⟨[1]⟩ 5) rfl
    (.later (by decide +kernel) (.later (by decide +kernel) (.last (by decide +kernel))))
  exact ⟨horderly, hforgotten, (hholders ⟨[2]⟩).trans (by decide +kernel),
    (hcount ⟨2⟩).trans (by decide +kernel)⟩

end LockManager
end WalStore

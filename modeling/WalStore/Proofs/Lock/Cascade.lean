import Mathlib.Data.Finset.Card
import Mathlib.Tactic.Ring
import WalStore.Proofs.Lock.Invariant
import WalStore.Proofs.Lock.Queue

/-!
# Looking again comes to an end

**Theorem (`length_le_of_cascade`).** Calls that have been woken may look again in any order and
under any clock, and a look may wake all others: after no more looks than `patience` says, no call
is left that has been woken.

**The measure.** A look that wakes others either returns, so that a call less is asleep, or picks a
victim. A victim is asleep and had not been marked before, since the edges of a victim are dropped
when it is marked and it gets no new ones (`Told`). So every look that wakes others uses up a call
or a mark, and there are no more marks to come than calls that are not marked. A look that wakes
nobody leaves one call less to look again (`effort`).
-/

namespace WalStore

open Monitor

/-! ## Marks -/

/-- Whoever is marked as a victim waits for nobody any more. -/
def LockTable.Told (t : LockTable) : Prop :=
  ∀ v cycle, t.victims.get? v = some cycle → ∀ b, ¬t.graph.Edge v b

namespace LockTable

theorem told_empty : empty.Told := fun _ _ h => nomatch h

variable {t : LockTable}

/-- Marks and edges may go. -/
theorem Told.mono {t' : LockTable} (h : t.Told)
    (hvictims : ∀ v cycle, t'.victims.get? v = some cycle → t.victims.get? v = some cycle)
    (hedges : ∀ a b, t'.graph.Edge a b → t.graph.Edge a b) : t'.Told :=
  fun v cycle hv b hedge => h v cycle (hvictims v cycle hv) b (hedges v b hedge)

theorem Told.abandon (h : t.Told) (txn : TxnId) (res : Resource) : (t.abandon txn res).Told := by
  refine h.mono (fun v cycle hv => ?_) fun a b hedge => ?_
  · rw [victims_abandon, SortedMap.get?_erase] at hv
    split at hv
    · cases hv
    · exact hv
  · rw [graph_abandon] at hedge
    exact (WaitGraph.edge_clearWaits.1 hedge).2

theorem Told.grant (h : t.Told) (txn : TxnId) (res : Resource) (mode : Mode) :
    (t.grant txn res mode).Told := by
  refine h.mono (fun v cycle hv => ?_) fun a b hedge => ?_
  · rwa [victims_grant] at hv
  · rw [graph_grant] at hedge
    exact (WaitGraph.edge_clearWaits.1 hedge).2

theorem Told.enqueue (h : t.Told) (txn : TxnId) (res : Resource) (mode : Mode) :
    (t.enqueue txn res mode).Told := by
  refine h.mono (fun v cycle hv => ?_) fun a b hedge => ?_
  · rwa [victims_enqueue] at hv
  · rwa [graph_enqueue] at hedge

/-- Only who is not marked gets new edges. -/
theorem Told.noteWaits (h : t.Told) {txn : TxnId} (hvictim : t.victims.get? txn = none)
    (res : Resource) (mode : Mode) : (t.noteWaits txn res mode).Told := by
  intro v cycle hv b hedge
  rw [victims_noteWaits] at hv
  have hne : v ≠ txn := by
    rintro rfl
    rw [hvictim] at hv
    cases hv
  exact h v cycle hv b ((WaitGraph.edge_setWaits_of_ne hne).1 hedge)

theorem Told.markVictim (h : t.Told) (victim : TxnId) (cycle : List TxnId) :
    (t.markVictim victim cycle).Told := by
  intro v cycle' hv b hedge
  obtain ⟨hne, hedge⟩ := WaitGraph.edge_clearWaits.1 hedge
  rw [LockTable.markVictim, SortedMap.get?_insert, if_neg hne] at hv
  exact h v cycle' hv b hedge

theorem Told.release (h : t.Told) (txn : TxnId) (res : Resource) : (t.release txn res).1.Told := by
  refine h.mono (fun v cycle hv => ?_) fun a b hedge => ?_
  · rwa [victims_release] at hv
  · rwa [graph_release] at hedge

theorem Told.releaseAll (h : t.Told) (txn : TxnId) : (t.releaseAll txn).1.Told := by
  refine h.mono (fun v cycle hv => ?_) fun a b hedge => ?_
  · rw [victims_releaseAll, SortedMap.get?_erase] at hv
    split at hv
    · cases hv
    · exact hv
  · rw [graph_releaseAll] at hedge
    exact (WaitGraph.edge_remove.1 hedge).2.2

theorem invariant_told : Invariant Told where
  grant h _ := h.grant _ _ _
  abandon h := h.abandon
  enqueue h := h.enqueue
  noteWaits h hvictim := h.noteWaits hvictim
  markVictim h := h.markVictim
  release h := h.release
  releaseAll h := h.releaseAll

end LockTable

namespace LockState

variable {queued : Bool} {sight : Sight} {s : LockState} {w : Waiting} {look : RequestLook}

/-- A look that returns changes no mark but its own. -/
theorem Attempt.victims_of_returns (h : Attempt queued sight w s look) {result : Outcome}
    (hfate : look.fate = .returns result) {v : TxnId} (hv : v ≠ w.request.txn) :
    look.state.table.victims.get? v = s.table.victims.get? v := by
  cases h with
  | victim => rw [sacrifice, LockTable.victims_abandon, SortedMap.get?_erase, if_neg hv]
  | grant => rw [LockTable.victims_grant]
  | fail => rw [giveUp, LockTable.victims_abandon, SortedMap.get?_erase, if_neg hv]
  | stay _ _ _ _ hstay =>
    cases hstay with
    | sleep => cases hfate
    | spare => cases hfate
    | yield =>
      rw [sacrifice, LockTable.victims_abandon, SortedMap.get?_erase, if_neg hv,
        LockTable.markVictim, SortedMap.get?_insert, if_neg hv, noted,
        LockTable.victims_noteWaits, victims_queueUp]

/-- A look again that falls asleep leaves the marks as they are and wakes nobody, or marks an owner
that was waiting. -/
theorem Attempt.marks (h : Attempt true sight w s look) {memory : Waiting}
    (hfate : look.fate = .sleeps memory) :
    look.notify = false ∧ look.state.table.victims = s.table.victims ∨
      ∃ victim cycle, (∃ b, s.table.graph.Edge victim b) ∧
        look.state.table.victims = s.table.victims.insert victim cycle := by
  obtain ⟨rfl, -, -, hstay⟩ := h.sleeps hfate
  cases hstay with
  | sleep => exact .inl ⟨rfl, rfl⟩
  | @spare cycle victim hcycle hvictim hne =>
    obtain ⟨b, hb⟩ := WaitGraph.edge_of_mem_cycleThrough hcycle hvictim
    exact .inr ⟨victim, cycle, ⟨b, (WaitGraph.edge_setWaits_of_ne hne).1 hb⟩, rfl⟩
  | yield => cases hfate

end LockState

namespace LockManager

/-! ## The measure -/

/-- The calls asleep of which `p` holds. -/
def calls (m : LockManager) (p : Sleeper Waiting → Bool) : Finset Nat :=
  ((m.sleepers.entries.filter fun e => p e.2).map (·.1)).toFinset

theorem mem_calls {m : LockManager} {p : Sleeper Waiting → Bool} {c : Nat} :
    c ∈ m.calls p ↔ ∃ s, m.sleepers.get? c = some s ∧ p s = true := by
  simp only [calls, List.mem_toFinset, List.mem_map, List.mem_filter, Prod.exists,
    SortedMap.get?_eq_some_iff, exists_and_right, exists_eq_right]

theorem card_calls_le (m : LockManager) (p : Sleeper Waiting → Bool) :
    (m.calls p).card ≤ m.sleepers.size := by
  refine (List.toFinset_card_le _).trans ?_
  rw [List.length_map]
  exact List.length_filter_le ..

/-- The calls asleep. -/
def asleep (m : LockManager) : Finset Nat := m.calls fun _ => true

/-- The calls asleep whose owners are not marked. -/
def unmarked (m : LockManager) : Finset Nat :=
  m.calls fun s => (m.shared.table.victims.get? s.memory.request.txn).isNone

/-- The calls that have been woken and have not looked again. -/
def awake (m : LockManager) : Finset Nat := m.calls (·.woken)

theorem mem_asleep {m : LockManager} {c : Nat} :
    c ∈ m.asleep ↔ ∃ s, m.sleepers.get? c = some s := by
  simp [asleep, mem_calls]

theorem mem_unmarked {m : LockManager} {c : Nat} :
    c ∈ m.unmarked ↔ ∃ s, m.sleepers.get? c = some s ∧
      m.shared.table.victims.get? s.memory.request.txn = none := by
  simp [unmarked, mem_calls]

theorem mem_awake {m : LockManager} {c : Nat} :
    c ∈ m.awake ↔ ∃ s, m.sleepers.get? c = some s ∧ s.woken = true := mem_calls

theorem awake_subset (m : LockManager) : m.awake ⊆ m.asleep := by
  intro c hc
  obtain ⟨s, hget, -⟩ := mem_awake.1 hc
  exact mem_asleep.2 ⟨s, hget⟩

/-- How much looking again may still come to, where at most `n` calls are asleep. -/
def effort (m : LockManager) (n : Nat) : Nat :=
  (m.asleep.card + m.unmarked.card) * (n + 1) + m.awake.card

/-- A look that uses up a call or a mark may wake all others. -/
theorem effort_lt_of_fewer {m m' : LockManager} {n : Nat} (hn : m'.asleep.card ≤ n)
    (hfewer : m'.asleep.card + m'.unmarked.card < m.asleep.card + m.unmarked.card) :
    m'.effort n < m.effort n := by
  have hawake := (Finset.card_le_card m'.awake_subset).trans hn
  calc m'.effort n
      < (m'.asleep.card + m'.unmarked.card) * (n + 1) + (n + 1) := by
        unfold effort
        omega
    _ = (m'.asleep.card + m'.unmarked.card + 1) * (n + 1) := (Nat.succ_mul ..).symm
    _ ≤ (m.asleep.card + m.unmarked.card) * (n + 1) := Nat.mul_le_mul_right _ hfewer
    _ ≤ m.effort n := Nat.le_add_right ..

section Looks

variable {m m' : LockManager} {call : Nat} {s : Sleeper Waiting} {sight : Sight}
  {look : LockState.RequestLook} (hget : m.sleepers.get? call = some s)
  (hattempt : LockState.Attempt true sight s.memory m.shared look)
  (hlooked : Looked m call look m')

include hget hattempt hlooked

/-- Who is asleep after a look again was asleep before it, with the same request. -/
theorem memory_looked {c : Nat} {s' : Sleeper Waiting} (hget' : m'.sleepers.get? c = some s') :
    ∃ t, m.sleepers.get? c = some t ∧ s'.memory = t.memory := by
  rcases sleeper_looked hlooked hget' with ⟨rfl, hsleeps, -⟩ | ⟨-, t, ht, rfl⟩
  · exact ⟨s, hget, (hattempt.sleeps hsleeps).1⟩
  · exact ⟨t, ht, rfl⟩

theorem asleep_subset_of_looked : m'.asleep ⊆ m.asleep := by
  intro c hmem
  obtain ⟨s', hget'⟩ := mem_asleep.1 hmem
  obtain ⟨t, ht, -⟩ := memory_looked hget hattempt hlooked hget'
  exact mem_asleep.2 ⟨t, ht⟩

/-- No call loses its mark but one that returns. -/
theorem unmarked_subset_of_looked
    (hmarks : ∀ c t, m'.sleepers.get? c ≠ none → m.sleepers.get? c = some t →
      look.state.table.victims.get? t.memory.request.txn = none →
        m.shared.table.victims.get? t.memory.request.txn = none) : m'.unmarked ⊆ m.unmarked := by
  intro c hmem
  obtain ⟨s', hget', hnone⟩ := mem_unmarked.1 hmem
  obtain ⟨t, ht, hmemory⟩ := memory_looked hget hattempt hlooked hget'
  rw [hlooked.shared, hmemory] at hnone
  exact mem_unmarked.2 ⟨t, ht, hmarks c t (by simp [hget']) ht hnone⟩

/-- A look that returns uses up a call. -/
theorem fewer_of_returns (howns : m.Owns call s.memory.request) {result : LockState.Outcome}
    (hfate : look.fate = .returns result) :
    m'.asleep.card + m'.unmarked.card < m.asleep.card + m.unmarked.card := by
  have hgone : m'.sleepers.get? call = none := by
    obtain ⟨-, token, hsleepers⟩ := hlooked
    rw [hsleepers, if_pos rfl, hfate]
    rfl
  have hasleep : m'.asleep.card < m.asleep.card := by
    refine Finset.card_lt_card ⟨asleep_subset_of_looked hget hattempt hlooked, fun hback => ?_⟩
    obtain ⟨s', hget'⟩ := mem_asleep.1 (hback (mem_asleep.2 ⟨s, hget⟩))
    rw [hgone] at hget'
    cases hget'
  have hunmarked : m'.unmarked.card ≤ m.unmarked.card := by
    refine Finset.card_le_card (unmarked_subset_of_looked hget hattempt hlooked ?_)
    intro c t hstays ht hnone
    rw [← hnone, hattempt.victims_of_returns hfate]
    intro htxn
    rw [(howns c t ht).2 htxn] at hstays
    exact hstays hgone
  omega

/-- A look that marks an owner uses up a mark: the owner was asleep, and its edges say that it was
not marked before. -/
theorem fewer_of_marks (hc : m.Consistent) (ht : m.shared.table.Told) {victim b : TxnId}
    {cycle : List TxnId} (hedge : m.shared.table.graph.Edge victim b)
    (hmarks : look.state.table.victims = m.shared.table.victims.insert victim cycle) :
    m'.asleep.card + m'.unmarked.card < m.asleep.card + m.unmarked.card := by
  have hasleep := Finset.card_le_card (asleep_subset_of_looked hget hattempt hlooked)
  have hunmarked : m'.unmarked.card < m.unmarked.card := by
    refine Finset.card_lt_card
      ⟨unmarked_subset_of_looked hget hattempt hlooked fun c t _ _ hnone => ?_, fun hback => ?_⟩
    · rw [hmarks, SortedMap.get?_insert] at hnone
      split at hnone
      · cases hnone
      · exact hnone
    · obtain ⟨c, t, hvictim, rfl⟩ := hc.edges victim b hedge
      have hnone : m.shared.table.victims.get? t.memory.request.txn = none :=
        Option.eq_none_iff_forall_ne_some.2 fun cycle' hv => ht _ cycle' hv b hedge
      obtain ⟨s', hget', hnone'⟩ := mem_unmarked.1 (hback (mem_unmarked.2 ⟨t, hvictim, hnone⟩))
      obtain ⟨t', ht', hmemory⟩ := memory_looked hget hattempt hlooked hget'
      rw [hvictim] at ht'
      cases ht'
      rw [hlooked.shared, hmarks, hmemory, SortedMap.get?_insert, if_pos rfl] at hnone'
      cases hnone'
  omega

/-- A look that falls asleep and wakes nobody leaves one call less to look again. -/
theorem effort_lt_of_quiet (hwoken : s.woken = true) (hquiet : look.notify = false)
    (hmarks : look.state.table.victims = m.shared.table.victims) (n : Nat) :
    m'.effort n < m.effort n := by
  have hasleep := Finset.card_le_card (asleep_subset_of_looked hget hattempt hlooked)
  have hunmarked : m'.unmarked.card ≤ m.unmarked.card := by
    refine Finset.card_le_card (unmarked_subset_of_looked hget hattempt hlooked ?_)
    intro c t _ _ hnone
    rwa [hmarks] at hnone
  have hawake : m'.awake.card < m.awake.card := by
    have hrests {c : Nat} {s' : Sleeper Waiting} (hget' : m'.sleepers.get? c = some s')
        (hwoken' : s'.woken = true) : c ≠ call ∧ c ∈ m.awake := by
      rcases sleeper_looked hlooked hget' with ⟨-, -, hrests⟩ | ⟨hne, t, ht, rfl⟩
      · rw [hrests] at hwoken'
        cases hwoken'
      · rw [hquiet, Sleeper.nudged_false] at hwoken'
        exact ⟨hne, mem_awake.2 ⟨t, ht, hwoken'⟩⟩
    refine Finset.card_lt_card ⟨fun c hmem => ?_, fun hback => ?_⟩
    · obtain ⟨s', hget', hwoken'⟩ := mem_awake.1 hmem
      exact (hrests hget' hwoken').2
    · obtain ⟨s', hget', hwoken'⟩ := mem_awake.1 (hback (mem_awake.2 ⟨s, hget, hwoken⟩))
      exact (hrests hget' hwoken').1 rfl
  have hless := Nat.mul_le_mul_right (n + 1) (Nat.add_le_add hasleep hunmarked)
  unfold effort
  omega

end Looks

/-- **Looking again takes some of the effort.** -/
theorem effort_recheck {m : LockManager} (hc : m.Consistent) (ht : m.shared.table.Told)
    {call : Nat} {s : Sleeper Waiting} (hget : m.sleepers.get? call = some s)
    (hwoken : s.woken = true) (now : Instant) {n : Nat} (hn : m.asleep.card ≤ n) :
    (m.step (.recheck now call)).asleep.card ≤ n ∧
      (m.step (.recheck now call)).effort n < m.effort n := by
  obtain ⟨look, hattempt, hstep⟩ := m.recheck_woken_spec hget hwoken now
  have hlooked : Looked m call look (m.step (.recheck now call)) := by
    rw [hstep]
    exact looked_afterLook ..
  have hle := (Finset.card_le_card (asleep_subset_of_looked hget hattempt hlooked)).trans hn
  refine ⟨hle, ?_⟩
  cases hfate : look.fate with
  | returns result =>
    exact effort_lt_of_fewer hle (fewer_of_returns hget hattempt hlooked (hc.owns hget) hfate)
  | sleeps memory =>
    rcases hattempt.marks hfate with ⟨hquiet, hmarks⟩ | ⟨victim, cycle, ⟨b, hedge⟩, hmarks⟩
    · exact effort_lt_of_quiet hget hattempt hlooked hwoken hquiet hmarks n
    · exact effort_lt_of_fewer hle (fewer_of_marks hget hattempt hlooked hc ht hedge hmarks)

/-! ## Cascades -/

/-- Calls that have been woken look again one after another, each at an instant of its own. -/
def Cascade (m : LockManager) : List (Instant × Nat) → Prop
  | [] => True
  | (now, call) :: rest => call ∈ m.awake ∧ Cascade (m.step (.recheck now call)) rest

theorem length_le_effort {m : LockManager} (hc : m.Consistent) (ht : m.shared.table.Told) {n : Nat}
    (hn : m.asleep.card ≤ n) {rechecks : List (Instant × Nat)} (h : m.Cascade rechecks) :
    rechecks.length ≤ m.effort n := by
  induction rechecks generalizing m with
  | nil => exact Nat.zero_le _
  | cons recheck rest ih =>
    obtain ⟨now, call⟩ := recheck
    obtain ⟨hawake, hrest⟩ := h
    obtain ⟨s, hget, hwoken⟩ := mem_awake.1 hawake
    obtain ⟨hle, hless⟩ := effort_recheck hc ht hget hwoken now hn
    have := ih (consistent_step hc (e := .recheck now call) trivial)
      (LockTable.invariant_told.step ht _) hle hrest
    rw [List.length_cons]
    omega

theorem effort_le_patience (m : LockManager) : m.effort m.sleepers.size ≤ m.patience := by
  have hasleep := m.card_calls_le fun _ => true
  have hunmarked := m.card_calls_le fun s =>
    (m.shared.table.victims.get? s.memory.request.txn).isNone
  have hawake := m.card_calls_le (·.woken)
  have hsum : m.asleep.card + m.unmarked.card ≤ 2 * m.sleepers.size := by
    unfold asleep unmarked
    omega
  have hproduct := Nat.mul_le_mul_right (m.sleepers.size + 1) hsum
  have hpatience : m.patience =
      2 * m.sleepers.size * (m.sleepers.size + 1) + 2 * (m.sleepers.size + 1) := by
    unfold patience
    ring
  unfold effort awake
  omega

/-- **A cascade ends.** -/
theorem length_le_of_cascade {m : LockManager} (hc : m.Consistent) (ht : m.shared.table.Told)
    {rechecks : List (Instant × Nat)} (h : m.Cascade rechecks) : rechecks.length ≤ m.patience :=
  (length_le_effort hc ht (m.card_calls_le _) h).trans m.effort_le_patience

/-- Going on until no call is left that has been woken, nobody is. -/
theorem isQuiet_settleWithin {m : LockManager} (hc : m.Consistent) (ht : m.shared.table.Told)
    (now : Instant) {n : Nat} (hn : m.asleep.card ≤ n) {fuel : Nat} (hfuel : m.effort n ≤ fuel) :
    (settleWithin LockState.discipline now fuel m).1.isQuiet = true := by
  induction fuel generalizing m with
  | zero =>
    refine isQuiet_iff.2 fun c s hget => ?_
    rw [← Bool.not_eq_true]
    intro hwoken
    have := (effort_recheck hc ht hget hwoken now hn).2
    omega
  | succ fuel ih =>
    unfold settleWithin
    cases hfirst : m.firstWoken? with
    | none =>
      dsimp only
      rw [isQuiet, hfirst]
      rfl
    | some call =>
      obtain ⟨⟨c, s⟩, hfind, rfl⟩ := Option.map_eq_some_iff.1 hfirst
      have hget := SortedMap.get?_eq_some_iff.2 (List.mem_of_find?_eq_some hfind)
      have hwoken : s.woken = true := by simpa using List.find?_some hfind
      obtain ⟨hle, hless⟩ := effort_recheck hc ht hget hwoken now hn
      have hfuel' : (m.step (.recheck now c)).effort n ≤ fuel := by omega
      exact ih (consistent_step hc (e := .recheck now c) trivial) 
        (LockTable.invariant_told.step ht (.recheck now c)) hle hfuel'

theorem isQuiet_settle {m : LockManager} (hc : m.Consistent) (ht : m.shared.table.Told)
    (now : Instant) : (m.settle LockState.discipline now).1.isQuiet = true :=
  isQuiet_settleWithin hc ht now (m.card_calls_le _) m.effort_le_patience

end LockManager
end WalStore

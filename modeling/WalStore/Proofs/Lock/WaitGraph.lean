import Mathlib.Data.List.Chain
import Mathlib.Logic.Relation
import WalStore.Lock.WaitGraph
import WalStore.Proofs.SortedMap

/-!
# Cycle search

**Main results.** `cycleThrough_eq_none`: a search that finds nothing means that the start is on
no cycle. `edge_of_mem_cycleThrough`: each owner on a cycle that was found waits for somebody.

**Why nothing is missed.** Looking from an owner without success leaves behind a set of owners
that is closed: what they wait for was seen too, and is not the target (`Explored`). An owner that
was seen before is therefore not looked at again for a reason. The depth suffices because each
level sees one more of the owners with edges (`unseen`).
-/

namespace WalStore.WaitGraph

open Relation

/-- The owner `a` waits for `b`. -/
def Edge (g : WaitGraph) (a b : TxnId) : Prop := b ∈ g.blockers a

/-! ## Changes -/

theorem blockers_setWaits (g : WaitGraph) (waiter x : TxnId) (blockers : SortedSet TxnId) :
    (g.setWaits waiter blockers).blockers x = if x = waiter then blockers else g.blockers x := by
  unfold setWaits WaitGraph.blockers
  by_cases h : blockers.isEmpty
  · rw [if_pos h, SortedMap.getD_erase, SortedSet.eq_empty_of_isEmpty h]
  · rw [if_neg h, SortedMap.getD_insert]

theorem blockers_clearWaits (g : WaitGraph) (waiter x : TxnId) :
    (g.clearWaits waiter).blockers x = if x = waiter then ∅ else g.blockers x :=
  SortedMap.getD_erase g.edges waiter x ∅

theorem edge_setWaits_of_ne {g : WaitGraph} {waiter a b : TxnId} {blockers : SortedSet TxnId}
    (ha : a ≠ waiter) : (g.setWaits waiter blockers).Edge a b ↔ g.Edge a b := by
  rw [Edge, blockers_setWaits, if_neg ha, Edge]

theorem edge_clearWaits {g : WaitGraph} {waiter a b : TxnId} :
    (g.clearWaits waiter).Edge a b ↔ a ≠ waiter ∧ g.Edge a b := by
  rw [Edge, blockers_clearWaits]
  split <;> simp_all [Edge]

theorem edge_remove {g : WaitGraph} {owner a b : TxnId} :
    (g.remove owner).Edge a b ↔ a ≠ owner ∧ b ≠ owner ∧ g.Edge a b := by
  simp only [Edge, WaitGraph.blockers, remove, SortedMap.getD, SortedMap.get?_filterMapValues,
    SortedMap.get?_erase]
  by_cases ha : a = owner
  · simp [ha]
  cases hg : g.edges.get? a with
  | none => simp [ha]
  | some bs =>
    simp only [ha, if_false, Option.bind_some, ne_eq, not_false_eq_true, true_and,
      Option.getD_some, ← SortedSet.mem_erase]
    split
    · next h => simpa using SortedSet.isEmpty_iff.1 h b
    · simp

/-- An owner with edges is one of the keys. -/
theorem mem_keys_of_edge {g : WaitGraph} {a b : TxnId} (h : g.Edge a b) : a ∈ g.edges.keys := by
  rw [SortedMap.mem_keys_iff]
  unfold Edge WaitGraph.blockers SortedMap.getD at h
  cases hg : g.edges.get? a with
  | none => rw [hg] at h; exact absurd h SortedSet.not_mem_empty
  | some _ => rfl

/-! ## What a search leaves behind -/

/-- Between `seen` and `seen'` everything was looked at: what an owner seen meanwhile waits for has
been seen as well, and is not the target. -/
structure Explored (g : WaitGraph) (target : TxnId) (seen seen' : SortedSet TxnId) : Prop where
  grows : ∀ x, x ∈ seen → x ∈ seen'
  closed : ∀ x, x ∈ seen' → ¬x ∈ seen → ∀ y, g.Edge x y → y ≠ target ∧ y ∈ seen'

theorem Explored.refl (g : WaitGraph) (target : TxnId) (seen : SortedSet TxnId) :
    Explored g target seen seen := ⟨fun _ h => h, fun _ h hn => absurd h hn⟩

theorem Explored.trans {g : WaitGraph} {target : TxnId} {s₁ s₂ s₃ : SortedSet TxnId}
    (h₁ : Explored g target s₁ s₂) (h₂ : Explored g target s₂ s₃) : Explored g target s₁ s₃ := by
  refine ⟨fun x h => h₂.grows x (h₁.grows x h), fun x hx hn y hy => ?_⟩
  by_cases hs : x ∈ s₂
  · obtain ⟨hne, hmem⟩ := h₁.closed x hs hn y hy
    exact ⟨hne, h₂.grows y hmem⟩
  · exact h₂.closed x hx hs y hy

/-- The owners with edges that are not among `seen`. -/
def unseen (g : WaitGraph) (seen : SortedSet TxnId) : List TxnId :=
  g.edges.keys.filter (¬· ∈ seen)

theorem unseen_le {g : WaitGraph} {seen seen' : SortedSet TxnId}
    (h : ∀ x, x ∈ seen → x ∈ seen') : (g.unseen seen').length ≤ (g.unseen seen).length :=
  (List.monotone_filter_right _ fun x hx => by
    simp only [decide_eq_true_eq] at hx ⊢
    exact fun hs => hx (h x hs)).length_le

theorem unseen_insert_lt {g : WaitGraph} {seen : SortedSet TxnId} {x : TxnId}
    (hx : x ∈ g.edges.keys) (hn : ¬x ∈ seen) :
    (g.unseen (seen.insert x)).length < (g.unseen seen).length := by
  have heq : g.unseen (seen.insert x) = (g.unseen seen).filter (· ≠ x) := by
    simp only [unseen, List.filter_filter, SortedSet.mem_insert, not_or]
    exact List.filter_congr fun y _ => by simp
  rw [heq]
  refine List.length_filter_lt_length_iff_exists.2 ⟨x, List.mem_filter.2 ⟨hx, ?_⟩, by simp⟩
  simpa using hn

/-- Under an owner that was not seen before one level less suffices, and none if it waits for
nobody. -/
theorem unseen_insert_lt_or {g : WaitGraph} {seen : SortedSet TxnId} {x : TxnId} {depth : Nat}
    (hn : ¬x ∈ seen) (hdepth : (g.unseen seen).length ≤ depth) :
    (g.unseen (seen.insert x)).length < depth ∨ ∀ y, ¬g.Edge x y := by
  by_cases hedge : ∃ y, g.Edge x y
  · obtain ⟨y, hy⟩ := hedge
    exact .inl (Nat.lt_of_lt_of_le (unseen_insert_lt (mem_keys_of_edge hy) hn) hdepth)
  · exact .inr fun y hy => hedge ⟨y, hy⟩

theorem unseen_empty_lt (g : WaitGraph) : (g.unseen ∅).length < g.edges.size + 1 := by
  have := List.length_filter_le (¬· ∈ (∅ : SortedSet TxnId)) g.edges.keys
  rw [SortedMap.keys, List.length_map] at this
  exact Nat.lt_succ_of_le this

/-- A way through the neighbours `l` was not found. -/
theorem explored_wayThrough {g : WaitGraph} {target : TxnId} {depth : Nat}
    {deeper : TxnId → SortedSet TxnId → Option (List TxnId) × SortedSet TxnId}
    (hdeeper : ∀ next seen seen', ¬next ∈ seen → (g.unseen seen).length ≤ depth →
      deeper next (seen.insert next) = (none, seen') →
      Explored g target (seen.insert next) seen' ∧
        ∀ y, g.Edge next y → y ≠ target ∧ y ∈ seen')
    (l : List TxnId) {seen seen' : SortedSet TxnId} (hdepth : (g.unseen seen).length ≤ depth)
    (h : wayThrough target deeper l seen = (none, seen')) :
    Explored g target seen seen' ∧ ∀ y ∈ l, y ≠ target ∧ y ∈ seen' := by
  induction l generalizing seen with
  | nil =>
    cases h
    exact ⟨.refl g target seen', fun _ h => nomatch h⟩
  | cons next rest ih =>
    rw [wayThrough] at h
    split at h
    · cases h
    next hne =>
    split at h
    · next hseen =>
      obtain ⟨hexp, hrest⟩ := ih hdepth h
      exact ⟨hexp, List.forall_mem_cons.2 ⟨⟨hne, hexp.grows next hseen⟩, hrest⟩⟩
    next hnew =>
    split at h
    · cases h
    next seen₁ hdeep =>
    obtain ⟨hexp₁, hnext⟩ := hdeeper next seen seen₁ hnew hdepth hdeep
    have hsub : ∀ x, x ∈ seen → x ∈ seen₁ :=
      fun x hx => hexp₁.grows x (SortedSet.mem_insert.2 (.inr hx))
    obtain ⟨hexp₂, hrest⟩ := ih ((unseen_le hsub).trans hdepth) h
    have hmem : next ∈ seen₁ := hexp₁.grows next (SortedSet.mem_insert.2 (.inl rfl))
    -- `next` itself counts as seen meanwhile, and it is closed by what `deeper` says.
    have hexp : Explored g target seen seen₁ := by
      refine ⟨hsub, fun x hx hn y hy => ?_⟩
      by_cases hxn : x = next
      · exact hnext y (hxn ▸ hy)
      · exact hexp₁.closed x hx (by simp [SortedSet.mem_insert, hxn, hn]) y hy
    exact ⟨hexp.trans hexp₂, List.forall_mem_cons.2 ⟨⟨hne, hexp₂.grows next hmem⟩, hrest⟩⟩

/-- A way from `node` was not found, although the depth sufficed. -/
theorem explored_wayFrom {g : WaitGraph} {target : TxnId} (depth : Nat) {node : TxnId}
    {seen seen' : SortedSet TxnId}
    (hdepth : (g.unseen seen).length < depth ∨ ∀ y, ¬g.Edge node y)
    (h : wayFrom g target depth node seen = (none, seen')) :
    Explored g target seen seen' ∧ ∀ y, g.Edge node y → y ≠ target ∧ y ∈ seen' := by
  induction depth generalizing node seen seen' with
  | zero =>
    cases h
    rcases hdepth with hd | hd
    · cases hd
    · exact ⟨.refl g target seen, fun y hy => absurd hy (hd y)⟩
  | succ depth ih =>
    by_cases hedge : ∀ y, ¬g.Edge node y
    · have hnil : (g.blockers node).toList = [] := List.eq_nil_iff_forall_not_mem.2 hedge
      rw [wayFrom, hnil] at h
      cases h
      exact ⟨.refl g target seen, fun y hy => absurd hy (hedge y)⟩
    have hle : (g.unseen seen).length ≤ depth := by
      rcases hdepth with hd | hd
      · omega
      · exact absurd hd hedge
    exact explored_wayThrough
      (fun _ _ _ hnew hseen hdeep => ih (unseen_insert_lt_or hnew hseen) hdeep) _ hle h

/-- **No cycle is missed.** -/
theorem cycleThrough_eq_none {g : WaitGraph} {start : TxnId} (h : g.cycleThrough start = none) :
    ¬TransGen g.Edge start start := by
  rw [cycleThrough, Option.map_eq_none_iff] at h
  obtain ⟨hexp, hstart⟩ :=
    explored_wayFrom (g.edges.size + 1) (.inl g.unseen_empty_lt) (Prod.ext h rfl)
  have hreach : ∀ y, TransGen g.Edge start y →
      y ≠ start ∧ y ∈ (wayFrom g start (g.edges.size + 1) start ∅).2 := by
    intro y hy
    induction hy with
    | single hedge => exact hstart _ hedge
    | tail _ hedge ih => exact hexp.closed _ ih.2 SortedSet.not_mem_empty _ hedge
  exact fun hcycle => (hreach start hcycle).1 rfl

/-! ## What a search finds -/

theorem isChain_wayThrough {g : WaitGraph} {target : TxnId} {node : TxnId}
    {deeper : TxnId → SortedSet TxnId → Option (List TxnId) × SortedSet TxnId}
    (hdeeper : ∀ next seen way seen', deeper next seen = (some way, seen') →
      (next :: (way ++ [target])).IsChain g.Edge)
    {l : List TxnId} (hl : ∀ y ∈ l, g.Edge node y) {seen seen' : SortedSet TxnId}
    {way : List TxnId} (h : wayThrough target deeper l seen = (some way, seen')) :
    (node :: (way ++ [target])).IsChain g.Edge := by
  induction l generalizing seen with
  | nil => cases h
  | cons next rest ih =>
    obtain ⟨hnext, hrest⟩ := List.forall_mem_cons.1 hl
    rw [wayThrough] at h
    split at h
    · next heq =>
      cases h
      exact .cons_cons (heq ▸ hnext) (.singleton target)
    split at h
    · exact ih hrest h
    split at h
    · next hdeep =>
      cases h
      exact .cons_cons hnext (hdeeper _ _ _ _ hdeep)
    · exact ih hrest h

/-- A way that was found leads from `node` to the target edge by edge. -/
theorem isChain_wayFrom {g : WaitGraph} {target : TxnId} (depth : Nat) {node : TxnId}
    {seen seen' : SortedSet TxnId} {way : List TxnId}
    (h : wayFrom g target depth node seen = (some way, seen')) :
    (node :: (way ++ [target])).IsChain g.Edge := by
  induction depth generalizing node seen seen' way with
  | zero => cases h
  | succ depth ih => exact isChain_wayThrough (fun _ _ _ _ => ih) (fun _ hy => hy) h

/-- A cycle that was found is one: it leads back to its start. -/
theorem isChain_cycleThrough {g : WaitGraph} {start : TxnId} {cycle : List TxnId}
    (h : g.cycleThrough start = some cycle) : (cycle ++ [start]).IsChain g.Edge := by
  obtain ⟨way, hway, rfl⟩ := Option.map_eq_some_iff.1 h
  exact isChain_wayFrom (g.edges.size + 1) (Prod.ext hway rfl)

theorem edge_of_mem_isChain {g : WaitGraph} {l : List TxnId} {x last : TxnId} (hx : x ∈ l)
    (h : (l ++ [last]).IsChain g.Edge) : ∃ y, g.Edge x y := by
  obtain ⟨s, t, rfl⟩ := List.append_of_mem hx
  rw [List.append_assoc, List.cons_append] at h
  have h' := h.right_of_append
  cases t with
  | nil => exact ⟨last, (List.isChain_cons_cons.1 h').1⟩
  | cons y t => exact ⟨y, (List.isChain_cons_cons.1 h').1⟩

/-- Every owner on a cycle that was found waits for somebody. -/
theorem edge_of_mem_cycleThrough {g : WaitGraph} {start x : TxnId} {cycle : List TxnId}
    (h : g.cycleThrough start = some cycle) (hx : x ∈ cycle) : ∃ y, g.Edge x y :=
  edge_of_mem_isChain hx (isChain_cycleThrough h)

theorem victim?_mem {cycle : List TxnId} {victim : TxnId} (h : victim? cycle = some victim) :
    victim ∈ cycle := by
  have : Std.MaxEqOr TxnId := ⟨fun a b => by
    show maxOfLe.max a b = a ∨ maxOfLe.max a b = b
    unfold maxOfLe
    dsimp only
    split <;> simp⟩
  exact List.max?_mem h

end WalStore.WaitGraph

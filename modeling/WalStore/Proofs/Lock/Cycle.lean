import WalStore.Proofs.Ident
import WalStore.Proofs.Lock.WaitGraph

/-!
# The cycles that are found

**Theorem (`cycles_of_changes`).** Whatever changes a graph was built by, the search for a cycle
through an owner comes to an end, and finds one exactly if the owner waits for itself, over one or
more others or none. What it finds starts at the owner, leads from each owner to one it waits for,
at last back to the start, and meets nobody twice. The owner that gives way is the largest of them,
and without its edges it is on no cycle.

**Why the bound on the depth does not show.** `Search` is the search with no bound, as the finite
derivations of its answers. A level of the recursion is entered for an owner not seen before, and
one that waits for nobody needs no level below, so the levels never outnumber the owners with edges
(`search_wayFrom`).
-/

namespace WalStore.WaitGraph

open Relation

/-! ## Histories -/

/-- A change to a graph. -/
inductive Change where
  | setWaits (waiter : TxnId) (blockers : SortedSet TxnId)
  | clearWaits (waiter : TxnId)
  | remove (owner : TxnId)
  deriving DecidableEq

def change (g : WaitGraph) : Change → WaitGraph
  | .setWaits waiter blockers => g.setWaits waiter blockers
  | .clearWaits waiter => g.clearWaits waiter
  | .remove owner => g.remove owner

/-- The graph that changes lead to, the latest of them in front. -/
def ofChanges (changes : List Change) : WaitGraph := changes.foldr (fun c g => g.change c) ∅

/-- After the changes, the latest of them in front, `a` waits for `b`. -/
def Waits : List Change → TxnId → TxnId → Prop
  | [], _, _ => False
  | .setWaits waiter blockers :: earlier, a, b =>
    if a = waiter then b ∈ blockers else Waits earlier a b
  | .clearWaits waiter :: earlier, a, b => a ≠ waiter ∧ Waits earlier a b
  | .remove owner :: earlier, a, b => a ≠ owner ∧ b ≠ owner ∧ Waits earlier a b

theorem edge_ofChanges (changes : List Change) : (ofChanges changes).Edge = Waits changes := by
  funext a b
  apply propext
  induction changes with
  | nil => exact iff_of_false SortedSet.not_mem_empty id
  | cons c earlier ih =>
    show ((ofChanges earlier).change c).Edge a b ↔ _
    cases c with
    | setWaits waiter blockers =>
      rw [change, Waits, ← ih, Edge, blockers_setWaits]
      split <;> rfl
    | clearWaits waiter => rw [change, Waits, ← ih, edge_clearWaits]
    | remove owner => rw [change, Waits, ← ih, edge_remove]

/-! ## The search without a bound -/

variable {g : WaitGraph} {target node : TxnId} {seen seen' : SortedSet TxnId}
  {way : Option (List TxnId)}

/-- Looking through owners for a way to `target`, those in `seen` apart, answers `way` and leaves
`seen'` behind. -/
inductive Search (g : WaitGraph) (target : TxnId) :
    List TxnId → SortedSet TxnId → Option (List TxnId) → SortedSet TxnId → Prop
  | exhausted {seen : SortedSet TxnId} : Search g target [] seen none seen
  | found {rest : List TxnId} {seen : SortedSet TxnId} :
    Search g target (target :: rest) seen (some []) seen
  /-- An owner that was seen before is passed over. -/
  | skip {next : TxnId} {rest : List TxnId} {seen seen' : SortedSet TxnId}
      {way : Option (List TxnId)} : next ≠ target → next ∈ seen →
    Search g target rest seen way seen' → Search g target (next :: rest) seen way seen'
  /-- There is a way through an owner. -/
  | through {next : TxnId} {rest way : List TxnId} {seen seen' : SortedSet TxnId} :
    next ≠ target → ¬next ∈ seen →
    Search g target (g.blockers next).toList (seen.insert next) (some way) seen' →
    Search g target (next :: rest) seen (some (next :: way)) seen'
  /-- There is none, and the search goes on with the others. -/
  | back {next : TxnId} {rest : List TxnId} {seen seen₁ seen' : SortedSet TxnId}
      {way : Option (List TxnId)} : next ≠ target → ¬next ∈ seen →
    Search g target (g.blockers next).toList (seen.insert next) none seen₁ →
    Search g target rest seen₁ way seen' → Search g target (next :: rest) seen way seen'

namespace Search

variable {l : List TxnId}

theorem grows (h : Search g target l seen way seen') {x : TxnId} (hx : x ∈ seen) : x ∈ seen' := by
  induction h with
  | exhausted | found => exact hx
  | skip _ _ _ ih => exact ih hx
  | through _ _ _ ih => exact ih (SortedSet.mem_insert.2 (.inr hx))
  | back _ _ _ _ ih ihrest => exact ihrest (ih (SortedSet.mem_insert.2 (.inr hx)))

/-- A way meets nobody twice, nobody seen before, and the target at its end only. -/
theorem nodup {found : List TxnId} (h : Search g target l seen (some found) seen') :
    found.Nodup ∧ ∀ x ∈ found, x ≠ target ∧ ¬x ∈ seen := by
  generalize hway : some found = way at h
  induction h generalizing found with
  | exhausted => cases hway
  | found =>
    cases hway
    exact ⟨.nil, fun _ h => nomatch h⟩
  | skip _ _ _ ih => exact ih hway
  | through hne hnew _ ih =>
    cases hway
    obtain ⟨hnodup, hfresh⟩ := ih rfl
    refine ⟨List.nodup_cons.2 ⟨fun hmem => ?_, hnodup⟩, List.forall_mem_cons.2 ⟨⟨hne, hnew⟩, ?_⟩⟩
    · exact (hfresh _ hmem).2 (SortedSet.mem_insert.2 (.inl rfl))
    · exact fun x hx => ⟨(hfresh x hx).1, fun hs =>
        (hfresh x hx).2 (SortedSet.mem_insert.2 (.inr hs))⟩
  | back _ _ hdeep _ _ ihrest =>
    obtain ⟨hnodup, hfresh⟩ := ihrest hway
    refine ⟨hnodup, fun x hx => ⟨(hfresh x hx).1, fun hs => (hfresh x hx).2 ?_⟩⟩
    exact hdeep.grows (SortedSet.mem_insert.2 (.inr hs))

/-- A search answers one thing only. -/
theorem unique {way₁ : Option (List TxnId)} {seen₁ : SortedSet TxnId}
    (h : Search g target l seen way seen') (h₁ : Search g target l seen way₁ seen₁) :
    way = way₁ ∧ seen' = seen₁ := by
  induction h generalizing way₁ seen₁ with
  | exhausted =>
    cases h₁
    exact ⟨rfl, rfl⟩
  | found =>
    cases h₁ with
    | found => exact ⟨rfl, rfl⟩
    | skip hne | through hne | back hne => exact absurd rfl hne
  | skip hne hseen _ ih =>
    cases h₁ with
    | found => exact absurd rfl hne
    | skip _ _ hrest => exact ih hrest
    | through _ hnew | back _ hnew => exact absurd hseen hnew
  | through hne hnew _ ih =>
    cases h₁ with
    | found => exact absurd rfl hne
    | skip _ hseen => exact absurd hseen hnew
    | through _ _ hdeep =>
      obtain ⟨hway, hseen⟩ := ih hdeep
      exact ⟨congrArg (Option.map (_ :: ·)) hway, hseen⟩
    | back _ _ hdeep => exact absurd (ih hdeep).1 (Option.some_ne_none _)
  | back hne hnew _ _ ih ihrest =>
    cases h₁ with
    | found => exact absurd rfl hne
    | skip _ hseen => exact absurd hseen hnew
    | through _ _ hdeep => exact absurd (ih hdeep).1.symm (Option.some_ne_none _)
    | back _ _ hdeep hrest =>
      obtain ⟨-, rfl⟩ := ih hdeep
      exact ihrest hrest

end Search

/-- The search for a cycle through `start` ends, with this answer. -/
def Ends (g : WaitGraph) (start : TxnId) (answer : Option (List TxnId)) : Prop :=
  ∃ way seen, Search g start (g.blockers start).toList ∅ way seen ∧
    answer = way.map (start :: ·)

/-! ## The depth suffices -/

theorem search_wayThrough {depth : Nat}
    {deeper : TxnId → SortedSet TxnId → Option (List TxnId) × SortedSet TxnId}
    (hdeeper : ∀ next seen, ¬next ∈ seen → (g.unseen seen).length ≤ depth →
      Search g target (g.blockers next).toList (seen.insert next)
        (deeper next (seen.insert next)).1 (deeper next (seen.insert next)).2)
    (l : List TxnId) (hdepth : (g.unseen seen).length ≤ depth) :
    Search g target l seen (wayThrough target deeper l seen).1
      (wayThrough target deeper l seen).2 := by
  induction l generalizing seen with
  | nil => exact .exhausted
  | cons next rest ih =>
    rw [wayThrough]
    split
    · next heq => exact heq ▸ .found
    next hne =>
    split
    · next hseen => exact .skip hne hseen (ih hdepth)
    next hnew =>
    have hdeep := hdeeper next seen hnew hdepth
    split
    · next way seen₁ heq =>
      rw [heq] at hdeep
      exact .through hne hnew hdeep
    · next seen₁ heq =>
      rw [heq] at hdeep
      -- What was seen on the way there counts as seen for the others.
      have hsub (x : TxnId) (hx : x ∈ seen) : x ∈ seen₁ :=
        hdeep.grows (SortedSet.mem_insert.2 (.inr hx))
      exact .back hne hnew hdeep (ih ((unseen_le hsub).trans hdepth))

theorem search_wayFrom (depth : Nat)
    (hdepth : (g.unseen seen).length < depth ∨ ∀ y, ¬g.Edge node y) :
    Search g target (g.blockers node).toList seen (wayFrom g target depth node seen).1
      (wayFrom g target depth node seen).2 := by
  induction depth generalizing node seen with
  | zero =>
    have hnil : (g.blockers node).toList = [] :=
      List.eq_nil_iff_forall_not_mem.2 (hdepth.resolve_left (Nat.not_lt_zero _))
    rw [hnil]
    exact .exhausted
  | succ depth ih =>
    rw [wayFrom]
    rcases hdepth with hlt | hedge
    · exact search_wayThrough (fun _ _ hnew hseen => ih (unseen_insert_lt_or hnew hseen)) _
        (Nat.le_of_lt_succ hlt)
    · have hnil : (g.blockers node).toList = [] := List.eq_nil_iff_forall_not_mem.2 hedge
      rw [hnil]
      exact .exhausted

theorem ends_iff {start : TxnId} {answer : Option (List TxnId)} :
    g.Ends start answer ↔ g.cycleThrough start = answer := by
  have hsearch : Search g start (g.blockers start).toList ∅
      (wayFrom g start (g.edges.size + 1) start ∅).1
      (wayFrom g start (g.edges.size + 1) start ∅).2 :=
    search_wayFrom _ (.inl g.unseen_empty_lt)
  constructor
  · rintro ⟨way, seen, h, rfl⟩
    rw [cycleThrough, (hsearch.unique h).1]
  · rintro rfl
    exact ⟨_, _, hsearch, rfl⟩

/-! ## What is found -/

variable {start : TxnId} {cycle : List TxnId}

theorem nodup_cycleThrough (h : g.cycleThrough start = some cycle) : cycle.Nodup := by
  obtain ⟨way, seen, hsearch, hcycle⟩ := ends_iff.2 h
  obtain ⟨way, rfl, rfl⟩ := Option.map_eq_some_iff.1 hcycle.symm
  obtain ⟨hnodup, hfresh⟩ := hsearch.nodup
  exact List.nodup_cons.2 ⟨fun hmem => (hfresh start hmem).1 rfl, hnodup⟩

/-- A chain reaches its last element from its first. -/
theorem transGen_of_isChain {r : TxnId → TxnId → Prop} {a b : TxnId} {l : List TxnId}
    (h : (a :: l ++ [b]).IsChain r) : TransGen r a b := by
  induction l generalizing a with
  | nil => exact .single (List.isChain_cons_cons.1 h).1
  | cons c l ih =>
    obtain ⟨hfirst, hrest⟩ := List.isChain_cons_cons.1 h
    exact .head hfirst (ih hrest)

theorem isSome_cycleThrough_iff :
    (g.cycleThrough start).isSome = true ↔ TransGen g.Edge start start := by
  constructor
  · intro h
    obtain ⟨cycle, hcycle⟩ := Option.isSome_iff_exists.1 h
    obtain ⟨way, -, rfl⟩ := Option.map_eq_some_iff.1 hcycle
    exact transGen_of_isChain (isChain_cycleThrough hcycle)
  · intro h
    by_contra hnone
    exact cycleThrough_eq_none (Option.not_isSome_iff_eq_none.1 hnone) h

/-- The owner that gives way is the largest. -/
theorem le_of_victim? {victim : TxnId} (h : victim? cycle = some victim) :
    ∀ x ∈ cycle, x ≤ victim := by
  cases cycle with
  | nil => cases h
  | cons a l =>
    rw [victim?, List.max?_cons'] at h
    cases h
    induction l generalizing a with
    | nil => exact fun x hx => List.mem_singleton.1 hx ▸ TxnId.le_iff.2 (Nat.le_refl _)
    | cons b l ih =>
      obtain ⟨hmax, hrest⟩ := List.forall_mem_cons.1 (ih (max a b))
      rw [TxnId.le_iff, TxnId.toNat_max, Nat.max_le] at hmax
      exact List.forall_mem_cons.2
        ⟨TxnId.le_iff.2 hmax.1, List.forall_mem_cons.2 ⟨TxnId.le_iff.2 hmax.2, hrest⟩⟩

/-- Who waits for nobody is on no cycle. -/
theorem not_transGen_clearWaits (g : WaitGraph) (waiter : TxnId) :
    ¬TransGen (g.clearWaits waiter).Edge waiter waiter := by
  intro h
  obtain ⟨y, hedge, -⟩ := TransGen.head'_iff.1 h
  exact (edge_clearWaits.1 hedge).1 rfl

/-- **Cycles are found exactly.** The search through an owner ends, with one answer. It finds a
cycle if and only if the owner waits for itself in the end. The cycle starts at the owner, repeats
nobody, and each on it waits for the next, the last one for the first. Its victim is the largest on
it, and is on no cycle when its edges are gone. -/
theorem cycles_of_changes (changes : List Change) (s : TxnId) :
    (∀ answer, (ofChanges changes).Ends s answer ↔ (ofChanges changes).cycleThrough s = answer) ∧
    (((ofChanges changes).cycleThrough s).isSome = true ↔ TransGen (Waits changes) s s) ∧
    ∀ cycle, (ofChanges changes).cycleThrough s = some cycle →
      cycle.head? = some s ∧ cycle.Nodup ∧ (cycle ++ [s]).IsChain (Waits changes) ∧
      ∃ victim, victim? cycle = some victim ∧ victim ∈ cycle ∧ (∀ x ∈ cycle, x ≤ victim) ∧
        ¬TransGen (Waits (.clearWaits victim :: changes)) victim victim := by
  rw [← edge_ofChanges]
  refine ⟨fun answer => ends_iff, isSome_cycleThrough_iff, fun cycle hcycle => ?_⟩
  obtain ⟨way, -, rfl⟩ := Option.map_eq_some_iff.1 hcycle
  obtain ⟨victim, hvictim⟩ : ∃ victim, victim? (s :: way) = some victim := ⟨_, List.max?_cons'⟩
  refine ⟨rfl, nodup_cycleThrough hcycle, isChain_cycleThrough hcycle, victim, hvictim,
    victim?_mem hvictim, le_of_victim? hvictim, ?_⟩
  rw [← edge_ofChanges]
  exact not_transGen_clearWaits _ victim

/-- Three owners on a cycle, beside two that come first in the search and lead nowhere, and one that
has gone. -/
def tangled : List Change :=
  [.setWaits ⟨9⟩ (.ofList [⟨3⟩]), .remove ⟨7⟩, .clearWaits ⟨4⟩, .setWaits ⟨5⟩ (.ofList [⟨2⟩, ⟨9⟩]),
    .setWaits ⟨4⟩ (.ofList [⟨3⟩]), .setWaits ⟨2⟩ (.ofList [⟨2⟩, ⟨5⟩]),
    .setWaits ⟨3⟩ (.ofList [⟨4⟩, ⟨5⟩, ⟨7⟩]), .setWaits ⟨7⟩ (.ofList [⟨3⟩])]

theorem cycles_of_changes_tangled :
    (ofChanges tangled).cycleThrough ⟨3⟩ = some [⟨3⟩, ⟨5⟩, ⟨9⟩] ∧
    (ofChanges tangled).Ends ⟨3⟩ (some [⟨3⟩, ⟨5⟩, ⟨9⟩]) ∧ TransGen (Waits tangled) ⟨3⟩ ⟨3⟩ ∧
    victim? [⟨3⟩, ⟨5⟩, ⟨9⟩] = some ⟨9⟩ ∧
    ¬TransGen (Waits (.clearWaits ⟨9⟩ :: tangled)) ⟨9⟩ ⟨9⟩ := by
  have hcycle : (ofChanges tangled).cycleThrough ⟨3⟩ = some [⟨3⟩, ⟨5⟩, ⟨9⟩] := by decide +kernel
  have hlargest : victim? [⟨3⟩, ⟨5⟩, ⟨9⟩] = some ⟨9⟩ := by decide +kernel
  obtain ⟨hends, hiff, hfound⟩ := cycles_of_changes tangled ⟨3⟩
  obtain ⟨-, -, -, victim, hvictim, -, -, hfree⟩ := hfound _ hcycle
  rw [hlargest] at hvictim
  cases hvictim
  exact ⟨hcycle, (hends _).2 hcycle, hiff.1 (by rw [hcycle]; rfl), hlargest, hfree⟩

end WalStore.WaitGraph

import WalStore.Proofs.Replay.Flat

/-!
# Live sets after any calls

**Theorem (`pairs_of_changes`).** Whatever inserts and removals lead to a live set, it holds the
pairs of a flat list that went through the same changes, sorted by key, and a removal finds
something in the one if it does in the other. The number carried along is that of the pairs, no
group is empty, and two live sets are equal if and only if they have the same pairs.

**Why the number is right.** It is the length of the flat list (`Accounts`): both grow by one with
an insert, and shrink by one with a removal that finds something. The pairs are this list, sorted
(`mergeSort_eq_pairs`). Equality of live sets also compares the groups and the number, so it takes
that a key whose last value goes leaves no group behind (`Raw.Reached.nonempty`).
-/

namespace WalStore

open Replay Flat

/-! ## Removing from a list of pairs -/

namespace Replay.Flat

theorem dropFirst_eq_eraseP {α : Type} (p : α → Bool) (l : List α) :
    dropFirst p l = l.eraseP p := by
  induction l with
  | nil => rfl
  | cons a l ih =>
    rw [dropFirst, List.eraseP_cons, ih]
    cases p a <;> rfl

theorem length_removeFirst (l : List (Bytes × Bytes)) (key : Bytes) (value : Option Bytes) :
    (removeFirst l key value).length =
      if l.any (isMeant key value) then l.length - 1 else l.length := by
  rw [removeFirst, dropFirst_eq_eraseP, List.length_eraseP]

end Replay.Flat

theorem isSome_withoutFirst?_iff {vs : List Bytes} {value : Option Bytes} :
    (withoutFirst? vs value).isSome = true ↔ ∃ v ∈ vs, value.all (v = ·) = true := by
  cases value with
  | none => cases vs <;> simp [withoutFirst?]
  | some w => by_cases h : w ∈ vs <;> simp [withoutFirst?, h]

/-- There is something to lose under a key if a delete means one of the pairs. -/
theorem isSome_withoutFirst?_valuesIn (l : List (Bytes × Bytes)) (key : Bytes)
    (value : Option Bytes) :
    (withoutFirst? (valuesIn l key) value).isSome = l.any (isMeant key value) := by
  rw [Bool.eq_iff_iff, isSome_withoutFirst?_iff, List.any_eq_true]
  constructor
  · rintro ⟨v, hv, hvalue⟩
    obtain ⟨pair, hpair, rfl⟩ := List.mem_map.1 hv
    obtain ⟨hmem, hkey⟩ := List.mem_filter.1 hpair
    exact ⟨pair, hmem, by rw [isMeant, hkey, hvalue]; rfl⟩
  · rintro ⟨pair, hmem, hmeant⟩
    obtain ⟨hkey, hvalue⟩ := Bool.and_eq_true_iff.1 hmeant
    exact ⟨pair.2, List.mem_map_of_mem (List.mem_filter.2 ⟨hmem, hkey⟩), hvalue⟩

namespace LiveSet

/-! ## Groups -/

/-- No group is empty. -/
theorem Raw.Reached.nonempty {s : Raw} (h : s.Reached) : ∀ e ∈ s.groups.entries, e.2 ≠ [] := by
  induction h with
  | empty => exact fun e he => nomatch he
  | @insert s key value _ ih =>
    intro e he
    rcases SortedMap.mem_place he with rfl | he
    · exact List.append_ne_nil_of_right_ne_nil _ (List.cons_ne_nil value [])
    · exact ih e he
  | @remove s key value _ ih =>
    intro e he
    rw [Raw.remove] at he
    split at he
    · exact ih e (List.mem_filter.1 he).1
    · next rest hrest _ =>
      rcases SortedMap.mem_place he with rfl | he
      · exact hrest
      · exact ih e he
    · exact ih e he

/-- A key has a group exactly if it has values. -/
theorem get?_groups (s : LiveSet) (key : Bytes) :
    s.groups.get? key = if s.values key = [] then none else some (s.values key) := by
  rw [values, SortedMap.getD]
  cases hget : s.groups.get? key with
  | none => rfl
  | some vs =>
    have hvs : vs ≠ [] :=
      s.reached.nonempty (key, vs) (SortedMap.get?_eq_some_iff.1 hget)
    rw [Option.getD_some, if_neg hvs]

theorem containsKey_iff {s : LiveSet} {key : Bytes} :
    s.containsKey key = true ↔ s.values key ≠ [] := by
  rw [containsKey, SortedMap.contains, get?_groups]
  split <;> simp [*]

theorem valuesIn_pairs (s : LiveSet) (key : Bytes) : valuesIn s.pairs key = s.values key := by
  rw [valuesIn, filter_pairs, List.map_map]
  exact List.map_id (s.values key)

theorem groups_eq_of_pairs {s s' : LiveSet} (h : s.pairs = s'.pairs) : s.groups = s'.groups := by
  refine SortedMap.ext_get? fun key => ?_
  rw [get?_groups, get?_groups, ← valuesIn_pairs, ← valuesIn_pairs, h]

/-! ## Histories -/

/-- A call that changes a live set. -/
inductive Change where
  | insert (key value : Bytes)
  | remove (key : Bytes) (value : Option Bytes)
  deriving DecidableEq

def change (s : LiveSet) : Change → LiveSet
  | .insert key value => s.insert key value
  | .remove key value => (s.remove key value).1

/-- The live set that changes lead to from nothing. -/
def ofChanges (changes : List Change) : LiveSet := changes.foldl change ∅

/-- The same change to a flat list: a new pair comes last, and the first that is meant goes. -/
def Change.alter (l : List (Bytes × Bytes)) : Change → List (Bytes × Bytes)
  | .insert key value => l ++ [(key, value)]
  | .remove key value => removeFirst l key value

/-- The flat list that changes lead to from nothing. -/
def listed (changes : List Change) : List (Bytes × Bytes) := changes.foldl Change.alter []

theorem ofChanges_concat (changes : List Change) (c : Change) :
    ofChanges (changes ++ [c]) = (ofChanges changes).change c := List.foldl_concat ..

theorem listed_concat (changes : List Change) (c : Change) :
    listed (changes ++ [c]) = c.alter (listed changes) := List.foldl_concat ..

/-- Every live set has a history. -/
theorem exists_ofChanges (s : LiveSet) : ∃ changes, ofChanges changes = s := by
  obtain ⟨s, hreached⟩ := s
  induction hreached with
  | empty => exact ⟨[], rfl⟩
  | insert key value _ ih =>
    obtain ⟨changes, h⟩ := ih
    exact ⟨changes ++ [.insert key value], by rw [ofChanges_concat, h]; rfl⟩
  | remove key value _ ih =>
    obtain ⟨changes, h⟩ := ih
    exact ⟨changes ++ [.remove key value], by rw [ofChanges_concat, h]; rfl⟩

/-! ## The flat list -/

variable {s : LiveSet} {l : List (Bytes × Bytes)}

theorem Lists.found_remove (h : s.Lists l) (key : Bytes) (value : Option Bytes) :
    (s.remove key value).2 = l.any (isMeant key value) := by
  rw [LiveSet.found_remove, h, isSome_withoutFirst?_valuesIn]

/-- A list with the values of the live set, and as many pairs as the live set says it has. -/
structure Accounts (s : LiveSet) (l : List (Bytes × Bytes)) : Prop where
  lists : s.Lists l
  size_eq : s.size = l.length

theorem Accounts.change (h : s.Accounts l) (c : Change) : (s.change c).Accounts (c.alter l) := by
  cases c with
  | insert key value =>
    refine ⟨h.lists.foldl_insert [(key, value)], ?_⟩
    show s.size + 1 = (l ++ [(key, value)]).length
    rw [h.size_eq, List.length_append, List.length_singleton]
  | remove key value =>
    refine ⟨h.lists.remove key value, ?_⟩
    show (s.remove key value).1.size = (removeFirst l key value).length
    rw [size_remove, h.lists.found_remove, length_removeFirst, h.size_eq]

theorem accounts_ofChanges (changes : List Change) :
    (ofChanges changes).Accounts (listed changes) := by
  induction changes using List.reverseRecOn with
  | nil => exact ⟨fun _ => rfl, rfl⟩
  | append_singleton changes c ih =>
    rw [ofChanges_concat, listed_concat]
    exact ih.change c

/-- The number carried along is that of the pairs. -/
theorem size_eq_length (s : LiveSet) : s.size = s.pairs.length := by
  obtain ⟨changes, rfl⟩ := s.exists_ofChanges
  have h := accounts_ofChanges changes
  rw [h.size_eq, ← mergeSort_eq_pairs h.lists, List.length_mergeSort]

/-- Live sets are equal when they have the same pairs. -/
theorem ext_pairs {s s' : LiveSet} (h : s.pairs = s'.pairs) : s = s' := by
  have hgroups := groups_eq_of_pairs h
  have hsize : s.size = s'.size := by rw [size_eq_length, size_eq_length, h]
  obtain ⟨⟨groups, size⟩, _⟩ := s
  obtain ⟨⟨groups', size'⟩, _⟩ := s'
  cases hgroups
  cases hsize
  rfl

/-- **A live set is its flat list in key order.** After any inserts and removals, the number
carried along is that of the pairs, and no key is left with an empty group, so a key is contained
exactly if it has values. The pairs stand in key order, and those of one key as in the flat list; a
removal finds something exactly if the flat list has a pair that is meant. Live sets are equal
exactly if they have the same pairs. -/
theorem pairs_of_changes (changes : List Change) :
    (ofChanges changes).size = (ofChanges changes).pairs.length ∧
    [] ∉ (ofChanges changes).groups.values ∧
    (∀ key, (ofChanges changes).containsKey key = true ↔ (ofChanges changes).values key ≠ []) ∧
    ((ofChanges changes).pairs.Pairwise fun a b => (compare a.1 b.1).isLE = true) ∧
    (∀ key, (ofChanges changes).pairs.filter (·.1 = key) =
      (listed changes).filter (·.1 = key)) ∧
    (∀ key value, ((ofChanges changes).remove key value).2 =
      (listed changes).any (isMeant key value)) ∧
    ∀ others, ofChanges changes = ofChanges others ↔
      (ofChanges changes).pairs = (ofChanges others).pairs := by
  have hlists := (accounts_ofChanges changes).lists
  refine ⟨size_eq_length _, fun hmem => ?_, fun key => containsKey_iff, pairwise_pairs _,
    fun key => ?_, hlists.found_remove, fun others => ?_⟩
  · obtain ⟨e, he, hempty⟩ := List.mem_map.1 hmem
    exact (ofChanges changes).reached.nonempty e he hempty
  · rw [filter_pairs, hlists, filter_eq_map_valuesIn]
  · exact ⟨congrArg pairs, ext_pairs⟩

/-- A key that was emptied is as if it had never been there. -/
example : ofChanges [.insert [1] [5], .insert [2] [6], .remove [1] none, .insert [0] [7]] =
    ofChanges [.insert [0] [7], .insert [2] [6], .remove [2] (some [8])] := by decide +kernel

end LiveSet
end WalStore

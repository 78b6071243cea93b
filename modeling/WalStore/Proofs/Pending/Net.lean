import Mathlib.Data.List.Basic
import Mathlib.Tactic.Tauto
import WalStore.Proofs.Pending
import WalStore.Proofs.SortedMap

/-!
# What is left of pending work

`net` settles one delete after another. What it comes to can be said at once (`net_eq`): the
inserts that are deleted by value go, then the first of each key that is deleted without one, and
the deletes are left over that find none.

**Why the order does not matter.** A set has each delete once. So a delete by value finds its
insert whatever the others do, and a delete without one finds the first of its key.
-/

namespace WalStore

open Std

namespace Pending

/-- A delete that names its value. -/
abbrev byValue (pair : Bytes × Bytes) : Bytes × Option Bytes := (pair.1, some pair.2)

/-- A delete of the first value of a key. -/
abbrev byKey (key : Bytes) : Bytes × Option Bytes := (key, none)

/-! ## The deletes by value -/

theorem foldl_settle_byValue {exact : List (Bytes × Bytes)} (hnodup : exact.Nodup) (n : Net) :
    (exact.map byValue).foldl Net.settle n = ⟨n.inserts.filter (· ∉ exact),
      n.deletes ++ (exact.filter (· ∉ n.inserts)).map byValue⟩ := by
  induction exact generalizing n with
  | nil =>
    refine congrArg₂ Net.mk (SortedSet.ext_mem fun a => ?_) (List.append_nil _).symm
    simp [SortedSet.mem_filter]
  | cons q exact ih =>
    obtain ⟨hq, hnodup⟩ := List.nodup_cons.1 hnodup
    rw [List.map_cons, List.foldl_cons, ih hnodup, Net.settle, Net.cancelled?]
    by_cases hmem : q ∈ n.inserts
    · have hlater : exact.filter (· ∉ n.inserts.erase q) = exact.filter (· ∉ n.inserts) := by
        refine List.filter_congr fun a ha => ?_
        have hne : a ≠ q := fun h => hq (h ▸ ha)
        simp [SortedSet.mem_erase, hne]
      rw [if_pos hmem]
      dsimp only
      refine congrArg₂ Net.mk (SortedSet.ext_mem fun a => ?_) ?_
      · simp [SortedSet.mem_filter, SortedSet.mem_erase]
        tauto
      · rw [hlater, List.filter_cons_of_neg (by simpa using hmem)]
    · rw [if_neg hmem]
      dsimp only
      refine congrArg₂ Net.mk (SortedSet.ext_mem fun a => ?_) ?_
      · have hne (ha : a ∈ n.inserts) : a ≠ q := fun h => hmem (h ▸ ha)
        simp [SortedSet.mem_filter]
        tauto
      · rw [List.filter_cons_of_pos (by simpa using hmem), List.map_cons, List.append_assoc]
        rfl

/-! ## The deletes of first values -/

/-- The first insert under a key. -/
def firstOf (inserts : SortedSet (Bytes × Bytes)) (key : Bytes) : Option (Bytes × Bytes) :=
  inserts.toList.find? (·.1 = key)

theorem firstOf_erase_of_ne {inserts : SortedSet (Bytes × Bytes)} {q : Bytes × Bytes} {key : Bytes}
    (h : q.1 ≠ key) : firstOf (inserts.erase q) key = firstOf inserts key := by
  rw [firstOf, firstOf, SortedSet.erase, SortedSet.filter, List.find?_filter]
  congr 1
  funext a
  by_cases ha : a.1 = key
  · have hne : compare q a ≠ .eq := fun heq => h (LawfulEqCmp.eq_of_compare heq ▸ ha)
    simp [ha, hne]
  · simp [ha]

theorem foldl_settle_byKey {keys : List Bytes} (hnodup : keys.Nodup) (n : Net) :
    (keys.map byKey).foldl Net.settle n =
      ⟨n.inserts.filter (· ∉ keys.filterMap (firstOf n.inserts)),
        n.deletes ++ (keys.filter (firstOf n.inserts · = none)).map byKey⟩ := by
  induction keys generalizing n with
  | nil =>
    refine congrArg₂ Net.mk (SortedSet.ext_mem fun a => ?_) (List.append_nil _).symm
    simp [SortedSet.mem_filter]
  | cons key keys ih =>
    obtain ⟨hkey, hnodup⟩ := List.nodup_cons.1 hnodup
    rw [List.map_cons, List.foldl_cons, ih hnodup, Net.settle]
    cases hfirst : firstOf n.inserts key with
    | none =>
      rw [show Net.cancelled? n.inserts (byKey key) = none from hfirst]
      dsimp only
      rw [List.filterMap_cons_none hfirst, List.filter_cons_of_pos (by simpa using hfirst),
        List.map_cons, List.append_assoc]
      rfl
    | some q =>
      have hq : q.1 = key := by simpa using List.find?_some hfirst
      have hlater (k : Bytes) (hk : k ∈ keys) :
          firstOf (n.inserts.erase q) k = firstOf n.inserts k :=
        firstOf_erase_of_ne fun h => hkey (hq ▸ h ▸ hk)
      rw [show Net.cancelled? n.inserts (byKey key) = some q from hfirst]
      dsimp only
      rw [List.filterMap_congr hlater, List.filterMap_cons_some hfirst]
      refine congrArg₂ Net.mk (SortedSet.ext_mem fun a => ?_) ?_
      · simp only [SortedSet.mem_filter, SortedSet.mem_erase, decide_eq_true_eq, List.mem_cons]
        tauto
      · rw [List.filter_cons_of_neg (by simp [hfirst]),
          List.filter_congr fun k hk => by rw [hlater k hk]]

/-! ## All deletes -/

variable {p : Pending} {exact : SortedSet (Bytes × Bytes)} {keys : SortedSet Bytes}

theorem choosing_eq (hexact : ∀ q, byValue q ∈ p.deletes ↔ q ∈ exact)
    (hkeys : ∀ key, byKey key ∈ p.deletes ↔ key ∈ keys) :
    p.choosing = exact.toList.map byValue ++ keys.toList.map byKey := by
  refine congrArg₂ (· ++ ·) ?_ ?_
  · refine SortedMap.eq_of_mem_iff (f := id) (p.deletes.sorted.filter _)
      (List.pairwise_map.2 (exact.sorted.imp id)) fun d => ?_
    rw [List.mem_filter, List.mem_map]
    constructor
    · rintro ⟨hd, hsome⟩
      obtain ⟨value, hvalue⟩ := Option.isSome_iff_exists.1 hsome
      have heq : byValue (d.1, value) = d := Prod.ext rfl hvalue.symm
      exact ⟨_, (hexact _).1 (heq ▸ hd), heq⟩
    · rintro ⟨q, hq, rfl⟩
      exact ⟨(hexact q).2 hq, rfl⟩
  · refine SortedMap.eq_of_mem_iff (f := id) (p.deletes.sorted.filter _)
      (List.pairwise_map.2 (keys.sorted.imp fun h => ?_)) fun d => ?_
    · show (compare _ _).then (compare (none : Option Bytes) none) = .lt
      rw [id, id, h]
      rfl
    rw [List.mem_filter, List.mem_map]
    constructor
    · rintro ⟨hd, hnone⟩
      have heq : byKey d.1 = d := Prod.ext rfl (Option.isNone_iff_eq_none.1 hnone).symm
      exact ⟨_, (hkeys _).1 (heq ▸ hd), heq⟩
    · rintro ⟨key, hkey, rfl⟩
      exact ⟨(hkeys key).2 hkey, rfl⟩

/-- Deletes by value cancel first. So each of the others takes the first insert of its key that is
not deleted by value. -/
theorem net_eq (hexact : ∀ q, byValue q ∈ p.deletes ↔ q ∈ exact)
    (hkeys : ∀ key, byKey key ∈ p.deletes ↔ key ∈ keys) :
    let kept := p.inserts.filter (· ∉ exact.toList)
    p.net = ⟨kept.filter (· ∉ keys.toList.filterMap (firstOf kept)),
      (exact.toList.filter (· ∉ p.inserts)).map byValue ++
        (keys.toList.filter (firstOf kept · = none)).map byKey⟩ := by
  rw [net, choosing_eq hexact hkeys, List.foldl_append, foldl_settle_byValue exact.nodup_toList,
    foldl_settle_byKey keys.nodup_toList, List.nil_append]

end Pending
end WalStore

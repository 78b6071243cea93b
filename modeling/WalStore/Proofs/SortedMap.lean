import WalStore.SortedMap

/-!
# Lookups in sorted maps and sets

What the operations on sorted maps and sets do, seen through `get?` and membership. Together
with `get?_insert`, `get?_erase`, `mem_insert` and `mem_erase` these are all that is used about
them elsewhere.
-/

namespace WalStore

open Std

namespace SortedMap

section Lawful

variable {κ ν ν' : Type} [Ord κ] [LawfulEqOrd κ]

theorem get?_mapValues (m : SortedMap κ ν) (f : ν → ν') (k : κ) :
    (m.mapValues f).get? k = (m.get? k).map f := by
  apply Option.ext
  intro v
  rw [get?_eq_some_iff, Option.map_eq_some_iff]
  simp only [mapValues, List.mem_map, Prod.mk.injEq, Prod.exists, get?_eq_some_iff]
  constructor
  · rintro ⟨_, v', h, rfl, rfl⟩
    exact ⟨v', h, rfl⟩
  · rintro ⟨v', h, rfl⟩
    exact ⟨k, v', h, rfl, rfl⟩

theorem get?_filterMapValues (m : SortedMap κ ν) (f : ν → Option ν') (k : κ) :
    (m.filterMapValues f).get? k = (m.get? k).bind f := by
  apply Option.ext
  intro v
  rw [get?_eq_some_iff, Option.bind_eq_some_iff]
  simp only [filterMapValues, List.mem_filterMap, Option.map_eq_some_iff, Prod.mk.injEq,
    Prod.exists, get?_eq_some_iff]
  constructor
  · rintro ⟨_, v', h, _, hf, rfl, rfl⟩
    exact ⟨v', h, hf⟩
  · rintro ⟨v', h, hf⟩
    exact ⟨k, v', h, v, hf, rfl, rfl⟩

theorem isEmpty_iff {m : SortedMap κ ν} : m.isEmpty = true ↔ ∀ k, m.get? k = none := by
  rw [isEmpty, List.isEmpty_iff]
  constructor
  · intro h k
    rw [get?, h]
    rfl
  · intro h
    rw [List.eq_nil_iff_forall_not_mem]
    rintro ⟨k, v⟩ he
    have := get?_eq_some_iff.2 he
    rw [h k] at this
    cases this

theorem getD_erase [DecidableEq κ] (m : SortedMap κ ν) (k k' : κ) (d : ν) :
    (m.erase k).getD k' d = if k' = k then d else m.getD k' d := by
  simp only [getD, get?_erase]
  split <;> rfl

theorem getD_insert [TransOrd κ] [DecidableEq κ] (m : SortedMap κ ν) (k k' : κ) (v d : ν) :
    (m.insert k v).getD k' d = if k' = k then v else m.getD k' d := by
  simp only [getD, get?_insert]
  split <;> rfl

end Lawful

section Order

variable {κ ν : Type} [Ord κ] [TransOrd κ] [LawfulEqOrd κ] [DecidableEq κ]

theorem insert_comm (m : SortedMap κ ν) {k k' : κ} (h : k ≠ k') (v v' : ν) :
    (m.insert k v).insert k' v' = (m.insert k' v').insert k v := by
  refine ext_get? fun x => ?_
  simp only [get?_insert]
  by_cases hx : x = k
  · subst hx
    simp [h]
  · simp [hx]

theorem insert_insert (m : SortedMap κ ν) (k : κ) (v v' : ν) :
    (m.insert k v).insert k v' = m.insert k v' := by
  refine ext_get? fun x => ?_
  simp only [get?_insert]
  by_cases hx : x = k <;> simp [hx]

theorem insert_of_some {m : SortedMap κ ν} {k : κ} {v : ν} (h : m.get? k = some v) :
    m.insert k v = m := by
  refine ext_get? fun x => ?_
  rw [get?_insert]
  split
  · next hx => rw [hx, h]
  · rfl

theorem erase_insert_comm (m : SortedMap κ ν) {k k' : κ} (h : k ≠ k') (v : ν) :
    (m.insert k v).erase k' = (m.erase k').insert k v := by
  refine ext_get? fun x => ?_
  simp only [get?_insert, get?_erase]
  by_cases hx : x = k
  · subst hx
    simp [h]
  · simp [hx]

end Order

section Size

variable {κ ν : Type} [Ord κ]

theorem length_place_le (k : κ) (v : ν) (l : List (κ × ν)) :
    (place k v l).length ≤ l.length + 1 := by
  induction l with
  | nil => exact Nat.le_refl _
  | cons e l ih =>
    rw [place]
    split <;> simp only [List.length_cons] <;> omega

theorem size_insert_le [TransOrd κ] [LawfulEqOrd κ] (m : SortedMap κ ν) (k : κ) (v : ν) :
    (m.insert k v).size ≤ m.size + 1 := length_place_le k v m.entries

theorem length_le_place (k : κ) (v : ν) (l : List (κ × ν)) : l.length ≤ (place k v l).length := by
  induction l with
  | nil => exact Nat.zero_le _
  | cons e l ih =>
    rw [place]
    split <;> simp only [List.length_cons] <;> omega

theorem size_le_insert [TransOrd κ] [LawfulEqOrd κ] (m : SortedMap κ ν) (k : κ) (v : ν) :
    m.size ≤ (m.insert k v).size := length_le_place k v m.entries

theorem size_erase_le (m : SortedMap κ ν) (k : κ) : (m.erase k).size ≤ m.size :=
  List.length_filter_le ..

theorem size_erase_lt [TransOrd κ] [LawfulEqOrd κ] {m : SortedMap κ ν} {k : κ} {v : ν}
    (h : m.get? k = some v) : (m.erase k).size < m.size := by
  refine List.length_filter_lt_length_iff_exists.2 ⟨(k, v), get?_eq_some_iff.1 h, ?_⟩
  simp

theorem erase_of_none [TransOrd κ] [LawfulEqOrd κ] [DecidableEq κ] {m : SortedMap κ ν} {k : κ}
    (h : m.get? k = none) : m.erase k = m := by
  refine ext_get? fun x => ?_
  rw [get?_erase]
  split
  · next hx => rw [hx, h]
  · rfl

/-- At most one entry is erased. -/
theorem size_le_erase [TransOrd κ] [LawfulEqOrd κ] [DecidableEq κ] (m : SortedMap κ ν) (k : κ) :
    m.size ≤ (m.erase k).size + 1 := by
  cases hget : m.get? k with
  | none =>
    rw [erase_of_none hget]
    exact Nat.le_succ _
  | some v =>
    have hsame : (m.erase k).insert k v = m := by
      refine ext_get? fun x => ?_
      rw [get?_insert, get?_erase]
      split
      · next hx => rw [hx, hget]
      · rfl
    have hsize := size_insert_le (m.erase k) k v
    rwa [hsame] at hsize

theorem size_erase_of_some [TransOrd κ] [LawfulEqOrd κ] [DecidableEq κ] {m : SortedMap κ ν} {k : κ}
    {v : ν} (h : m.get? k = some v) : (m.erase k).size + 1 = m.size :=
  Nat.le_antisymm (size_erase_lt h) (m.size_le_erase k)

theorem erase_insert [TransOrd κ] [LawfulEqOrd κ] [DecidableEq κ] (m : SortedMap κ ν) (k : κ)
    (v : ν) : (m.insert k v).erase k = m.erase k := by
  refine ext_get? fun x => ?_
  rw [get?_erase, get?_erase, get?_insert]
  split <;> rfl

theorem size_insert_of_none [TransOrd κ] [LawfulEqOrd κ] [DecidableEq κ] {m : SortedMap κ ν} {k : κ}
    (h : m.get? k = none) (v : ν) : (m.insert k v).size = m.size + 1 := by
  have hget : (m.insert k v).get? k = some v := by rw [get?_insert, if_pos rfl]
  rw [← size_erase_of_some hget, erase_insert, erase_of_none h]

theorem size_insert_of_some [TransOrd κ] [LawfulEqOrd κ] [DecidableEq κ] {m : SortedMap κ ν} {k : κ}
    {v : ν} (h : m.get? k = some v) (v' : ν) : (m.insert k v').size = m.size := by
  have hget : (m.insert k v').get? k = some v' := by rw [get?_insert, if_pos rfl]
  rw [← size_erase_of_some hget, erase_insert, size_erase_of_some h]

end Size

section Nodup

variable {κ ν : Type} [Ord κ] [ReflOrd κ]

theorem nodup_keys (m : SortedMap κ ν) : m.keys.Nodup :=
  List.pairwise_map.2 (m.sorted.imp fun hlt heq => by simp [heq] at hlt)

/-- Erasing the smallest key. -/
theorem keys_erase {m : SortedMap κ ν} {k : κ} {ks : List κ} (h : m.keys = k :: ks) :
    (m.erase k).keys = ks := by
  obtain ⟨entries, sorted⟩ := m
  cases entries with
  | nil => cases h
  | cons e entries =>
    cases h
    obtain ⟨hlater, -⟩ := List.pairwise_cons.1 sorted
    have hkept : entries.filter (fun e' => compare e.1 e'.1 ≠ .eq) = entries := by
      rw [List.filter_eq_self]
      intro e' he'
      simp [hlater e' he']
    show (List.filter (fun e' => compare e.1 e'.1 ≠ .eq) (e :: entries)).map (·.1) = _
    rw [List.filter_cons_of_neg (by simp), hkept]

theorem nodup_entries (m : SortedMap κ ν) : m.entries.Nodup :=
  m.sorted.imp fun hlt heq => by simp [heq] at hlt

end Nodup

end SortedMap

namespace SortedSet

variable {α : Type} [Ord α]

theorem isEmpty_iff {s : SortedSet α} : s.isEmpty = true ↔ ∀ a, ¬a ∈ s := by
  rw [isEmpty, List.isEmpty_iff, List.eq_nil_iff_forall_not_mem]
  rfl

theorem eq_empty_of_isEmpty {s : SortedSet α} (h : s.isEmpty = true) : s = ∅ := by
  cases s with
  | mk l hl =>
    cases List.isEmpty_iff.1 h
    rfl

theorem nodup_toList [ReflOrd α] (s : SortedSet α) : s.toList.Nodup :=
  s.sorted.imp fun hlt heq => by simp [heq] at hlt

theorem mem_foldl_insert [TransOrd α] [LawfulEqOrd α] {l : List α} {s : SortedSet α} {a : α} :
    a ∈ l.foldl insert s ↔ a ∈ l ∨ a ∈ s := by
  induction l generalizing s with
  | nil => simp
  | cons b l ih =>
    rw [List.foldl_cons, ih, mem_insert, List.mem_cons, ← or_assoc, or_comm (a := a ∈ l)]

theorem mem_ofList [TransOrd α] [LawfulEqOrd α] {l : List α} {a : α} : a ∈ ofList l ↔ a ∈ l := by
  rw [ofList, mem_foldl_insert]
  simp

theorem insert_comm [TransOrd α] [LawfulEqOrd α] (s : SortedSet α) (a b : α) :
    (s.insert a).insert b = (s.insert b).insert a := by
  refine ext_mem fun x => ?_
  simp only [mem_insert]
  exact or_left_comm

end SortedSet
end WalStore

import WalStore.LiveSet
import WalStore.Proofs.SortedMap

/-!
# Live sets as lists of pairs

The pairs of a live set stand in key order, and those of one key are its values
(`filter_pairs`). This determines the list: sorting any list of pairs by key, stably, gives the
pairs of the live set that has the same values under every key (`mergeSort_eq_pairs`).
-/

namespace WalStore

open Std

/-- The values under `key` in a list of pairs, in their order. -/
def valuesIn (pairs : List (Bytes × Bytes)) (key : Bytes) : List Bytes :=
  (pairs.filter (·.1 = key)).map (·.2)

theorem valuesIn_append (pairs pairs' : List (Bytes × Bytes)) (key : Bytes) :
    valuesIn (pairs ++ pairs') key = valuesIn pairs key ++ valuesIn pairs' key := by
  rw [valuesIn, List.filter_append, List.map_append]
  rfl

theorem valuesIn_cons (k v : Bytes) (pairs : List (Bytes × Bytes)) (key : Bytes) :
    valuesIn ((k, v) :: pairs) key =
      if key = k then v :: valuesIn pairs key else valuesIn pairs key := by
  unfold valuesIn
  split <;> simp_all [eq_comm]

/-! ## Lists in key order -/

section Sorted

variable {κ ν : Type} [Ord κ] [TransOrd κ] [LawfulEqOrd κ] [DecidableEq κ] {l₁ l₂ : List (κ × ν)}

/-- Two lists in key order are the same if they have the same elements under every key, in the
same order. -/
theorem eq_of_filter_eq (h₁ : l₁.Pairwise fun a b => (compare a.1 b.1).isLE = true)
    (h₂ : l₂.Pairwise fun a b => (compare a.1 b.1).isLE = true)
    (h : ∀ key, l₁.filter (·.1 = key) = l₂.filter (·.1 = key)) : l₁ = l₂ := by
  have hsub {l l' : List (κ × ν)} (h : ∀ key, l.filter (·.1 = key) = l'.filter (·.1 = key))
      {a : κ × ν} (ha : a ∈ l) : a ∈ l' := by
    have hfilter : a ∈ l.filter (·.1 = a.1) := List.mem_filter.2 ⟨ha, by simp⟩
    rw [h] at hfilter
    exact (List.mem_filter.1 hfilter).1
  induction l₁ generalizing l₂ with
  | nil =>
    rw [eq_comm, List.eq_nil_iff_forall_not_mem]
    exact fun a ha => List.not_mem_nil (hsub (fun key => (h key).symm) ha)
  | cons a l₁ ih =>
    cases l₂ with
    | nil => exact absurd (hsub h List.mem_cons_self) List.not_mem_nil
    | cons b l₂ =>
      obtain ⟨ha, hrest₁⟩ := List.pairwise_cons.1 h₁
      obtain ⟨hb, hrest₂⟩ := List.pairwise_cons.1 h₂
      -- Each head is at most the other, so they are of one key, and first under it.
      have hab : a = b := by
        rcases List.mem_cons.1 (hsub h List.mem_cons_self) with hab | hab
        · exact hab
        rcases List.mem_cons.1 (hsub (fun key => (h key).symm) List.mem_cons_self) with hba | hba
        · exact hba.symm
        have hkey : a.1 = b.1 :=
          LawfulEqCmp.eq_of_compare (OrientedCmp.isLE_antisymm (ha b hba) (hb a hab))
        have hheads := h b.1
        rw [List.filter_cons_of_pos (by simpa using hkey), List.filter_cons_of_pos (by simp)]
          at hheads
        exact (List.cons.inj hheads).1
      subst hab
      refine congrArg (a :: ·) (ih hrest₁ hrest₂ fun key => ?_)
      have hkey := h key
      rw [List.filter_cons, List.filter_cons] at hkey
      split at hkey
      · exact (List.cons.inj hkey).2
      · exact hkey

omit [LawfulEqOrd κ] [DecidableEq κ] in
theorem isLE_total (a b : κ) : ((compare a b).isLE || (compare b a).isLE) = true := by
  have hswap : compare b a = (compare a b).swap := OrientedCmp.eq_swap
  rw [hswap]
  cases compare a b <;> rfl

/-- A stable sort by key keeps the elements of each key in order. -/
theorem filter_mergeSort (l : List (κ × ν)) (key : κ) :
    (l.mergeSort fun a b => (compare a.1 b.1).isLE).filter (·.1 = key) =
      l.filter (·.1 = key) := by
  have hsub : (l.filter (·.1 = key)).Sublist
      (l.mergeSort fun a b => (compare a.1 b.1).isLE) := by
    refine List.sublist_mergeSort (fun a b c => TransCmp.isLE_trans)
      (fun a b => isLE_total a.1 b.1) ?_ List.filter_sublist
    refine List.pairwise_of_forall_mem_list fun a ha b hb => ?_
    have hakey : a.1 = key := by simpa using (List.mem_filter.1 ha).2
    have hbkey : b.1 = key := by simpa using (List.mem_filter.1 hb).2
    rw [hakey, hbkey]
    exact ReflCmp.isLE_rfl
  have hfilter := hsub.filter (·.1 = key)
  rw [List.filter_filter] at hfilter
  simp only [Bool.and_self] at hfilter
  have hlength := ((List.mergeSort_perm l fun a b => (compare a.1 b.1).isLE).filter
    (·.1 = key)).length_eq
  exact (hfilter.eq_of_length hlength.symm).symm

end Sorted

namespace LiveSet

/-! ## Pairs -/

theorem pairwise_pairs (s : LiveSet) :
    s.pairs.Pairwise fun a b => (compare a.1 b.1).isLE = true := by
  refine List.pairwise_flatMap.2 ⟨fun e _ => ?_, s.groups.sorted.imp fun hlt a ha b hb => ?_⟩
  · refine List.pairwise_of_forall_mem_list fun a ha b hb => ?_
    obtain ⟨_, -, rfl⟩ := List.mem_map.1 ha
    obtain ⟨_, -, rfl⟩ := List.mem_map.1 hb
    exact ReflCmp.isLE_rfl
  · obtain ⟨_, -, rfl⟩ := List.mem_map.1 ha
    obtain ⟨_, -, rfl⟩ := List.mem_map.1 hb
    rw [hlt]
    rfl

theorem filter_pairs (s : LiveSet) (key : Bytes) :
    s.pairs.filter (·.1 = key) = (s.values key).map (key, ·) := by
  have hgroup (k : Bytes) (vs : List Bytes) : (vs.map (k, ·)).filter (·.1 = key) =
      if k = key then vs.map (key, ·) else [] := by
    split
    · next h =>
      subst h
      exact List.filter_eq_self.2 (by simp)
    · next h => exact List.filter_eq_nil_iff.2 (by simpa using fun _ _ => h)
  have hentries (l : List (Bytes × List Bytes)) (h : l.Pairwise fun a b => compare a.1 b.1 = .lt) :
      (l.flatMap fun e => e.2.map (e.1, ·)).filter (·.1 = key) =
        ((SortedMap.find? key l).getD []).map (key, ·) := by
    induction l with
    | nil => rfl
    | cons e l ih =>
      obtain ⟨k, vs⟩ := e
      obtain ⟨hfirst, hrest⟩ := List.pairwise_cons.1 h
      rw [List.flatMap_cons, List.filter_append, ih hrest, hgroup, SortedMap.find?]
      by_cases hk : compare key k = .eq
      · cases LawfulEqCmp.eq_of_compare hk
        have hnone : SortedMap.find? key l = none := by
          rw [Option.eq_none_iff_forall_ne_some]
          intro v hv
          have hlt := hfirst _ ((SortedMap.find?_eq_some_iff hrest).1 hv)
          simp at hlt
        simp [hnone]
      · have hne : k ≠ key := fun heq => hk (heq ▸ ReflCmp.compare_self)
        rw [if_neg hne, if_neg hk, List.nil_append]
  exact hentries s.groups.entries s.groups.sorted

theorem filter_eq_map_valuesIn (l : List (Bytes × Bytes)) (key : Bytes) :
    l.filter (·.1 = key) = (valuesIn l key).map (key, ·) := by
  rw [valuesIn, List.map_map]
  refine (List.map_id _).symm.trans (List.map_congr_left fun p hp => ?_)
  have hkey : p.1 = key := by simpa using (List.mem_filter.1 hp).2
  exact Prod.ext hkey rfl

/-- A list of pairs, sorted by key, is that of the live set with the same values. -/
theorem mergeSort_eq_pairs {l : List (Bytes × Bytes)} {s : LiveSet}
    (h : ∀ key, s.values key = valuesIn l key) :
    (l.mergeSort fun a b => (compare a.1 b.1).isLE) = s.pairs := by
  refine eq_of_filter_eq ?_ s.pairwise_pairs fun key => ?_
  · exact List.pairwise_mergeSort (fun a b c => TransCmp.isLE_trans)
      (fun a b => isLE_total a.1 b.1) l
  · rw [filter_mergeSort, filter_pairs, h, filter_eq_map_valuesIn]

/-! ## Changes -/

variable {key key' : Bytes}

theorem values_foldl_insert (pairs : List (Bytes × Bytes)) (s : LiveSet) (key : Bytes) :
    (pairs.foldl (fun s p => s.insert p.1 p.2) s).values key =
      s.values key ++ valuesIn pairs key := by
  induction pairs generalizing s with
  | nil => exact (List.append_nil _).symm
  | cons p pairs ih =>
    rw [List.foldl_cons, ih, values_insert, valuesIn_cons]
    split
    · next h => rw [h, List.append_assoc, List.singleton_append]
    · rfl

theorem values_foldl_insert_of_ne (pairs : List (Bytes × Bytes)) (s : LiveSet)
    (h : ∀ p ∈ pairs, key ≠ p.1) :
    (pairs.foldl (fun s p => s.insert p.1 p.2) s).values key = s.values key := by
  have hnone : pairs.filter (·.1 = key) = [] :=
    List.filter_eq_nil_iff.2 fun p hp => by simpa using (h p hp).symm
  rw [values_foldl_insert, valuesIn, hnone, List.map_nil, List.append_nil]

/-- Pairs of one key come to stand under it in their order. -/
theorem values_ofPairs (key : Bytes) (vs : List Bytes) :
    (ofPairs (vs.map (key, ·))).values key = vs := by
  rw [ofPairs, values_foldl_insert, values_empty, List.nil_append, valuesIn,
    List.filter_eq_self.2 (by simp), List.map_map]
  exact List.map_id vs

theorem values_remove (s : LiveSet) (key key' : Bytes) (value : Option Bytes) :
    (s.remove key value).1.values key' =
      if key' = key then (withoutFirst? (s.values key) value).getD (s.values key)
      else s.values key' := by
  show (s.toRaw.remove key value).1.groups.getD key' [] =
    if key' = key then (withoutFirst? (s.groups.getD key []) value).getD (s.groups.getD key [])
    else s.groups.getD key' []
  rw [Raw.remove]
  split
  · next h =>
    rw [h]
    exact SortedMap.getD_erase ..
  · next rest _ h =>
    rw [h]
    exact SortedMap.getD_insert ..
  · next hnone =>
    rw [hnone, Option.getD_none]
    split
    · next h => rw [h]
    · rfl

/-- A removal finds something if there is something to lose under its key. -/
theorem found_remove (s : LiveSet) (key : Bytes) (value : Option Bytes) :
    (s.remove key value).2 = (withoutFirst? (s.values key) value).isSome := by
  show (s.toRaw.remove key value).2 = (withoutFirst? (s.groups.getD key []) value).isSome
  rw [Raw.remove]
  split <;> next h => rw [h]; rfl

theorem size_remove (s : LiveSet) (key : Bytes) (value : Option Bytes) :
    (s.remove key value).1.size = if (s.remove key value).2 then s.size - 1 else s.size := by
  show (s.toRaw.remove key value).1.size =
    if (s.toRaw.remove key value).2 then s.size - 1 else s.size
  rw [Raw.remove]
  generalize withoutFirst? (s.groups.getD key []) value = rest
  rcases rest with _ | _ | _ <;> rfl

theorem values_remove_of_ne (s : LiveSet) (h : key ≠ key') (value : Option Bytes) :
    (s.remove key' value).1.values key = s.values key := by
  rw [values_remove, if_neg h]

end LiveSet
end WalStore

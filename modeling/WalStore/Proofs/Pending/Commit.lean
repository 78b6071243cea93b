import Mathlib.Data.List.Basic
import WalStore.Proofs.Pending.Net

/-!
# What a commit leaves under a key

Each key can be looked at alone. Of its live values those go first that the work deletes by value
without having inserted them, each once. If the first value is to go as well and no insert of the
work is left to take it from, the first of the rest goes. The inserts that are left stand behind
them in ascending order (`commitInto_eq_kept_append_added`).

**Own inserts are safe.** Commit inserts before it deletes. A delete that is left over names a
value that is not among the inserts, or is of a key that has none left. So it `Spares` them, and
removing from live values with such inserts behind them is removing from the live values
(`foldl_delete_append`).
-/

namespace WalStore

open Std

namespace Pending

/-! ## The effect under one key -/

/-- The pairs that are deleted by value. -/
def byValues (p : Pending) : SortedSet (Bytes × Bytes) :=
  .ofList (p.deletes.toList.filterMap fun d => d.2.map (d.1, ·))

/-- The keys whose first value is deleted. -/
def byKeys (p : Pending) : SortedSet Bytes :=
  .ofList ((p.deletes.toList.filter (·.2.isNone)).map (·.1))

/-- The inserted values under a key that are not deleted by value, ascending. -/
def survivors (p : Pending) (key : Bytes) : List Bytes :=
  (valuesIn p.inserts.toList key).filter fun v => byValue (key, v) ∉ p.deletes

/-- The values that a commit adds under a key: a delete of the first value takes the smallest. -/
def added (p : Pending) (key : Bytes) : List Bytes :=
  if byKey key ∈ p.deletes then (p.survivors key).tail else p.survivors key

/-- The values under a key that are deleted by value and not inserted. -/
def targets (p : Pending) (key : Bytes) : List Bytes :=
  valuesIn (p.byValues.toList.filter (· ∉ p.inserts)) key

/-- What a commit leaves of the live values under a key. -/
def kept (p : Pending) (key : Bytes) (live : List Bytes) : List Bytes :=
  if byKey key ∈ p.deletes ∧ p.survivors key = [] then (live.diff (p.targets key)).tail
  else live.diff (p.targets key)

/-- The delete is not of an own insert, and there is no live value for it. -/
def misses (p : Pending) (live : LiveSet) : Bytes × Option Bytes → Bool
  | (key, some value) => (key, value) ∉ p.inserts && !(live.values key).contains value
  | (key, none) => p.survivors key = [] ∧ (live.values key).diff (p.targets key) = []

theorem mem_byValues {p : Pending} {q : Bytes × Bytes} :
    byValue q ∈ p.deletes ↔ q ∈ p.byValues := by
  rw [byValues, SortedSet.mem_ofList, List.mem_filterMap]
  constructor
  · exact fun h => ⟨byValue q, h, rfl⟩
  · rintro ⟨⟨key, value⟩, hd, hq⟩
    obtain ⟨v, rfl, rfl⟩ := Option.map_eq_some_iff.1 hq
    exact hd

theorem mem_byKeys {p : Pending} {key : Bytes} : byKey key ∈ p.deletes ↔ key ∈ p.byKeys := by
  rw [byKeys, SortedSet.mem_ofList, List.mem_map]
  constructor
  · exact fun h => ⟨byKey key, List.mem_filter.2 ⟨h, rfl⟩, rfl⟩
  · rintro ⟨⟨k, value⟩, hd, rfl⟩
    obtain ⟨hd, hnone⟩ := List.mem_filter.1 hd
    cases Option.isNone_iff_eq_none.1 hnone
    exact hd

theorem mem_valuesIn {pairs : List (Bytes × Bytes)} {key value : Bytes} :
    value ∈ valuesIn pairs key ↔ (key, value) ∈ pairs := by
  simp [valuesIn]

theorem mem_survivors {p : Pending} {key value : Bytes} :
    value ∈ p.survivors key ↔ (key, value) ∈ p.inserts ∧ byValue (key, value) ∉ p.deletes := by
  rw [survivors, List.mem_filter, mem_valuesIn, decide_eq_true_iff]
  rfl

theorem mem_targets {p : Pending} {key value : Bytes} :
    value ∈ p.targets key ↔ byValue (key, value) ∈ p.deletes ∧ (key, value) ∉ p.inserts := by
  rw [targets, mem_valuesIn, List.mem_filter, decide_eq_true_iff, mem_byValues]
  rfl

/-- The values of one key stand in a set of pairs in ascending order. -/
theorem pairwise_valuesIn (pairs : SortedSet (Bytes × Bytes)) (key : Bytes) :
    (valuesIn pairs.toList key).Pairwise fun v w => compare v w = .lt := by
  refine List.pairwise_map.2 ((pairs.sorted.filter _).imp_of_mem fun {a b} ha hb hlt => ?_)
  have hakey : a.1 = key := by simpa using (List.mem_filter.1 ha).2
  have hbkey : b.1 = key := by simpa using (List.mem_filter.1 hb).2
  have hthen : (compare a.1 b.1).then (compare a.2 b.2) = .lt := hlt
  have hself : compare key key = .eq := ReflCmp.compare_self
  rwa [hakey, hbkey, hself] at hthen

theorem pairwise_survivors (p : Pending) (key : Bytes) :
    (p.survivors key).Pairwise fun v w => compare v w = .lt :=
  (pairwise_valuesIn p.inserts key).filter _

theorem pairwise_targets (p : Pending) (key : Bytes) :
    (p.targets key).Pairwise fun v w => compare v w = .lt :=
  pairwise_valuesIn (p.byValues.filter (· ∉ p.inserts)) key

theorem nodup_targets (p : Pending) (key : Bytes) : (p.targets key).Nodup :=
  (p.pairwise_targets key).imp fun hlt heq => by simp [heq] at hlt

/-! ## The inserts that are left -/

/-- Deletes by value leave the survivors. -/
theorem valuesIn_filter_byValues (p : Pending) (key : Bytes) :
    valuesIn (p.inserts.filter (· ∉ p.byValues.toList)).toList key = p.survivors key := by
  have hmem (q : Bytes × Bytes) : q ∉ p.byValues.toList ↔ byValue q ∉ p.deletes :=
    not_congr mem_byValues.symm
  simp only [hmem]
  rw [survivors, valuesIn, valuesIn, List.filter_map, SortedSet.filter, List.filter_filter,
    List.filter_filter]
  refine congrArg (List.map _) (List.filter_congr fun a _ => ?_)
  by_cases hkey : a.1 = key
  · subst hkey
    simp
  · simp [hkey]

/-- Without the first of each of the keys, the values under one of these are the later ones. -/
theorem valuesIn_filter_firstOf (inserts : SortedSet (Bytes × Bytes)) (keys : List Bytes)
    (key : Bytes) :
    valuesIn (inserts.filter (· ∉ keys.filterMap (firstOf inserts))).toList key =
      if key ∈ keys then (valuesIn inserts.toList key).tail else valuesIn inserts.toList key := by
  have hfirst (a : Bytes × Bytes) : a ∈ keys.filterMap (firstOf inserts) ↔
      a.1 ∈ keys ∧ (inserts.toList.filter (·.1 = a.1)).head? = some a := by
    rw [List.mem_filterMap, List.head?_filter]
    constructor
    · rintro ⟨k, hk, hfirst⟩
      have hkey : a.1 = k := by simpa using List.find?_some hfirst
      subst hkey
      exact ⟨hk, hfirst⟩
    · exact fun ⟨hk, hfirst⟩ => ⟨a.1, hk, hfirst⟩
  have hcomm : (inserts.filter (· ∉ keys.filterMap (firstOf inserts))).toList.filter (·.1 = key) =
      (inserts.toList.filter (·.1 = key)).filter (· ∉ keys.filterMap (firstOf inserts)) := by
    rw [SortedSet.filter, List.filter_filter, List.filter_filter]
    exact List.filter_congr fun a _ => Bool.and_comm ..
  have hnodup := inserts.nodup_toList.filter (·.1 = key)
  have hkeys (a : Bytes × Bytes) (ha : a ∈ inserts.toList.filter (·.1 = key)) : a.1 = key := by
    simpa using (List.mem_filter.1 ha).2
  rw [valuesIn, hcomm, valuesIn]
  generalize hgroup : inserts.toList.filter (·.1 = key) = group at hnodup hkeys
  have hgone (a : Bytes × Bytes) (ha : a ∈ group) : a ∈ keys.filterMap (firstOf inserts) ↔
      key ∈ keys ∧ group.head? = some a := by
    rw [hfirst, hkeys a ha, hgroup]
  split
  · next hkey =>
    cases group with
    | nil => rfl
    | cons a rest =>
      obtain ⟨ha, -⟩ := List.nodup_cons.1 hnodup
      have hrest : rest.filter (· ∉ keys.filterMap (firstOf inserts)) = rest := by
        refine List.filter_eq_self.2 fun b hb => decide_eq_true fun hb' => ?_
        obtain ⟨-, heq⟩ := (hgone b (List.mem_cons_of_mem a hb)).1 hb'
        exact ha (Option.some.inj heq ▸ hb)
      rw [List.filter_cons_of_neg, hrest, List.map_cons, List.tail_cons]
      simpa using (hgone a List.mem_cons_self).2 ⟨hkey, rfl⟩
  · next hkey =>
    refine congrArg (List.map _) (List.filter_eq_self.2 fun a ha => decide_eq_true fun ha' => ?_)
    exact hkey ((hgone a ha).1 ha').1

theorem valuesIn_net_inserts (p : Pending) (key : Bytes) :
    valuesIn p.net.inserts.toList key = p.added key := by
  rw [net_eq (fun _ => mem_byValues) fun _ => mem_byKeys]
  dsimp only
  rw [valuesIn_filter_firstOf, valuesIn_filter_byValues, added]
  exact if_congr mem_byKeys.symm rfl rfl

/-! ## Deletes that spare the inserts -/

/-- The delete finds nothing among the values `own`. -/
def Spares (own : Bytes → List Bytes) : Bytes × Option Bytes → Prop
  | (key, some value) => value ∉ own key
  | (key, none) => own key = []

theorem withoutFirst?_append {own : Bytes → List Bytes} {d : Bytes × Option Bytes}
    (h : Spares own d) (vs : List Bytes) :
    withoutFirst? (vs ++ own d.1) d.2 = (withoutFirst? vs d.2).map (· ++ own d.1) := by
  obtain ⟨key, value⟩ := d
  cases value with
  | some value =>
    have hown : value ∉ own key := h
    by_cases hmem : value ∈ vs
    · simp [withoutFirst?, hmem, List.erase_append_left]
    · simp [withoutFirst?, hmem, hown]
  | none =>
    have hown : own key = [] := h
    rw [hown]
    cases vs <;> simp [withoutFirst?]

theorem values_delete (a : Applied) (d : Bytes × Option Bytes) (key : Bytes) :
    (a.delete d).live.values key =
      if key = d.1 then (withoutFirst? (a.live.values d.1) d.2).getD (a.live.values d.1)
      else a.live.values key := by
  rw [← LiveSet.values_remove, Applied.delete]
  split <;> next heq => rw [heq]

theorem missed_delete (a : Applied) (d : Bytes × Option Bytes) :
    (a.delete d).missed =
      a.missed + if (withoutFirst? (a.live.values d.1) d.2).isNone then 1 else 0 := by
  have hfound := a.live.found_remove d.1 d.2
  rw [Applied.delete]
  split <;> next heq =>
    rw [heq] at hfound
    rw [← Option.not_isSome, ← hfound]
    rfl

/-- Deletes that spare the values behind the live ones fall on the live ones as if these stood
alone. -/
theorem foldl_delete_append {own : Bytes → List Bytes} {deletes : List (Bytes × Option Bytes)}
    (h : ∀ d ∈ deletes, Spares own d) {a b : Applied} (hmissed : a.missed = b.missed)
    (hvalues : ∀ key, a.live.values key = b.live.values key ++ own key) :
    (deletes.foldl Applied.delete a).missed = (deletes.foldl Applied.delete b).missed ∧
      ∀ key, (deletes.foldl Applied.delete a).live.values key =
        (deletes.foldl Applied.delete b).live.values key ++ own key := by
  induction deletes generalizing a b with
  | nil => exact ⟨hmissed, hvalues⟩
  | cons d deletes ih =>
    obtain ⟨hd, hdeletes⟩ := List.forall_mem_cons.1 h
    have hfound := withoutFirst?_append hd (b.live.values d.1)
    refine ih hdeletes ?_ fun key => ?_
    · rw [missed_delete, missed_delete, hvalues, hfound, Option.isNone_map, hmissed]
    · rw [values_delete, values_delete, hvalues d.1, hfound]
      split
      · next hkey =>
        rw [hkey]
        cases withoutFirst? (b.live.values d.1) d.2 <;> rfl
      · exact hvalues key

theorem firstOf_eq_none_iff {inserts : SortedSet (Bytes × Bytes)} {key : Bytes} :
    firstOf inserts key = none ↔ valuesIn inserts.toList key = [] := by
  rw [firstOf, List.find?_eq_none, valuesIn, List.map_eq_nil_iff, List.filter_eq_nil_iff]

/-- The deletes that are left over: by value those without an insert of theirs, then those of
first values that no survivor of their key is there for. -/
theorem net_deletes (p : Pending) :
    p.net.deletes = (p.byValues.toList.filter (· ∉ p.inserts)).map byValue ++
      (p.byKeys.toList.filter (p.survivors · = [])).map byKey := by
  rw [net_eq (fun _ => mem_byValues) fun _ => mem_byKeys]
  dsimp only
  refine congrArg (_ ++ ·) (congrArg (List.map _) (List.filter_congr fun key _ => ?_))
  rw [decide_eq_decide, firstOf_eq_none_iff, valuesIn_filter_byValues]

theorem mem_survivors_of_mem_added {p : Pending} {key value : Bytes} (h : value ∈ p.added key) :
    value ∈ p.survivors key := by
  unfold added at h
  split at h
  · exact List.mem_of_mem_tail h
  · exact h

/-- What is left over of the deletes spares what is left of the inserts. -/
theorem spares_of_mem_net {p : Pending} {d : Bytes × Option Bytes} (h : d ∈ p.net.deletes) :
    Spares p.added d := by
  rw [net_deletes] at h
  rcases List.mem_append.1 h with h | h
  · obtain ⟨⟨key, value⟩, hq, rfl⟩ := List.mem_map.1 h
    have hq : (key, value) ∉ p.inserts := by simpa using (List.mem_filter.1 hq).2
    exact fun hadded => hq (mem_survivors.1 (mem_survivors_of_mem_added hadded)).1
  · obtain ⟨key, hkey, rfl⟩ := List.mem_map.1 h
    have hnone : p.survivors key = [] := by simpa using (List.mem_filter.1 hkey).2
    refine List.eq_nil_iff_forall_not_mem.2 fun value hadded => ?_
    exact List.not_mem_nil (hnone ▸ mem_survivors_of_mem_added hadded)

/-! ## Deletes among live values -/

/-- Deletes by value take the first of each value and miss those that are not there. -/
theorem foldl_delete_byValue {pairs : List (Bytes × Bytes)} (hnodup : pairs.Nodup) (a : Applied) :
    ((pairs.map byValue).foldl Applied.delete a).missed =
        a.missed + pairs.countP (fun q => q.2 ∉ a.live.values q.1) ∧
      ∀ key, ((pairs.map byValue).foldl Applied.delete a).live.values key =
        (a.live.values key).diff (valuesIn pairs key) := by
  induction pairs generalizing a with
  | nil => exact ⟨rfl, fun key => rfl⟩
  | cons q pairs ih =>
    obtain ⟨key, value⟩ := q
    obtain ⟨hq, hnodup⟩ := List.nodup_cons.1 hnodup
    obtain ⟨hmissed, hvalues⟩ := ih hnodup (a.delete (byValue (key, value)))
    have hstep (k : Bytes) : (a.delete (byValue (key, value))).live.values k =
        if k = key then (a.live.values key).erase value else a.live.values k := by
      rw [values_delete]
      refine if_congr Iff.rfl ?_ rfl
      rw [byValue, withoutFirst?]
      split
      · rfl
      · next hmem => exact (List.erase_of_not_mem hmem).symm
    -- The later deletes are of other pairs, so they find what they would have found before.
    have hlater : pairs.countP (fun q => q.2 ∉ (a.delete (byValue (key, value))).live.values q.1) =
        pairs.countP (fun q => q.2 ∉ a.live.values q.1) := by
      refine List.countP_congr fun q' hq' => ?_
      rw [decide_eq_true_iff, decide_eq_true_iff, hstep]
      split
      · next hkey =>
        have hne : q'.2 ≠ value := fun hvalue => by
          have hpair : q' = (key, value) := Prod.ext hkey hvalue
          exact hq (hpair ▸ hq')
        rw [List.mem_erase_of_ne hne, hkey]
      · exact Iff.rfl
    refine ⟨?_, fun k => ?_⟩
    · rw [List.map_cons, List.foldl_cons, hmissed, hlater, missed_delete, List.countP_cons,
        byValue, withoutFirst?]
      by_cases hmem : value ∈ a.live.values key
      · simp [hmem]
      · simp only [hmem, if_false, Option.isNone_none, if_true, not_false_eq_true, decide_true]
        omega
    · rw [List.map_cons, List.foldl_cons, hvalues, hstep, valuesIn_cons]
      split
      · next hkey => rw [hkey, List.diff_cons]
      · rfl

/-- Deletes of first values take one value of each key and miss the keys without any. -/
theorem foldl_delete_byKey {keys : List Bytes} (hnodup : keys.Nodup) (a : Applied) :
    ((keys.map byKey).foldl Applied.delete a).missed =
        a.missed + keys.countP (fun key => a.live.values key = []) ∧
      ∀ key, ((keys.map byKey).foldl Applied.delete a).live.values key =
        if key ∈ keys then (a.live.values key).tail else a.live.values key := by
  induction keys generalizing a with
  | nil => exact ⟨rfl, fun key => rfl⟩
  | cons key keys ih =>
    obtain ⟨hkey, hnodup⟩ := List.nodup_cons.1 hnodup
    obtain ⟨hmissed, hvalues⟩ := ih hnodup (a.delete (byKey key))
    have hstep (k : Bytes) : (a.delete (byKey key)).live.values k =
        if k = key then (a.live.values key).tail else a.live.values k := by
      rw [values_delete]
      refine if_congr Iff.rfl ?_ rfl
      cases a.live.values key <;> rfl
    have hlater : keys.countP (fun k => (a.delete (byKey key)).live.values k = []) =
        keys.countP (fun k => a.live.values k = []) := by
      refine List.countP_congr fun k hk => ?_
      have hne : k ≠ key := fun h => hkey (h ▸ hk)
      rw [hstep, if_neg hne]
    refine ⟨?_, fun k => ?_⟩
    · rw [List.map_cons, List.foldl_cons, hmissed, hlater, missed_delete, List.countP_cons]
      cases a.live.values key with
      | nil =>
        simp only [withoutFirst?, Option.isNone_none, if_true, decide_true]
        omega
      | cons v vs => simp [withoutFirst?]
    · rw [List.map_cons, List.foldl_cons, hvalues, hstep]
      by_cases hk : k = key
      · subst hk
        simp [hkey]
      · simp [hk]

/-! ## Commit -/

/-- The deletes that are left over, on live values without the inserts. -/
theorem foldl_delete_net (p : Pending) (live : LiveSet) :
    (p.net.deletes.foldl Applied.delete ⟨live, 0⟩).missed =
        p.deletes.toList.countP (p.misses live) ∧
      ∀ key, (p.net.deletes.foldl Applied.delete ⟨live, 0⟩).live.values key =
        p.kept key (live.values key) := by
  obtain ⟨hmissed₁, hvalues₁⟩ := foldl_delete_byValue
    (p.byValues.nodup_toList.filter (· ∉ p.inserts)) ⟨live, 0⟩
  obtain ⟨hmissed₂, hvalues₂⟩ := foldl_delete_byKey
    (p.byKeys.nodup_toList.filter (p.survivors · = []))
    (((p.byValues.toList.filter (· ∉ p.inserts)).map byValue).foldl Applied.delete ⟨live, 0⟩)
  rw [net_deletes, List.foldl_append]
  refine ⟨?_, fun key => ?_⟩
  · have hperm : p.choosing.Perm p.deletes.toList := by
      have hnone : p.deletes.toList.filter (·.2.isNone) = p.deletes.toList.filter (!·.2.isSome) :=
        List.filter_congr fun d _ => by simp
      rw [choosing, hnone]
      exact List.filter_append_perm _ _
    rw [hmissed₂, hmissed₁, ← hperm.countP_eq,
      choosing_eq (fun _ => mem_byValues) fun _ => mem_byKeys, List.countP_append, List.countP_map,
      List.countP_map, List.countP_filter, List.countP_filter, Nat.zero_add]
    refine congrArg₂ (· + ·) (List.countP_congr fun q _ => ?_) (List.countP_congr fun key _ => ?_)
    · simp [misses, and_comm]
    · rw [hvalues₁]
      simp [misses, targets, and_comm]
  · rw [hvalues₂, hvalues₁, kept]
    refine if_congr ?_ rfl rfl
    rw [List.mem_filter, decide_eq_true_iff, mem_byKeys]
    rfl

/-- A commit deletes from the live values alone; then the inserts that are left stand behind
them. -/
theorem commitInto_eq_foldl_delete (p : Pending) (live : LiveSet) :
    (p.commitInto live).missed = (p.net.deletes.foldl Applied.delete ⟨live, 0⟩).missed ∧
      ∀ key, (p.commitInto live).live.values key =
        (p.net.deletes.foldl Applied.delete ⟨live, 0⟩).live.values key ++ p.added key :=
  foldl_delete_append (fun _ => spares_of_mem_net) rfl fun key => by
    rw [LiveSet.values_foldl_insert, valuesIn_net_inserts]

theorem values_commitInto_eq (p : Pending) (live : LiveSet) (key : Bytes) :
    (p.commitInto live).live.values key = p.kept key (live.values key) ++ p.added key := by
  rw [(p.commitInto_eq_foldl_delete live).2, (p.foldl_delete_net live).2]

/-! ## One key at a time -/

section Restrict

variable (p : Pending) (key : Bytes)

theorem byValue_mem_restrict {value : Bytes} :
    byValue (key, value) ∈ (p.restrict key).deletes ↔ byValue (key, value) ∈ p.deletes := by
  rw [restrict, SortedSet.mem_filter, decide_eq_true_iff]
  exact and_iff_left rfl

theorem byKey_mem_restrict : byKey key ∈ (p.restrict key).deletes ↔ byKey key ∈ p.deletes := by
  rw [restrict, SortedSet.mem_filter, decide_eq_true_iff]
  exact and_iff_left rfl

theorem survivors_restrict : (p.restrict key).survivors key = p.survivors key := by
  have hvalues : valuesIn (p.restrict key).inserts.toList key = valuesIn p.inserts.toList key := by
    rw [valuesIn, restrict, SortedSet.filter, List.filter_filter, valuesIn]
    simp only [Bool.and_self]
  rw [survivors, hvalues, survivors]
  simp only [byValue_mem_restrict]

theorem added_restrict : (p.restrict key).added key = p.added key := by
  rw [added, survivors_restrict, added]
  simp only [byKey_mem_restrict]

theorem targets_restrict : (p.restrict key).targets key = p.targets key := by
  have hinserts (value : Bytes) :
      (key, value) ∈ (p.restrict key).inserts ↔ (key, value) ∈ p.inserts := by
    rw [restrict, SortedSet.mem_filter, decide_eq_true_iff]
    exact and_iff_left rfl
  refine SortedMap.eq_of_mem_iff (f := id) ((p.restrict key).pairwise_targets key)
    (p.pairwise_targets key) fun value => ?_
  rw [mem_targets, mem_targets, byValue_mem_restrict, hinserts]

theorem kept_restrict (live : List Bytes) : (p.restrict key).kept key live = p.kept key live := by
  rw [kept, survivors_restrict, targets_restrict, kept]
  simp only [byKey_mem_restrict]

/-- What a transaction sees under a key is what its commit would leave there. -/
theorem view_eq (committed : List Bytes) :
    p.view key committed = p.kept key committed ++ p.added key := by
  rw [view, values_commitInto_eq, LiveSet.values_ofPairs, kept_restrict, added_restrict]

end Restrict

/-! ## The net effect -/

/-- **The net effect of a commit**: under each key stay the live values that the deletes leave,
and behind them come, in ascending order, the inserts that the deletes leave. The count is that
of the deletes of live values that find none, and keys without work keep their values. What is
removed from the live values is what the deletes would remove if nothing were inserted. -/
theorem commitInto_eq_kept_append_added (p : Pending) (live : LiveSet) :
    (∀ key, (p.commitInto live).live.values key = p.kept key (live.values key) ++ p.added key) ∧
      (p.commitInto live).missed = p.deletes.toList.countP (p.misses live) ∧
      (∀ key, ¬p.Touches key → (p.commitInto live).live.values key = live.values key) ∧
      (∀ key, (p.net.deletes.foldl Applied.delete ⟨live, 0⟩).live.values key =
        p.kept key (live.values key)) ∧
      (∀ key, (p.targets key).Nodup ∧ ∀ value, value ∈ p.targets key ↔
        (key, some value) ∈ p.deletes ∧ (key, value) ∉ p.inserts) ∧
      ∀ key, (p.survivors key).Pairwise (fun v w => compare v w = .lt) ∧
        ∀ value, value ∈ p.survivors key ↔
          (key, value) ∈ p.inserts ∧ (key, some value) ∉ p.deletes := by
  obtain ⟨hmissed, hkept⟩ := p.foldl_delete_net live
  refine ⟨p.values_commitInto_eq live, ?_, fun key h => values_commitInto h live, hkept,
    fun key => ⟨p.nodup_targets key, fun value => mem_targets⟩,
    fun key => ⟨p.pairwise_survivors key, fun value => mem_survivors⟩⟩
  rw [(p.commitInto_eq_foldl_delete live).1, hmissed]

end Pending
end WalStore

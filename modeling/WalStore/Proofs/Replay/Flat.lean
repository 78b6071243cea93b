import WalStore.Proofs.Pending.Net
import WalStore.Proofs.Replay
import WalStore.Replay.Flat

/-!
# Replay and the flat account agree

**Theorem (`check_of_follow`).** After every prefix of records whose positions ascend, replay, one
record at a time or all at once, and the flat account have the same pairs in the same order. So the
check of the two against each other finds nothing.

**Why.** The flat list has the values of the live set in order under each key (`Lists`), and the
entries that it keeps of a transaction are those whose work replay keeps (`workOf`). The values of
one key see nothing of what happens to other keys, so both relations survive every record
(`Mirrors.apply`), and sorting by key brings the lists together at the end (`mergeSort_eq_pairs`).
-/

namespace WalStore

open Replay Flat

/-- The list has the values of the live set under each key, in the same order. -/
def LiveSet.Lists (s : LiveSet) (l : List (Bytes × Bytes)) : Prop :=
  ∀ key, s.values key = valuesIn l key

/-! ## Removing -/

theorem withoutFirst?_cons_of_ne {v w : Bytes} (h : v ≠ w) (vs : List Bytes) :
    (withoutFirst? (v :: vs) (some w)).getD (v :: vs) =
      v :: (withoutFirst? vs (some w)).getD vs := by
  unfold withoutFirst?
  dsimp only
  by_cases hmem : w ∈ vs
  · rw [if_pos (List.mem_cons_of_mem v hmem), if_pos hmem, Option.getD_some, Option.getD_some,
      List.erase_cons_tail (by simpa using h)]
  · have hnot : w ∉ v :: vs := by simp [hmem, Ne.symm h]
    rw [if_neg hnot, if_neg hmem, Option.getD_none, Option.getD_none]

theorem valuesIn_removeFirst (l : List (Bytes × Bytes)) (key key' : Bytes)
    (value : Option Bytes) :
    valuesIn (removeFirst l key value) key' =
      if key' = key then (withoutFirst? (valuesIn l key) value).getD (valuesIn l key)
      else valuesIn l key' := by
  induction l with
  | nil => cases value <;> simp [removeFirst, dropFirst, valuesIn, withoutFirst?]
  | cons pair l ih =>
    obtain ⟨k, v⟩ := pair
    rw [removeFirst] at ih ⊢
    rw [dropFirst]
    by_cases hk : k = key
    · subst hk
      cases value with
      | none => by_cases hkey : key' = k <;> simp [isMeant, valuesIn_cons, hkey, withoutFirst?]
      | some w =>
        by_cases hv : v = w
        · subst hv
          by_cases hkey : key' = k <;> simp [isMeant, valuesIn_cons, hkey, withoutFirst?]
        · have hmeant : isMeant k (some w) (k, v) = false := by simp [isMeant, hv]
          rw [if_neg (by rw [hmeant]; exact Bool.false_ne_true), valuesIn_cons, ih, valuesIn_cons,
            valuesIn_cons, if_pos rfl, withoutFirst?_cons_of_ne hv]
          split <;> rfl
    · have hmeant : isMeant key value (k, v) = false := by simp [isMeant, hk]
      rw [if_neg (by rw [hmeant]; exact Bool.false_ne_true), valuesIn_cons, ih, valuesIn_cons,
        valuesIn_cons, if_neg (Ne.symm hk)]
      by_cases hkey : key' = key
      · subst hkey
        rw [if_neg (Ne.symm hk), if_pos rfl, if_pos rfl]
      · rw [if_neg hkey, if_neg hkey]

theorem LiveSet.Lists.foldl_insert {s : LiveSet} {l : List (Bytes × Bytes)} (h : s.Lists l)
    (pairs : List (Bytes × Bytes)) :
    (pairs.foldl (fun s p => s.insert p.1 p.2) s).Lists (l ++ pairs) := by
  intro key
  rw [LiveSet.values_foldl_insert, h, valuesIn_append]

theorem LiveSet.Lists.remove {s : LiveSet} {l : List (Bytes × Bytes)} (h : s.Lists l) (key : Bytes)
    (value : Option Bytes) : (s.remove key value).1.Lists (removeFirst l key value) := by
  intro key'
  rw [LiveSet.values_remove, valuesIn_removeFirst, h, h]

theorem LiveSet.Lists.foldl_delete {a : Pending.Applied} {l : List (Bytes × Bytes)}
    (h : a.live.Lists l) (deletes : List (Bytes × Option Bytes)) :
    (deletes.foldl Pending.Applied.delete a).live.Lists
      (deletes.foldl (fun l d => removeFirst l d.1 d.2) l) := by
  induction deletes generalizing a l with
  | nil => exact h
  | cons d deletes ih =>
    refine ih ?_
    have hlive : (a.delete d).live = (a.live.remove d.1 d.2).1 := by
      unfold Pending.Applied.delete
      split <;> next heq => rw [heq]
    rw [hlive]
    exact h.remove d.1 d.2

/-! ## Commits -/

namespace Replay.Flat

def deleteOf? : Entry → Option (Bytes × Option Bytes)
  | .txnDelete _ key value => some (key, value)
  | _ => none

/-- The work that the entries of a transaction come to. -/
def workOf (ops : List Entry) : Pending :=
  ⟨.ofList (ops.filterMap insertOf?), .ofList (ops.filterMap deleteOf?)⟩

theorem workOf_concat_put (ops : List Entry) (txn : TxnId) (key value : Bytes) :
    workOf (ops ++ [.txnPut txn key value]) = (workOf ops).insert key value := by
  simp [workOf, Pending.insert, SortedSet.ofList, insertOf?, deleteOf?, List.filterMap_cons]

theorem workOf_concat_delete (ops : List Entry) (txn : TxnId) (key : Bytes)
    (value : Option Bytes) :
    workOf (ops ++ [.txnDelete txn key value]) = (workOf ops).delete key value := by
  simp [workOf, Pending.delete, SortedSet.ofList, insertOf?, deleteOf?, List.filterMap_cons]

theorem byValue_mem_deletes (ops : List Entry) (q : Bytes × Bytes) :
    Pending.byValue q ∈ (workOf ops).deletes ↔ q ∈ SortedSet.ofList (ops.filterMap exactOf?) := by
  rw [workOf, SortedSet.mem_ofList, SortedSet.mem_ofList, List.mem_filterMap, List.mem_filterMap]
  refine exists_congr fun e => and_congr_right fun _ => ?_
  rcases e with _ | _ | _ | ⟨txn, key, _ | value⟩ | _ | _ <;>
    simp [deleteOf?, exactOf?, Pending.byValue, Prod.ext_iff]

theorem byKey_mem_deletes (ops : List Entry) (key : Bytes) :
    Pending.byKey key ∈ (workOf ops).deletes ↔
      key ∈ SortedSet.ofList (ops.filterMap keyOnlyOf?) := by
  rw [workOf, SortedSet.mem_ofList, SortedSet.mem_ofList, List.mem_filterMap, List.mem_filterMap]
  refine exists_congr fun e => and_congr_right fun _ => ?_
  rcases e with _ | _ | _ | ⟨txn, key, _ | value⟩ | _ | _ <;>
    simp [deleteOf?, keyOnlyOf?, Pending.byKey]

/-- The entries kept of a transaction after one of its records. -/
def opsAfter (ops : List Entry) (e : Entry) : List Entry :=
  match e with
  | .txnPut .. | .txnDelete .. => ops ++ [e]
  | _ => []

theorem workOf_opsAfter (ops : List Entry) (e : Entry) :
    workOf (opsAfter ops e) = (e.workAfter (workOf ops)).getD ∅ := by
  cases e with
  | txnPut txn key value => exact workOf_concat_put ops txn key value
  | txnDelete txn key value => exact workOf_concat_delete ops txn key value
  | _ => rfl

theorem getD_opened_apply (f : Flat) (e : Entry) (txn : TxnId) :
    (f.apply e).opened.getD txn [] =
      if e.txn? = some txn then opsAfter (f.opened.getD txn []) e else f.opened.getD txn [] := by
  cases e with
  | put | delete => rfl
  | txnPut txn' key value | txnDelete txn' key value =>
    rw [apply, SortedMap.getD_insert]
    by_cases h : txn = txn' <;> simp [Entry.txn?, opsAfter, h, eq_comm]
  | commit txn' | abort txn' =>
    rw [apply, SortedMap.getD_erase]
    by_cases h : txn = txn' <;> simp [Entry.txn?, opsAfter, h, eq_comm]

end Replay.Flat

/-- A commit of the same work leaves the same values under every key. -/
theorem LiveSet.Lists.commit {s : LiveSet} {l : List (Bytes × Bytes)} (h : s.Lists l)
    (ops : List Entry) : ((workOf ops).commitInto s).live.Lists (Flat.commit l ops) := by
  let exact := SortedSet.ofList (ops.filterMap exactOf?)
  let keys := SortedSet.ofList (ops.filterMap keyOnlyOf?)
  let kept := (workOf ops).inserts.filter (· ∉ exact.toList)
  let added := kept.toList.filter (· ∉ keys.toList.filterMap (Pending.firstOf kept))
  let exactLeft := exact.toList.filter (· ∉ (workOf ops).inserts)
  have hkeysLeft : keys.toList.filter (fun key => kept.toList.all (·.1 ≠ key)) =
      keys.toList.filter (Pending.firstOf kept · = none) := by
    refine List.filter_congr fun key _ => ?_
    rw [Bool.eq_iff_iff, List.all_eq_true, decide_eq_true_iff, Pending.firstOf, List.find?_eq_none]
    simp
  have hfold (keysLeft : List Bytes) (l : List (Bytes × Bytes)) :
      (exactLeft.map Pending.byValue ++ keysLeft.map Pending.byKey).foldl
          (fun l d => removeFirst l d.1 d.2) l =
        keysLeft.foldl (fun l key => removeFirst l key none)
          (exactLeft.foldl (fun l pair => removeFirst l pair.1 (some pair.2)) l) := by
    rw [List.foldl_append, List.foldl_map, List.foldl_map]
  have hcommit : Flat.commit l ops =
      (keys.toList.filter fun key => kept.toList.all (·.1 ≠ key)).foldl
      (fun l key => removeFirst l key none)
      (exactLeft.foldl (fun l pair => removeFirst l pair.1 (some pair.2)) (l ++ added)) := by
    -- Both sides decide the same memberships, but not by the same instances.
    unfold Flat.commit
    dsimp only
    congr 3
    funext x
    congr 1
  rw [Pending.commitInto, Pending.net_eq (byValue_mem_deletes ops) (byKey_mem_deletes ops), hcommit,
    hkeysLeft, ← hfold]
  exact (h.foldl_insert added).foldl_delete _

namespace Replay

/-! ## Records -/

/-- The flat account has the values of the live set, and the entries of all work. -/
structure Mirrors (f : Flat) (s : State) : Prop where
  lists : s.live.Lists f.live
  work : ∀ txn, s.workOf txn = workOf (f.opened.getD txn [])

theorem mirrors_empty : Mirrors .empty .empty := ⟨fun _ => rfl, fun _ => rfl⟩

theorem Mirrors.pairs_eq {f : Flat} {s : State} (h : Mirrors f s) : f.pairs = s.live.pairs :=
  LiveSet.mergeSort_eq_pairs h.lists

theorem Mirrors.apply {f : Flat} {s s' : State} {r : Record} (h : Mirrors f s)
    (happly : s.apply r = .ok s') : Mirrors (f.apply r.entry) s' := by
  obtain ⟨-, -, hlive, hpending⟩ := State.views_apply happly
  have hwork (txn : TxnId) : s'.workOf txn = (s.perform r.entry).workOf txn := by
    rw [State.workOf, hpending]
    rfl
  refine ⟨?_, fun txn => ?_⟩
  · rw [hlive, State.live_perform]
    cases r.entry with
    | put key value => exact h.lists.foldl_insert [(key, value)]
    | delete key value => exact h.lists.remove key value
    | commit txn =>
      dsimp only
      rw [h.work]
      exact h.lists.commit _
    | txnPut | txnDelete | abort => exact h.lists
  · rw [hwork, State.workOf_perform, Flat.getD_opened_apply, h.work]
    split
    · exact (workOf_opsAfter _ r.entry).symm
    · rfl

/-! ## Every prefix -/

theorem mirrors_stream {rs : List Record} {f : Flat} {s : State} (h : Mirrors f s)
    (hfollow : Record.Follow s.lastLsn rs) : rs.foldlM State.apply s = .ok (s.stream rs) ∧
      Mirrors ((rs.map (·.entry)).foldl Flat.apply f) (s.stream rs) := by
  induction rs generalizing f s with
  | nil => exact ⟨rfl, h⟩
  | cons r rs ih =>
    obtain ⟨s₁, happly⟩ := State.exists_apply hfollow.1
    obtain ⟨-, hlsn, -⟩ := State.views_apply happly
    have hstream : s.stream (r :: rs) = s₁.stream rs := by
      rw [State.stream, List.foldl_cons, happly]
      rfl
    obtain ⟨hbatch, hmirrors⟩ := ih (h.apply happly) (by rw [hlsn]; exact hfollow.2)
    rw [hstream, List.foldlM_cons, happly]
    exact ⟨hbatch, hmirrors⟩

/-- Replay of a prefix, by either way, mirrored by the flat account. -/
theorem mirrors_of_follow {rs : List Record} (h : Record.Follow .zero rs) :
    state rs = .ok (State.empty.stream rs) ∧
      Mirrors (Flat.ofEntries (rs.map (·.entry))) (State.empty.stream rs) :=
  mirrors_stream mirrors_empty h

theorem divergence?_eq_none {f : Flat} {live : LiveSet} (h : f.pairs = live.pairs) (lsn : Lsn) :
    f.divergence? lsn live = none := by
  rw [Flat.divergence?, Flat.agrees, if_pos (decide_eq_true h)]

theorem checkFrom_eq_none {done todo : List Record} {f : Flat} {s : State}
    (hstate : state done = .ok s) (h : Mirrors f s) (hfollow : Record.Follow s.lastLsn todo) :
    checkFrom done s f todo = .ok none := by
  induction todo generalizing done f s with
  | nil => rfl
  | cons r todo ih =>
    obtain ⟨s₁, happly⟩ := State.exists_apply hfollow.1
    obtain ⟨-, hlsn, -⟩ := State.views_apply happly
    have hmirrors := h.apply happly
    have hstate₁ : state (done ++ [r]) = .ok s₁ := by
      rw [state_append_singleton, hstate]
      exact happly
    have hlive : live (done ++ [r]) = .ok s₁.live := by
      rw [live, hstate₁]
      rfl
    unfold checkFrom
    simp only [happly, hlive, divergence?_eq_none hmirrors.pairs_eq, bind, Except.bind]
    exact ih hstate₁ hmirrors (by rw [hlsn]; exact hfollow.2)

/-- **The two accounts agree on every prefix.** Streaming, batch replay and the flat account give
the same pairs in the same order after each record, and so the check finds no divergence. -/
theorem check_of_follow {rs : List Record} (h : Record.Follow .zero rs) :
    (∀ done, done <+: rs → ∃ live, Replay.live done = .ok live ∧
      (State.empty.stream done).live = live ∧
      (Flat.ofEntries (done.map (·.entry))).pairs = live.pairs) ∧
    check rs = .ok none := by
  refine ⟨fun done hdone => ?_, ?_⟩
  · obtain ⟨hstate, hmirrors⟩ := mirrors_of_follow (h.shorten hdone)
    refine ⟨_, ?_, rfl, hmirrors.pairs_eq⟩
    rw [live, hstate]
    rfl
  · have hempty : Flat.divergence? .zero .empty ∅ = none :=
      divergence?_eq_none mirrors_empty.pairs_eq .zero
    rw [check, hempty]
    exact checkFrom_eq_none rfl mirrors_empty h

/-- Deletes of both forms, one of them of an own insert; work after a commit; and a commit without
work after an abort. -/
def tangled : List Record := Record.number
  [.put [1] [5], .txnPut ⟨1⟩ [1] [3], .txnDelete ⟨1⟩ [1] none, .txnPut ⟨2⟩ [2] [1],
    .txnDelete ⟨1⟩ [1] (some [5]), .put [1] [4], .commit ⟨1⟩, .txnPut ⟨1⟩ [1] [9], .abort ⟨2⟩,
    .commit ⟨2⟩, .delete [1] none, .commit ⟨1⟩]

theorem check_of_follow_tangled : Record.Follow .zero tangled ∧
    Replay.live tangled = .ok (.ofPairs [([1], [9])]) ∧ check tangled = .ok none := by
  have hfollow : Record.Follow .zero tangled := by decide
  exact ⟨hfollow, by decide +kernel, (check_of_follow hfollow).2⟩

end Replay
end WalStore

import WalStore.Proofs.Replay.Entries
import WalStore.Proofs.Replay.WellFormed

/-!
# Unresolved transactions

A transaction is unresolved after a log if there is work of it behind all that resolves it
(`Record.LeftOpen`, `mem_unresolved_iff`).

Aborts of such transactions change nothing but that these are resolved: the live set stays, and so
does the largest id, as an unresolved transaction has been seen before (`State.Reduces`). So it does
not matter whether they are logged at once, or some of them now and the others later
(`state_aborts`).
-/

namespace WalStore

open Record (Follow endLsn)

namespace Record

/-! ## Transactions that a log leaves open -/

/-- There is work of the transaction, and nothing behind it resolves the transaction. -/
def LeftOpen (rs : List Record) (txn : TxnId) : Prop :=
  ∃ before w after, rs = before ++ w :: after ∧ w.entry.work? = some txn ∧
    ∀ r ∈ after, r.entry.resolved? ≠ some txn

variable {rs : List Record} {txn : TxnId}

theorem not_leftOpen_nil : ¬LeftOpen [] txn := by
  rintro ⟨before, w, after, heq, -⟩
  simp at heq

/-- Whether a log leaves a transaction open is up to the last record of the transaction. -/
theorem leftOpen_append_singleton (rs : List Record) (r : Record) (txn : TxnId) :
    LeftOpen (rs ++ [r]) txn ↔
      if r.entry.txn? = some txn then r.entry.resolved? = none else LeftOpen rs txn := by
  constructor
  · rintro ⟨before, w, after, heq, hwork, hafter⟩
    rcases List.eq_nil_or_concat after with rfl | ⟨after, last, rfl⟩
    · obtain ⟨rfl, hlast⟩ := List.append_inj' heq rfl
      cases hlast
      rw [if_pos (Entry.txn?_of_work? hwork)]
      exact Entry.resolved?_of_work? hwork
    · rw [List.concat_eq_append, ← List.cons_append, ← List.append_assoc] at heq
      obtain ⟨rfl, hlast⟩ := List.append_inj' heq rfl
      cases hlast
      rw [List.concat_eq_append] at hafter
      split
      · next htxn =>
        by_contra hsome
        obtain ⟨t, ht⟩ := Option.ne_none_iff_exists'.1 hsome
        have htxn' := Entry.txn?_of_resolved? ht
        rw [htxn] at htxn'
        exact hafter r (by simp) (ht.trans htxn'.symm)
      · exact ⟨before, w, after, rfl, hwork, fun x hx => hafter x (List.mem_append_left _ hx)⟩
  · split
    · next htxn =>
      intro hnone
      exact ⟨rs, r, [], rfl, Entry.work?_of_txn? htxn hnone, nofun⟩
    · next htxn =>
      rintro ⟨before, w, after, rfl, hwork, hafter⟩
      refine ⟨before, w, after ++ [r], by simp, hwork, fun x hx hresolved => ?_⟩
      rcases List.mem_append.1 hx with hx | hx
      · exact hafter x hx hresolved
      · obtain rfl := List.mem_singleton.1 hx
        exact htxn (Entry.txn?_of_resolved? hresolved)

theorem LeftOpen.exists_txn (h : LeftOpen rs txn) : ∃ r ∈ rs, r.entry.txn? = some txn := by
  obtain ⟨before, w, after, rfl, hwork, -⟩ := h
  exact ⟨w, by simp, Entry.txn?_of_work? hwork⟩

/-! ## Aborts -/

/-- Aborts of transactions, at positions from `lsn` on. -/
def aborts (lsn : Lsn) : List TxnId → List Record
  | [] => []
  | txn :: txns => ⟨lsn, .abort txn⟩ :: aborts lsn.next txns

theorem map_entry_aborts (lsn : Lsn) (txns : List TxnId) :
    (aborts lsn txns).map (·.entry) = txns.map .abort := by
  induction txns generalizing lsn with
  | nil => rfl
  | cons txn txns ih => exact congrArg (_ :: ·) (ih lsn.next)

theorem length_aborts (lsn : Lsn) (txns : List TxnId) : (aborts lsn txns).length = txns.length := by
  rw [← List.length_map (·.entry), map_entry_aborts, List.length_map]

theorem exists_of_mem_aborts {lsn : Lsn} {txns : List TxnId} {r : Record}
    (hr : r ∈ aborts lsn txns) : ∃ txn ∈ txns, r.entry = .abort txn := by
  have hmem := List.mem_map_of_mem (f := (·.entry)) hr
  rw [map_entry_aborts] at hmem
  obtain ⟨txn, htxn, hentry⟩ := List.mem_map.1 hmem
  exact ⟨txn, htxn, hentry.symm⟩

theorem aborts_append (last : Lsn) (txns txns' : List TxnId) :
    aborts last.next (txns ++ txns') = aborts last.next txns ++
      aborts (endLsn last (aborts last.next txns)).next txns' := by
  induction txns generalizing last with
  | nil => rfl
  | cons txn txns ih => exact congrArg (_ :: ·) (ih last.next)

theorem toNat_endLsn_aborts {last : Lsn} {txns : List TxnId}
    (h : last.toNat + txns.length < UInt64.size) :
    (endLsn last (aborts last.next txns)).toNat = last.toNat + txns.length := by
  induction txns generalizing last with
  | nil => rfl
  | cons txn txns ih =>
    rw [List.length_cons] at h ⊢
    have hnext : last.next.toNat = last.toNat + 1 := Lsn.toNat_next (by omega)
    have hrest : (endLsn last.next (aborts last.next.next txns)).toNat =
        last.next.toNat + txns.length := ih (by omega)
    rw [aborts, endLsn, hrest, hnext]
    omega

/-- Positions that ascend have not run over. -/
theorem Follow.room_of_aborts {last : Lsn} {txns : List TxnId} {rs : List Record}
    (h : Follow last (rs ++ aborts (endLsn last rs).next txns)) :
    (endLsn last rs).toNat + txns.length < UInt64.size := by
  have hle := length_le_endLsn (follow_append.1 h).2
  rw [length_aborts] at hle
  exact Nat.lt_of_le_of_lt hle (UInt64.toNat_lt _)

/-- The aborts of all transactions, if some of them are logged already. -/
theorem append_aborts_append (last : Lsn) (rs : List Record) (txns txns' : List TxnId) :
    rs ++ aborts (endLsn last rs).next (txns ++ txns') =
      rs ++ aborts (endLsn last rs).next txns ++
        aborts (endLsn last (rs ++ aborts (endLsn last rs).next txns)).next txns' := by
  rw [aborts_append, endLsn_append, List.append_assoc]

end Record

/-! ## Replaying -/

namespace Replay

open Record (LeftOpen aborts)

variable {rs : List Record} {s s' : State} {txn : TxnId} {txns rest : List TxnId}

/-- **What is unresolved.** -/
theorem mem_unresolved_iff (hstate : state rs = .ok s) :
    txn ∈ s.unresolved ↔ LeftOpen rs txn := by
  rw [State.unresolved, SortedMap.mem_keys_iff]
  induction rs using List.reverseRecOn generalizing s with
  | nil =>
    cases hstate
    simp [State.empty, Record.not_leftOpen_nil]
  | append_singleton rs r ih =>
    obtain ⟨s₀, hstate₀, happly⟩ := exists_state_of_append hstate
    obtain ⟨-, rfl⟩ := State.apply_eq_ok_iff.1 happly
    rw [State.pending_isSome_perform, Record.leftOpen_append_singleton, ih hstate₀]

/-- A log that leaves two transactions open, the later one first. -/
def unfinished : List Record :=
  [⟨⟨1⟩, .txnPut ⟨7⟩ [1] [2]⟩, ⟨⟨2⟩, .put [1] [3]⟩, ⟨⟨4⟩, .txnPut ⟨5⟩ [1] [4]⟩]

theorem unresolved_unfinished :
    ∃ s, state unfinished = .ok s ∧ s.unresolved = [⟨5⟩, ⟨7⟩] := ⟨_, rfl, by decide +kernel⟩

theorem State.pairwise_unresolved (s : State) : s.unresolved.Pairwise (· < ·) :=
  List.pairwise_map.2 (s.pending.sorted.imp TxnId.compare_eq_lt_iff.1)

/-- No unresolved transaction has a larger id than the largest that has been seen. -/
def State.Seen (s : State) : Prop :=
  ∀ txn ∈ s.unresolved, ∃ m, s.maxTxn = some m ∧ txn.toNat ≤ m.toNat

theorem seen_of_state (hstate : state rs = .ok s) : s.Seen := by
  intro txn htxn
  obtain ⟨r, hr, hr'⟩ := ((mem_unresolved_iff hstate).1 htxn).exists_txn
  exact (maxTxn_of_state hstate).1 r hr txn hr'

/-- The second state is the first with all transactions resolved but those of `rest`. -/
structure State.Reduces (s s' : State) (rest : List TxnId) : Prop where
  live : s'.live = s.live
  maxTxn : s'.maxTxn = s.maxTxn
  unresolved : s'.unresolved = rest

theorem State.Seen.enter_abort (h : s.Seen) (hunresolved : s.unresolved = txn :: rest) :
    s.Reduces (s.enter (.abort txn)) rest := by
  have hmem : txn ∈ s.unresolved := by
    rw [hunresolved]
    exact List.mem_cons_self
  refine ⟨s.live_perform _, ?_, ?_⟩
  · obtain ⟨m, hm, hle⟩ := h txn hmem
    show s.seenTxn (some txn) = s.maxTxn
    unfold seenTxn
    rw [hm]
    show some (max m txn) = some m
    rw [TxnId.max_comm, TxnId.max_eq_right hle]
  · obtain ⟨work, hwork⟩ := Option.isSome_iff_exists.1 (SortedMap.mem_keys_iff.1 hmem)
    have hperform : (s.perform (.abort txn)).pending = s.pending.erase txn := by
      unfold perform
      dsimp only
      rw [hwork]
      rfl
    show (s.perform (.abort txn)).pending.keys = rest
    rw [hperform]
    exact SortedMap.keys_erase hunresolved

theorem State.Seen.foldl_enter_aborts (h : s.Seen) (hunresolved : s.unresolved = txns ++ rest) :
    s.Reduces ((txns.map .abort).foldl State.enter s) rest := by
  induction txns generalizing s with
  | nil => exact ⟨rfl, rfl, hunresolved⟩
  | cons txn txns ih =>
    obtain ⟨hlive, hmax, hrest⟩ := h.enter_abort hunresolved
    have hseen : (s.enter (.abort txn)).Seen := by
      intro t ht
      rw [hrest] at ht
      rw [hmax]
      exact h t (hunresolved ▸ List.mem_cons_of_mem txn ht)
    obtain ⟨hlive', hmax', hrest'⟩ := ih hseen hrest
    exact ⟨hlive'.trans hlive, hmax'.trans hmax, hrest'⟩

/-- **Aborting what is unresolved.** The other transactions stay as they are, and are still to be
aborted. -/
theorem state_aborts (hfollow : Follow .zero (rs ++ aborts (endLsn .zero rs).next txns))
    (hstate : state rs = .ok s) (hunresolved : s.unresolved = txns ++ rest) :
    ∃ s', state (rs ++ aborts (endLsn .zero rs).next txns) = .ok s' ∧ s.Reduces s' rest := by
  obtain ⟨hfront, -⟩ := Record.follow_append.1 hfollow
  have hs := state_of_follow hfront
  rw [hstate, Except.ok.injEq] at hs
  subst hs
  -- None of it depends on where the log ends.
  have hseen : (play (rs.map (·.entry))).Seen :=
    fun txn htxn => seen_of_state hstate txn htxn
  have hreduces := hseen.foldl_enter_aborts hunresolved
  have hplay : play ((rs ++ aborts (endLsn .zero rs).next txns).map (·.entry)) =
      (txns.map .abort).foldl State.enter (play (rs.map (·.entry))) := by
    rw [List.map_append, Record.map_entry_aborts, play, List.foldl_append]
    rfl
  rw [state_of_follow hfollow, hplay]
  exact ⟨_, rfl, hreduces.live, hreduces.maxTxn, hreduces.unresolved⟩

/-- Once all of them are aborted, nothing is unresolved any more. -/
theorem reduces_of_state_aborts
    (hfollow : Follow .zero (rs ++ aborts (endLsn .zero rs).next s.unresolved))
    (hstate : state rs = .ok s)
    (hstate' : state (rs ++ aborts (endLsn .zero rs).next s.unresolved) = .ok s') :
    s.Reduces s' [] := by
  obtain ⟨s₁, hs₁, hreduces⟩ := state_aborts hfollow hstate (List.append_nil s.unresolved).symm
  rw [hstate'] at hs₁
  cases hs₁
  exact hreduces

end Replay

/-- Where ids go on is up to the largest id. -/
theorem Recovery.nextTxn_congr {s s' : Replay.State} (h : s'.maxTxn = s.maxTxn) :
    nextTxn ⟨s'⟩ = nextTxn ⟨s⟩ := by
  unfold nextTxn
  rw [h]

end WalStore

import WalStore.Replay
import WalStore.Proofs.Log.Scan
import WalStore.Proofs.Pending
import WalStore.Proofs.SortedMap

/-!
# What replaying does

A record changes the live set (`live_perform`) and the work of its transaction
(`get?_pending_perform`), and nothing else that later records depend on.

**Agreement.** Two states that differ only in the work of transactions that will never commit go on
to have the same live set (`Agree.apply`). Such transactions are those that a crash leaves behind.
-/

namespace WalStore

/-- The work of a transaction after one of its records, which may be nothing. -/
def Entry.workAfter (work : Pending) : Entry → Option Pending
  | .txnPut _ key value => some (work.insert key value)
  | .txnDelete _ key value => some (work.delete key value)
  | _ => none

namespace Replay

namespace State

/-! ## One record -/

variable {s s' : State}

theorem get?_pending_perform (s : State) (e : Entry) (t : TxnId) :
    (s.perform e).pending.get? t =
      if e.txn? = some t then e.workAfter (s.workOf t) else s.pending.get? t := by
  cases e with
  | put | delete => rfl
  | txnPut txn key value | txnDelete txn key value =>
    unfold perform
    dsimp only
    rw [SortedMap.get?_insert]
    by_cases h : t = txn
    · subst h
      simp [Entry.txn?, Entry.workAfter]
    · simp [Entry.txn?, h, Ne.symm h]
  | commit txn | abort txn =>
    unfold perform
    dsimp only
    split
    · next hnone =>
      by_cases h : txn = t
      · subst h
        simpa [Entry.txn?, Entry.workAfter, countUnknown] using hnone
      · simp [Entry.txn?, h, countUnknown]
    · simp only [discard, SortedMap.get?_erase]
      by_cases h : txn = t
      · subst h
        simp [Entry.txn?, Entry.workAfter]
      · simp [Entry.txn?, h, Ne.symm h]

theorem workOf_perform (s : State) (e : Entry) (t : TxnId) :
    (s.perform e).workOf t =
      if e.txn? = some t then (e.workAfter (s.workOf t)).getD ∅ else s.workOf t := by
  rw [workOf, SortedMap.getD, get?_pending_perform]
  split <;> rfl

theorem live_perform (s : State) (e : Entry) :
    (s.perform e).live = match e with
      | .put key value => s.live.insert key value
      | .delete key value => (s.live.remove key value).1
      | .commit txn => ((s.workOf txn).commitInto s.live).live
      | .txnPut .. | .txnDelete .. | .abort _ => s.live := by
  cases e with
  | commit txn =>
    unfold perform workOf SortedMap.getD
    dsimp only
    split
    · next hnone =>
      rw [hnone]
      rfl
    · next work hwork => rw [hwork, Option.getD_some]
  | abort txn =>
    unfold perform
    dsimp only
    split <;> rfl
  | _ => rfl

/-- Of all work an entry acts on the live set with that which it commits, and with no other. -/
theorem live_perform_congr {e : Entry} (hlive : s.live = s'.live)
    (hwork : ∀ t, e = .commit t → s.workOf t = s'.workOf t) :
    (s.perform e).live = (s'.perform e).live := by
  rw [live_perform, live_perform]
  cases e with
  | commit txn => simp only [hlive, hwork txn rfl]
  | _ => simp only [hlive]

/-! ## Records in a row -/

theorem apply_eq_ok_iff {r : Record} :
    s.apply r = .ok s' ↔ s.lastLsn < r.lsn ∧ s' = { s.perform r.entry with
      lastLsn := r.lsn
      maxTxn := s.seenTxn r.entry.txn?
      counters.records := s.counters.records + 1 } := by
  unfold apply
  by_cases h : r.lsn ≤ s.lastLsn
  · have hnot : ¬s.lastLsn < r.lsn := fun hlt => Lsn.not_le.2 hlt h
    simp [h, hnot]
  · simp [h, Lsn.not_le.1 h, eq_comm]

/-- What a record changes, through the views that matter to later records. -/
theorem views_apply {r : Record} (h : s.apply r = .ok s') :
    s.lastLsn < r.lsn ∧ s'.lastLsn = r.lsn ∧ s'.live = (s.perform r.entry).live ∧
      s'.pending = (s.perform r.entry).pending := by
  obtain ⟨hlt, rfl⟩ := apply_eq_ok_iff.1 h
  exact ⟨hlt, rfl, rfl, rfl⟩

theorem workOf_discard (s : State) (txn t : TxnId) :
    (s.discard txn).workOf t = if t = txn then ∅ else s.workOf t :=
  SortedMap.getD_erase ..

/-- Work on a key after a record was there before, or the record is work on the key. -/
theorem touches_apply {r : Record} (h : s.apply r = .ok s') {txn : TxnId} {key : Bytes}
    (htouches : (s'.workOf txn).Touches key) : (s.workOf txn).Touches key ∨
      (∃ value, r.entry = .txnPut txn key value) ∨ ∃ value, r.entry = .txnDelete txn key value := by
  obtain ⟨-, -, -, hpending⟩ := views_apply h
  rw [workOf, hpending] at htouches
  replace htouches : ((s.perform r.entry).workOf txn).Touches key := htouches
  rw [workOf_perform] at htouches
  split at htouches
  swap
  · exact .inl htouches
  next htxn =>
  cases hentry : r.entry with
  | put | delete =>
    rw [hentry] at htxn
    cases htxn
  | commit | abort =>
    rw [hentry] at htouches
    exact absurd htouches (Pending.not_touches_empty key)
  | txnPut txn' key' value =>
    rw [hentry] at htxn htouches
    cases htxn
    rcases htouches.of_insert with rfl | hbefore
    · exact .inr (.inl ⟨value, rfl⟩)
    · exact .inl hbefore
  | txnDelete txn' key' value =>
    rw [hentry] at htxn htouches
    cases htxn
    rcases htouches.of_delete with rfl | hbefore
    · exact .inr (.inr ⟨value, rfl⟩)
    · exact .inl hbefore

theorem exists_apply {r : Record} (h : s.lastLsn < r.lsn) : ∃ s', s.apply r = .ok s' :=
  ⟨_, apply_eq_ok_iff.2 ⟨h, rfl⟩⟩

theorem size_pending_perform_le (s : State) (e : Entry) :
    (s.perform e).pending.size ≤ s.pending.size + 1 := by
  cases e with
  | put | delete => exact Nat.le_succ _
  | txnPut | txnDelete => exact SortedMap.size_insert_le ..
  | commit txn | abort txn =>
    unfold perform
    dsimp only
    split
    · exact Nat.le_succ _
    · exact Nat.le_succ_of_le (SortedMap.size_erase_le ..)

end State

theorem state_append_singleton (rs : List Record) (r : Record) :
    state (rs ++ [r]) = state rs >>= (·.apply r) := by
  rw [state, List.foldlM_append]
  simp [state]

/-- Records whose positions ascend can be replayed from where they follow. -/
theorem exists_foldlM_of_follow {rs : List Record} {s : State}
    (h : Record.Follow s.lastLsn rs) : ∃ s', rs.foldlM State.apply s = .ok s' ∧
      s'.lastLsn = Record.endLsn s.lastLsn rs ∧ s'.pending.size ≤ s.pending.size + rs.length := by
  induction rs generalizing s with
  | nil => exact ⟨s, rfl, rfl, Nat.le_refl _⟩
  | cons r rs ih =>
    obtain ⟨s₁, hs₁⟩ := State.exists_apply h.1
    obtain ⟨-, hlsn, -, hpending⟩ := State.views_apply hs₁
    obtain ⟨s', hs', hlast, hsize⟩ := ih (s := s₁) (by rw [hlsn]; exact h.2)
    refine ⟨s', ?_, ?_, ?_⟩
    · rw [List.foldlM_cons, hs₁]
      exact hs'
    · rw [hlast, hlsn, Record.endLsn]
    · have := s.size_pending_perform_le r.entry
      rw [← hpending] at this
      rw [List.length_cons]
      omega

theorem exists_state_of_follow {rs : List Record} (h : Record.Follow .zero rs) :
    ∃ s, state rs = .ok s ∧ s.lastLsn = Record.endLsn .zero rs ∧ s.pending.size ≤ rs.length := by
  obtain ⟨s, hs, hlast, hsize⟩ := exists_foldlM_of_follow (s := .empty) h
  exact ⟨s, hs, hlast, Nat.le_trans hsize (Nat.le_of_eq (Nat.zero_add _))⟩

/-! ## Agreement -/

namespace State

/-- The states agree on all that matters to a log in which only transactions in `P` commit. -/
structure Agree (P : TxnId → Prop) (s s' : State) : Prop where
  live : s.live = s'.live
  lastLsn : s.lastLsn = s'.lastLsn
  pending : ∀ t, P t → s.pending.get? t = s'.pending.get? t

variable {P Q : TxnId → Prop} {s s' s₁ : State}

theorem Agree.refl (P : TxnId → Prop) (s : State) : Agree P s s := ⟨rfl, rfl, fun _ _ => rfl⟩

theorem Agree.mono (h : Agree P s s') (hQ : ∀ t, Q t → P t) : Agree Q s s' :=
  ⟨h.live, h.lastLsn, fun t ht => h.pending t (hQ t ht)⟩

theorem Agree.workOf (h : Agree P s s') {t : TxnId} (ht : P t) : s.workOf t = s'.workOf t := by
  rw [State.workOf, SortedMap.getD, h.pending t ht]
  rfl

/-- Work that is not of a transaction in `P` may be forgotten. -/
theorem Agree.discard (h : Agree P s s') {t : TxnId} (ht : ¬P t) : Agree P (s.discard t) s' := by
  refine ⟨h.live, h.lastLsn, fun x hx => ?_⟩
  have hne : x ≠ t := fun heq => ht (heq ▸ hx)
  rw [State.discard, SortedMap.get?_erase, if_neg hne, h.pending x hx]

/-- One record more. -/
theorem Agree.apply (h : Agree P s s') {r : Record} (hcommit : ∀ t, r.entry = .commit t → P t)
    (happly : s.apply r = .ok s₁) : ∃ s₁', s'.apply r = .ok s₁' ∧ Agree P s₁ s₁' := by
  obtain ⟨hlt, hlsn, hlive, hpending⟩ := views_apply happly
  obtain ⟨s₁', happly'⟩ := exists_apply (s := s') (r := r) (by rw [← h.lastLsn]; exact hlt)
  obtain ⟨-, hlsn', hlive', hpending'⟩ := views_apply happly'
  refine ⟨s₁', happly', ?_, hlsn.trans hlsn'.symm, fun t ht => ?_⟩
  · rw [hlive, hlive']
    exact live_perform_congr h.live fun t ht => h.workOf (hcommit t ht)
  · rw [hpending, hpending', get?_pending_perform, get?_pending_perform, h.workOf ht,
      h.pending t ht]

end State
end Replay
end WalStore

import WalStore.Proofs.Replay.Unresolved

/-!
# How far a log reaches

Opening an environment logs an abort for each transaction that is unresolved. So it takes as many
positions as there are such transactions, and a log is said to reach as far as it ends once they are
aborted (`Record.Reaches`). Logging these aborts, all of them or some, takes it no further
(`Reaches.aborts`), a log that is cut reaches no further than it did (`Reaches.of_prefix`), and one
record more takes it at most two positions further (`Reaches.append`).
-/

namespace WalStore

open Record (Follow endLsn aborts)

namespace Replay

/-- One record resolves one transaction at most. -/
theorem State.size_pending_le_perform (s : State) (e : Entry) :
    s.pending.size ≤ (s.perform e).pending.size + 1 := by
  cases e with
  | put | delete => exact Nat.le_succ _
  | txnPut | txnDelete => exact Nat.le_succ_of_le (SortedMap.size_le_insert ..)
  | commit txn | abort txn =>
    unfold perform
    dsimp only
    split
    · exact Nat.le_succ _
    · exact SortedMap.size_le_erase ..

theorem State.length_unresolved (s : State) : s.unresolved.length = s.pending.size :=
  List.length_map ..

end Replay

namespace Record

variable {rs rs' : List Record} {n : Nat}

/-- The log ends at position `n` at most, once what is unresolved in it is aborted. -/
def Reaches (rs : List Record) (n : Nat) : Prop :=
  ∃ s, Replay.state rs = .ok s ∧ (endLsn .zero rs).toNat + s.unresolved.length ≤ n

theorem Reaches.mono (h : Reaches rs n) {n' : Nat} (hle : n ≤ n') : Reaches rs n' := by
  obtain ⟨s, hstate, hlast⟩ := h
  exact ⟨s, hstate, Nat.le_trans hlast hle⟩

theorem Reaches.endLsn_le (h : Reaches rs n) : (endLsn .zero rs).toNat ≤ n := by
  obtain ⟨s, -, hlast⟩ := h
  exact Nat.le_trans (Nat.le_add_right ..) hlast

theorem Reaches.of_prefix (h : Reaches rs n) (hfollow : Follow .zero rs) (hle : rs' <+: rs) :
    Reaches rs' n := by
  obtain ⟨later, rfl⟩ := hle
  induction later using List.reverseRecOn with
  | nil => rwa [List.append_nil] at h
  | append_singleton later r ih =>
    rw [← List.append_assoc] at h hfollow
    obtain ⟨s', hstate', hlast⟩ := h
    obtain ⟨s, hstate, happly⟩ := Replay.exists_state_of_append hstate'
    obtain ⟨-, -, -, hpending⟩ := Replay.State.views_apply happly
    have hsize := s.size_pending_le_perform r.entry
    obtain ⟨hbefore, hlater⟩ := follow_append.1 hfollow
    have hlt := Lsn.lt_iff.1 hlater.1
    rw [endLsn_append, endLsn, endLsn, s'.length_unresolved, hpending] at hlast
    refine ih ⟨s, hstate, ?_⟩ hbefore
    rw [s.length_unresolved]
    omega

theorem Reaches.append (h : Reaches rs n) {r : Record} (hlsn : r.lsn = (endLsn .zero rs).next)
    (hfollow : Follow .zero (rs ++ [r])) : Reaches (rs ++ [r]) (n + 2) := by
  obtain ⟨s, hstate, hlast⟩ := h
  obtain ⟨s', hstate', -⟩ := Replay.exists_state_of_follow hfollow
  obtain ⟨s₀, hstate₀, happly⟩ := Replay.exists_state_of_append hstate'
  rw [hstate] at hstate₀
  cases hstate₀
  obtain ⟨-, -, -, hpending⟩ := Replay.State.views_apply happly
  have hsize := s.size_pending_perform_le r.entry
  have hnext := Lsn.toNat_next_le (endLsn .zero rs)
  rw [s.length_unresolved] at hlast
  refine ⟨s', hstate', ?_⟩
  rw [endLsn_append, endLsn, endLsn, hlsn, s'.length_unresolved, hpending]
  omega

/-- The aborts of some of the transactions that are unresolved. -/
theorem Reaches.aborts (h : Reaches rs n) {s : Replay.State} (hstate : Replay.state rs = .ok s)
    {txns rest : List TxnId} (hunresolved : s.unresolved = txns ++ rest)
    (hfollow : Follow .zero (rs ++ aborts (endLsn .zero rs).next txns)) :
    Reaches (rs ++ Record.aborts (endLsn .zero rs).next txns) n := by
  obtain ⟨s₀, hstate₀, hlast⟩ := h
  rw [hstate] at hstate₀
  cases hstate₀
  obtain ⟨s', hstate', hreduces⟩ := Replay.state_aborts hfollow hstate hunresolved
  refine ⟨s', hstate', ?_⟩
  rw [endLsn_append, toNat_endLsn_aborts hfollow.room_of_aborts, hreduces.unresolved]
  rw [hunresolved, List.length_append] at hlast
  omega

end Record
end WalStore

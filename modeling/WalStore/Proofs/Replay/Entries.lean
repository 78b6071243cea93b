import WalStore.Proofs.Ident
import WalStore.Proofs.Replay

/-!
# Replaying entries

What records come to depends on where they stand only so far that the positions have to ascend. A
log whose positions do comes to what its entries come to one after another (`state_of_follow`), so
two logs can be compared by their entries (`play`).
-/

namespace WalStore

open Record (Follow endLsn)

/-! ## Numbering -/

namespace Record

theorem map_entry_number (es : List Entry) : (number es).map (·.entry) = es := by
  simp [number, Function.comp_def]

/-- Entries can be numbered from one as long as a word has enough positions. -/
theorem follow_number {es : List Entry} (h : es.length < UInt64.size) :
    Follow .zero (number es) := by
  have hfrom (es : List Entry) (n : Nat) (last : Lsn) (hlast : last.toNat ≤ n)
      (hroom : n + es.length < UInt64.size) :
      Follow last ((es.zipIdx n).map fun e => ⟨.ofNat (e.2 + 1), e.1⟩) := by
    induction es generalizing n last with
    | nil => trivial
    | cons e es ih =>
      rw [List.length_cons] at hroom
      have hlsn : (Lsn.ofNat (n + 1)).toNat = n + 1 := Lsn.toNat_ofNat (by omega)
      rw [List.zipIdx_cons, List.map_cons]
      refine ⟨Lsn.lt_iff.2 ?_, ih (n + 1) _ (Nat.le_of_eq hlsn) (by omega)⟩
      rw [hlsn]
      omega
  exact hfrom es 0 .zero (Nat.le_refl 0) (by omega)

end Record

namespace Replay

/-! ## Entries in a row -/

/-- What an entry does as the next record of a log, wherever the record stands. -/
def State.enter (s : State) (e : Entry) : State :=
  { s.perform e with
    maxTxn := s.seenTxn e.txn?
    counters.records := s.counters.records + 1 }

/-- What entries come to, one after another. -/
def play (es : List Entry) : State := es.foldl State.enter .empty

/-- What an entry does to the rest of a state does not depend on the last position, the largest id
and the number of records, and leaves them as they are. -/
theorem State.perform_frame (s : State) (e : Entry) (lsn : Lsn) (txn? : Option TxnId) (n : Nat) :
    { s with lastLsn := lsn, maxTxn := txn?, counters.records := n }.perform e =
      { s.perform e with lastLsn := lsn, maxTxn := txn?, counters.records := n } := by
  cases e with
  | put | delete | txnPut | txnDelete => rfl
  | commit txn | abort txn =>
    unfold perform
    dsimp only
    cases s.pending.get? txn <;> rfl

theorem State.lastLsn_perform (s : State) (e : Entry) : (s.perform e).lastLsn = s.lastLsn := by
  have hframe := s.perform_frame e s.lastLsn s.maxTxn s.counters.records
  have hlsn := congrArg lastLsn hframe
  exact hlsn

theorem State.enter_lastLsn (s : State) (e : Entry) (lsn : Lsn) :
    { s with lastLsn := lsn }.enter e = { s.enter e with lastLsn := lsn } := by
  have hperform := s.perform_frame e lsn s.maxTxn s.counters.records
  unfold enter
  rw [hperform]
  rfl

theorem foldlM_apply_of_follow {rs : List Record} {s : State} (h : Follow s.lastLsn rs) :
    rs.foldlM State.apply s = .ok
      { (rs.map (·.entry)).foldl State.enter s with lastLsn := endLsn s.lastLsn rs } := by
  induction rs generalizing s with
  | nil => rfl
  | cons r rs ih =>
    have happly : s.apply r = .ok { s.enter r.entry with lastLsn := r.lsn } :=
      State.apply_eq_ok_iff.2 ⟨h.1, rfl⟩
    have hlater (es : List Entry) (s : State) (lsn : Lsn) :
        es.foldl State.enter { s with lastLsn := lsn } =
          { es.foldl State.enter s with lastLsn := lsn } := by
      induction es generalizing s with
      | nil => rfl
      | cons e es ih => rw [List.foldl_cons, List.foldl_cons, State.enter_lastLsn, ih]
    have hrest := ih (s := { s.enter r.entry with lastLsn := r.lsn }) h.2
    rw [hlater] at hrest
    rw [List.foldlM_cons, happly]
    exact hrest

/-- A log whose positions ascend comes to what its entries come to. -/
theorem state_of_follow {rs : List Record} (h : Follow .zero rs) :
    state rs = .ok { play (rs.map (·.entry)) with lastLsn := endLsn .zero rs } :=
  foldlM_apply_of_follow h

/-- Entries that are numbered from one come to what they come to one after another. -/
theorem state_number (es : List Entry) (h : es.length < UInt64.size) :
    ∃ lsn, state (Record.number es) = .ok { play es with lastLsn := lsn } := by
  refine ⟨endLsn .zero (Record.number es), ?_⟩
  rw [state_of_follow (Record.follow_number h), Record.map_entry_number]

theorem play_concat (es : List Entry) (e : Entry) : play (es ++ [e]) = (play es).enter e := by
  simp [play]

end Replay
end WalStore

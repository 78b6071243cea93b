import Mathlib.Data.List.Basic
import WalStore.Proofs.Replay.Entries
import WalStore.Workload

/-!
# Transactions that leave no trace

**Theorem (`alike_alterations`).** A transaction whose commits are turned into aborts, one that is
never resolved, and one that has never been leave the same live set, and the same work of every
other transaction.

What the three logs have in common is that the transaction does not commit in them. So they are
treated at once: an alteration that keeps all other entries, and leaves the transaction without a
commit (`Withholds`), comes to the same whatever else it does with the transaction's entries
(`alike_play`). Until it commits, an entry of a transaction changes nothing but the transaction's
work (`State.alike_enter`), and what is no commit of it does not look at that (`State.Alike.enter`).
-/

namespace WalStore

namespace Replay

namespace State

/-- The states have the same live set, and the same work of all transactions but one. -/
structure Alike (txn : TxnId) (s s' : State) : Prop where
  live : s.live = s'.live
  pending : ∀ t, t ≠ txn → s.pending.get? t = s'.pending.get? t

variable {txn : TxnId} {s s' s'' : State} {e : Entry}

theorem Alike.refl (txn : TxnId) (s : State) : Alike txn s s := ⟨rfl, fun _ _ => rfl⟩

theorem Alike.symm (h : Alike txn s s') : Alike txn s' s :=
  ⟨h.live.symm, fun t ht => (h.pending t ht).symm⟩

theorem Alike.trans (h : Alike txn s s') (h' : Alike txn s' s'') : Alike txn s s'' :=
  ⟨h.live.trans h'.live, fun t ht => (h.pending t ht).trans (h'.pending t ht)⟩

theorem Alike.workOf (h : Alike txn s s') {t : TxnId} (ht : t ≠ txn) :
    s.workOf t = s'.workOf t := by
  rw [State.workOf, SortedMap.getD, h.pending t ht]
  rfl

theorem Alike.enter (h : Alike txn s s') (he : e ≠ .commit txn) :
    Alike txn (s.enter e) (s'.enter e) := by
  refine ⟨?_, fun t ht => ?_⟩
  · refine live_perform_congr h.live fun u hu => h.workOf ?_
    rintro rfl
    exact he hu
  · show (s.perform e).pending.get? t = (s'.perform e).pending.get? t
    rw [get?_pending_perform, get?_pending_perform, h.workOf ht, h.pending t ht]

/-- An entry of a transaction that is no commit. -/
theorem alike_enter (s : State) (htxn : e.txn? = some txn) (he : e ≠ .commit txn) :
    Alike txn (s.enter e) s := by
  refine ⟨?_, fun t ht => ?_⟩
  · show (s.perform e).live = s.live
    rw [live_perform]
    cases e with
    | put | delete => cases htxn
    | commit u =>
      cases htxn
      exact absurd rfl he
    | txnPut | txnDelete | abort => rfl
  · show (s.perform e).pending.get? t = s.pending.get? t
    have hne : e.txn? ≠ some t := by
      rw [htxn]
      intro heq
      exact ht (Option.some.inj heq).symm
    rw [get?_pending_perform, if_neg hne]

end State

/-! ## Alterations -/

/-- The alteration keeps all entries that are not of the transaction, and leaves the transaction
without a commit. -/
structure Withholds (txn : TxnId) (f : Entry → Option Entry) : Prop where
  others : ∀ e, e.txn? ≠ some txn → f e = some e
  own : ∀ e e', e.txn? = some txn → f e = some e' → e'.txn? = some txn ∧ e' ≠ .commit txn

variable {txn : TxnId} {f g : Entry → Option Entry}

theorem withholds_turnCommit (txn : TxnId) : Withholds txn (Workload.turnCommit txn) := by
  unfold Workload.turnCommit
  constructor
  · intro e he
    have hne : e ≠ .commit txn := by
      rintro rfl
      exact he rfl
    rw [if_neg hne]
  · intro e e' he hf
    split at hf
    · cases hf
      exact ⟨rfl, nofun⟩
    · next hne =>
      cases hf
      exact ⟨he, hne⟩

theorem withholds_dropResolution (txn : TxnId) :
    Withholds txn (Workload.dropResolution txn) := by
  unfold Workload.dropResolution
  constructor
  · intro e he
    have hnot : ¬(e = .commit txn ∨ e = .abort txn) := by
      rintro (rfl | rfl) <;> exact he rfl
    rw [if_neg hnot]
  · intro e e' he hf
    split at hf
    · cases hf
    · next hnot =>
      cases hf
      exact ⟨he, fun heq => hnot (.inl heq)⟩

theorem withholds_dropTxn (txn : TxnId) : Withholds txn (Workload.dropTxn txn) := by
  unfold Workload.dropTxn
  constructor
  · intro e he
    rw [if_neg he]
  · intro e e' he hf
    rw [if_pos he] at hf
    cases hf

theorem Withholds.alike_foldl (hf : Withholds txn f) {s s' : State} (h : s.Alike txn s')
    (hg : Withholds txn g) (es : List Entry) :
    ((es.filterMap f).foldl State.enter s).Alike txn ((es.filterMap g).foldl State.enter s') := by
  -- What is kept of an entry of the transaction changes neither side.
  have hown {f : Entry → Option Entry} (hf : Withholds txn f) (s : State) {e : Entry}
      (he : e.txn? = some txn) (es : List Entry) :
      ∃ s₁ : State, s₁.Alike txn s ∧ ((e :: es).filterMap f).foldl State.enter s =
        (es.filterMap f).foldl State.enter s₁ := by
    cases hkept : f e with
    | none =>
      rw [List.filterMap_cons_none hkept]
      exact ⟨s, .refl txn s, rfl⟩
    | some e' =>
      obtain ⟨htxn, hne⟩ := hf.own e e' he hkept
      rw [List.filterMap_cons_some hkept]
      exact ⟨s.enter e', s.alike_enter htxn hne, rfl⟩
  induction es generalizing s s' with
  | nil => exact h
  | cons e es ih =>
    by_cases he : e.txn? = some txn
    · obtain ⟨s₁, hs₁, heq⟩ := hown hf s he es
      obtain ⟨s₂, hs₂, heq'⟩ := hown hg s' he es
      rw [heq, heq']
      exact ih (hs₁.trans (h.trans hs₂.symm))
    · have hne : e ≠ .commit txn := by
        rintro rfl
        exact he rfl
      rw [List.filterMap_cons_some (hf.others e he), List.filterMap_cons_some (hg.others e he)]
      exact ih (h.enter hne)

/-- It does not matter how a transaction is kept from committing. -/
theorem alike_play (hf : Withholds txn f) (hg : Withholds txn g) (es : List Entry) :
    (play (es.filterMap f)).Alike txn (play (es.filterMap g)) :=
  hf.alike_foldl (.refl txn .empty) hg es

end Replay

namespace Workload

open Replay (play)
open Replay.State (Alike)

theorem state_alter (w : Workload) (f : Entry → Option Entry)
    (hlength : w.records.length < UInt64.size) : ∃ lsn, Replay.state (w.alter f) =
      .ok { play ((w.records.map (·.entry)).filterMap f) with lastLsn := lsn } := by
  have hentries : w.records.filterMap (fun r => f r.entry) =
      (w.records.map (·.entry)).filterMap f := by
    rw [List.filterMap_map]
    rfl
  have hle := List.length_filterMap_le f (w.records.map (·.entry))
  rw [List.length_map] at hle
  rw [alter, hentries]
  exact Replay.state_number _ (Nat.lt_of_le_of_lt hle hlength)

/-- **Aborted, unresolved and absent is all the same.** A log in which the commits of a transaction
are turned into aborts, one without what resolves it, and one without its records leave the same
live set and the same work of every other transaction. Wherever a log is cut, it leaves what it
leaves with the transaction aborted at the cut, and what it leaves without the transaction's records
unless these have a commit. -/
theorem alike_alterations (w : Workload) (txn : TxnId) (hlength : w.records.length < UInt64.size) :
    (∃ aborted unresolved absent, Replay.state (w.commitAsAbort txn) = .ok aborted ∧
      Replay.state (w.withoutResolution txn) = .ok unresolved ∧
      Replay.state (w.withoutTxn txn) = .ok absent ∧
      aborted.Alike txn absent ∧ unresolved.Alike txn absent) ∧
    ∀ front e back, w.records.map (·.entry) = front ++ e :: back →
      ∃ cut aborted absent, Replay.state (Record.number front) = .ok cut ∧
        Replay.state (Record.number (front ++ [.abort txn])) = .ok aborted ∧
        Replay.state (Record.number (front.filterMap (dropTxn txn))) = .ok absent ∧
        cut.Alike txn aborted ∧ (.commit txn ∉ front → cut.Alike txn absent) := by
  have habsent := Replay.withholds_dropTxn txn
  constructor
  · obtain ⟨_, haborted⟩ := w.state_alter (turnCommit txn) hlength
    obtain ⟨_, hopen⟩ := w.state_alter (dropResolution txn) hlength
    obtain ⟨_, hnone⟩ := w.state_alter (dropTxn txn) hlength
    have h₁ := Replay.alike_play (Replay.withholds_turnCommit txn) habsent
      (w.records.map (·.entry))
    have h₂ := Replay.alike_play (Replay.withholds_dropResolution txn) habsent
      (w.records.map (·.entry))
    exact ⟨_, _, _, haborted, hopen, hnone, ⟨h₁.live, h₁.pending⟩, ⟨h₂.live, h₂.pending⟩⟩
  · intro front e back hsplit
    have hshort : front.length + 1 < UInt64.size := by
      have hlengths := congrArg List.length hsplit
      rw [List.length_map, List.length_append, List.length_cons] at hlengths
      omega
    have hle := List.length_filterMap_le (dropTxn txn) front
    obtain ⟨_, hcut⟩ := Replay.state_number front (by omega)
    obtain ⟨_, haborted⟩ := Replay.state_number (front ++ [.abort txn])
      (by rw [List.length_append]; exact hshort)
    obtain ⟨_, hnone⟩ := Replay.state_number (front.filterMap (dropTxn txn)) (by omega)
    have habort := (play front).alike_enter (e := .abort txn) rfl nofun
    rw [← Replay.play_concat] at habort
    refine ⟨_, _, _, hcut, haborted, hnone, ⟨habort.live.symm, fun t ht => ?_⟩, fun hfront => ?_⟩
    · exact (habort.pending t ht).symm
    · have hkept : front.filterMap (turnCommit txn) = front := by
        have hkeep : ∀ e ∈ front, turnCommit txn e = some e := by
          intro e he
          refine if_neg ?_
          rintro rfl
          exact hfront he
        rw [List.filterMap_congr hkeep, List.filterMap_some]
      have h := Replay.alike_play (Replay.withholds_turnCommit txn) habsent front
      rw [hkept] at h
      exact ⟨h.live, h.pending⟩

/-- A transaction commits, goes on, aborts, and commits once more without work. Another one would
notice, as it deletes the oldest value under a key. -/
def repeated : Workload where
  records := Record.number [.put [1] [5], .txnPut ⟨1⟩ [1] [3], .txnDelete ⟨2⟩ [1] none, .commit ⟨1⟩,
    .txnPut ⟨1⟩ [2] [9], .abort ⟨1⟩, .txnPut ⟨2⟩ [2] [7], .commit ⟨1⟩, .commit ⟨2⟩,
    .txnDelete ⟨3⟩ [2] none]
  resolutions := ∅

theorem alike_alterations_repeated : repeated.records.length < UInt64.size ∧
    Replay.live repeated.records = .ok (.ofPairs [([1], [3]), ([2], [7])]) ∧
    Replay.live (repeated.commitAsAbort ⟨1⟩) = .ok (.ofPairs [([2], [7])]) ∧
    Replay.live (repeated.withoutResolution ⟨1⟩) = .ok (.ofPairs [([2], [7])]) ∧
    Replay.live (repeated.withoutTxn ⟨1⟩) = .ok (.ofPairs [([2], [7])]) := by
  have hlength : repeated.records.length < UInt64.size := by decide
  have hlive : Replay.live (repeated.withoutTxn ⟨1⟩) = .ok (.ofPairs [([2], [7])]) := by
    decide +kernel
  obtain ⟨aborted, unresolved, absent, haborted, hopen, hnone, h₁, h₂⟩ :=
    (alike_alterations repeated ⟨1⟩ hlength).1
  refine ⟨hlength, by decide +kernel, ?_, ?_, hlive⟩
  · rw [← hlive, Replay.live, Replay.live, haborted, hnone]
    exact congrArg Except.ok h₁.live
  · rw [← hlive, Replay.live, Replay.live, hopen, hnone]
    exact congrArg Except.ok h₂.live

end Workload
end WalStore

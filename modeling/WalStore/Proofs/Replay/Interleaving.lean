import Mathlib.Logic.Relation
import WalStore.Proofs.Replay.Entries
import WalStore.Proofs.Replay.WellFormed

/-!
# Interleaving

**Theorem (`state_of_moves`).** Work of a transaction may be moved to any other place in a log, as
long as it does not get past a commit or an abort of the transaction. Whatever is moved in this way,
and however often, replaying comes to the same state: the same values in the same order, the same
work of every transaction, the same largest id and the same counts.

The proof is one commutation (`State.enter_comm`): a write of a transaction does nothing but add to
the transaction's work (`State.perform_of_work`), and of all entries only those that resolve the
transaction look at it. Writes of one transaction commute because its work is two sets.
-/

namespace WalStore

open Record (Follow endLsn)

/-! ## Work -/

/-- What a write of a transaction adds to the transaction's work. -/
def Entry.addTo (work : Pending) : Entry → Pending
  | .txnPut _ key value => work.insert key value
  | .txnDelete _ key value => work.delete key value
  | .put .. | .delete .. | .commit _ | .abort _ => work

theorem Entry.addTo_comm (e e' : Entry) (work : Pending) :
    e'.addTo (e.addTo work) = e.addTo (e'.addTo work) := by
  cases e <;> cases e' <;>
    simp only [addTo, Pending.insert, Pending.delete, SortedSet.insert_comm]

namespace Replay

namespace State

/-- Adds a write to a transaction's work. -/
def addWork (s : State) (txn : TxnId) (e : Entry) : State :=
  { s with
    pending := s.pending.insert txn (e.addTo (s.workOf txn))
    counters.txnWrites := s.counters.txnWrites + 1 }

variable {s : State} {e x : Entry} {txn : TxnId}

theorem perform_of_work (h : e.work? = some txn) : s.perform e = s.addWork txn e := by
  cases e <;> cases h <;> rfl

theorem addWork_comm (s : State) (txn txn' : TxnId) (e e' : Entry) :
    (s.addWork txn e).addWork txn' e' = (s.addWork txn' e').addWork txn e := by
  unfold addWork
  by_cases h : txn = txn'
  · subst h
    simp [workOf, SortedMap.getD_insert, SortedMap.insert_insert, Entry.addTo_comm e e']
  · simp [workOf, SortedMap.getD_insert, h, Ne.symm h, SortedMap.insert_comm _ h]

/-- Only work of a transaction and what resolves it has to do with its work. -/
theorem perform_addWork (s : State) (hwork : x.work? = none) (hx : x.resolved? ≠ some txn) :
    (s.addWork txn e).perform x = (s.perform x).addWork txn e := by
  cases x with
  | put | delete => rfl
  | txnPut | txnDelete => cases hwork
  | commit u | abort u =>
    have hne : u ≠ txn := fun heq => hx (congrArg some heq)
    have hget : (s.addWork txn e).pending.get? u = s.pending.get? u := by
      rw [addWork, SortedMap.get?_insert, if_neg hne]
    have hdiscard : ((s.addWork txn e).discard u) = (s.discard u).addWork txn e := by
      simp [addWork, discard, workOf, SortedMap.getD_erase, Ne.symm hne,
        SortedMap.erase_insert_comm _ (Ne.symm hne)]
    unfold perform
    dsimp only
    rw [hget]
    cases s.pending.get? u with
    | none => rfl
    | some work =>
      have hpending := congrArg pending hdiscard
      dsimp only [discard] at hpending ⊢
      rw [hpending]
      rfl

theorem perform_comm (s : State) (he : e.work? = some txn) (hx : x.resolved? ≠ some txn) :
    (s.perform e).perform x = (s.perform x).perform e := by
  rw [perform_of_work he, perform_of_work he]
  cases hwork : x.work? with
  | none => exact s.perform_addWork hwork hx
  | some txn' => rw [perform_of_work hwork, perform_of_work hwork, addWork_comm]

/-- The largest of several ids is seen, in whatever order they come. -/
theorem seenTxn_comm {s₁ s₂ : State} {txn₁? txn₂? : Option TxnId}
    (h₁ : s₁.maxTxn = s.seenTxn txn₁?) (h₂ : s₂.maxTxn = s.seenTxn txn₂?) :
    s₁.seenTxn txn₂? = s₂.seenTxn txn₁? := by
  unfold seenTxn at h₁ h₂ ⊢
  cases hmax : s.maxTxn with
  | none => cases txn₁? <;> cases txn₂? <;> simp_all [TxnId.max_comm]
  | some m =>
    rw [hmax] at h₁ h₂
    cases txn₁? <;> cases txn₂? <;> simp only [h₁, h₂, TxnId.max_right_comm m]

theorem enter_enter (s : State) (e x : Entry) : (s.enter e).enter x =
    { (s.perform e).perform x with
      maxTxn := (s.enter e).seenTxn x.txn?
      counters.records := s.counters.records + 1 + 1 } := by
  have hframe := (s.perform e).perform_frame x (s.perform e).lastLsn (s.seenTxn e.txn?)
    (s.counters.records + 1)
  unfold enter
  rw [hframe, ← (s.perform e).lastLsn_perform x]

/-- **A write may be put off past any entry that does not resolve its transaction.** -/
theorem enter_comm (s : State) (he : e.work? = some txn) (hx : x.resolved? ≠ some txn) :
    (s.enter e).enter x = (s.enter x).enter e := by
  have hseen : (s.enter e).seenTxn x.txn? = (s.enter x).seenTxn e.txn? :=
    seenTxn_comm (s := s) rfl rfl
  rw [enter_enter, enter_enter, s.perform_comm he hx, hseen]

end State

/-! ## Moving -/

/-- One write of a transaction is moved to another place, and nothing in between resolves the
transaction. -/
inductive Moved : List Entry → List Entry → Prop
  | back {before between after : List Entry} {e : Entry} {txn : TxnId}
      (hwork : e.work? = some txn) (hbetween : ∀ x ∈ between, x.resolved? ≠ some txn) :
      Moved (before ++ e :: between ++ after) (before ++ between ++ e :: after)
  | forth {before between after : List Entry} {e : Entry} {txn : TxnId}
      (hwork : e.work? = some txn) (hbetween : ∀ x ∈ between, x.resolved? ≠ some txn) :
      Moved (before ++ between ++ e :: after) (before ++ e :: between ++ after)

theorem foldl_enter_comm {e : Entry} {txn : TxnId} (hwork : e.work? = some txn)
    {between : List Entry} (hbetween : ∀ x ∈ between, x.resolved? ≠ some txn) (s : State) :
    between.foldl State.enter (s.enter e) = (between.foldl State.enter s).enter e := by
  induction between generalizing s with
  | nil => rfl
  | cons x between ih =>
    rw [List.foldl_cons, List.foldl_cons, s.enter_comm hwork (hbetween x List.mem_cons_self)]
    exact ih (fun y hy => hbetween y (List.mem_cons_of_mem x hy)) (s.enter x)

theorem Moved.play_eq {es es' : List Entry} (h : Moved es es') : play es = play es' := by
  cases h with
  | back hwork hbetween | forth hwork hbetween =>
    simp [play, foldl_enter_comm hwork hbetween]

/-- **Interleaving does not matter.** Two logs that differ only in where writes of transactions
stand, none of which has been moved past what resolves its transaction, come to the same state. -/
theorem state_of_moves {rs rs' : List Record} (h : Follow .zero rs) (h' : Follow .zero rs')
    (hmoves : Relation.ReflTransGen Moved (rs.map (·.entry)) (rs'.map (·.entry))) :
    ∃ s, state rs = .ok s ∧ state rs' = .ok { s with lastLsn := endLsn .zero rs' } := by
  have hplay {es es' : List Entry} (hmoves : Relation.ReflTransGen Moved es es') :
      play es = play es' := by
    induction hmoves with
    | refl => rfl
    | tail _ hmoved ih => rw [ih, hmoved.play_eq]
  refine ⟨_, state_of_follow h, ?_⟩
  rw [state_of_follow h', hplay hmoves]

/-- Two transactions at one key, and writes outside any transaction in between. -/
def entwined : List Entry :=
  [.put [1] [5], .txnPut ⟨1⟩ [1] [3], .txnPut ⟨2⟩ [1] [4], .txnDelete ⟨1⟩ [1] (some [5]),
    .commit ⟨2⟩, .delete [2] none, .commit ⟨1⟩]

/-- The same with one transaction's put to the front, and the other's behind its delete. -/
def disentangled : List Entry :=
  [.txnPut ⟨2⟩ [1] [4], .put [1] [5], .txnDelete ⟨1⟩ [1] (some [5]), .commit ⟨2⟩, .delete [2] none,
    .txnPut ⟨1⟩ [1] [3], .commit ⟨1⟩]

theorem state_of_moves_disentangled :
    let rs := Record.number entwined
    let rs' := Record.number disentangled
    Follow .zero rs ∧ Follow .zero rs' ∧
      Relation.ReflTransGen Moved (rs.map (·.entry)) (rs'.map (·.entry)) ∧
      ∃ s, state rs = .ok s ∧ state rs' = .ok { s with lastLsn := ⟨7⟩ } ∧
        live rs' = .ok (.ofPairs [([1], [4]), ([1], [3])]) := by
  intro rs rs'
  have h : Follow .zero rs := by decide
  have h' : Follow .zero rs' := by decide
  have hback := @Moved.back [.put [1] [5]] [.txnPut ⟨2⟩ [1] [4], .txnDelete ⟨1⟩ [1] (some [5]),
    .commit ⟨2⟩, .delete [2] none] [.commit ⟨1⟩] (.txnPut ⟨1⟩ [1] [3]) ⟨1⟩ rfl (by decide)
  have hforth := @Moved.forth [] [.put [1] [5]] [.txnDelete ⟨1⟩ [1] (some [5]), .commit ⟨2⟩,
    .delete [2] none, .txnPut ⟨1⟩ [1] [3], .commit ⟨1⟩] (.txnPut ⟨2⟩ [1] [4]) ⟨2⟩ rfl (by decide)
  have hmoves : Relation.ReflTransGen Moved (rs.map (·.entry)) (rs'.map (·.entry)) := by
    rw [Record.map_entry_number, Record.map_entry_number]
    exact .tail (.single hback) hforth
  obtain ⟨s, hs, hs'⟩ := state_of_moves h h' hmoves
  exact ⟨h, h', hmoves, s, hs, hs', by decide +kernel⟩

end Replay
end WalStore

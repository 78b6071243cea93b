import WalStore.Recovery
import WalStore.Proofs.Ident
import WalStore.Proofs.Replay

/-!
# Well-formed logs

A log is well formed if whatever resolves a transaction comes after work of it, and nothing of the
transaction comes after that (`Record.WellFormed`). It is so record by record: a record may be added
if its transaction is not resolved yet, and has work if the record resolves it (`Record.Allows`).

**Theorem (`WellFormed.replayed`).** Replaying a well-formed log finds work to resolve at every
commit and abort. What is pending at the end is the work of the transactions that the log leaves
open, and there are at most as many resolutions, done and still to do, as there are other records.
-/

namespace WalStore

namespace Entry

/-- The transaction that an entry is work of. -/
def work? : Entry → Option TxnId
  | txnPut txn .. | txnDelete txn .. => some txn
  | put .. | delete .. | commit _ | abort _ => none

/-- The transaction that an entry resolves. -/
def resolved? : Entry → Option TxnId
  | commit txn | abort txn => some txn
  | put .. | delete .. | txnPut .. | txnDelete .. => none

variable {e : Entry} {txn : TxnId}

theorem txn?_of_work? (h : e.work? = some txn) : e.txn? = some txn := by
  cases e <;> simp_all [work?, txn?]

theorem txn?_of_resolved? (h : e.resolved? = some txn) : e.txn? = some txn := by
  cases e <;> simp_all [resolved?, txn?]

theorem resolved?_of_work? (h : e.work? = some txn) : e.resolved? = none := by
  cases e <;> simp_all [work?, resolved?]

/-- An entry of a transaction is work of it or resolves it. -/
theorem work?_of_txn? (h : e.txn? = some txn) (hnone : e.resolved? = none) :
    e.work? = some txn := by
  cases e <;> simp_all [resolved?, work?, txn?]

end Entry

namespace Record

/-- Each record that resolves a transaction comes after work of the transaction, and no record of
the transaction comes after it. -/
def WellFormed (rs : List Record) : Prop :=
  ∀ before r after txn, rs = before ++ r :: after → r.entry.resolved? = some txn →
    (∃ w ∈ before, w.entry.work? = some txn) ∧ ∀ x ∈ after, x.entry.txn? ≠ some txn

/-- The log has work of the transaction and does not resolve it. -/
def Open (rs : List Record) (txn : TxnId) : Prop :=
  (∃ w ∈ rs, w.entry.work? = some txn) ∧ ∀ r ∈ rs, r.entry.resolved? ≠ some txn

/-- The entry may come next. -/
def Allows (rs : List Record) (e : Entry) : Prop :=
  ∀ txn, e.txn? = some txn → (∀ r ∈ rs, r.entry.resolved? ≠ some txn) ∧
    (e.resolved? = some txn → ∃ w ∈ rs, w.entry.work? = some txn)

/-- The records that resolve nothing. -/
def others (rs : List Record) : List Record := rs.filter (·.entry.resolved?.isNone)

variable {rs rs' : List Record} {r : Record} {txn : TxnId}

theorem wellFormed_nil : WellFormed [] := by
  intro before r after txn heq
  simp at heq

theorem WellFormed.of_prefix (h : WellFormed rs) (hle : rs' <+: rs) : WellFormed rs' := by
  obtain ⟨later, rfl⟩ := hle
  intro before r after txn heq hresolved
  subst heq
  obtain ⟨hwork, hafter⟩ := h before r (after ++ later) txn (by simp) hresolved
  exact ⟨hwork, fun x hx => hafter x (List.mem_append_left _ hx)⟩

theorem wellFormed_append_singleton :
    WellFormed (rs ++ [r]) ↔ WellFormed rs ∧ Allows rs r.entry := by
  constructor
  · intro h
    refine ⟨h.of_prefix (List.prefix_append ..), fun txn htxn => ⟨fun x hx hresolved => ?_,
      fun hresolved => (h rs r [] txn rfl hresolved).1⟩⟩
    obtain ⟨before, after, rfl⟩ := List.append_of_mem hx
    exact (h before x (after ++ [r]) txn (by simp) hresolved).2 r (by simp) htxn
  · rintro ⟨h, hallows⟩ before x after txn heq hresolved
    rcases List.eq_nil_or_concat after with rfl | ⟨after, last, rfl⟩
    · obtain ⟨rfl, hlast⟩ := List.append_inj' heq rfl
      cases hlast
      exact ⟨(hallows txn (Entry.txn?_of_resolved? hresolved)).2 hresolved, nofun⟩
    · rw [List.concat_eq_append, ← List.cons_append, ← List.append_assoc] at heq
      obtain ⟨rfl, hlast⟩ := List.append_inj' heq rfl
      cases hlast
      obtain ⟨hwork, hafter⟩ := h before x after txn rfl hresolved
      refine ⟨hwork, fun y hy hy' => ?_⟩
      rw [List.concat_eq_append] at hy
      rcases List.mem_append.1 hy with hy | hy
      · exact hafter y hy hy'
      · obtain rfl := List.mem_singleton.1 hy
        exact (hallows txn hy').1 x (by simp) hresolved

/-- Whether a transaction is open after one record more. -/
theorem open_append_singleton (hallows : Allows rs r.entry) :
    Open (rs ++ [r]) txn ↔
      if r.entry.txn? = some txn then r.entry.resolved? = none else Open rs txn := by
  have hwork : (∃ w ∈ rs ++ [r], w.entry.work? = some txn) ↔
      (∃ w ∈ rs, w.entry.work? = some txn) ∨ r.entry.work? = some txn := by
    simp [or_and_right, exists_or]
  have hnot : (∀ x ∈ rs ++ [r], x.entry.resolved? ≠ some txn) ↔
      (∀ x ∈ rs, x.entry.resolved? ≠ some txn) ∧ r.entry.resolved? ≠ some txn := by
    simp [or_imp, forall_and]
  rw [Open, hwork, hnot]
  by_cases htxn : r.entry.txn? = some txn
  · rw [if_pos htxn]
    obtain ⟨hbefore, -⟩ := hallows txn htxn
    constructor
    · rintro ⟨-, -, hne⟩
      by_contra hsome
      obtain ⟨t, ht⟩ := Option.ne_none_iff_exists'.1 hsome
      have htxn' := Entry.txn?_of_resolved? ht
      rw [htxn] at htxn'
      exact hne (ht.trans htxn'.symm)
    · intro hnone
      refine ⟨.inr (Entry.work?_of_txn? htxn hnone), hbefore, ?_⟩
      rw [hnone]
      nofun
  · rw [if_neg htxn]
    constructor
    · rintro ⟨hwork | hwork, hbefore, -⟩
      · exact ⟨hwork, hbefore⟩
      · exact absurd (Entry.txn?_of_work? hwork) htxn
    · rintro ⟨hwork, hbefore⟩
      exact ⟨.inl hwork, hbefore, fun h => htxn (Entry.txn?_of_resolved? h)⟩

theorem length_others_append (rs : List Record) (r : Record) :
    (others (rs ++ [r])).length =
      (others rs).length + if r.entry.resolved?.isNone = true then 1 else 0 := by
  unfold others
  rw [List.filter_append, List.length_append]
  split <;> simp_all

end Record

/-! ## Replaying -/

namespace Replay

open Record (WellFormed Open others)

variable {rs : List Record} {r : Record} {s s' : State}

theorem State.pending_isSome_perform (s : State) (e : Entry) (txn : TxnId) :
    ((s.perform e).pending.get? txn).isSome = true ↔
      if e.txn? = some txn then e.resolved? = none else (s.pending.get? txn).isSome = true := by
  rw [get?_pending_perform]
  split
  · cases e <;> simp_all [Entry.workAfter, Entry.resolved?, Entry.txn?]
  · rfl

/-- A resolution that finds work is known, and leaves less of it. -/
theorem State.perform_of_pending (s : State) (e : Entry)
    (h : ∀ txn, e.resolved? = some txn → (s.pending.get? txn).isSome = true) :
    (s.perform e).counters.unknownResolutions = s.counters.unknownResolutions ∧
      (s.perform e).pending.size + 1 ≤
        s.pending.size + if e.resolved?.isNone = true then 2 else 0 := by
  have hresolve {txn : TxnId} (hsome : (s.pending.get? txn).isSome = true) :
      ∃ work, s.pending.get? txn = some work ∧
        (s.pending.erase txn).size + 1 ≤ s.pending.size := by
    obtain ⟨work, hwork⟩ := Option.isSome_iff_exists.1 hsome
    exact ⟨work, hwork, SortedMap.size_erase_lt hwork⟩
  cases e with
  | put | delete => exact ⟨rfl, Nat.le_succ _⟩
  | txnPut | txnDelete => exact ⟨rfl, Nat.succ_le_succ (SortedMap.size_insert_le ..)⟩
  | commit txn | abort txn =>
    obtain ⟨work, hwork, hsize⟩ := hresolve (h txn rfl)
    unfold perform
    simp only [hwork]
    exact ⟨rfl, hsize⟩

/-- What replaying the records `rs` has come to. -/
structure Replayed (rs : List Record) (s : State) : Prop where
  pending : ∀ txn, (s.pending.get? txn).isSome = true ↔ Open rs txn
  unknown : s.counters.unknownResolutions = 0
  size : rs.length + s.pending.size ≤ 2 * (others rs).length

theorem exists_state_of_append (h : state (rs ++ [r]) = .ok s') :
    ∃ s, state rs = .ok s ∧ s.apply r = .ok s' := by
  rw [state_append_singleton] at h
  exact Except.exists_of_bind_eq_ok h

theorem WellFormed.replayed (h : WellFormed rs) (hstate : state rs = .ok s) : Replayed rs s := by
  induction rs using List.reverseRecOn generalizing s with
  | nil =>
    cases hstate
    refine ⟨fun txn => ?_, rfl, Nat.le_refl _⟩
    simp [Open, State.empty]
  | append_singleton rs r ih =>
    obtain ⟨s₀, hstate₀, happly⟩ := exists_state_of_append hstate
    obtain ⟨h₀, hallows⟩ := Record.wellFormed_append_singleton.1 h
    obtain ⟨hpending, hunknown, hsize⟩ := ih h₀ hstate₀
    obtain ⟨-, rfl⟩ := State.apply_eq_ok_iff.1 happly
    obtain ⟨hunknown', hsize'⟩ := s₀.perform_of_pending r.entry fun txn hresolved => by
      obtain ⟨hbefore, hwork⟩ := hallows txn (Entry.txn?_of_resolved? hresolved)
      exact (hpending txn).2 ⟨hwork hresolved, hbefore⟩
    refine ⟨fun txn => ?_, hunknown'.trans hunknown, ?_⟩
    · dsimp only
      rw [State.pending_isSome_perform, Record.open_append_singleton hallows, hpending]
    · dsimp only
      rw [List.length_append, List.length_singleton, Record.length_others_append]
      split <;> simp_all <;> omega

/-! ## Ids -/

/-- The larger of two ids, if there are two. -/
theorem State.seenTxn_spec (s : State) (txn? : Option TxnId) :
    (∀ txn, txn? = some txn ∨ s.maxTxn = some txn →
      ∃ m, s.seenTxn txn? = some m ∧ txn.toNat ≤ m.toNat) ∧
      ∀ m, s.seenTxn txn? = some m → txn? = some m ∨ s.maxTxn = some m := by
  unfold seenTxn
  cases txn? with
  | none =>
    cases hmax : s.maxTxn <;> simp
  | some b =>
    cases hmax : s.maxTxn with
    | none => simp
    | some a =>
      by_cases hle : a.toNat ≤ b.toNat
      · simp only [TxnId.max_eq_right hle]
        refine ⟨?_, fun m hm => .inl hm⟩
        rintro txn (h | h) <;> cases h
        · exact ⟨b, rfl, Nat.le_refl _⟩
        · exact ⟨b, rfl, hle⟩
      · simp only [TxnId.max_eq_left (Nat.lt_of_not_le hle)]
        refine ⟨?_, fun m hm => .inr hm⟩
        rintro txn (h | h) <;> cases h
        · exact ⟨a, rfl, Nat.le_of_not_le hle⟩
        · exact ⟨a, rfl, Nat.le_refl _⟩

/-- The largest id is that of some record, and no record has a larger one. -/
theorem maxTxn_of_state (hstate : state rs = .ok s) :
    (∀ r ∈ rs, ∀ txn, r.entry.txn? = some txn → ∃ m, s.maxTxn = some m ∧ txn.toNat ≤ m.toNat) ∧
      ∀ m, s.maxTxn = some m → ∃ r ∈ rs, r.entry.txn? = some m := by
  induction rs using List.reverseRecOn generalizing s with
  | nil =>
    cases hstate
    exact ⟨nofun, nofun⟩
  | append_singleton rs r ih =>
    obtain ⟨s₀, hstate₀, happly⟩ := exists_state_of_append hstate
    obtain ⟨hle, hmem⟩ := ih hstate₀
    obtain ⟨-, rfl⟩ := State.apply_eq_ok_iff.1 happly
    obtain ⟨hseen, hseen'⟩ := s₀.seenTxn_spec r.entry.txn?
    refine ⟨fun x hx txn htxn => ?_, fun m hm => ?_⟩
    · rcases List.mem_append.1 hx with hx | hx
      · obtain ⟨m₀, hm₀, hle₀⟩ := hle x hx txn htxn
        obtain ⟨m, hm, hle'⟩ := hseen m₀ (.inr hm₀)
        exact ⟨m, hm, Nat.le_trans hle₀ hle'⟩
      · obtain rfl := List.mem_singleton.1 hx
        exact hseen txn (.inl htxn)
    · rcases hseen' m hm with htxn | hmax
      · exact ⟨r, by simp, htxn⟩
      · obtain ⟨x, hx, htxn⟩ := hmem m hmax
        exact ⟨x, List.mem_append_left _ hx, htxn⟩

end Replay

/-- The next id is larger than those of the records, and no larger than it has to be. -/
theorem Recovery.nextTxn_spec {rs : List Record} {s : Replay.State}
    (hstate : Replay.state rs = .ok s) {n : Nat} (hroom : n + 1 < UInt64.size)
    (hids : ∀ r ∈ rs, ∀ txn, r.entry.txn? = some txn → txn.toNat ≤ n) :
    (∀ r ∈ rs, ∀ txn, r.entry.txn? = some txn → txn.toNat < (nextTxn ⟨s⟩).toNat) ∧
      (nextTxn ⟨s⟩).toNat ≤ n + 1 := by
  obtain ⟨hle, hmem⟩ := Replay.maxTxn_of_state hstate
  unfold nextTxn
  cases hmax : s.maxTxn with
  | none =>
    refine ⟨fun r hr txn htxn => ?_, Nat.succ_le_succ (Nat.zero_le n)⟩
    obtain ⟨m, hm, -⟩ := hle r hr txn htxn
    rw [hmax] at hm
    cases hm
  | some m =>
    obtain ⟨r, hr, htxn⟩ := hmem m hmax
    have hm := hids r hr m htxn
    dsimp only
    rw [TxnId.toNat_next (by omega)]
    refine ⟨fun x hx txn htxn' => ?_, by omega⟩
    obtain ⟨m', hm', hle'⟩ := hle x hx txn htxn'
    rw [hmax, Option.some.injEq] at hm'
    subst hm'
    omega

end WalStore

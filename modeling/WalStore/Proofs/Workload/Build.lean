import WalStore.Proofs.Replay.Entries
import WalStore.Workload.Build

/-!
# Built workloads

**Theorem (`build_ends`).** A workload is built without an index that is out of range. Its records
are numbered from one and, apart from those that end a transaction, are the operations in their
order. A transaction that did work is ended as told, by one record behind all its work or by none;
one without work has no record and no end. So every workload that is built passes the check for
being well formed (`isWellFormed_build`).

**The invariant.** Transactions are ended one after another. Ending one puts a record behind the
last entry of that transaction and leaves the entries of all others as they are (`resolve_cases`),
so what is true of those ended before stays true (`ended_resolve`).
-/

namespace WalStore

namespace Workload

/-! ## Places by index -/

section Lists

variable {α : Type}

/-- The index of the last element that passes. -/
def lastIdx? (p : α → Bool) : List α → Option Nat
  | [] => none
  | a :: l =>
    match lastIdx? p l with
    | some i => some (i + 1)
    | none => if p a then some 0 else none

variable {p : α → Bool} {l : List α}

theorem lastIdx?_eq_none_iff : lastIdx? p l = none ↔ ∀ a ∈ l, ¬p a := by
  induction l with
  | nil => simp [lastIdx?]
  | cons a l ih =>
    rw [lastIdx?, List.forall_mem_cons, ← ih]
    cases lastIdx? p l <;> simp

theorem split_of_lastIdx? {i : Nat} (h : lastIdx? p l = some i) :
    ∃ before a behind, l = before ++ a :: behind ∧ before.length = i ∧ p a ∧
      ∀ b ∈ behind, ¬p b := by
  induction l generalizing i with
  | nil => cases h
  | cons a l ih =>
    rw [lastIdx?] at h
    split at h
    · next j hj =>
      cases h
      obtain ⟨before, b, behind, rfl, hlength, hb, hbehind⟩ := ih hj
      exact ⟨a :: before, b, behind, rfl, by rw [List.length_cons, hlength], hb, hbehind⟩
    · next hnone =>
      split_ifs at h with ha
      cases h
      exact ⟨[], a, l, rfl, rfl, ha, lastIdx?_eq_none_iff.1 hnone⟩

theorem insertIdx_length (before behind : List α) (a : α) :
    (before ++ behind).insertIdx before.length a = before ++ a :: behind := by
  induction before with
  | nil => rfl
  | cons b before ih => simp [ih]

end Lists

/-- Ends one transaction by indices into the entries. There is no result if a difference, a
remainder or an insertion has none. -/
def resolveAt? (w : List Entry × SortedMap TxnId Resolution) (txn : TxnId) (ending : Ending) :
    Option (List Entry × SortedMap TxnId Resolution) := do
  let some last := lastIdx? (·.txn? = some txn) w.1 | return w
  let resolutions := w.2.insert txn ending.resolution
  let some e := ending.entry? txn | return (w.1, resolutions)
  guard (last ≤ w.1.length)
  let slots := w.1.length - last
  guard (slots ≠ 0)
  let index := last + 1 + ending.position % slots
  guard (index ≤ w.1.length)
  return (w.1.insertIdx index e, resolutions)

/-- The workload of the operations, built by indices. -/
def buildAt? (ops : List Operation) (endings : List Ending) : Option Workload := do
  let (entries, resolutions) ← (txns.zip endings).foldlM (fun w e => resolveAt? w e.1 e.2)
    (ops.map Operation.entry, ∅)
  return ⟨Record.number entries, resolutions⟩

/-! ## Ending one transaction -/

section Resolve

variable {txn : TxnId} {ending : Ending} {before behind l : List Entry} {a : Entry}
  {w : List Entry × SortedMap TxnId Resolution}

theorem splitLast?_eq_none (h : ∀ e ∈ l, e.txn? ≠ some txn) : splitLast? txn l = none := by
  induction l with
  | nil => rfl
  | cons e l ih =>
    obtain ⟨he, hl⟩ := List.forall_mem_cons.1 h
    simp [splitLast?, ih hl, he]

theorem splitLast?_append (ha : a.txn? = some txn) (hbehind : ∀ e ∈ behind, e.txn? ≠ some txn) :
    splitLast? txn (before ++ a :: behind) = some (before ++ [a], behind) := by
  induction before with
  | nil => simp [splitLast?, splitLast?_eq_none hbehind, ha]
  | cons e before ih => simp [splitLast?, ih]

theorem place_eq (e : Entry) (position : Nat) (l : List Entry) :
    ∃ l₁ l₂, l = l₁ ++ l₂ ∧ l₁.length = position % (l.length + 1) ∧
      place e position l = l₁ ++ e :: l₂ := by
  have hle : position % (l.length + 1) ≤ l.length :=
    Nat.le_of_lt_succ (Nat.mod_lt _ (Nat.succ_pos _))
  have hlength := List.length_take_of_le hle
  refine ⟨_, _, (List.take_append_drop _ l).symm, hlength, ?_⟩
  rw [← insertIdx_length, List.take_append_drop, hlength, place]

/-- Ending a transaction changes nothing if the transaction has no entry. Else the record that ends
it is put behind its last entry, and the end is noted. -/
theorem resolve_cases (w : List Entry × SortedMap TxnId Resolution) (txn : TxnId)
    (ending : Ending) :
    (∀ e ∈ w.1, e.txn? ≠ some txn) ∧ resolve w txn ending = w ∨
    ∃ before behind, w.1 = before ++ behind ∧ (∃ e ∈ before, e.txn? = some txn) ∧
      (∀ e ∈ behind, e.txn? ≠ some txn) ∧
      resolve w txn ending = (before ++ (ending.entry? txn).toList ++ behind,
        w.2.insert txn ending.resolution) := by
  obtain ⟨l, resolutions⟩ := w
  cases hlast : lastIdx? (·.txn? = some txn) l with
  | none =>
    have hnone : ∀ e ∈ l, e.txn? ≠ some txn := by simpa using lastIdx?_eq_none_iff.1 hlast
    exact .inl ⟨hnone, by rw [resolve, splitLast?_eq_none hnone]⟩
  | some last =>
    obtain ⟨before, a, behind, rfl, -, ha, hbehind⟩ := split_of_lastIdx? hlast
    have ha : a.txn? = some txn := by simpa using ha
    have hbehind : ∀ e ∈ behind, e.txn? ≠ some txn := by simpa using hbehind
    refine .inr ?_
    rw [resolve, splitLast?_append ha hbehind]
    cases ending.entry? txn with
    | none => exact ⟨before ++ [a], behind, by simp, ⟨a, by simp, ha⟩, hbehind, by simp⟩
    | some e =>
      obtain ⟨l₁, l₂, rfl, -, hplace⟩ := place_eq e ending.position behind
      rw [List.forall_mem_append] at hbehind
      exact ⟨before ++ a :: l₁, l₂, by simp, ⟨a, by simp, ha⟩, hbehind.2, by simp [hplace]⟩

/-- The indices are in range, and lead to the same place. -/
theorem resolveAt?_eq (w : List Entry × SortedMap TxnId Resolution) (txn : TxnId)
    (ending : Ending) : resolveAt? w txn ending = some (resolve w txn ending) := by
  obtain ⟨l, resolutions⟩ := w
  rw [resolveAt?, resolve]
  cases hlast : lastIdx? (·.txn? = some txn) l with
  | none =>
    rw [splitLast?_eq_none (by simpa using lastIdx?_eq_none_iff.1 hlast)]
    rfl
  | some last =>
    obtain ⟨before, a, behind, rfl, rfl, ha, hbehind⟩ := split_of_lastIdx? hlast
    rw [splitLast?_append (by simpa using ha) (by simpa using hbehind)]
    cases ending.entry? txn with
    | none => simp
    | some e =>
      obtain ⟨l₁, l₂, hl, hlength, hplace⟩ := place_eq e ending.position behind
      have hslots : (before ++ a :: behind).length - before.length = behind.length + 1 := by simp
      have hindex : before.length + 1 + l₁.length ≤ (before ++ a :: behind).length := by
        simp [hl]
        omega
      have hinsert : (before ++ a :: behind).insertIdx (before.length + 1 + l₁.length) e =
          before ++ a :: l₁ ++ e :: l₂ := by
        simpa [hl, Nat.add_assoc, Nat.add_comm 1] using insertIdx_length (before ++ a :: l₁) l₂ e
      simp only [hslots, ← hlength, hplace, hinsert, guard, hindex, if_true]
      simp

end Resolve

/-! ## Ending all of them -/

@[simp] theorem Operation.txn?_entry (op : Operation) : op.entry.txn? = op.slot := by
  obtain ⟨_ | txn, _ | _⟩ := op <;> rfl

@[simp] theorem Operation.isResolution_entry (op : Operation) : isResolution op.entry = false := by
  obtain ⟨_ | txn, _ | _⟩ := op <;> rfl

theorem Ending.of_mem_entry? {ending : Ending} {txn : TxnId} {e : Entry}
    (h : e ∈ ending.entry? txn) : e.txn? = some txn ∧ isResolution e = true := by
  rw [Ending.entry?] at h
  split at h <;> cases h <;> exact ⟨rfl, rfl⟩

/-- Whether the transaction does work. -/
def Works (ops : List Operation) (txn : TxnId) : Prop := ∃ op ∈ ops, op.slot = some txn

instance (ops : List Operation) (txn : TxnId) : Decidable (Works ops txn) :=
  inferInstanceAs (Decidable (∃ op ∈ ops, _))

/-- What the operations of a transaction do. -/
def work (ops : List Operation) (txn : TxnId) : List Entry :=
  (ops.filter (·.slot = some txn)).map Operation.entry

/-- The entries of a transaction. -/
def entriesOf (entries : List Entry) (txn : TxnId) : List Entry :=
  entries.filter (·.txn? = some txn)

/-- How a transaction has ended, if those in `done` have. -/
def ending? (ops : List Operation) (done : List (TxnId × Ending)) (txn : TxnId) : Option Ending :=
  if Works ops txn then done.lookup txn else none

/-- The transactions in `done` have ended. -/
structure Ended (ops : List Operation) (done : List (TxnId × Ending))
    (w : List Entry × SortedMap TxnId Resolution) : Prop where
  writes : w.1.filter (!isResolution ·) = ops.map Operation.entry
  own (txn : TxnId) :
    entriesOf w.1 txn = work ops txn ++ ((ending? ops done txn).bind fun e => e.entry? txn).toList
  resolutions (txn : TxnId) : w.2.get? txn = (ending? ops done txn).map (·.resolution)

section Ended

variable {ops : List Operation} {done : List (TxnId × Ending)} {txn : TxnId} {ending : Ending}
  {w : List Entry × SortedMap TxnId Resolution}

theorem work_eq_nil_iff : work ops txn = [] ↔ ¬Works ops txn := by
  simp [work, Works]

theorem isResolution_of_mem_work {e : Entry} (h : e ∈ work ops txn) : isResolution e = false := by
  obtain ⟨op, -, rfl⟩ := List.mem_map.1 h
  exact op.isResolution_entry

theorem entriesOf_eq_nil_iff {l : List Entry} :
    entriesOf l txn = [] ↔ ∀ e ∈ l, e.txn? ≠ some txn := by
  simp [entriesOf]

theorem entriesOf_append (l l' : List Entry) (txn : TxnId) :
    entriesOf (l ++ l') txn = entriesOf l txn ++ entriesOf l' txn := List.filter_append ..

theorem entriesOf_entry? (t : TxnId) : entriesOf (ending.entry? txn).toList t =
    if t = txn then (ending.entry? txn).toList else [] := by
  split_ifs with ht
  · refine List.filter_eq_self.2 fun e he => ?_
    simpa [ht] using (Ending.of_mem_entry? (Option.mem_toList.1 he)).1
  · refine entriesOf_eq_nil_iff.2 fun e he h => ht ?_
    rw [(Ending.of_mem_entry? (Option.mem_toList.1 he)).1] at h
    exact (Option.some.inj h).symm

theorem lookup_of_new (hnew : ∀ p ∈ done, p.1 ≠ txn) : done.lookup txn = none :=
  List.lookup_eq_none_iff.2 fun p hp => by simpa using (hnew p hp).symm

theorem ending?_concat (hnew : ∀ p ∈ done, p.1 ≠ txn) (t : TxnId) :
    ending? ops (done ++ [(txn, ending)]) t =
      if t = txn ∧ Works ops txn then some ending else ending? ops done t := by
  rw [ending?, ending?, List.lookup_append]
  by_cases ht : t = txn
  · subst ht
    by_cases hworks : Works ops t <;> simp [lookup_of_new hnew, hworks]
  · have hne : (t == txn) = false := by simpa using ht
    simp [List.lookup_cons, hne, ht]

theorem ended_init : Ended ops [] (ops.map Operation.entry, ∅) where
  writes := List.filter_eq_self.2 (by simp)
  own txn := by simp [entriesOf, work, ending?, List.filter_map, Function.comp_def]
  resolutions txn := by simp [ending?]

theorem ended_resolve (h : Ended ops done w) (hnew : ∀ p ∈ done, p.1 ≠ txn) :
    Ended ops (done ++ [(txn, ending)]) (resolve w txn ending) := by
  have hopen : entriesOf w.1 txn = work ops txn := by
    simp [h.own, ending?, lookup_of_new hnew]
  rcases resolve_cases w txn ending with ⟨hno, heq⟩ | ⟨before, behind, hw, hsome, hbehind, heq⟩
  · have hidle : ¬Works ops txn := by
      rw [← work_eq_nil_iff, ← hopen, entriesOf_eq_nil_iff]
      exact hno
    have hsame (t : TxnId) : ending? ops (done ++ [(txn, ending)]) t = ending? ops done t := by
      rw [ending?_concat hnew, if_neg fun h => hidle h.2]
    rw [heq]
    exact ⟨h.writes, fun t => by rw [hsame, h.own], fun t => by rw [hsame, h.resolutions]⟩
  · -- An entry it has can only be work, as it has not ended before.
    have hworks : Works ops txn := by
      by_contra hidle
      rw [← work_eq_nil_iff, ← hopen, entriesOf_eq_nil_iff, hw] at hidle
      obtain ⟨e, he, htxn⟩ := hsome
      exact hidle e (List.mem_append_left _ he) htxn
    have hend (t : TxnId) : ending? ops (done ++ [(txn, ending)]) t =
        if t = txn then some ending else ending? ops done t := by
      simp [ending?_concat hnew, hworks]
    rw [heq]
    refine ⟨?_, fun t => ?_, fun t => ?_⟩
    · have hnil : (ending.entry? txn).toList.filter (!isResolution ·) = [] := by
        simpa using fun e he => (Ending.of_mem_entry? he).2
      rw [← h.writes, hw]
      simp [hnil]
    · have hbehind : entriesOf behind txn = [] := entriesOf_eq_nil_iff.2 hbehind
      rw [hend, entriesOf_append, entriesOf_append, entriesOf_entry?]
      by_cases ht : t = txn
      · subst ht
        rw [← hopen, hw, entriesOf_append, hbehind]
        simp
      · rw [if_neg ht, if_neg ht, ← h.own, hw, entriesOf_append, List.append_nil]
    · rw [hend, SortedMap.get?_insert]
      split_ifs with ht
      · rfl
      · exact h.resolutions t

/-- Transactions end one after another, each once. -/
theorem ended_foldl (h : Ended ops done w) (more : List (TxnId × Ending))
    (hnodup : ((done ++ more).map (·.1)).Nodup) :
    Ended ops (done ++ more) (more.foldl (fun w e => resolve w e.1 e.2) w) := by
  induction more generalizing done w with
  | nil => simpa using h
  | cons e more ih =>
    rw [List.append_cons] at hnodup ⊢
    have hnew : ∀ p ∈ done, p.1 ≠ e.1 := by
      rw [List.map_append, List.map_append, List.nodup_append, List.nodup_append] at hnodup
      exact fun p hp => hnodup.1.2.2 _ (List.mem_map_of_mem hp) _ (by simp)
    exact ih (ended_resolve h hnew) hnodup

end Ended

/-! ## Building -/

variable {ops : List Operation} {endings : List Ending}

/-- No index is out of range. -/
theorem buildAt?_eq (ops : List Operation) (endings : List Ending) :
    buildAt? ops endings = some (build ops endings) := by
  simp only [buildAt?, resolveAt?_eq]
  have hfold (l : List (TxnId × Ending)) (w : List Entry × SortedMap TxnId Resolution) :
      l.foldlM (fun w e => some (resolve w e.1 e.2)) w =
        some (l.foldl (fun w e => resolve w e.1 e.2) w) := List.foldlM_pure ..
  rw [hfold]
  rfl

theorem map_fst_zip_txns (hendings : endings.length = maxTxns) :
    (txns.zip endings).map (·.1) = txns :=
  List.map_fst_zip (by rw [hendings]; decide)

theorem nodup_txns : txns.Nodup := by decide

theorem ended_build (ops : List Operation) (hendings : endings.length = maxTxns) :
    Ended ops (txns.zip endings)
      ((build ops endings).records.map (·.entry), (build ops endings).resolutions) := by
  rw [build, Record.map_entry_number]
  refine ended_foldl ended_init (txns.zip endings) ?_
  rw [List.nil_append, map_fst_zip_txns hendings]
  exact nodup_txns

theorem exists_ending (hendings : endings.length = maxTxns) {txn : TxnId} (h : txn ∈ txns) :
    ∃ ending, (txn, ending) ∈ txns.zip endings := by
  rw [← map_fst_zip_txns hendings] at h
  obtain ⟨⟨_, ending⟩, hmem, rfl⟩ := List.mem_map.1 h
  exact ⟨ending, hmem⟩

theorem ending?_of_mem {txn : TxnId} {ending : Ending} (hendings : endings.length = maxTxns)
    (h : (txn, ending) ∈ txns.zip endings) (hworks : Works ops txn) :
    ending? ops (txns.zip endings) txn = some ending := by
  have hnodup : ((txns.zip endings).map (·.1)).Nodup := by
    rw [map_fst_zip_txns hendings]
    exact nodup_txns
  obtain ⟨before, behind, hsplit⟩ := List.append_of_mem h
  rw [ending?, if_pos hworks, List.lookup_eq_some_iff]
  refine ⟨before, behind, hsplit, fun p hp => ?_⟩
  rw [hsplit, List.map_append, List.map_cons, List.nodup_append] at hnodup
  simpa using (hnodup.2.2 _ (List.mem_map_of_mem hp) _ List.mem_cons_self).symm

/-- A transaction with work is ended as told. -/
theorem build_of_works {txn : TxnId} {ending : Ending} (hendings : endings.length = maxTxns)
    (h : (txn, ending) ∈ txns.zip endings) (hworks : Works ops txn) :
    (build ops endings).resolutions.get? txn = some ending.resolution ∧
      entriesOf ((build ops endings).records.map (·.entry)) txn =
        work ops txn ++ (ending.entry? txn).toList := by
  have hended := ended_build ops hendings
  have hending := ending?_of_mem hendings h hworks
  constructor
  · rw [hended.resolutions, hending]
    rfl
  · rw [hended.own, hending]
    rfl

/-- One without work has no entry and no end. -/
theorem build_of_idle {txn : TxnId} (hendings : endings.length = maxTxns)
    (hidle : ¬Works ops txn) :
    (build ops endings).resolutions.get? txn = none ∧
      entriesOf ((build ops endings).records.map (·.entry)) txn = [] := by
  have hended := ended_build ops hendings
  have hending : ending? ops (txns.zip endings) txn = none := if_neg hidle
  constructor
  · rw [hended.resolutions, hending]
    rfl
  · rw [hended.own, hending, work_eq_nil_iff.2 hidle]
    rfl

theorem contains_build_iff (hslots : ∀ op ∈ ops, ∀ txn ∈ op.slot, txn ∈ txns)
    (hendings : endings.length = maxTxns) (txn : TxnId) :
    (build ops endings).resolutions.contains txn = true ↔ Works ops txn := by
  rw [SortedMap.contains]
  constructor
  · intro h
    by_contra hidle
    rw [(build_of_idle hendings hidle).1] at h
    cases h
  · intro hworks
    obtain ⟨op, hop, hslot⟩ := id hworks
    obtain ⟨ending, hmem⟩ := exists_ending hendings (hslots op hop txn hslot)
    rw [(build_of_works hendings hmem hworks).1]
    rfl

/-- Operations in no transaction or in one of four, and an ending for each of these, make a workload
without any index out of range. Its records are numbered from one; without those that end a
transaction they are the operations in order. How a transaction ends is noted exactly for those that
did work. The records of such a transaction are its operations in order and behind them, if it is to
commit or to abort, the one record that says so. The others have no records. -/
theorem build_ends (hslots : ∀ op ∈ ops, ∀ txn ∈ op.slot, txn ∈ txns)
    (hendings : endings.length = maxTxns) :
    let w := build ops endings
    let entries := w.records.map (·.entry)
    buildAt? ops endings = some w ∧
    (∀ (i : Nat) (h : i < w.records.length), w.records[i].lsn = .ofNat (i + 1)) ∧
    entries.filter (!isResolution ·) = ops.map Operation.entry ∧
    (∀ txn, w.resolutions.contains txn = true ↔ Works ops txn) ∧
    (∀ txn ending, (txn, ending) ∈ txns.zip endings → Works ops txn →
      w.resolutions.get? txn = some ending.resolution ∧
      entriesOf entries txn = work ops txn ++ (ending.entry? txn).toList) ∧
    ∀ txn, ¬Works ops txn → entriesOf entries txn = [] := by
  refine ⟨buildAt?_eq ops endings, fun i h => ?_, (ended_build ops hendings).writes,
    contains_build_iff hslots hendings, fun _ _ => build_of_works hendings,
    fun _ hidle => (build_of_idle hendings hidle).2⟩
  simp [build, Record.number]

/-- Three transactions with work, which end in all three ways, and one without. -/
def fourWrites : List Operation :=
  [⟨some ⟨1⟩, .put [1] [1]⟩, ⟨some ⟨3⟩, .delete [1] none⟩, ⟨none, .put [2] [2]⟩,
    ⟨some ⟨2⟩, .put [1] [1]⟩, ⟨some ⟨1⟩, .delete [2] (some [2])⟩, ⟨none, .delete [2] none⟩]

def fourEndings : List Ending :=
  [⟨.commit, 7⟩, ⟨.abort, 18446744073709551615⟩, ⟨.unresolved, 3⟩, ⟨.commit, 0⟩]

theorem build_ends_fourWrites :
    (build fourWrites fourEndings).records.map (·.entry) =
      [.txnPut ⟨1⟩ [1] [1], .txnDelete ⟨3⟩ [1] none, .put [2] [2], .txnPut ⟨2⟩ [1] [1],
        .txnDelete ⟨1⟩ [2] (some [2]), .delete [2] none, .commit ⟨1⟩, .abort ⟨2⟩] ∧
    buildAt? fourWrites fourEndings = some (build fourWrites fourEndings) ∧
    (build fourWrites fourEndings).resolutions.get? ⟨2⟩ = some .abort ∧
    entriesOf ((build fourWrites fourEndings).records.map (·.entry)) ⟨1⟩ =
      [.txnPut ⟨1⟩ [1] [1], .txnDelete ⟨1⟩ [2] (some [2]), .commit ⟨1⟩] ∧
    entriesOf ((build fourWrites fourEndings).records.map (·.entry)) ⟨4⟩ = [] := by
  have hslots : ∀ op ∈ fourWrites, ∀ txn ∈ op.slot, txn ∈ txns := by decide
  have hendings : fourEndings.length = maxTxns := rfl
  obtain ⟨hindex, -, -, -, hworks, hidle⟩ := build_ends hslots hendings
  exact ⟨by decide +kernel, hindex,
    (hworks ⟨2⟩ ⟨.abort, 18446744073709551615⟩ (by decide) (by decide)).1,
    (hworks ⟨1⟩ ⟨.commit, 7⟩ (by decide) (by decide)).2, hidle _ (by decide)⟩

/-! ## The check -/

/-- Work and then what ends it is how a transaction has to end. -/
theorem endingOf?_append {l : List Entry} (hne : l ≠ []) (hwork : ∀ e ∈ l, isResolution e = false)
    (ending : Ending) (txn : TxnId) :
    endingOf? (l ++ (ending.entry? txn).toList) = some (some ending.resolution) := by
  have hpass : ∀ e ∈ l, !isResolution e := by simpa using hwork
  obtain ⟨e, l, rfl⟩ := List.exists_cons_of_ne_nil hne
  rw [endingOf?, List.takeWhile_append_of_pos hpass, List.dropWhile_append_of_pos hpass]
  obtain ⟨_ | _ | _, position⟩ := ending <;> simp [Ending.entry?, isResolution]

/-- The check of workloads passes all that are built. -/
theorem isWellFormed_build (hslots : ∀ op ∈ ops, ∀ txn ∈ op.slot, txn ∈ txns)
    (hendings : endings.length = maxTxns) : (build ops endings).isWellFormed ops.length = true := by
  have hknown (txn : TxnId) (h : Works ops txn) : txn ∈ txns := by
    obtain ⟨op, hop, hslot⟩ := h
    exact hslots op hop txn hslot
  simp only [isWellFormed, Bool.and_eq_true, decide_eq_true_eq, List.all_eq_true]
  refine ⟨⟨⟨⟨?_, fun e he => ?_⟩, ?_⟩, fun txn htxn => ?_⟩, fun txn htxn => ?_⟩
  · rw [build, Record.map_entry_number]
  · rw [Option.all_eq_true]
    intro txn hof
    by_contra hunknown
    have hidle : ¬Works ops txn := fun h => hunknown (by simpa using hknown txn h)
    exact entriesOf_eq_nil_iff.1 (build_of_idle hendings hidle).2 e he hof
  · exact Nat.le_of_eq (by rw [(ended_build ops hendings).writes, List.length_map])
  · rw [SortedMap.mem_keys_iff] at htxn
    simpa using hknown txn ((contains_build_iff hslots hendings txn).1 htxn)
  · obtain ⟨ending, hmem⟩ := exists_ending hendings htxn
    by_cases hworks : Works ops txn
    · obtain ⟨hget, hown⟩ := build_of_works hendings hmem hworks
      rw [hget, ← endingOf?_append (mt work_eq_nil_iff.1 (not_not.2 hworks))
        (fun _ => isResolution_of_mem_work) ending txn, ← hown]
      rfl
    · obtain ⟨hget, hown⟩ := build_of_idle hendings hworks
      rw [hget]
      exact congrArg endingOf? hown

end Workload
end WalStore

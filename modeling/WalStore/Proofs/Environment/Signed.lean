import WalStore.Proofs.Environment.Resume

/-!
# Signed records

Ids are given out anew by every environment, so an id alone does not tell a transaction. Here each
record in a store is signed with the moment at which its transaction began (`Signed`). A record gets
its signature when it first stands in the store, and keeps it as long as it stands there.

Signed records are in order (`Filed`) if their log is well formed, leaves out no position, has no
more in it than a number of events can have logged, and has the work of one transaction under an id.
A beginning of it is in order too (`Filed.take`), and so it is with the aborts of an opening
(`Filed.resume`) and with one record more of the right transaction (`Filed.append`).
-/

namespace WalStore

open Record (WellFormed Allows Resumes others endLsn)

/-- A record, with the moment at which its transaction began if that is known. -/
structure Signed where
  record : Record
  began : Option Nat

namespace Signed

def records (signed : List Signed) : List Record := signed.map (·.record)

/-- What stands in the store now. What has stood there before keeps its signature. -/
def revise (signed : List Signed) (store : Store) (sign : Record → Option Nat) : List Signed :=
  let found := (Scan.ofBytes store.toList).records
  signed.take found.length ++ (found.drop signed.length).map fun r => ⟨r, sign r⟩

variable {signed : List Signed} {store : Store} {sign : Record → Option Nat}

theorem records_append (signed later : List Signed) :
    records (signed ++ later) = records signed ++ records later := List.map_append

theorem records_sign (rs : List Record) (sign : Record → Option Nat) :
    records (rs.map fun r => ⟨r, sign r⟩) = rs := by
  simp [records, Function.comp_def]

theorem length_records (signed : List Signed) : (records signed).length = signed.length :=
  List.length_map ..

theorem revise_of_append {new : List Record}
    (h : (Scan.ofBytes store.toList).records = records signed ++ new) :
    revise signed store sign = signed ++ new.map fun r => ⟨r, sign r⟩ := by
  unfold revise
  dsimp only
  rw [h, List.take_of_length_le, List.drop_left' (length_records signed)]
  rw [List.length_append, length_records]
  exact Nat.le_add_right ..

theorem revise_of_take {n : Nat}
    (h : (Scan.ofBytes store.toList).records = records (signed.take n)) :
    revise signed store sign = signed.take n := by
  unfold revise
  dsimp only
  rw [h, length_records, List.drop_of_length_le, List.map_nil, List.append_nil, List.length_take,
    List.take_eq_take_iff]
  · omega
  · rw [length_records]
    exact (List.take_sublist n signed).length_le

/-! ## Order -/

/-- The signed records are those of a well-formed log, after so many events at most. -/
structure Filed (signed : List Signed) (clock : Nat) : Prop where
  wellFormed : WellFormed (records signed)
  /-- No position is left out. -/
  dense : (endLsn .zero (records signed)).toNat ≤ (records signed).length
  count : (others (records signed)).length ≤ clock
  ids : ∀ p ∈ signed, ∀ txn, p.record.entry.txn? = some txn → txn.toNat ≤ clock
  /-- All work under an id is of one transaction. -/
  began : ∀ txn, ∃ n, ∀ p ∈ signed, p.record.entry.work? = some txn → p.began = some n

variable {clock : Nat}

theorem filed_nil : Filed [] 0 :=
  ⟨Record.wellFormed_nil, Nat.le_refl _, Nat.le_refl _, nofun, fun _ => ⟨0, nofun⟩⟩

theorem Filed.mono (h : Filed signed clock) {clock' : Nat} (hle : clock ≤ clock') :
    Filed signed clock' :=
  ⟨h.wellFormed, h.dense, Nat.le_trans h.count hle,
    fun p hp txn htxn => Nat.le_trans (h.ids p hp txn htxn) hle, h.began⟩

/-- There are at most as many resolutions as other records. -/
theorem Filed.length_le (h : Filed signed clock) (hfollow : Record.Follow .zero (records signed)) :
    (records signed).length ≤ 2 * clock := by
  obtain ⟨s, hstate, -⟩ := Replay.exists_state_of_follow hfollow
  have hsize := (Replay.WellFormed.replayed h.wellFormed hstate).size
  have := h.count
  omega

theorem Filed.take (h : Filed signed clock) (hfollow : Record.Follow .zero (records signed))
    (n : Nat) : Filed (signed.take n) clock := by
  have hsplit : records signed = records (signed.take n) ++ records (signed.drop n) := by
    rw [← records_append, List.take_append_drop]
  have hdense := h.dense
  have hothers := h.count
  rw [hsplit] at hfollow hdense hothers
  refine ⟨h.wellFormed.of_prefix ⟨_, hsplit.symm⟩, ?_, ?_,
    fun p hp => h.ids p (List.mem_of_mem_take hp), fun txn => ?_⟩
  · have hle := Record.length_le_endLsn (Record.follow_append.1 hfollow).2
    rw [Record.endLsn_append, List.length_append] at hdense
    omega
  · rw [Record.others, List.filter_append, List.length_append] at hothers
    exact Nat.le_trans (Nat.le_add_right ..) hothers
  · obtain ⟨n', hn'⟩ := h.began txn
    exact ⟨n', fun p hp => hn' p (List.mem_of_mem_take hp)⟩

/-- The aborts of an opening need no signatures. -/
theorem Filed.resume (h : Filed signed clock) {rs' : List Record}
    (hresumes : Resumes (records signed) rs') : ∃ aborts, rs' = records signed ++ aborts ∧
      Filed (signed ++ aborts.map fun r => ⟨r, none⟩) clock := by
  obtain ⟨aborts, rfl, haborts⟩ := hresumes.aborts
  refine ⟨aborts, rfl, ?_⟩
  have hrecords : records (signed ++ aborts.map fun r => ⟨r, none⟩) = records signed ++ aborts := by
    rw [records_append, records_sign aborts fun _ => none]
  refine ⟨hrecords ▸ hresumes.wellFormed, hrecords ▸ hresumes.dense, ?_, fun p hp txn htxn => ?_,
    fun txn => ?_⟩
  · have hnone : others aborts = [] := by
      refine List.filter_eq_nil_iff.2 fun r hr => ?_
      obtain ⟨t, ht, -⟩ := haborts r hr
      simp [ht, Entry.resolved?]
    rw [hrecords, Record.others, List.filter_append, ← Record.others, ← Record.others, hnone,
      List.append_nil]
    exact h.count
  · obtain ⟨w, hw, htxn⟩ :=
      hresumes.exists_txn (hrecords ▸ List.mem_map_of_mem (f := (·.record)) hp) htxn
    obtain ⟨q, hq, rfl⟩ := List.mem_map.1 hw
    exact h.ids q hq txn htxn
  · obtain ⟨n, hn⟩ := h.began txn
    refine ⟨n, fun p hp hwork => ?_⟩
    rcases List.mem_append.1 hp with hp | hp
    · exact hn p hp hwork
    · obtain ⟨r, hr, rfl⟩ := List.mem_map.1 hp
      obtain ⟨t, ht, -⟩ := haborts r hr
      rw [ht] at hwork
      cases hwork

/-- One record more, by one more event. -/
theorem Filed.append (h : Filed signed clock) {r : Record} {began : Option Nat}
    (hallows : Allows (records signed) r.entry)
    (hlsn : r.lsn = (endLsn .zero (records signed)).next)
    (hid : ∀ txn, r.entry.txn? = some txn → txn.toNat ≤ clock + 1)
    (hbegan : ∀ txn, r.entry.work? = some txn → ∃ n, began = some n ∧
      ∀ p ∈ signed, p.record.entry.work? = some txn → p.began = some n) :
    Filed (signed ++ [⟨r, began⟩]) (clock + 1) := by
  have hrecords : records (signed ++ [⟨r, began⟩]) = records signed ++ [r] := records_append ..
  refine ⟨?_, ?_, ?_, fun p hp txn htxn => ?_, fun txn => ?_⟩
  · rw [hrecords]
    exact Record.wellFormed_append_singleton.2 ⟨h.wellFormed, hallows⟩
  · rw [hrecords]
    exact Record.dense_append_singleton h.dense hlsn
  · have hothers := h.count
    rw [hrecords, Record.length_others_append]
    split <;> omega
  · rcases List.mem_append.1 hp with hp | hp
    · exact Nat.le_succ_of_le (h.ids p hp txn htxn)
    · obtain rfl := List.mem_singleton.1 hp
      exact hid txn htxn
  · by_cases hwork : r.entry.work? = some txn
    · obtain ⟨n, hn, hsame⟩ := hbegan txn hwork
      refine ⟨n, fun p hp hp' => ?_⟩
      rcases List.mem_append.1 hp with hp | hp
      · exact hsame p hp hp'
      · obtain rfl := List.mem_singleton.1 hp
        exact hn
    · obtain ⟨n, hn⟩ := h.began txn
      refine ⟨n, fun p hp hp' => ?_⟩
      rcases List.mem_append.1 hp with hp | hp
      · exact hn p hp hp'
      · obtain rfl := List.mem_singleton.1 hp
        exact absurd hp' hwork

end Signed

end WalStore

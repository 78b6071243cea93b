import WalStore.Proofs.Environment.Open
import WalStore.Proofs.Log.Canonical
import WalStore.Proofs.Log.Damage
import WalStore.Proofs.Log.Errors

/-!
# Opening is all or nothing

**Theorem (`openOn_all_or_nothing`).** A log, and an environment over it, is refused exactly if
going over its bytes meets an error. Then it is this error that is reported, and no byte is changed.
All other bytes can be opened. All that is changed then is that the torn tail is cut, and that an
environment logs an abort for each transaction that is unresolved, in ascending order.

Opening goes over the bytes three times, to find the end, to read the records and to replay them.
What ties the three together is that the bytes in front of the end are the frames of just the
records that were found (`Scan.exists_tail`), so that the second time finds what the first has
found, and that the positions of these records ascend, so that none of them is refused the third
time.
-/

namespace WalStore

open Record (Follow endLsn aborts LeftOpen)

/-! ## Errors -/

namespace Scan

variable {bs : Bytes} {rs : List Record} {e : Error}

theorem error?_eq_some_iff {s : Scan} : s.error? = some e ↔ s.ending = .damaged e := by
  unfold error?
  cases s.ending <;> simp

theorem damaged_or_all (s : Scan) : (∃ e, s.ending = .damaged e) ∨ s.all = .ok s.records := by
  unfold all
  cases herror : s.error? with
  | none => exact .inr rfl
  | some e => exact .inl ⟨e, error?_eq_some_iff.1 herror⟩

/-- Bytes without damage are the frames of the records in them, and a torn tail. -/
theorem exists_tail (h : (ofBytes bs).all = .ok rs) : ∃ kept tail, bs = kept ++ tail ∧
    Frame.ofRecords rs = .ok kept ∧ (ofBytes bs).isTorn = !tail.isEmpty ∧
    (ofBytes bs).items = Frame.place 0 rs ∧ (ofBytes bs).lastLsn = endLsn .zero rs := by
  obtain ⟨herror, hrecords⟩ := all_eq_ok_iff.1 h
  obtain ⟨kept, tail, hbytes, hkept, hfollow, -, hlast, hclean⟩ := frames_of_go 0 .zero bs
  rw [show (go 0 .zero bs).records = rs from hrecords] at hkept hfollow hlast
  have hscan := go_append hkept hfollow 0 tail
  rw [← hbytes] at hscan
  refine ⟨kept, tail, hbytes, hkept, ?_, ?_, hlast⟩
  · cases hending : (ofBytes bs).ending with
    | clean => simp [isTorn, hending, hclean hending]
    | torn =>
      have hne : tail ≠ [] := by
        rintro rfl
        rw [go_of_partial .nil] at hscan
        rw [ofBytes, hscan] at hending
        cases hending
      simp [isTorn, hending, hne]
    | damaged e =>
      rw [error?_eq_some_iff.2 hending] at herror
      cases herror
  · have hrest := hrecords
    rw [records, ofBytes, hscan, List.map_append, Frame.map_snd_place, List.append_right_eq_self,
      List.map_eq_nil_iff] at hrest
    rw [ofBytes, hscan, hrest, List.append_nil]

end Scan

namespace Cursor

variable {store : Store} {e : Error}

/-- Going over a store, a cursor comes to report the error. -/
def Meets (store : Store) (e : Error) : Prop := ∃ n, some (.error e) ∈ ((ofStore store).steps n).2

theorem prefix_steps (c : Cursor) {m n : Nat} (h : m ≤ n) : (c.steps m).2 <+: (c.steps n).2 := by
  induction m generalizing c n with
  | zero => exact List.nil_prefix
  | succ m ih =>
    obtain ⟨n, rfl⟩ := Nat.exists_eq_add_one.2 (Nat.lt_of_lt_of_le (Nat.succ_pos m) h)
    exact (List.prefix_cons_inj _).2 (ih _ (Nat.le_of_succ_le_succ h))

/-- The error that a cursor meets is that of a scan. -/
theorem meets_iff : Meets store e ↔ (Scan.ofBytes store.toList).ending = .damaged e := by
  rw [← Scan.error?_eq_some_iff]
  have hsteps {n : Nat} (hn : (Scan.ofBytes store.toList).items.length < n) := steps_ofStore hn
  generalize Scan.ofBytes store.toList = s at hsteps ⊢
  have hitems : some (.error e) ∉ s.items.map (fun item => (some (.ok item) : Answer)) := by
    simp
  constructor
  · rintro ⟨n, hn⟩
    have hmem := (prefix_steps (ofStore store) (Nat.le_add_right n (s.items.length + 1))).subset hn
    rw [hsteps (by omega), Scan.answers, List.mem_append] at hmem
    replace hmem := hmem.resolve_left hitems
    split at hmem <;> simp_all
  · intro herror
    have hn : s.items.length < s.items.length + 1 := Nat.lt_succ_self _
    refine ⟨s.items.length + 1, ?_⟩
    rw [hsteps hn, Scan.answers, herror, Nat.add_sub_cancel_left]
    simp

end Cursor

/-! ## Opening -/

variable {config : Config} {store left : Store} {e : Error}

/-- What is refused because of damage, and for no other reason. -/
theorem refused_iff {α : Type} {result : Except (Error × Store) α}
    (hdamaged : ∀ e, (Scan.ofBytes store.toList).ending = .damaged e → result = .error (e, store))
    (hsound : ∀ rs, (Scan.ofBytes store.toList).all = .ok rs → ∃ a, result = .ok a) :
    result = .error (e, left) ↔ Cursor.Meets store e ∧ left = store := by
  rw [Cursor.meets_iff]
  constructor
  · intro h
    rcases (Scan.ofBytes store.toList).damaged_or_all with ⟨e', hending⟩ | hall
    · rw [hdamaged e' hending] at h
      cases h
      exact ⟨hending, rfl⟩
    · obtain ⟨a, ha⟩ := hsound _ hall
      rw [h] at ha
      cases ha
  · rintro ⟨hending, rfl⟩
    exact hdamaged e hending

theorem Log.openOn_error_iff (hplan : store.plan = .none) :
    openOn store = .error (e, left) ↔ Cursor.Meets store e ∧ left = store := by
  refine refused_iff (fun e hending => openOn_of_damaged hending) fun rs hall => ?_
  obtain ⟨log, hlog, -⟩ := exists_openOn_of_all (by rw [hplan]; rfl) hall
  exact ⟨log, hlog⟩

namespace Environment

section Valid

variable (hconfig : config.validate = .ok ()) (hplan : store.plan = .none)
  (hroom : ∀ s, Replay.state (Scan.ofBytes store.toList).records = .ok s →
    (Scan.ofBytes store.toList).lastLsn.toNat + s.unresolved.length < UInt64.size)

include hconfig hplan hroom

/-- Replaying does not refuse what a scan has accepted. -/
theorem exists_recovered {rs : List Record} (hall : (Scan.ofBytes store.toList).all = .ok rs)
    (now : Instant) : ∃ s env, Replay.state rs = .ok s ∧ openOn config store now = .ok env ∧
      env.Recovered config rs s := by
  obtain ⟨-, -, -, -, -, -, hlast⟩ := Scan.exists_tail hall
  obtain ⟨-, rfl⟩ := Scan.all_eq_ok_iff.1 hall
  obtain ⟨s, hstate, -⟩ := Replay.exists_state_of_follow (Scan.follow_of_all hall)
  have hroom' := hroom s hstate
  rw [hlast] at hroom'
  obtain ⟨env, hopen, hrecovered⟩ := exists_openOn_of_all now hconfig hplan hall hstate hroom'
  exact ⟨s, env, hstate, hopen, hrecovered⟩

theorem openOn_error_iff (now : Instant) :
    openOn config store now = .error (e, left) ↔ Cursor.Meets store e ∧ left = store := by
  refine refused_iff (fun e hending => ?_) fun rs hall => ?_
  · obtain ⟨e', hopen, he'⟩ := openOn_of_damaged hending config now
    rw [hopen, he' hconfig]
  · obtain ⟨s, env, -, hopen, -⟩ := exists_recovered hconfig hplan hroom hall now
    exact ⟨env, hopen⟩

end Valid

/-- **All or nothing.** A log is refused exactly if a cursor that goes over the bytes meets an
error, and so is an environment over it. It is this error that is reported then, which is a
corruption, and the store is as it was. Otherwise both open. The log has cut what stands behind the
last record that the cursor answers, which is nothing unless the cursor has met a torn tail; the
environment has logged the aborts of the transactions that are left open, in ascending order, and
has done nothing else to the bytes. -/
theorem openOn_all_or_nothing (hconfig : config.validate = .ok ()) (hplan : store.plan = .none)
    (hroom : ∀ s, Replay.state (Scan.ofBytes store.toList).records = .ok s →
      (Scan.ofBytes store.toList).lastLsn.toNat + s.unresolved.length < UInt64.size)
    (now : Instant) :
    (∀ e left, Log.openOn store = .error (e, left) ↔ Cursor.Meets store e ∧ left = store) ∧
    (∀ e left, openOn config store now = .error (e, left) ↔
      Cursor.Meets store e ∧ left = store) ∧
    (∀ e, Cursor.Meets store e → e.isCorruption = true) ∧
    ((∀ e, ¬Cursor.Meets store e) → ∃ rs kept tail log env txns added,
      (∀ n, rs.length < n → ((Cursor.ofStore store).steps n).1.torn = !tail.isEmpty ∧
        ((Cursor.ofStore store).steps n).2 = (Frame.place 0 rs).map (fun item => some (.ok item)) ++
          List.replicate (n - rs.length) none) ∧
      store.toList = kept ++ tail ∧ Frame.ofRecords rs = .ok kept ∧
      Log.openOn store = .ok log ∧ log.store.toList = kept ∧
      openOn config store now = .ok env ∧ env.log.store.toList = kept ++ added ∧
      Frame.ofRecords (aborts (endLsn .zero rs).next txns) = .ok added ∧
      txns.Pairwise (· < ·) ∧ ∀ txn, txn ∈ txns ↔ LeftOpen rs txn) := by
  refine ⟨fun e left => Log.openOn_error_iff hplan,
    fun e left => openOn_error_iff hconfig hplan hroom now, fun e hmeets => ?_, fun hnone => ?_⟩
  · exact Scan.isCorruption_of_go (Cursor.meets_iff.1 hmeets)
  · rcases (Scan.ofBytes store.toList).damaged_or_all with ⟨e, hending⟩ | hall
    · exact absurd (Cursor.meets_iff.2 hending) (hnone e)
    generalize (Scan.ofBytes store.toList).records = rs at hall
    obtain ⟨kept, tail, hbytes, hkept, htorn, hitems, -⟩ := Scan.exists_tail hall
    obtain ⟨s, env, hstate, hopen, hrecovered⟩ := exists_recovered hconfig hplan hroom hall now
    obtain ⟨log, hlog, hholds, hsound, -⟩ := Log.exists_openOn_of_all (by rw [hplan]; rfl) hall
    have hcut := hholds.bytes_of_sound hsound
    rw [hkept, Except.ok.injEq] at hcut
    obtain ⟨front, added, hfront, hadded, hlist⟩ := Frame.exists_of_ofRecords_append
      (hrecovered.holds.bytes_of_sound hrecovered.sound)
    rw [hkept, Except.ok.injEq] at hfront
    subst hfront
    have hlength : (Scan.ofBytes store.toList).items.length = rs.length := by
      rw [hitems, ← List.length_map (·.2), Frame.map_snd_place]
    refine ⟨rs, kept, tail, log, env, s.unresolved, added, fun n hn => ?_, hbytes, hkept, hlog,
      hcut.symm, hopen, hlist, hadded, s.pairwise_unresolved,
      fun txn => Replay.mem_unresolved_iff hstate⟩
    rw [Cursor.steps_ofStore (by rwa [hlength])]
    constructor
    · exact htorn
    · rw [Scan.answers_of_undamaged (Scan.all_eq_ok_iff.1 hall).1, hitems, ← hlength, hitems]

open Replay (unfinished)

/-- Two transactions are open, and the last frame is torn. -/
theorem openOn_all_or_nothing_unfinished :
    ∃ store frames added log env, Frame.ofRecords unfinished = .ok frames ∧
      store.toList = frames ++ frames.take 30 ∧ store.plan = .none ∧
      (∀ s, Replay.state (Scan.ofBytes store.toList).records = .ok s →
        (Scan.ofBytes store.toList).lastLsn.toNat + s.unresolved.length < UInt64.size) ∧
      (∀ e, ¬Cursor.Meets store e) ∧ Log.openOn store = .ok log ∧ log.store.toList = frames ∧
      openOn .standard store 0 = .ok env ∧ env.log.store.toList = frames ++ added ∧
      Frame.ofRecords (aborts ⟨5⟩ [⟨5⟩, ⟨7⟩]) = .ok added := by
  have hfollow : Follow .zero unfinished := by decide
  obtain ⟨s, hstate, hunresolved⟩ := Replay.unresolved_unfinished
  obtain ⟨frames, hframes, htorn⟩ : ∃ frames, Frame.ofRecords unfinished = .ok frames ∧
      Frame.Partial (frames.take 30) :=
    ⟨_, rfl, .inr ⟨⟨⟨1⟩, .txnPut ⟨7⟩ [1] [2]⟩, _, 30, rfl, by decide +kernel, rfl⟩⟩
  obtain ⟨store, hbytes, hplan⟩ : ∃ store : Store, store.toList = frames ++ frames.take 30 ∧
      store.plan = .none := ⟨.ofBytes _, Store.toList_ofBytes _, rfl⟩
  have hall := Scan.all_of_frames hframes hfollow htorn hbytes
  obtain ⟨herror, hrecords⟩ := Scan.all_eq_ok_iff.1 hall
  obtain ⟨-, -, -, -, -, -, hlast⟩ := Scan.exists_tail hall
  have hroom : ∀ s, Replay.state (Scan.ofBytes store.toList).records = .ok s →
      (Scan.ofBytes store.toList).lastLsn.toNat + s.unresolved.length < UInt64.size := by
    intro s' hs'
    rw [hrecords, hstate] at hs'
    cases hs'
    rw [hlast, hunresolved]
    decide
  have hnone : ∀ e, ¬Cursor.Meets store e := by
    intro e hmeets
    rw [Scan.error?_eq_some_iff.2 (Cursor.meets_iff.1 hmeets)] at herror
    cases herror
  have hconfig : Config.standard.validate = .ok () := rfl
  obtain ⟨-, -, -, hopens⟩ := openOn_all_or_nothing hconfig hplan hroom 0
  obtain ⟨rs, kept, tail, log, env, txns, added, -, -, hkept, hlog, hcut, hopen, hlist, hadded,
    hsorted, hmem⟩ := hopens hnone
  -- What is kept are the frames, and so the records are those.
  obtain ⟨log', hlog', hholds, hsound, -⟩ := Log.exists_openOn_of_all (by rw [hplan]; rfl) hall
  rw [hlog] at hlog'
  cases hlog'
  have hframes' := hholds.bytes_of_sound hsound
  rw [hcut] at hframes'
  obtain rfl := Frame.ofRecords_injective hkept hframes'
  rw [hframes, Except.ok.injEq] at hframes'
  subst hframes'
  have htxns : txns = s.unresolved := by
    refine SortedMap.eq_of_mem_iff (f := id) (hsorted.imp TxnId.compare_eq_lt_iff.2)
      (s.pairwise_unresolved.imp TxnId.compare_eq_lt_iff.2) fun txn => ?_
    rw [hmem, Replay.mem_unresolved_iff hstate]
  rw [htxns, hunresolved] at hadded
  exact ⟨store, frames, added, log, env, hframes, hbytes, hplan, hroom, hnone, hlog, hcut, hopen,
    hlist, hadded⟩

end Environment
end WalStore

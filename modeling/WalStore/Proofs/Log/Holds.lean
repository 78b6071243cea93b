import WalStore.Log
import WalStore.Proofs.Log.Scan

/-!
# What a log holds

A log holds records if its store is their frames one after another (`Log.Holds`). Behind them there
may be a beginning of one more frame, but then the log has noticed and takes no further records.

Opening a log, appending to it and failing to do so keep it so, whichever calls of the store fail.
-/

namespace WalStore

/-! ## Stores -/

namespace Store

variable {s : Store} {data : Bytes}

theorem toList_extend (s : Store) (data : Bytes) : (s.extend data).toList = s.toList ++ data := by
  simp [extend, toList]

theorem length_toList (s : Store) : s.toList.length = s.size := Array.length_toList

/-- An append fails with a strict beginning of the data added, or adds all of it. -/
theorem append_cases (s : Store) (hdata : 0 < data.length) :
    (∃ s' e k, s.append data = (s', .error e) ∧ k < data.length ∧
        s'.toList = s.toList ++ data.take k) ∨
      ∃ s', s.append data = (s', .ok s.size) ∧ s'.toList = s.toList ++ data := by
  unfold append
  dsimp only
  split
  · exact .inr ⟨_, rfl, toList_extend s data⟩
  next budget hbudget =>
  split
  · refine .inl ⟨_, _, 0, rfl, hdata, ?_⟩
    rw [List.take_zero, List.append_nil]
    rfl
  split
  · exact .inl ⟨_, _, budget - s.written, rfl, by omega, toList_extend s _⟩
  · exact .inr ⟨_, rfl, toList_extend s data⟩

theorem append_of_no_plan (h : s.plan = .none) : s.append data = (s.extend data, .ok s.size) := by
  unfold append
  rw [h]
  rfl

/-- A truncation that does not go beyond the end cuts, or fails and changes no byte. -/
theorem truncate_cases (s : Store) {n : Nat} (hn : n ≤ s.size) :
    (∃ s', s.truncate n = (s', .ok ()) ∧ s'.toList = s.toList.take n) ∨
      ∃ s' e, s.truncate n = (s', .error e) ∧ s'.toList = s.toList := by
  unfold truncate
  split
  · exact .inr ⟨_, _, rfl, rfl⟩
  · rw [if_neg (Nat.not_lt.2 hn)]
    exact .inl ⟨_, rfl, by simp [toList]⟩

theorem truncate_of_not_fail (h : s.plan.failTruncate = false) {n : Nat} (hn : n ≤ s.size) :
    s.truncate n = ({ s with bytes := s.bytes.take n }, .ok ()) := by
  unfold truncate
  rw [h, if_neg (Nat.not_lt.2 hn)]
  rfl

theorem toList_flush (s : Store) : s.flush.1.toList = s.toList := by
  unfold flush
  split <;> rfl

theorem toList_sync (s : Store) : s.sync.1.toList = s.toList := by
  unfold sync
  split <;> rfl

theorem sync_of_no_plan (h : s.plan = .none) : s.sync = (s, .ok ()) := by
  unfold sync
  rw [h]
  rfl

theorem toList_ofBytes (bs : Bytes) : (ofBytes bs).toList = bs := by
  simp [ofBytes, toList]

end Store

namespace Scan

/-- A scan goes no further than the store. -/
theorem validEnd_le (store : Store) : (ofBytes store.toList).validEnd ≤ store.size := by
  obtain ⟨frames, tail, hbytes, -, -, hend, -, -⟩ := frames_of_go 0 .zero store.toList
  rw [ofBytes, hend, Nat.zero_add, ← Store.length_toList, hbytes, List.length_append]
  exact Nat.le_add_right ..

/-- Everything can be read unless there is damage. -/
theorem all_eq_ok_iff {s : Scan} {rs : List Record} :
    s.all = .ok rs ↔ s.error? = none ∧ s.records = rs := by
  unfold all
  cases s.error? <;> simp

/-- What is read from bytes has ascending positions. -/
theorem follow_of_all {bs : Bytes} {rs : List Record} (h : (ofBytes bs).all = .ok rs) :
    Record.Follow .zero rs := by
  obtain ⟨-, -, -, -, hfollow, -⟩ := frames_of_go 0 .zero bs
  obtain ⟨-, rfl⟩ := all_eq_ok_iff.1 h
  exact hfollow

/-- A scan reads all frames, and takes a beginning of one more for a torn tail. -/
theorem all_of_frames {bs frames torn : Bytes} {rs : List Record}
    (hframes : Frame.ofRecords rs = .ok frames) (hfollow : Record.Follow .zero rs)
    (htorn : Frame.Partial torn) (hbytes : bs = frames ++ torn) : (ofBytes bs).all = .ok rs := by
  rw [ofBytes, hbytes, go_ofRecords hframes hfollow htorn, all_eq_ok_iff]
  refine ⟨?_, Frame.map_snd_place 0 rs⟩
  unfold error?
  dsimp only
  split_ifs <;> rfl

end Scan

/-! ## Logs -/

namespace Log

open Record (Follow endLsn)

/-- The bytes of the log are the frames of `rs`, and a beginning of one more frame at most. -/
structure Holds (log : Log) (rs : List Record) : Prop where
  bytes : ∃ frames torn, Frame.ofRecords rs = .ok frames ∧ Frame.Partial torn ∧
    log.store.toList = frames ++ torn ∧ (torn = [] ∨ log.poisoned = true)
  follow : Follow .zero rs
  next : log.nextLsn = (endLsn .zero rs).next

variable {log log' : Log} {rs : List Record}

/-- Holding does not depend on what is planned to fail. -/
theorem Holds.congr (h : log.Holds rs) (hstore : log'.store.toList = log.store.toList)
    (hnext : log'.nextLsn = log.nextLsn) (hpoisoned : log'.poisoned = log.poisoned) :
    log'.Holds rs := by
  refine ⟨?_, h.follow, hnext ▸ h.next⟩
  rw [hstore, hpoisoned]
  exact h.bytes

theorem Holds.items_scan (h : log.Holds rs) : log.scan.items = Frame.place 0 rs := by
  obtain ⟨frames, torn, hframes, htorn, hbytes, -⟩ := h.bytes
  rw [scan, Scan.ofBytes, hbytes, Scan.go_ofRecords hframes h.follow htorn]

/-- A scan of the log finds what it holds. What is left over of a failed append is a torn tail. -/
theorem Holds.all_scan (h : log.Holds rs) : log.scan.all = .ok rs := by
  obtain ⟨frames, torn, hframes, htorn, hbytes, -⟩ := h.bytes
  exact Scan.all_of_frames hframes h.follow htorn hbytes

theorem Holds.error?_scan (h : log.Holds rs) : log.scan.error? = none :=
  (Scan.all_eq_ok_iff.1 h.all_scan).1

theorem Holds.records_scan (h : log.Holds rs) : log.scan.records = rs :=
  (Scan.all_eq_ok_iff.1 h.all_scan).2

theorem Holds.unique {rs' : List Record} (h : log.Holds rs) (h' : log.Holds rs') : rs = rs' :=
  h.records_scan.symm.trans h'.records_scan

/-! ### Opening -/

theorem holds_openOn {store : Store} (h : openOn store = .ok log) :
    log.Holds (Scan.ofBytes store.toList).records ∧ log.poisoned = false := by
  obtain ⟨frames, tail, hbytes, hframes, hfollow, hend, hlsn, hclean⟩ :=
    Scan.frames_of_go 0 .zero store.toList
  rw [Nat.zero_add] at hend
  unfold openOn at h
  dsimp only at h
  split at h
  · cases h
  · next hending =>
    cases h
    refine ⟨⟨⟨frames, [], hframes, .nil, ?_, .inl rfl⟩, hfollow, ?_⟩, rfl⟩
    · rw [hbytes, hclean hending]
    · exact congrArg Lsn.next hlsn
  · rcases store.truncate_cases (Scan.validEnd_le store) with
      ⟨store', htruncate, hlist⟩ | ⟨store', e, htruncate, -⟩
    · rw [htruncate] at h
      cases h
      refine ⟨⟨⟨frames, [], hframes, .nil, ?_, .inl rfl⟩, hfollow, ?_⟩, rfl⟩
      · rw [List.append_nil, hlist, Scan.ofBytes, hend, hbytes, List.take_left]
      · exact congrArg Lsn.next hlsn
    · rw [htruncate] at h
      cases h

theorem all_of_openOn {store : Store} (h : openOn store = .ok log) :
    ∃ rs, (Scan.ofBytes store.toList).all = .ok rs ∧ log.Holds rs ∧ log.poisoned = false := by
  obtain ⟨hholds, hpoisoned⟩ := holds_openOn h
  refine ⟨_, Scan.all_eq_ok_iff.2 ⟨?_, rfl⟩, hholds, hpoisoned⟩
  unfold openOn at h
  dsimp only at h
  unfold Scan.error?
  cases hending : (Scan.ofBytes store.toList).ending with
  | damaged e =>
    rw [hending] at h
    cases h
  | clean | torn => rfl

theorem holds_of_all {store : Store} (hall : (Scan.ofBytes store.toList).all = .ok rs)
    (h : openOn store = .ok log) : log.Holds rs ∧ log.poisoned = false := by
  obtain ⟨-, rfl⟩ := Scan.all_eq_ok_iff.1 hall
  exact holds_openOn h

/-- A store without damage can be opened, unless it has to be cut and cannot. -/
theorem exists_openOn_of_all {store : Store} (hplan : store.plan.failTruncate = false)
    (hall : (Scan.ofBytes store.toList).all = .ok rs) :
    ∃ log, openOn store = .ok log ∧ log.Holds rs ∧ log.poisoned = false ∧
      log.store.plan = store.plan := by
  obtain ⟨herror, -⟩ := Scan.all_eq_ok_iff.1 hall
  have hopen : ∃ log, openOn store = .ok log ∧ log.store.plan = store.plan := by
    unfold openOn
    dsimp only
    cases hending : (Scan.ofBytes store.toList).ending with
    | damaged e =>
      rw [Scan.error?, hending] at herror
      cases herror
    | clean => exact ⟨_, rfl, rfl⟩
    | torn =>
      dsimp only
      rw [Store.truncate_of_not_fail hplan (Scan.validEnd_le store)]
      exact ⟨_, rfl, rfl⟩
  obtain ⟨log, hlog, hplan'⟩ := hopen
  obtain ⟨hholds, hpoisoned⟩ := holds_of_all hall hlog
  exact ⟨log, hlog, hholds, hpoisoned, hplan'⟩

theorem holds_of_frames {store : Store} (hframes : Frame.ofRecords rs = .ok store.toList)
    (hfollow : Follow .zero rs) : Holds ⟨store, (endLsn .zero rs).next, false⟩ rs :=
  ⟨⟨_, [], hframes, .nil, (List.append_nil _).symm, .inl rfl⟩, hfollow, rfl⟩

/-- A store of just frames is opened as it is, whichever calls of it would fail. -/
theorem openOn_of_frames {store : Store} (hframes : Frame.ofRecords rs = .ok store.toList)
    (hfollow : Follow .zero rs) : openOn store = .ok ⟨store, (endLsn .zero rs).next, false⟩ := by
  have hscan := Scan.go_ofRecords hframes hfollow .nil 0
  rw [List.append_nil, if_pos rfl] at hscan
  unfold openOn Scan.ofBytes
  rw [hscan]

/-- A store that holds frames and a beginning of one more can be opened, unless it has to be cut
and cannot. -/
theorem exists_openOn {store : Store} {frames torn : Bytes}
    (hplan : store.plan.failTruncate = false) (hframes : Frame.ofRecords rs = .ok frames)
    (hfollow : Follow .zero rs) (htorn : Frame.Partial torn)
    (hbytes : store.toList = frames ++ torn) :
    ∃ log, openOn store = .ok log ∧ log.Holds rs ∧ log.poisoned = false ∧
      log.store.plan = store.plan :=
  exists_openOn_of_all hplan (Scan.all_of_frames hframes hfollow htorn hbytes)

/-- A store that cannot be opened keeps its bytes. -/
theorem toList_of_openOn_error {store store' : Store} {e : Error}
    (h : openOn store = .error (e, store')) : store'.toList = store.toList := by
  unfold openOn at h
  dsimp only at h
  split at h
  · cases h
    rfl
  · cases h
  · rcases store.truncate_cases (Scan.validEnd_le store) with
      ⟨_, htruncate, -⟩ | ⟨_, _, htruncate, hlist⟩
    · rw [htruncate] at h
      cases h
    · rw [htruncate] at h
      cases h
      exact hlist

/-! ### Appending -/

/-- What an append comes to, as far as the log is concerned. -/
theorem append_cases (log : Log) (entry : Entry) :
    (∃ e, log.append entry = (log, .error e)) ∨
      ∃ frame, log.poisoned = false ∧ Frame.ofRecord ⟨log.nextLsn, entry⟩ = .ok frame ∧
        ((∃ store e cut poisoned, log.store.append frame = (store, .error e) ∧
            log.append entry = (⟨cut, log.nextLsn, poisoned⟩, .error (.storage e)) ∧
            (store.truncate log.store.size = (cut, .ok ()) ∧ poisoned = false ∨
              ∃ e', store.truncate log.store.size = (cut, .error e') ∧ poisoned = true)) ∨
          ∃ store offset, log.store.append frame = (store, .ok offset) ∧
            log.append entry = (⟨store, log.nextLsn.next, false⟩, .ok log.nextLsn)) := by
  unfold append
  split
  · exact .inl ⟨_, rfl⟩
  next hpoisoned =>
  rw [Bool.not_eq_true] at hpoisoned
  split
  · exact .inl ⟨_, rfl⟩
  next frame hframe =>
  refine .inr ⟨frame, hpoisoned, hframe, ?_⟩
  dsimp only
  split
  · next store offset happend =>
    exact .inr ⟨store, offset, happend, by rw [hpoisoned]⟩
  · next store e happend =>
    left
    split
    · next cut htruncate =>
      exact ⟨store, e, cut, false, happend, by rw [hpoisoned], .inl ⟨htruncate, rfl⟩⟩
    · next cut e' htruncate => exact ⟨store, e, cut, true, happend, rfl, .inr ⟨e', htruncate, rfl⟩⟩

/-- While nothing is left over of a failed append, the bytes are just the frames. -/
theorem Holds.bytes_of_sound (h : log.Holds rs) (hpoisoned : log.poisoned = false) :
    Frame.ofRecords rs = .ok log.store.toList := by
  obtain ⟨frames, torn, hframes, -, hbytes, htorn⟩ := h.bytes
  have hnil : torn = [] := htorn.resolve_right (by rw [hpoisoned]; exact Bool.false_ne_true)
  rw [hbytes, hnil, List.append_nil, hframes]

theorem Holds.append_error (h : log.Holds rs) {entry : Entry} {e : Error}
    (happend : log.append entry = (log', .error e)) : log'.Holds rs := by
  rcases log.append_cases entry with
    ⟨e', heq⟩ | ⟨frame, hpoisoned, hframe, hfailed | ⟨store, offset, -, heq⟩⟩
  · rw [heq] at happend
    cases happend
    exact h
  · obtain ⟨store, e', cut, poisoned, hstore, heq, hcut⟩ := hfailed
    rw [heq] at happend
    cases happend
    have hframes := h.bytes_of_sound hpoisoned
    rcases log.store.append_cases (Frame.length_pos_of_ofRecord hframe) with
      ⟨store', e'', k, herror, hk, hlist⟩ | ⟨_, hok, -⟩ <;> rw [hstore] at *
    · cases herror
      have hsize : log.store.size ≤ store.size := by
        rw [← Store.length_toList, ← Store.length_toList, hlist, List.length_append]
        exact Nat.le_add_right ..
      refine ⟨?_, h.follow, h.next⟩
      rcases store.truncate_cases hsize with
        ⟨cut', htruncate, hcutList⟩ | ⟨cut', e'', htruncate, hcutList⟩ <;> rw [htruncate] at hcut
      · -- The part that was written is cut off again.
        rcases hcut with ⟨heq, -⟩ | ⟨_, heq, -⟩ <;> cases heq
        refine ⟨_, [], hframes, .nil, ?_, .inl rfl⟩
        rw [List.append_nil, hcutList, hlist, ← Store.length_toList, List.take_left]
      · rcases hcut with ⟨heq, -⟩ | ⟨_, heq, hpoisoned'⟩ <;> cases heq
        refine ⟨_, frame.take k, hframes, .inr ⟨_, frame, k, hframe, hk, rfl⟩, ?_,
          .inr hpoisoned'⟩
        rw [hcutList, hlist]
    · cases hok
  · rw [heq] at happend
    cases happend

theorem poisoned_of_append_ok {entry : Entry} {lsn : Lsn}
    (happend : log.append entry = (log', .ok lsn)) : log'.poisoned = log.poisoned := by
  rcases log.append_cases entry with
    ⟨e, heq⟩ | ⟨frame, hpoisoned, -, ⟨store, e, cut, poisoned, -, heq, -⟩ | ⟨_, _, -, heq⟩⟩ <;>
    rw [heq] at happend <;> cases happend
  exact hpoisoned.symm

theorem Holds.append_ok (h : log.Holds rs) {entry : Entry} {lsn : Lsn}
    (happend : log.append entry = (log', .ok lsn)) :
    lsn = log.nextLsn ∧ (endLsn .zero rs < lsn → log'.Holds (rs ++ [⟨lsn, entry⟩])) := by
  rcases log.append_cases entry with
    ⟨e', heq⟩ | ⟨frame, hpoisoned, hframe, hfailed | ⟨store, offset, hstore, heq⟩⟩
  · rw [heq] at happend
    cases happend
  · obtain ⟨store, e', cut, poisoned, hstore, heq, hcut⟩ := hfailed
    rw [heq] at happend
    cases happend
  · rw [heq] at happend
    cases happend
    refine ⟨rfl, fun hlt => ?_⟩
    have hframes := h.bytes_of_sound hpoisoned
    have hsingle : Frame.ofRecords [⟨log.nextLsn, entry⟩] = .ok frame :=
      Frame.ofRecords_cons_eq_ok_iff.2 ⟨frame, [], hframe, rfl, (List.append_nil _).symm⟩
    rcases log.store.append_cases (Frame.length_pos_of_ofRecord hframe) with
      ⟨_, _, _, herror, -⟩ | ⟨store', hok, hlist⟩ <;> rw [hstore] at *
    · cases herror
    · cases hok
      refine ⟨⟨_, [], Frame.ofRecords_append hframes hsingle, .nil, ?_, .inl rfl⟩,
        Record.follow_append.2 ⟨h.follow, hlt, trivial⟩, ?_⟩
      · rw [hlist, List.append_nil]
      · rw [Record.endLsn_append]
        rfl

theorem ofRecord_abort (lsn : Lsn) (txn : TxnId) :
    ∃ frame, Frame.ofRecord ⟨lsn, .abort txn⟩ = .ok frame := by
  refine ⟨_, Frame.ofRecord_eq_ok_iff.2 ⟨Payload.ofId txn, rfl, ?_, rfl⟩⟩
  rw [Payload.ofId, Bytes.length_ofNatLE]
  decide

/-- An abort is logged, unless the store fails. -/
theorem append_abort (hplan : log.store.plan = .none) (hpoisoned : log.poisoned = false)
    (txn : TxnId) : ∃ log', log.append (.abort txn) = (log', .ok log.nextLsn) ∧
      log'.store.plan = .none ∧ log'.poisoned = false := by
  obtain ⟨frame, hframe⟩ := ofRecord_abort log.nextLsn txn
  unfold append
  rw [hpoisoned, hframe]
  dsimp only
  rw [Store.append_of_no_plan hplan]
  exact ⟨_, rfl, hplan, hpoisoned⟩

/-! ### Other calls -/

/-- A log that has been made durable, or not, holds what it held. -/
theorem Holds.synced (h : log.Holds rs) (hsync : log' = log ∨ log' = log.sync.1) :
    log'.Holds rs := by
  rcases hsync with rfl | rfl
  · exact h
  · exact h.congr (Store.toList_sync log.store) rfl rfl

/-- The records whose frames lie in front of a cut through the log. -/
theorem Holds.take (h : log.Holds rs) (k : Nat) : ∃ kept torn,
    Frame.ofRecords (Frame.wholeIn k rs) = .ok kept ∧ Follow .zero (Frame.wholeIn k rs) ∧
      Frame.Partial torn ∧ log.store.toList.take k = kept ++ torn := by
  obtain ⟨frames, torn, hframes, htorn, hbytes, -⟩ := h.bytes
  obtain ⟨kept, rest, hkept, hrest, htake⟩ := Frame.take_ofRecords hframes htorn k
  refine ⟨kept, rest, hkept, h.follow.shorten (Frame.prefix_wholeIn k rs), hrest, ?_⟩
  rw [hbytes, htake]

/-- Nothing is lost of a log that is not cut. -/
theorem Holds.wholeIn_size (h : log.Holds rs) {k : Nat} (hk : log.size ≤ k) :
    Frame.wholeIn k rs = rs := by
  obtain ⟨frames, torn, hframes, -, hbytes, -⟩ := h.bytes
  refine Frame.wholeIn_of_le hframes (Nat.le_trans ?_ hk)
  rw [size, ← Store.length_toList, hbytes, List.length_append]
  exact Nat.le_add_right ..

end Log
end WalStore

import WalStore.Proofs.Log.Holds
import WalStore.Recovery

/-!
# Reading a log back, and cutting it

A log gives back the records it holds, or those up to a position, whatever a failed append has left
behind them (`readUpTo`, `recover`). Cutting it after a position leaves it with just these records,
or fails and leaves it as it is (`truncateAfter`).
-/

namespace WalStore.Log

open Record (endLsn upTo)

variable {log : Log} {rs : List Record}

/-! ## Reading -/

theorem Holds.records_itemsUpTo (h : log.Holds rs) (target : Lsn) :
    (log.scan.itemsUpTo target).map (·.2) = upTo (some target) rs := by
  rw [h.follow.upTo_eq_takeWhile, Scan.itemsUpTo, h.items_scan]
  conv_rhs => rw [← Frame.map_snd_place 0 rs, List.takeWhile_map]
  rfl

theorem Holds.readUpTo (h : log.Holds rs) (target : Option Lsn) :
    log.readUpTo target = .ok (upTo target rs) := by
  cases target with
  | none =>
    rw [Record.upTo_none]
    exact h.all_scan
  | some target =>
    show log.scan.upTo target = _
    rw [Scan.upTo, h.error?_scan, h.records_itemsUpTo]
    split
    · next herror => cases herror
    · rfl

/-- Recovering replays the records that are read. -/
theorem Holds.recover (h : log.Holds rs) (target : Option Lsn) :
    log.recover target = (Replay.state (upTo target rs)).map fun state => ⟨state⟩ := by
  rw [Log.recover, h.readUpTo]
  rfl

/-! ## Cutting -/

/-- Where a log is cut: nowhere, if that is all of it, and else behind the records that stay. -/
theorem Holds.cutAfter (h : log.Holds rs) (target : Lsn) :
    (log.scan.cutAfter target = .ok ⟨none, endLsn .zero rs⟩ ∧ upTo (some target) rs = rs) ∨
      ∃ kept rest, Frame.ofRecords (upTo (some target) rs) = .ok kept ∧
        log.store.toList = kept ++ rest ∧ log.scan.cutAfter target =
          .ok ⟨some kept.length, endLsn .zero (upTo (some target) rs)⟩ := by
  obtain ⟨frames, torn, hframes, -, hbytes, -⟩ := h.bytes
  have hlsn : ((log.scan.itemsUpTo target).getLast?.map (·.2.lsn)).getD .zero =
      endLsn .zero (upTo (some target) rs) := by
    rw [Record.endLsn_eq_getLast?, ← h.records_itemsUpTo, List.getLast?_map, Option.map_map]
    rfl
  rw [Scan.cutAfter, hlsn, h.error?_scan, Scan.firstAfter?, h.items_scan]
  obtain ⟨later, hrs, hlater⟩ := h.follow.exists_later target
  generalize hkeep : upTo (some target) rs = keep at hrs hlsn ⊢
  have hfront : ∀ item ∈ Frame.place 0 keep, ¬target < item.2.lsn := by
    intro item hitem
    have hmem : item.2 ∈ upTo (some target) rs := by
      rw [hkeep, ← Frame.map_snd_place 0 keep]
      exact List.mem_map_of_mem hitem
    have hle : item.2.lsn ≤ target := by simpa [upTo] using (List.mem_filter.1 hmem).2
    exact fun hlt => Lsn.not_le.2 hlt hle
  subst hrs
  obtain ⟨kept, rest, hkept, hrest, rfl⟩ := Frame.exists_of_ofRecords_append hframes
  have hfind : (Frame.place 0 keep).find? (fun item => target < item.2.lsn) = none := by
    simpa using hfront
  rw [Frame.place_append hkept, List.find?_append, hfind, Option.none_or, Nat.zero_add]
  cases later with
  | nil =>
    left
    rw [List.append_nil]
    exact ⟨rfl, rfl⟩
  | cons r later =>
    have hr : target < r.lsn := hlater r List.mem_cons_self
    refine .inr ⟨kept, rest ++ torn, hkept, ?_, ?_⟩
    · rw [hbytes, List.append_assoc]
    · simp [Frame.place, hr]

/-- A log is cut, or it stays as it is. -/
theorem Holds.truncateAfter (h : log.Holds rs) (target : Lsn) :
    (∃ log', log.truncateAfter target = (log', .ok ()) ∧ log'.Holds (upTo (some target) rs)) ∨
      ∃ log' e, log.truncateAfter target = (log', .error e) ∧ log'.Holds rs := by
  unfold Log.truncateAfter
  rcases h.cutAfter target with ⟨hcut, hall⟩ | ⟨kept, rest, hkept, hbytes, hcut⟩ <;> rw [hcut]
  · refine .inl ⟨_, rfl, ?_⟩
    rw [hall]
    exact ⟨h.bytes, h.follow, rfl⟩
  · have hle : kept.length ≤ log.store.size := by
      rw [← Store.length_toList, hbytes, List.length_append]
      exact Nat.le_add_right ..
    dsimp only
    rcases log.store.truncate_cases hle with
      ⟨store, htruncate, hlist⟩ | ⟨store, e, htruncate, hlist⟩ <;> rw [htruncate]
    · refine .inl ⟨_, rfl, ⟨kept, [], hkept, .nil, ?_, .inl rfl⟩,
        h.follow.shorten (h.follow.prefix_upTo (some target)), rfl⟩
      rw [hlist, hbytes, List.take_left, List.append_nil]
    · exact .inr ⟨_, _, rfl, h.congr hlist rfl rfl⟩

end WalStore.Log

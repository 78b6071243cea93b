import WalStore.Proofs.Log.Damage
import WalStore.Proofs.Log.Read
import WalStore.Proofs.Replay

/-!
# What stands beyond a position

Reading a log up to a position, recovering from it there and cutting it there all go over the
records up to the position and then look at one frame more, because only a record beyond the
position tells that there are no others up to it.

**Theorem (`readUpTo_or_damaged`).** So it matters what stands directly behind the records up
to the position, and nothing further behind does. If it is damaged, all three fail, also where the
last of the records is the one at the position. If it is anything else, they do what they would do
if the store ended there; a torn tail is not cut off.
-/

namespace WalStore

open Record (Follow endLsn)

namespace Log

/-- The log if its store ended after `size` bytes. -/
def endedAt (log : Log) (size : Nat) : Log :=
  { log with store := { log.store with bytes := log.store.bytes.take size } }

theorem toList_endedAt (log : Log) (size : Nat) :
    (log.endedAt size).store.toList = log.store.toList.take size := by
  simp [endedAt, Store.toList]

/-- What a scan meets in `tail` if it comes from the frames of `rs`. -/
def behind (rs : List Record) (frames tail : Bytes) : Frame.Front :=
  Frame.read frames.length (endLsn .zero rs) tail

/-- The store starts with the frames of `rs`, all at positions up to `target`. If a record stands
directly behind them, it is beyond `target`. -/
structure SplitAt (log : Log) (target : Lsn) (rs : List Record) (frames tail : Bytes) : Prop where
  framed : Frame.ofRecords rs = .ok frames
  follow : Follow .zero rs
  le : ∀ r ∈ rs, r.lsn ≤ target
  bytes : log.store.toList = frames ++ tail
  beyond : ∀ r size, behind rs frames tail = .record r size → target < r.lsn

variable {log : Log} {target : Lsn} {rs : List Record} {frames tail : Bytes} {e : Error}

theorem behind_nil : behind rs frames [] = .finished := Frame.read_nil ..

/-- A log that ends where it is split is split there. -/
theorem SplitAt.endedAt (h : log.SplitAt target rs frames tail) :
    (log.endedAt frames.length).SplitAt target rs frames [] := by
  refine ⟨h.framed, h.follow, h.le, ?_, fun r size hrecord => ?_⟩
  · rw [toList_endedAt, h.bytes, List.take_left, List.append_nil]
  · rw [behind_nil] at hrecord
    cases hrecord

/-! ## The scan -/

theorem SplitAt.scan_eq (h : log.SplitAt target rs frames tail) :
    log.scan = { Scan.go frames.length (endLsn .zero rs) tail with
      items := Frame.place 0 rs ++ (Scan.go frames.length (endLsn .zero rs) tail).items } := by
  rw [scan, h.bytes, Scan.ofBytes, Scan.go_append h.framed h.follow, Nat.zero_add]

theorem SplitAt.place_le (h : log.SplitAt target rs frames tail) {item : Nat × Record}
    (hitem : item ∈ Frame.place 0 rs) : item.2.lsn ≤ target := by
  refine h.le _ ?_
  rw [← Frame.map_snd_place 0 rs]
  exact List.mem_map_of_mem hitem

/-- The frames of `rs` are passed over when the first record beyond the position is sought. -/
theorem SplitAt.firstAfter?_scan (h : log.SplitAt target rs frames tail) :
    log.scan.firstAfter? target =
      (Scan.go frames.length (endLsn .zero rs) tail).firstAfter? target := by
  have hnone : (Frame.place 0 rs).find? (fun item => target < item.2.lsn) = none := by
    refine List.find?_eq_none.2 fun item hitem => ?_
    simpa [Lsn.not_lt] using h.place_le hitem
  rw [h.scan_eq, Scan.firstAfter?, List.find?_append, hnone, Option.none_or, Scan.firstAfter?]

/-- The records up to the position are those in front of the split, whatever stands behind it. -/
theorem SplitAt.itemsUpTo_scan (h : log.SplitAt target rs frames tail) :
    log.scan.itemsUpTo target = Frame.place 0 rs := by
  have hfront : ∀ item ∈ Frame.place 0 rs, decide (item.2.lsn ≤ target) = true :=
    fun item hitem => decide_eq_true (h.place_le hitem)
  rw [h.scan_eq, Scan.itemsUpTo, List.takeWhile_append_of_pos hfront]
  cases hbehind : behind rs frames tail with
  | finished => rw [Scan.go_of_finished hbehind, List.takeWhile_nil, List.append_nil]
  | torn => rw [Scan.go_of_torn hbehind, List.takeWhile_nil, List.append_nil]
  | damaged e => rw [Scan.go_of_damaged hbehind, List.takeWhile_nil, List.append_nil]
  | record r size =>
    have hr : ¬r.lsn ≤ target := Lsn.not_le.2 (h.beyond r size hbehind)
    rw [Scan.go_of_record hbehind, List.takeWhile_cons_of_neg (by simpa using hr), List.append_nil]

/-- The position behind which a cut log goes on. -/
theorem SplitAt.kept (h : log.SplitAt target rs frames tail) :
    ((log.scan.itemsUpTo target).getLast?.map (·.2.lsn)).getD .zero = endLsn .zero rs := by
  rw [h.itemsUpTo_scan, Record.endLsn_eq_getLast?]
  conv_rhs => rw [← Frame.map_snd_place 0 rs, List.getLast?_map, Option.map_map]
  rfl

/-! ## Damage directly behind -/

theorem SplitAt.scan_of_damaged (h : log.SplitAt target rs frames tail)
    (hbehind : behind rs frames tail = .damaged e) :
    log.scan.firstAfter? target = none ∧ log.scan.error? = some e := by
  rw [h.firstAfter?_scan, h.scan_eq, Scan.go_of_damaged hbehind]
  exact ⟨rfl, rfl⟩

theorem SplitAt.readUpTo_of_damaged (h : log.SplitAt target rs frames tail)
    (hbehind : behind rs frames tail = .damaged e) : log.readUpTo (some target) = .error e := by
  obtain ⟨hfirst, herror⟩ := h.scan_of_damaged hbehind
  show log.scan.upTo target = _
  rw [Scan.upTo, hfirst, herror]

theorem SplitAt.recover_of_damaged (h : log.SplitAt target rs frames tail)
    (hbehind : behind rs frames tail = .damaged e) : log.recover (some target) = .error e := by
  rw [recover, h.readUpTo_of_damaged hbehind]
  rfl

theorem SplitAt.truncateAfter_of_damaged (h : log.SplitAt target rs frames tail)
    (hbehind : behind rs frames tail = .damaged e) :
    log.truncateAfter target = (log, .error e) := by
  obtain ⟨hfirst, herror⟩ := h.scan_of_damaged hbehind
  rw [truncateAfter, Scan.cutAfter, hfirst, herror]

/-! ## No damage directly behind -/

/-- Without damage there, a scan goes past the position or ends without an error. -/
theorem SplitAt.scan_of_undamaged (h : log.SplitAt target rs frames tail)
    (hbehind : ∀ e, behind rs frames tail ≠ .damaged e) :
    (∃ r size, behind rs frames tail = .record r size ∧
        log.scan.firstAfter? target = some (frames.length, r)) ∨
      (behind rs frames tail = .finished ∨ behind rs frames tail = .torn) ∧
        log.scan.firstAfter? target = none ∧ log.scan.error? = none := by
  rw [h.firstAfter?_scan, h.scan_eq]
  cases hfront : behind rs frames tail with
  | finished =>
    rw [Scan.go_of_finished hfront]
    exact .inr ⟨.inl rfl, rfl, rfl⟩
  | torn =>
    rw [Scan.go_of_torn hfront]
    exact .inr ⟨.inr rfl, rfl, rfl⟩
  | damaged e => exact absurd hfront (hbehind e)
  | record r size =>
    refine .inl ⟨r, size, rfl, ?_⟩
    rw [Scan.go_of_record hfront, Scan.firstAfter?,
      List.find?_cons_of_pos (by simpa using h.beyond r size hfront)]

theorem SplitAt.readUpTo (h : log.SplitAt target rs frames tail)
    (hbehind : ∀ e, behind rs frames tail ≠ .damaged e) : log.readUpTo (some target) = .ok rs := by
  show log.scan.upTo target = _
  rw [Scan.upTo, h.itemsUpTo_scan, Frame.map_snd_place]
  rcases h.scan_of_undamaged hbehind with ⟨r, size, -, hfirst⟩ | ⟨-, hfirst, herror⟩
  · rw [hfirst]
  · rw [hfirst, herror]

theorem SplitAt.recover (h : log.SplitAt target rs frames tail)
    (hbehind : ∀ e, behind rs frames tail ≠ .damaged e) {state : Replay.State}
    (hstate : Replay.state rs = .ok state) : log.recover (some target) = .ok ⟨state⟩ := by
  rw [Log.recover, h.readUpTo hbehind]
  show Recovery.ofRecords rs = _
  rw [Recovery.ofRecords, hstate]
  rfl

/-- All that is read back of a log that is split and undamaged up to its end. -/
theorem SplitAt.readUpTo_none (h : log.SplitAt target rs frames tail)
    (hbehind : behind rs frames tail = .finished ∨ behind rs frames tail = .torn) :
    log.readUpTo none = .ok rs := by
  refine Scan.all_eq_ok_iff.2 ?_
  rw [Scan.records, h.scan_eq]
  rcases hbehind with hbehind | hbehind
  · rw [Scan.go_of_finished hbehind, List.append_nil]
    exact ⟨rfl, Frame.map_snd_place 0 rs⟩
  · rw [Scan.go_of_torn hbehind, List.append_nil]
    exact ⟨rfl, Frame.map_snd_place 0 rs⟩

/-- Nothing is cut off of a log that ends where it is split, or has a torn tail there. -/
theorem SplitAt.truncateAfter_of_end (h : log.SplitAt target rs frames tail)
    (hbehind : behind rs frames tail = .finished ∨ behind rs frames tail = .torn) :
    log.truncateAfter target = ({ log with nextLsn := (endLsn .zero rs).next }, .ok ()) := by
  have hundamaged : ∀ e, behind rs frames tail ≠ .damaged e := by
    rcases hbehind with hbehind | hbehind <;> simp [hbehind]
  rcases h.scan_of_undamaged hundamaged with ⟨r, size, hrecord, -⟩ | ⟨-, hfirst, herror⟩
  · rw [hrecord] at hbehind
    rcases hbehind with hbehind | hbehind <;> cases hbehind
  · rw [truncateAfter, Scan.cutAfter, hfirst, herror, h.kept]

/-- A log is cut in front of a record, unless the store fails. -/
theorem SplitAt.truncateAfter_of_record (h : log.SplitAt target rs frames tail) {r : Record}
    {size : Nat} (hbehind : behind rs frames tail = .record r size)
    (hplan : log.store.plan.failTruncate = false) :
    log.truncateAfter target =
      ({ log.endedAt frames.length with nextLsn := (endLsn .zero rs).next }, .ok ()) := by
  have hundamaged : ∀ e, behind rs frames tail ≠ .damaged e := by simp [hbehind]
  have hle : frames.length ≤ log.store.size := by
    rw [← Store.length_toList, h.bytes, List.length_append]
    exact Nat.le_add_right ..
  rcases h.scan_of_undamaged hundamaged with ⟨r', size', -, hfirst⟩ | ⟨hend, -, -⟩
  · rw [truncateAfter, Scan.cutAfter, hfirst, h.kept]
    dsimp only
    rw [Store.truncate_of_not_fail hplan hle]
    rfl
  · rw [hbehind] at hend
    rcases hend with hend | hend <;> cases hend

/-! ## What stands directly behind decides -/

theorem endedAt_endedAt (log : Log) (size : Nat) :
    (log.endedAt size).endedAt size = log.endedAt size := by
  simp [endedAt]

/-- Where nothing is damaged, a log is cut, and reads back as it was split. -/
theorem SplitAt.exists_kept (h : log.SplitAt target rs frames tail)
    (hbehind : ∀ e, behind rs frames tail ≠ .damaged e)
    (hplan : log.store.plan.failTruncate = false) :
    ∃ kept, log.truncateAfter target = (kept, .ok ()) ∧
      kept.endedAt frames.length =
        { log.endedAt frames.length with nextLsn := (endLsn .zero rs).next } ∧
      kept.readUpTo none = .ok rs ∧ kept.nextLsn = (endLsn .zero rs).next ∧
      (behind rs frames tail ≠ .torn → kept.store.toList = frames) := by
  have hended := h.endedAt
  have hendedBytes : (log.endedAt frames.length).store.toList = frames := by
    rw [hended.bytes, List.append_nil]
  cases hfront : behind rs frames tail with
  | finished =>
    have hnil : tail = [] := Frame.eq_nil_of_read hfront
    refine ⟨_, h.truncateAfter_of_end (.inl hfront), rfl, h.readUpTo_none (.inl hfront), rfl,
      fun _ => ?_⟩
    rw [← List.append_nil frames, ← hnil]
    exact h.bytes
  | torn =>
    exact ⟨_, h.truncateAfter_of_end (.inr hfront), rfl, h.readUpTo_none (.inr hfront), rfl,
      fun hne => absurd rfl hne⟩
  | damaged e => exact absurd hfront (hbehind e)
  | record r size =>
    refine ⟨_, h.truncateAfter_of_record hfront hplan, ?_, hended.readUpTo_none (.inl behind_nil),
      rfl, fun _ => hendedBytes⟩
    exact congrArg (fun log : Log => { log with nextLsn := (endLsn .zero rs).next })
      (endedAt_endedAt log frames.length)

/-- **Up to a position, and one frame more.** A log that ends where it is split is read, recovered
and cut without an error. With anything behind, the outcomes are the same, unless what stands
directly behind is damaged: then all three fail with this damage. -/
theorem readUpTo_or_damaged (h : log.SplitAt target rs frames tail) :
    (∃ state, Replay.state rs = .ok state ∧
      (log.endedAt frames.length).readUpTo (some target) = .ok rs ∧
      (log.endedAt frames.length).recover (some target) = .ok ⟨state⟩ ∧
      (log.endedAt frames.length).truncateAfter target =
        ({ log.endedAt frames.length with nextLsn := (endLsn .zero rs).next }, .ok ())) ∧
    (∀ e, behind rs frames tail = .damaged e →
      log.readUpTo (some target) = .error e ∧ log.recover (some target) = .error e ∧
        log.truncateAfter target = (log, .error e)) ∧
    ((∀ e, behind rs frames tail ≠ .damaged e) →
      log.readUpTo (some target) = (log.endedAt frames.length).readUpTo (some target) ∧
      log.recover (some target) = (log.endedAt frames.length).recover (some target) ∧
      (log.store.plan.failTruncate = false → ∃ kept, log.truncateAfter target = (kept, .ok ()) ∧
        (log.endedAt frames.length).truncateAfter target = (kept.endedAt frames.length, .ok ()) ∧
        kept.readUpTo none = .ok rs ∧ kept.nextLsn = (endLsn .zero rs).next ∧
        (behind rs frames tail ≠ .torn → kept.store.toList = frames))) := by
  obtain ⟨state, hstate, -⟩ := Replay.exists_state_of_follow h.follow
  have hended := h.endedAt
  have hnil : ∀ e, behind rs frames [] ≠ .damaged e := by simp [behind_nil]
  have hread := hended.readUpTo hnil
  have hrecover := hended.recover hnil hstate
  have hcut := hended.truncateAfter_of_end (.inl behind_nil)
  refine ⟨⟨state, hstate, hread, hrecover, hcut⟩, fun e hbehind => ?_, fun hbehind => ?_⟩
  · exact ⟨h.readUpTo_of_damaged hbehind, h.recover_of_damaged hbehind,
      h.truncateAfter_of_damaged hbehind⟩
  · refine ⟨(h.readUpTo hbehind).trans hread.symm,
      (h.recover hbehind hstate).trans hrecover.symm, fun hplan => ?_⟩
    obtain ⟨kept, hkept, hsame, hall, hnext, hbytes⟩ := h.exists_kept hbehind hplan
    exact ⟨kept, hkept, hcut.trans (by rw [hsame]), hall, hnext, hbytes⟩

/-- The frames of two records, a put and a commit, and an open log of them. The length of the second
payload is in the bytes 15 to 18 of its frame. -/
theorem exists_openOn_twoRecords : ∃ log first second,
    openOn (.ofBytes (first ++ second)) = .ok log ∧ log.store = .ofBytes (first ++ second) ∧
    Frame.ofRecords twoRecords = .ok (first ++ second) ∧
    Frame.ofRecords [⟨⟨1⟩, .put [1] [2]⟩] = .ok first ∧
    Frame.ofRecord ⟨⟨2⟩, .commit ⟨7⟩⟩ = .ok second ∧
    ∃ h : 15 < second.length, second[15] ≠ 0xFF := by
  obtain ⟨first, second, hfirst, hsecond, hbyte⟩ : ∃ first second,
      Frame.ofRecords [⟨⟨1⟩, .put [1] [2]⟩] = .ok first ∧
      Frame.ofRecord ⟨⟨2⟩, .commit ⟨7⟩⟩ = .ok second ∧
      ∃ h : 15 < second.length, second[15] ≠ 0xFF :=
    ⟨_, _, rfl, rfl, by decide +kernel, by decide +kernel⟩
  have hframes : Frame.ofRecords twoRecords = .ok (first ++ second) :=
    Frame.ofRecords_append hfirst
      (Frame.ofRecords_cons_eq_ok_iff.2 ⟨second, [], hsecond, rfl, (List.append_nil _).symm⟩)
  have hbytes : Frame.ofRecords twoRecords = .ok (Store.ofBytes (first ++ second)).toList := by
    rw [Store.toList_ofBytes, hframes]
  exact ⟨_, first, second, openOn_of_frames hbytes (by decide), rfl, hframes, hfirst, hsecond,
    hbyte⟩

/-- Bytes that are no frame stand behind the second of two records. Reading up to the second is
refused. Reading up to the first is not, and a cut there removes them. -/
theorem readUpTo_or_damaged_grafted : ∃ (log grafted : Log) (first second : Bytes),
    openOn (.ofBytes (first ++ second)) = .ok log ∧
      grafted = { log with store := log.store.graft (List.replicate 29 0xFF) } ∧
      (∃ e, grafted.readUpTo (some ⟨2⟩) = .error e ∧ e.isCorruption = true) ∧
      grafted.readUpTo (some ⟨1⟩) = .ok [⟨⟨1⟩, .put [1] [2]⟩] ∧
      ∃ kept, grafted.truncateAfter ⟨1⟩ = (kept, .ok ()) ∧ kept.store.toList = first ∧
        kept.readUpTo none = .ok [⟨⟨1⟩, .put [1] [2]⟩] := by
  obtain ⟨log, first, second, hopen, hstore, hboth, hfirst, hsecond, -⟩ := exists_openOn_twoRecords
  obtain ⟨junk, hjunk⟩ : ∃ junk : Bytes, junk = List.replicate 29 0xFF := ⟨_, rfl⟩
  rw [← hjunk]
  have hplan : (log.store.graft junk).plan.failTruncate = false := by rw [hstore]; rfl
  have hbytes : (log.store.graft junk).toList = first ++ second ++ junk := by
    simp [Store.graft, Store.toList, hstore, Store.ofBytes]
  have hnext : behind [⟨⟨1⟩, .put [1] [2]⟩] first (second ++ junk) =
      .record ⟨⟨2⟩, .commit ⟨7⟩⟩ second.length :=
    Frame.read_ofRecord hsecond (by decide) _ _
  have hlast : ∃ stored computed, behind twoRecords (first ++ second) junk =
      .damaged (.checksumMismatch (first ++ second).length stored computed) := by
    have hhead : List.replicate 29 0xFF = List.replicate Frame.headerSize 0xFF ++
        (List.replicate 6 0xFF : Bytes) := rfl
    rw [hjunk, hhead]
    exact ⟨_, _, Frame.read_of_header List.length_replicate
      (Frame.header_of_mismatch (by decide +kernel)) _⟩
  obtain ⟨stored, computed, hlast⟩ := hlast
  have hone : Log.SplitAt { log with store := log.store.graft junk } ⟨1⟩
      [⟨⟨1⟩, .put [1] [2]⟩] first (second ++ junk) := by
    refine ⟨hfirst, by decide, by decide, hbytes.trans (List.append_assoc ..), fun r size hr => ?_⟩
    cases hnext.symm.trans hr
    decide
  have htwo : Log.SplitAt { log with store := log.store.graft junk } ⟨2⟩ twoRecords
      (first ++ second) junk := by
    refine ⟨hboth, by decide, by decide, hbytes, fun r size hr => ?_⟩
    cases hlast.symm.trans hr
  obtain ⟨⟨-, -, hended, -⟩, -, hsame⟩ := readUpTo_or_damaged hone
  obtain ⟨hread, -, hcut⟩ := hsame fun e he => by cases hnext.symm.trans he
  obtain ⟨kept, hkept, -, hall, -, hfront⟩ := hcut hplan
  refine ⟨log, _, first, second, hopen, rfl, ⟨_, htwo.readUpTo_of_damaged hlast, rfl⟩,
    hread.trans hended, kept, hkept, hfront fun htorn => ?_, hall⟩
  cases hnext.symm.trans htorn

/-- One byte of the second of two records is damaged behind the back of an open log, its payload
length. Reading up to the first, recovering there and cutting there fail, although each succeeds if
the log ends there. -/
theorem exists_damaged_beyond : ∃ (log damaged : Log) (first second : Bytes) (e : Error),
    openOn (.ofBytes (first ++ second)) = .ok log ∧
      damaged = { log with store := log.store.corrupt (first.length + 15) 0xFF } ∧
      damaged.SplitAt ⟨1⟩ [⟨⟨1⟩, .put [1] [2]⟩] first (second.set 15 0xFF) ∧
      e.isCorruption = true ∧
      damaged.readUpTo (some ⟨1⟩) = .error e ∧ damaged.recover (some ⟨1⟩) = .error e ∧
      damaged.truncateAfter ⟨1⟩ = (damaged, .error e) ∧
      (damaged.endedAt first.length).readUpTo (some ⟨1⟩) = .ok [⟨⟨1⟩, .put [1] [2]⟩] ∧
      ((damaged.endedAt first.length).truncateAfter ⟨1⟩).2 = .ok () := by
  obtain ⟨log, first, second, hopen, hstore, -, hfirst, hsecond, hlt, hbyte⟩ :=
    exists_openOn_twoRecords
  obtain ⟨stored, computed, -, hread⟩ := Frame.read_set hsecond hlt hbyte first.length
    (endLsn .zero [⟨⟨1⟩, .put [1] [2]⟩]) []
  rw [List.append_nil] at hread
  have hbehind : behind [⟨⟨1⟩, .put [1] [2]⟩] first (second.set 15 0xFF) =
      .damaged (.checksumMismatch first.length stored computed) := hread
  have hbytes : (log.store.corrupt (first.length + 15) 0xFF).toList =
      first ++ second.set 15 0xFF := by
    simp [Store.corrupt, Store.toList, hstore, Store.ofBytes]
  have hsplit : Log.SplitAt { log with store := log.store.corrupt (first.length + 15) 0xFF } ⟨1⟩
      [⟨⟨1⟩, .put [1] [2]⟩] first (second.set 15 0xFF) := by
    refine ⟨hfirst, by decide, by decide, hbytes, fun r size hr => ?_⟩
    cases hbehind.symm.trans hr
  exact ⟨log, _, first, second, _, hopen, rfl, hsplit, rfl, hsplit.readUpTo_of_damaged hbehind,
    hsplit.recover_of_damaged hbehind, hsplit.truncateAfter_of_damaged hbehind,
    hsplit.endedAt.readUpTo (by simp [behind_nil]),
    congrArg Prod.snd (hsplit.endedAt.truncateAfter_of_end (.inl behind_nil))⟩

end Log
end WalStore

import Mathlib.Algebra.Group.Nat.Defs
import WalStore.Proofs.Ident
import WalStore.Proofs.Log.Cursor

/-!
# Logs that are cut anywhere

**Theorem (`steps_of_cut`).** Of a log that is cut at any byte a cursor finds the records whose
frames lie wholly in front of the cut, and no damage. It stops as at a torn tail exactly when the
cut goes through a frame. Opening the log leaves the frames of these records.

A frame that is cut is recognized as such wherever the cut goes through it (`Frame.Partial.read`).
-/

namespace WalStore

open Record (Follow endLsn)

namespace Frame

/-- Where the frame of a record at an offset ends. -/
def stop (item : Nat × Record) : Nat := item.1 + size item.2

/-- Where the last of the frames ends, or zero. -/
def validEnd (items : List (Nat × Record)) : Nat := (items.getLast?.map stop).getD 0

variable {rs : List Record} {bs : Bytes}

theorem validEnd_place (h : ofRecords rs = .ok bs) : validEnd (place 0 rs) = bs.length := by
  induction rs using List.reverseRecOn generalizing bs with
  | nil =>
    cases h
    rfl
  | append_singleton rs r ih =>
    obtain ⟨front, back, hfront, hback, rfl⟩ := exists_of_ofRecords_append h
    obtain ⟨frame, rest, hframe, hrest, rfl⟩ := ofRecords_cons_eq_ok_iff.1 hback
    cases hrest
    rw [place_append hfront, validEnd, place, List.getLast?_append]
    simp [place, stop, size_of_ofRecord hframe]

theorem stop_le_of_mem_place (h : ofRecords rs = .ok bs) {offset : Nat} {item : Nat × Record}
    (hitem : item ∈ place offset rs) : offset ≤ item.1 ∧ stop item ≤ offset + bs.length := by
  induction rs generalizing offset bs with
  | nil => cases hitem
  | cons r rs ih =>
    obtain ⟨frame, frames, hframe, hframes, rfl⟩ := ofRecords_cons_eq_ok_iff.1 h
    rw [List.length_append]
    rcases List.mem_cons.1 hitem with rfl | hitem
    · rw [stop, size_of_ofRecord hframe]
      exact ⟨Nat.le_refl _, by omega⟩
    · have := ih hframes hitem
      rw [size_of_ofRecord hframe] at this
      omega

/-- The records in front of a cut, by where their frames end. -/
theorem place_wholeIn (h : ofRecords rs = .ok bs) (offset k : Nat) :
    place offset (wholeIn k rs) = (place offset rs).filter (stop · ≤ offset + k) := by
  induction rs generalizing offset k bs with
  | nil => rfl
  | cons r rs ih =>
    obtain ⟨frame, frames, hframe, hframes, rfl⟩ := ofRecords_cons_eq_ok_iff.1 h
    have hstop : stop (offset, r) = offset + frame.length := by
      rw [stop, size_of_ofRecord hframe]
    rw [wholeIn, hframe, place]
    dsimp only
    by_cases hk : frame.length ≤ k
    · rw [if_pos hk, place, ih hframes, size_of_ofRecord hframe, List.filter_cons_of_pos]
      · rw [Nat.add_assoc, Nat.add_sub_cancel' hk]
      · rw [decide_eq_true_iff, hstop]
        omega
    · rw [if_neg hk, place, eq_comm, List.filter_eq_nil_iff]
      intro item hitem
      rw [decide_eq_true_iff]
      rcases List.mem_cons.1 hitem with rfl | hitem
      · omega
      · have := (stop_le_of_mem_place hframes hitem).1
        rw [size_of_ofRecord hframe] at this
        rw [stop]
        omega

/-- A cut goes through no frame when the frames in front of it end where it is. -/
theorem validEnd_wholeIn_eq_iff (h : ofRecords rs = .ok bs) (k : Nat) :
    validEnd (place 0 (wholeIn k rs)) = k ↔ k = 0 ∨ ∃ item ∈ place 0 rs, stop item = k := by
  obtain ⟨kept, torn, hkept, -, htake⟩ := take_ofRecords h .nil k
  have hle : kept.length ≤ k := by
    have hlength := congrArg List.length htake
    simp only [List.length_take, List.length_append] at hlength
    omega
  have hwhole : place 0 (wholeIn k rs) = (place 0 rs).filter (stop · ≤ k) := by
    rw [place_wholeIn h, Nat.zero_add]
  constructor
  · intro hend
    rw [validEnd] at hend
    cases hlast : (place 0 (wholeIn k rs)).getLast? with
    | none =>
      rw [hlast] at hend
      exact .inl hend.symm
    | some item =>
      rw [hlast] at hend
      have hitem := List.mem_of_getLast? hlast
      rw [hwhole] at hitem
      exact .inr ⟨item, (List.mem_filter.1 hitem).1, hend⟩
  · rw [validEnd_place hkept]
    rintro (rfl | ⟨item, hitem, hstop⟩)
    · omega
    · have hmem : item ∈ place 0 (wholeIn k rs) := by
        rw [hwhole]
        exact List.mem_filter.2 ⟨hitem, decide_eq_true (Nat.le_of_eq hstop)⟩
      have := (stop_le_of_mem_place hkept hmem).2
      omega

end Frame

/-- **A log that is cut at any byte.** A cursor answers the records whose frames end at the cut or
in front of it, in order and each with its offset, and nothing more however often it is asked. It
stops where the last of these frames ends, at a torn tail if and only if the cut is neither at the
front of the log nor where a frame ends. Opening the log keeps the bytes up to there. -/
theorem Cursor.steps_of_cut {rs : List Record} {frames : Bytes}
    (hframes : Frame.ofRecords rs = .ok frames) (hfollow : Follow .zero rs) {k : Nat}
    (hk : k ≤ frames.length) {store : Store} (hbytes : store.toList = frames.take k) :
    let whole := (Frame.place 0 rs).filter (Frame.stop · ≤ k)
    let last := endLsn .zero (whole.map (·.2))
    (∃ torn : Bool, (torn = true ↔ ¬(k = 0 ∨ ∃ item ∈ Frame.place 0 rs, Frame.stop item = k)) ∧
      ∀ n, whole.length < n → (ofStore store).steps n =
        (⟨store, Frame.validEnd whole, last, torn, true⟩,
          whole.map (fun item => some (.ok item)) ++ List.replicate (n - whole.length) none)) ∧
    (store.plan.failTruncate = false → ∃ log, Log.openOn store = .ok log ∧
      log.store.toList = frames.take (Frame.validEnd whole) ∧
      ((∀ r ∈ rs, r.lsn.toNat < 2 ^ 64 - 1) → log.nextLsn.toNat = last.toNat + 1)) := by
  obtain ⟨kept, tail, hkept, htail, htake⟩ := Frame.take_ofRecords hframes .nil k
  rw [List.append_nil] at htake
  intro whole last
  have hwhole : Frame.place 0 (Frame.wholeIn k rs) = whole := by
    rw [Frame.place_wholeIn hframes, Nat.zero_add]
  have hrecords : whole.map (·.2) = Frame.wholeIn k rs := by
    rw [← hwhole, Frame.map_snd_place]
  have hend : Frame.validEnd whole = kept.length := by
    rw [← hwhole, Frame.validEnd_place hkept]
  have hshort := hfollow.shorten (Frame.prefix_wholeIn k rs)
  have hscan : Scan.ofBytes store.toList =
      ⟨whole, if tail = [] then .clean else .torn, Frame.validEnd whole, last⟩ := by
    rw [hbytes, htake, Scan.ofBytes, Scan.go_ofRecords hkept hshort htail, hwhole, Nat.zero_add,
      hend, ← hrecords]
  have hlength : kept.length + tail.length = k := by
    rw [← List.length_append, ← htake, List.length_take, Nat.min_eq_left hk]
  have hboundary : tail = [] ↔ k = 0 ∨ ∃ item ∈ Frame.place 0 rs, Frame.stop item = k := by
    rw [← Frame.validEnd_wholeIn_eq_iff hframes, hwhole, hend, ← List.length_eq_zero_iff]
    omega
  refine ⟨⟨decide (tail ≠ []), ?_, fun n hn => ?_⟩, fun hplan => ?_⟩
  · rw [decide_eq_true_iff, ne_eq, hboundary]
  · have herror : (Scan.ofBytes store.toList).error? = none := by
      rw [hscan, Scan.error?]
      by_cases hnil : tail = [] <;> simp [hnil]
    rw [steps_ofStore (by rwa [hscan]), Scan.answers_of_undamaged herror, hscan]
    by_cases hnil : tail = [] <;> simp [stopped, Scan.isTorn, hnil]
  · obtain ⟨log, hopen, hholds, hpoisoned, -⟩ :=
      Log.exists_openOn hplan hkept hshort htail (hbytes.trans htake)
    refine ⟨log, hopen, ?_, fun hroom => ?_⟩
    · have hlog := hholds.bytes_of_sound hpoisoned
      rw [hkept] at hlog
      have hle : kept.length ≤ k := by omega
      rw [← Except.ok.inj hlog, hend, ← Nat.min_eq_left hle, ← List.take_take, htake,
        List.take_left]
    · rw [hholds.next, ← hrecords]
      have hlast : (endLsn .zero (whole.map (·.2))).toNat < 2 ^ 64 - 1 := by
        refine Record.endLsn_lt (by decide) fun r hr => hroom r ?_
        rw [hrecords] at hr
        exact (Frame.prefix_wholeIn k rs).subset hr
      have hsize : UInt64.size = 2 ^ 64 := rfl
      exact Lsn.toNat_next (by omega)

def twoRecords : List Record := Record.number [.put [1] [2], .commit ⟨7⟩]

/-- The second of two frames is cut behind its header. -/
theorem Cursor.steps_of_cut_second : ∃ frames, Frame.ofRecords twoRecords = .ok frames ∧
    62 ≤ frames.length ∧ Follow .zero twoRecords ∧
      (ofStore (.ofBytes (frames.take 62))).steps 3 =
        (⟨.ofBytes (frames.take 62), 37, ⟨1⟩, true, true⟩,
          [some (.ok (0, ⟨⟨1⟩, .put [1] [2]⟩)), none, none]) ∧
      ∃ log, Log.openOn (.ofBytes (frames.take 62)) = .ok log ∧
        log.store.toList = frames.take 37 ∧ log.nextLsn.toNat = 2 := by
  obtain ⟨frames, hframes, hk⟩ : ∃ frames, Frame.ofRecords twoRecords = .ok frames ∧
      62 ≤ frames.length := ⟨_, rfl, by decide +kernel⟩
  have hfollow : Follow .zero twoRecords := by decide
  have hwhole : (Frame.place 0 twoRecords).filter (Frame.stop · ≤ 62) =
      [(0, ⟨⟨1⟩, .put [1] [2]⟩)] := by decide +kernel
  have hend : Frame.validEnd [(0, ⟨⟨1⟩, .put [1] [2]⟩)] = 37 := by decide +kernel
  obtain ⟨⟨torn, htorn, hsteps⟩, hopen⟩ :=
    steps_of_cut hframes hfollow hk (Store.toList_ofBytes _)
  have hcut : torn = true := htorn.2 (by decide +kernel)
  rw [hwhole, hend] at hsteps hopen
  subst hcut
  obtain ⟨log, hlog, hbytes, hnext⟩ := hopen rfl
  exact ⟨frames, hframes, hk, hfollow, hsteps 3 (by decide), log, hlog, hbytes,
    hnext (by decide +kernel)⟩

end WalStore

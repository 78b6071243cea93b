import WalStore.Proofs.Log.Torn

/-!
# A log has one form

**Theorem (`steps_canonical`).** Whatever bytes a store holds, a cursor over it stops, and never
reads past the end. The records it has answered have ascending positions, each comes with the offset
of its frame, and their frames in a row are all the bytes that the cursor has gone over. So nothing
is accepted that would not have been written, and since no two lists of records have the same frames
in a row, no other records could have been meant.

What carries the proof is what a cursor knows about the bytes behind it (`HasRead`). A step either
adds the frame of one record to them or stops, and a frame is no shorter than its header and its
checksum, so the steps that do not stop are no more than there is room for.
-/

namespace WalStore

open Record (Follow endLsn)

namespace Frame

/-! ## What reading bytes can report -/

theorem isCorruption_of_header {offset : Nat} {bs : Bytes} {e : Error}
    (h : header offset bs = .error e) : e.isCorruption = true := by
  unfold header at h
  simp only [bind, Except.bind, throw, throwThe, MonadExceptOf.throw, pure, Except.pure] at h
  -- One case for each check: its own error, and the header if all of them pass.
  split at h
  · cases h; rfl
  split at h
  · cases h; rfl
  split at h
  · cases h; rfl
  split at h
  · cases h; rfl
  · cases h

theorem isCorruption_of_decode {kind : Kind} {payload : Bytes} {e : Error}
    (h : Payload.decode kind payload = .error e) : e.isCorruption = true := by
  unfold Payload.decode at h
  cases hentry : Payload.toEntry kind payload with
  | error fault =>
    rw [hentry] at h
    cases h
    rfl
  | ok entry =>
    rw [hentry] at h
    cases h

theorem isCorruption_of_body {offset : Nat} {last : Lsn} {h : Header} {head bs : Bytes} {e : Error}
    (hbody : body offset last h head bs = .error e) : e.isCorruption = true := by
  unfold body at hbody
  simp only [bind, Except.bind, throw, throwThe, MonadExceptOf.throw, pure, Except.pure] at hbody
  split at hbody
  · cases hbody; rfl
  split at hbody
  · cases hbody; rfl
  cases hentry : Payload.decode h.kind (bs.take h.length) with
  | error e' =>
    rw [hentry] at hbody
    cases hbody
    exact isCorruption_of_decode hentry
  | ok entry =>
    rw [hentry] at hbody
    cases hbody

/-- Damage is a matter of the bytes, never of the store they come from. -/
theorem isCorruption_of_read {offset : Nat} {last : Lsn} {bs : Bytes} {e : Error}
    (h : read offset last bs = .damaged e) : e.isCorruption = true := by
  unfold read at h
  split at h
  · cases h
  dsimp only at h
  split at h
  · cases h
  split at h
  · next hheader =>
    cases h
    exact isCorruption_of_header hheader
  split at h
  · cases h
  split at h
  · next hbody =>
    cases h
    exact isCorruption_of_body hbody
  · cases h

/-! ## One image, one list -/

/-- A byte string begins with the frame of one record at most. -/
theorem ofRecord_unique {r r' : Record} {frame frame' rest rest' : Bytes}
    (h : ofRecord r = .ok frame) (h' : ofRecord r' = .ok frame')
    (heq : frame ++ rest = frame' ++ rest') : r = r' ∧ frame = frame' := by
  obtain ⟨payload, hpayload, hlt, rfl⟩ := ofRecord_eq_ok_iff.1 h
  obtain ⟨payload', hpayload', hlt', rfl⟩ := ofRecord_eq_ok_iff.1 h'
  -- Both headers stand in the same 23 bytes, so they say the same.
  have hhead : sealed (covered r.entry.kind r.lsn payload.length) =
      sealed (covered r'.entry.kind r'.lsn payload'.length) := by
    rw [ofPayload_eq, ofPayload_eq, List.append_assoc, List.append_assoc] at heq
    exact List.append_inj_left heq (by rw [length_head, length_head])
  have hsame := header_sealed 0 r.entry.kind r.lsn hlt
  rw [hhead, header_sealed 0 r'.entry.kind r'.lsn hlt', Except.ok.injEq, Header.mk.injEq] at hsame
  obtain ⟨hkind, hlsn, hlength⟩ := hsame
  have hframe : ofPayload r.entry.kind r.lsn payload = ofPayload r'.entry.kind r'.lsn payload' := by
    refine List.append_inj_left heq ?_
    rw [length_ofPayload, length_ofPayload, hlength]
  have htail := hframe
  rw [ofPayload_eq, ofPayload_eq, hhead] at htail
  have hsamePayload : payload = payload' :=
    List.append_inj_left (List.append_cancel_left htail) hlength.symm
  have hentry := Payload.decode_ofEntry hpayload
  rw [hsamePayload, ← hkind, Payload.decode_ofEntry hpayload'] at hentry
  refine ⟨?_, hframe⟩
  cases r
  cases r'
  rw [Record.mk.injEq]
  exact ⟨hlsn.symm, (Except.ok.inj hentry).symm⟩

/-- No two lists of records have the same frames in a row. -/
theorem ofRecords_injective {rs rs' : List Record} {bs : Bytes} (h : ofRecords rs = .ok bs)
    (h' : ofRecords rs' = .ok bs) : rs = rs' := by
  have hempty {r : Record} {rs : List Record} (h : ofRecords (r :: rs) = .ok []) : False := by
    obtain ⟨frame, frames, hframe, -, hnil⟩ := ofRecords_cons_eq_ok_iff.1 h
    have hpos := length_pos_of_ofRecord hframe
    rw [(List.append_eq_nil_iff.1 hnil.symm).1] at hpos
    exact Nat.lt_irrefl 0 hpos
  induction rs generalizing rs' bs with
  | nil =>
    cases h
    cases rs' with
    | nil => rfl
    | cons r' rs' => exact (hempty h').elim
  | cons r rs ih =>
    cases rs' with
    | nil =>
      cases h'
      exact (hempty h).elim
    | cons r' rs' =>
      obtain ⟨frame, frames, hframe, hframes, rfl⟩ := ofRecords_cons_eq_ok_iff.1 h
      obtain ⟨frame', frames', hframe', hframes', heq⟩ := ofRecords_cons_eq_ok_iff.1 h'
      obtain ⟨rfl, rfl⟩ := ofRecord_unique hframe hframe' heq
      rw [List.append_cancel_left heq] at hframes
      rw [ih hframes hframes']

/-- A frame is no shorter than its header and its checksum. -/
theorem length_ofRecords_ge {rs : List Record} {bs : Bytes} (h : ofRecords rs = .ok bs) :
    (headerSize + checksumSize) * rs.length ≤ bs.length := by
  induction rs generalizing bs with
  | nil => exact Nat.zero_le _
  | cons r rs ih =>
    obtain ⟨frame, frames, hframe, hframes, rfl⟩ := ofRecords_cons_eq_ok_iff.1 h
    obtain ⟨payload, -, -, rfl⟩ := ofRecord_eq_ok_iff.1 hframe
    have hrest := ih hframes
    rw [List.length_append, length_ofPayload, List.length_cons, Nat.mul_succ]
    omega

end Frame

/-! ## Behind a cursor -/

namespace Cursor

variable {c : Cursor} {rs : List Record}

/-- The bytes behind the cursor are the frames of `rs`, whose positions ascend. -/
structure HasRead (c : Cursor) (rs : List Record) : Prop where
  frames : Frame.ofRecords rs = .ok (c.store.toList.take c.offset)
  offset_le : c.offset ≤ c.store.size
  follow : Follow .zero rs
  last : c.last = endLsn .zero rs

theorem hasRead_ofStore (store : Store) : (ofStore store).HasRead [] :=
  ⟨rfl, Nat.zero_le _, trivial, rfl⟩

/-- Only the offset and the position matter. -/
theorem HasRead.congr {c' : Cursor} (h : c.HasRead rs) (hstore : c'.store = c.store)
    (hoffset : c'.offset = c.offset) (hlast : c'.last = c.last) : c'.HasRead rs := by
  obtain ⟨hframes, hle, hfollow, hend⟩ := h
  refine ⟨?_, ?_, hfollow, hlast.trans hend⟩
  · rw [hstore, hoffset]
    exact hframes
  · rw [hstore, hoffset]
    exact hle

/-- The record at the cursor comes to those behind it. -/
theorem HasRead.append (h : c.HasRead rs) {r : Record} {size : Nat}
    (hread : c.front = .record r size) :
    HasRead { c with offset := c.offset + size, last := r.lsn } (rs ++ [r]) := by
  rw [front_eq h.offset_le, h.last] at hread
  obtain ⟨hlast, frame, hframe, hsize, hrest⟩ := Frame.ofRecord_of_read hread
  have hfit := (Frame.size_le_of_read hread).2
  rw [List.length_drop, Store.length_toList] at hfit
  have hone : Frame.ofRecords [r] = .ok frame :=
    Frame.ofRecords_cons_eq_ok_iff.2 ⟨frame, [], hframe, rfl, (List.append_nil frame).symm⟩
  have htake : c.store.toList.take (c.offset + size) = c.store.toList.take c.offset ++ frame := by
    rw [List.take_add, hrest, List.take_left' hsize.symm]
  have hle := h.offset_le
  refine ⟨?_, ?_, Record.follow_append.2 ⟨h.follow, hlast, trivial⟩, ?_⟩
  · show Frame.ofRecords (rs ++ [r]) = .ok (c.store.toList.take (c.offset + size))
    rw [htake]
    exact Frame.ofRecords_append h.frames hone
  · show c.offset + size ≤ c.store.size
    omega
  · rw [Record.endLsn_append]
    rfl

/-- An answer that is no record: there is nothing, or the bytes are damaged. -/
def Stops (a : Answer) : Prop := a = none ∨ ∃ e, a = some (.error e) ∧ e.isCorruption = true

/-- A step goes over one more record, or stops. -/
theorem HasRead.next (h : c.HasRead rs) (hgoing : c.finished = false) :
    (∃ r, c.next = ({ c with offset := c.offset + Frame.size r, last := r.lsn },
        some (.ok (c.offset, r))) ∧
      HasRead { c with offset := c.offset + Frame.size r, last := r.lsn } (rs ++ [r])) ∨
    ∃ c' a, c.next = (c', a) ∧ Stops a ∧ c'.finished = true ∧ c'.store = c.store ∧
      c'.HasRead rs := by
  rw [Cursor.next, if_neg (by simp [hgoing])]
  cases hfront : c.front with
  | finished => exact .inr ⟨_, _, rfl, .inl rfl, rfl, rfl, h.congr rfl rfl rfl⟩
  | torn => exact .inr ⟨_, _, rfl, .inl rfl, rfl, rfl, h.congr rfl rfl rfl⟩
  | damaged e =>
    rw [front_eq h.offset_le] at hfront
    have hstops : Stops (some (.error e)) := .inr ⟨e, rfl, Frame.isCorruption_of_read hfront⟩
    exact .inr ⟨_, _, rfl, hstops, rfl, rfl, h.congr rfl rfl rfl⟩
  | record r size =>
    have happend := h.append hfront
    rw [front_eq h.offset_le] at hfront
    obtain ⟨-, frame, hframe, rfl, -⟩ := Frame.ofRecord_of_read hfront
    left
    refine ⟨r, ?_, ?_⟩
    · rw [Frame.size_of_ofRecord hframe]
    · rw [Frame.size_of_ofRecord hframe]
      exact happend

/-- Any number of steps goes over the records of the frames that follow, one a step, until it
stops. -/
theorem HasRead.steps (h : c.HasRead rs) (n : Nat) : ∃ more rest,
    (c.steps n).2 = (Frame.place c.offset more).map (fun item => some (.ok item)) ++ rest ∧
      (∀ a ∈ rest, Stops a) ∧ (c.steps n).1.store = c.store ∧
      (c.steps n).1.HasRead (rs ++ more) ∧
      (more.length = n ∨ (c.steps n).1.finished = true) := by
  induction n generalizing c rs with
  | zero =>
    refine ⟨[], [], rfl, nofun, rfl, ?_, .inl rfl⟩
    rw [List.append_nil]
    exact h
  | succ n ih =>
    have hstopped {c' : Cursor} (hc' : c'.finished = true) (k : Nat) :
        ∀ a ∈ (c'.steps k).2, Stops a := by
      intro a ha
      rw [steps_of_finished hc'] at ha
      exact .inl (List.eq_of_mem_replicate ha)
    cases hgoing : c.finished with
    | true =>
      refine ⟨[], (c.steps (n + 1)).2, rfl, hstopped hgoing _, ?_, ?_, .inr ?_⟩
      all_goals rw [steps_of_finished hgoing]
      · rw [List.append_nil]
        exact h
      · exact hgoing
    | false =>
      rcases h.next hgoing with ⟨r, hnext, hread⟩ | ⟨c', a, hnext, ha, hc', hstore, hread⟩
      · obtain ⟨more, rest, hanswers, hrest, hstore, hmore, hend⟩ := ih hread
        rw [steps_of_next hnext]
        refine ⟨r :: more, rest, ?_, hrest, hstore, ?_, ?_⟩
        · rw [hanswers, Frame.place, List.map_cons, List.cons_append]
        · rw [List.append_assoc, List.singleton_append] at hmore
          exact hmore
        · rw [List.length_cons]
          exact hend.imp_left (congrArg (· + 1))
      · rw [steps_of_next hnext]
        refine ⟨[], a :: (c'.steps n).2, rfl, ?_, ?_, ?_, .inr ?_⟩
        · intro b hb
          rcases List.mem_cons.1 hb with rfl | hb
          · exact ha
          · exact hstopped hc' n b hb
        all_goals rw [steps_of_finished hc']
        · exact hstore
        · rw [List.append_nil]
          exact hread
        · exact hc'

/-- **A log has one form.** Whatever a store holds, and however many steps a cursor over it has
made: it has answered records whose positions ascend from 1 on, each with the offset of its frame,
and then nothing but the damage it met. That is never a failure of the store, as a read past its end
would be. The bytes behind the cursor are the frames of these records. It has stopped once it has
made more steps than there is room for frames. And no two lists of records have the same frames in a
row. -/
theorem steps_canonical (store : Store) (n : Nat) :
    (∃ rs rest,
      ((ofStore store).steps n).2 =
        (Frame.place 0 rs).map (fun item => some (.ok item)) ++ rest ∧
      (∀ a ∈ rest, a = none ∨ ∃ e, a = some (.error e) ∧ e.isCorruption = true ∧
        ∀ fault, e ≠ .storage fault) ∧
      Follow .zero rs ∧
      ((ofStore store).steps n).1.offset ≤ store.size ∧
      Frame.ofRecords rs = .ok (store.toList.take ((ofStore store).steps n).1.offset)) ∧
    (store.size < (Frame.headerSize + Frame.checksumSize) * n →
      ((ofStore store).steps n).1.finished = true) ∧
    ∀ rs rs' image, Frame.ofRecords rs = .ok image → Frame.ofRecords rs' = .ok image →
      rs = rs' := by
  obtain ⟨rs, rest, hanswers, hrest, hstore, hread, hend⟩ := (hasRead_ofStore store).steps n
  rw [List.nil_append] at hread
  have hle := hread.offset_le
  have hframes := hread.frames
  rw [hstore] at hle hframes
  refine ⟨⟨rs, rest, hanswers, fun a ha => ?_, hread.follow, hle, hframes⟩, fun hn => ?_,
    fun _ _ _ => Frame.ofRecords_injective⟩
  · refine (hrest a ha).imp_right fun ⟨e, he, hcorruption⟩ => ⟨e, he, hcorruption, ?_⟩
    rintro fault rfl
    cases hcorruption
  · refine hend.resolve_left fun hlength => ?_
    have hlong := Frame.length_ofRecords_ge hframes
    rw [List.length_take, hlength] at hlong
    have hfit := Nat.le_trans hlong (Nat.min_le_left _ _)
    exact Nat.not_le.2 hn (Nat.le_trans hfit hle)

end Cursor
end WalStore

import WalStore.Environment
import WalStore.Proofs.Checksum
import WalStore.Proofs.Log.Torn

/-!
# Logs with a damaged byte

**Theorem (`steps_of_damage`).** If one byte of a log is another one than was written, a cursor
answers the records in front of the frame that the byte is in, and then that this frame's checksum
does not match. It never takes the damage for a torn tail. The log cannot be opened, and is left as
it is.

A changed byte never gets through a checksum (`sealed_set`). What matters is the order of the
checks. The header is checked before anything in it is acted on, so a length that was changed is not
believed; and if the header is as it was, the whole frame is there, so that its own checksum decides
(`read_set`).
-/

namespace WalStore

open Record (Follow endLsn)

namespace Frame

variable {i : Nat} {b : UInt8}

/-! ## A frame with a changed byte -/

/-- A byte is changed in a byte string or in the checksum that stands behind it. -/
theorem sealed_set {bs : Bytes} (hi : i < (sealed bs).length) (hb : (sealed bs)[i] ≠ b) :
    storedChecksum (((sealed bs).set i b).drop bs.length) ≠
      Checksum.crc32 (((sealed bs).set i b).take bs.length) := by
  have hchecksum := storedChecksum_ofChecksum (Checksum.crc32 bs) []
  rw [List.append_nil] at hchecksum
  by_cases hbody : i < bs.length
  · have hset : (sealed bs).set i b = bs.set i b ++ ofChecksum (Checksum.crc32 bs) := by
      rw [sealed, List.set_append_left _ _ hbody]
    have hne : bs[i] ≠ b := by
      simpa [sealed, List.getElem_append_left hbody] using hb
    rw [hset, List.drop_left' (List.length_set ..), List.take_left' (List.length_set ..), hchecksum]
    exact (Checksum.crc32_set_ne hbody hne).symm
  · have hle : bs.length ≤ i := Nat.le_of_not_lt hbody
    have hset : (sealed bs).set i b =
        bs ++ (ofChecksum (Checksum.crc32 bs)).set (i - bs.length) b := by
      rw [sealed, List.set_append_right _ _ hle]
    rw [length_sealed] at hi
    rw [hset, List.drop_left, List.take_left]
    intro heq
    have hsize : ((ofChecksum (Checksum.crc32 bs)).set (i - bs.length) b).length =
        checksumSize := by
      rw [List.length_set, length_ofChecksum]
    have hsame := ofChecksum_storedChecksum hsize
    rw [heq] at hsame
    have hlt : i - bs.length < (ofChecksum (Checksum.crc32 bs)).length := by
      rw [length_ofChecksum]
      omega
    have hbyte : (ofChecksum (Checksum.crc32 bs))[i - bs.length] = b := by
      have hget := List.getElem_set_self (a := b) (by rwa [List.length_set])
      simp only [← hsame] at hget
      exact hget
    apply hb
    simp only [sealed, List.getElem_append_right hle, hbyte]

theorem header_of_mismatch {offset : Nat} {bs : Bytes}
    (h : storedChecksum (bs.drop coveredSize) ≠ Checksum.crc32 (bs.take coveredSize)) :
    header offset bs = .error (.checksumMismatch offset (storedChecksum (bs.drop coveredSize))
      (Checksum.crc32 (bs.take coveredSize))) := by
  unfold header
  dsimp only
  rw [if_pos h]
  rfl

theorem body_of_mismatch {offset : Nat} {last : Lsn} {h : Header} {head bs : Bytes}
    (hsum : storedChecksum (bs.drop h.length) ≠ Checksum.crc32 (head ++ bs.take h.length)) :
    body offset last h head bs =
      .error (.checksumMismatch offset (storedChecksum (bs.drop h.length))
        (Checksum.crc32 (head ++ bs.take h.length))) := by
  unfold body
  dsimp only
  rw [if_pos hsum]
  rfl

/-- A frame with a changed byte is damaged, whatever follows. -/
theorem read_set {r : Record} {frame : Bytes} (h : ofRecord r = .ok frame) (hi : i < frame.length)
    (hb : frame[i] ≠ b) (offset : Nat) (last : Lsn) (rest : Bytes) :
    ∃ stored computed, stored ≠ computed ∧
      read offset last (frame.set i b ++ rest) =
        .damaged (.checksumMismatch offset stored computed) := by
  obtain ⟨payload, -, hlt, rfl⟩ := ofRecord_eq_ok_iff.1 h
  have hheader := header_sealed offset r.entry.kind r.lsn hlt
  have hhead := length_head r.entry.kind r.lsn payload.length
  have hcovered := length_covered r.entry.kind r.lsn payload.length
  unfold ofPayload at hi hb ⊢
  generalize covered r.entry.kind r.lsn payload.length = fields at *
  by_cases hpart : i < headerSize
  · -- The checksum of the header tells.
    have hi' : i < (sealed fields).length := by rwa [hhead]
    have hi'' : i < (sealed fields ++ payload).length := by
      rw [List.length_append]
      omega
    have hbyte : (sealed (sealed fields ++ payload))[i] = (sealed fields)[i] :=
      (List.getElem_append_left hi'').trans (List.getElem_append_left hi')
    have hset : (sealed (sealed fields ++ payload)).set i b = (sealed fields).set i b ++
        (payload ++ ofChecksum (Checksum.crc32 (sealed fields ++ payload))) := by
      rw [← List.set_append_left _ _ hi', ← List.append_assoc]
      rfl
    have hmismatch := sealed_set hi' (hbyte ▸ hb)
    rw [hcovered] at hmismatch
    rw [hset, List.append_assoc]
    refine ⟨_, _, hmismatch, read_of_header ?_ (header_of_mismatch hmismatch) _⟩
    rw [List.length_set, hhead]
  · -- The header is as it was, and the checksum of the whole frame tells.
    have hset : (sealed (sealed fields ++ payload)).set i b = sealed fields ++
        (payload ++ ofChecksum (Checksum.crc32 (sealed fields ++ payload))).set
          (i - (sealed fields).length) b := by
      rw [← List.set_append_right _ _ (by omega), ← List.append_assoc]
      rfl
    have hmismatch := sealed_set hi hb
    rw [hset, List.length_append, List.take_length_add_append, List.drop_length_add_append]
      at hmismatch
    rw [hset, List.append_assoc]
    refine ⟨_, _, hmismatch, ?_⟩
    rw [read_of_body hhead hheader (by simp), body_of_mismatch hmismatch]

/-- The frame that a byte is in. -/
theorem exists_frame_at {rs : List Record} {bs : Bytes} (h : ofRecords rs = .ok bs)
    (hi : i < bs.length) :
    ∃ before r after front frame back, rs = before ++ r :: after ∧
      ofRecords before = .ok front ∧ ofRecord r = .ok frame ∧ bs = front ++ (frame ++ back) ∧
      front.length ≤ i ∧ i < front.length + frame.length := by
  induction rs generalizing bs i with
  | nil =>
    cases h
    cases hi
  | cons r rs ih =>
    obtain ⟨frame, frames, hframe, hframes, rfl⟩ := ofRecords_cons_eq_ok_iff.1 h
    by_cases hfirst : i < frame.length
    · exact ⟨[], r, rs, [], frame, frames, rfl, rfl, hframe, rfl, Nat.zero_le _, by simpa⟩
    · rw [List.length_append] at hi
      obtain ⟨before, r', after, front, frame', back, rfl, hfront, hframe', rfl, hle, hlt⟩ :=
        ih hframes (i := i - frame.length) (by omega)
      refine ⟨r :: before, r', after, frame ++ front, frame', back, rfl,
        ofRecords_cons_eq_ok_iff.2 ⟨frame, front, hframe, hfront, rfl⟩, hframe',
        (List.append_assoc ..).symm, ?_, ?_⟩ <;>
      · rw [List.length_append]
        omega

end Frame

/-! ## A log with a changed byte -/

variable {store : Store} {e : Error}

theorem Log.openOn_of_damaged (h : (Scan.ofBytes store.toList).ending = .damaged e) :
    openOn store = .error (e, store) := by
  unfold openOn
  dsimp only
  rw [h]

theorem Environment.openOn_of_damaged (h : (Scan.ofBytes store.toList).ending = .damaged e)
    (config : Config) (now : Instant) :
    ∃ e', openOn config store now = .error (e', store) ∧ (config.validate = .ok () → e' = e) := by
  unfold openOn
  rw [Log.openOn_of_damaged h]
  cases hvalid : config.validate with
  | error e' => exact ⟨e', rfl, nofun⟩
  | ok _ => exact ⟨e, rfl, fun _ => rfl⟩

/-- **A log with a changed byte.** Behind the records in front of the frame that the byte is in, a
cursor answers that a checksum at the start of this frame does not match, and then nothing more,
without having met a torn tail. Neither the log nor an environment over it can be opened, and the
store is left as it is. -/
theorem Cursor.steps_of_damage {rs : List Record} {frames : Bytes}
    (hframes : Frame.ofRecords rs = .ok frames) (hfollow : Follow .zero rs) {i : Nat}
    (hi : i < frames.length) {b : UInt8} (hb : frames[i] ≠ b) (tail : Bytes)
    (hbytes : store.toList = (frames ++ tail).set i b) :
    ∃ before start r after stored computed,
      Frame.place 0 rs = before ++ (start, r) :: after ∧
      start ≤ i ∧ i < Frame.stop (start, r) ∧ stored ≠ computed ∧
      (∀ n, before.length < n → (ofStore store).steps n =
        (⟨store, start, endLsn .zero (before.map (·.2)), false, true⟩,
          before.map (fun item => some (.ok item)) ++
            some (.error (.checksumMismatch start stored computed)) ::
              List.replicate (n - (before.length + 1)) none)) ∧
      Log.openOn store = .error (.checksumMismatch start stored computed, store) ∧
      ∀ config now, ∃ e, Environment.openOn config store now = .error (e, store) ∧
        (config.validate = .ok () → e = .checksumMismatch start stored computed) := by
  obtain ⟨before, r, after, front, frame, back, rfl, hfront, hframe, rfl, hle, hlt⟩ :=
    Frame.exists_frame_at hframes hi
  have hin : i - front.length < frame.length := by omega
  have hbyte : frame[i - front.length] ≠ b := by
    rwa [List.getElem_append_right hle, List.getElem_append_left hin] at hb
  obtain ⟨stored, computed, hne, hread⟩ := Frame.read_set hframe hin hbyte (0 + front.length)
    (endLsn .zero before) (back ++ tail)
  have hset : store.toList = front ++ (frame.set (i - front.length) b ++ (back ++ tail)) := by
    rw [hbytes, List.append_assoc, List.set_append_right _ _ hle, List.append_assoc,
      List.set_append_left _ _ hin]
  have hscan : Scan.ofBytes store.toList = ⟨Frame.place 0 before,
      .damaged (.checksumMismatch front.length stored computed), front.length,
      endLsn .zero before⟩ := by
    rw [hset, Scan.ofBytes, Scan.go_append hfront (Record.follow_append.1 hfollow).1,
      Scan.go_of_damaged hread, List.append_nil, Nat.zero_add]
  refine ⟨Frame.place 0 before, front.length, r, Frame.place (front.length + Frame.size r) after,
    stored, computed, ?_, hle, ?_, hne, fun n hn => ?_, ?_, ?_⟩
  · rw [Frame.place_append hfront, Nat.zero_add, Frame.place]
  · rwa [Frame.stop, Frame.size_of_ofRecord hframe]
  · rw [steps_ofStore (by rwa [hscan]), hscan, stopped, Frame.map_snd_place, Scan.answers]
    obtain ⟨m, rfl⟩ : ∃ m, n = (Frame.place 0 before).length + 1 + m :=
      Nat.exists_eq_add_of_lt hn |>.imp fun m hm => by omega
    rw [Nat.add_sub_cancel_left, Nat.add_assoc, Nat.add_sub_cancel_left, Nat.add_comm 1]
    rfl
  · exact Log.openOn_of_damaged (by rw [hscan])
  · exact Environment.openOn_of_damaged (by rw [hscan])

/-- A damaged length in the second of two frames, which would have the frame go on past the end of
the log. -/
theorem Cursor.steps_of_damage_length : ∃ frames, Frame.ofRecords twoRecords = .ok frames ∧
    Follow .zero twoRecords ∧ ∃ h : 52 < frames.length, frames[52] ≠ 0xFF ∧
      ∃ e, e.isCorruption = true ∧
        ((ofStore (.ofBytes (frames.set 52 0xFF))).steps 3).2 =
          [some (.ok (0, ⟨⟨1⟩, .put [1] [2]⟩)), some (.error e), none] ∧
        Log.openOn (.ofBytes (frames.set 52 0xFF)) = .error (e, .ofBytes (frames.set 52 0xFF)) := by
  obtain ⟨frames, hframes, h, hb⟩ : ∃ frames, Frame.ofRecords twoRecords = .ok frames ∧
      ∃ h : 52 < frames.length, frames[52] ≠ 0xFF := ⟨_, rfl, by decide +kernel, by decide +kernel⟩
  have hfollow : Follow .zero twoRecords := by decide
  have hplace : Frame.place 0 twoRecords =
      [(0, ⟨⟨1⟩, .put [1] [2]⟩), (37, ⟨⟨2⟩, .commit ⟨7⟩⟩)] := by decide +kernel
  have hfirst : Frame.stop (0, ⟨⟨1⟩, .put [1] [2]⟩) = 37 := by decide +kernel
  obtain ⟨before, start, r, after, stored, computed, hsplit, -, hlt, -, hsteps, hopen, -⟩ :=
    steps_of_damage hframes hfollow h hb [] (Store.toList_ofBytes _)
  rw [List.append_nil] at hsteps hopen
  rw [hplace] at hsplit
  refine ⟨frames, hframes, hfollow, h, hb, _, rfl, ?_, hopen⟩
  match before, hsplit with
  | [], hsplit =>
    cases hsplit
    omega
  | [_], hsplit =>
    cases hsplit
    exact congrArg Prod.snd (hsteps 3 (by decide))
  | [_, _], hsplit => cases hsplit
  | _ :: _ :: _ :: _, hsplit => cases hsplit

end WalStore

import WalStore.Record.Frame
import WalStore.Proofs.Ident
import WalStore.Proofs.Record.Payload

/-!
# Reading back frames

Reading the front of a log gives back a frame that was written there (`read_ofRecord`), and a frame
that can be read is the one that would have been written (`ofRecord_of_read`). A frame that is cut
short anywhere reads as torn, never as damage (`read_take`).
-/

namespace WalStore.Frame

/-! ## Checksums -/

@[simp] theorem length_ofChecksum (crc : UInt32) : (ofChecksum crc).length = checksumSize :=
  Bytes.length_ofNatLE ..

@[simp] theorem length_sealed (bs : Bytes) : (sealed bs).length = bs.length + checksumSize := by
  rw [sealed, List.length_append, length_ofChecksum]

theorem storedChecksum_ofChecksum (crc : UInt32) (rest : Bytes) :
    storedChecksum (ofChecksum crc ++ rest) = crc := by
  have hcrc : Bytes.toNatLE (ofChecksum crc) = crc.toNat :=
    Payload.toNatLE_ofNatLE_of_lt (show crc.toNat < Bytes.capacity 4 from crc.toNat_lt)
  rw [storedChecksum, List.take_left' (length_ofChecksum crc), hcrc, UInt32.ofNat_toNat]

theorem ofChecksum_storedChecksum {bs : Bytes} (h : bs.length = checksumSize) :
    ofChecksum (storedChecksum bs) = bs := by
  have hlt : Bytes.toNatLE bs < UInt32.size := by
    have := Bytes.toNatLE_lt bs
    rwa [h] at this
  rw [storedChecksum, ← h, List.take_length, ofChecksum, UInt32.toNat_ofNat_of_lt' hlt, ← h,
    Bytes.ofNatLE_toNatLE]

/-! ## Headers -/

theorem covered_eq (kind : Kind) (lsn : Lsn) (length : Nat) :
    covered kind lsn length = 0x53 :: 0x4C :: 0x4F :: 0x47 :: 1 :: 0 :: kind.toByte ::
      (Bytes.ofNatLE 8 lsn.toNat ++ Bytes.ofNatLE 4 length) := rfl

@[simp] theorem length_covered (kind : Kind) (lsn : Lsn) (length : Nat) :
    (covered kind lsn length).length = coveredSize := by
  simp [covered_eq, coveredSize]

/-- What it takes to read a header. -/
theorem header_eq_ok_iff {offset : Nat} {bs : Bytes} {h : Header} :
    header offset bs = .ok h ↔
      storedChecksum (bs.drop coveredSize) = Checksum.crc32 (bs.take coveredSize) ∧
        bs.take 4 = magic ∧ Bytes.toNatLE ((bs.drop 4).take 2) = version ∧
        Kind.ofByte? ((bs.drop 6).headD 0) = some h.kind ∧
        h.lsn = .ofNat (Bytes.toNatLE ((bs.drop 7).take 8)) ∧
        h.length = Bytes.toNatLE ((bs.drop 15).take 4) := by
  obtain ⟨kind, lsn, length⟩ := h
  unfold header
  by_cases hsum : storedChecksum (bs.drop coveredSize) ≠ Checksum.crc32 (bs.take coveredSize)
  · simp [hsum, throw, throwThe, MonadExceptOf.throw, bind, Except.bind]
  rw [Decidable.not_not] at hsum
  by_cases hmagic : bs.take 4 ≠ magic
  · simp [hsum, hmagic, throw, throwThe, MonadExceptOf.throw, bind, Except.bind]
  rw [Decidable.not_not] at hmagic
  by_cases hversion : Bytes.toNatLE ((bs.drop 4).take 2) ≠ version
  · simp [hsum, hmagic, hversion, throw, throwThe, MonadExceptOf.throw, bind, Except.bind]
  rw [Decidable.not_not] at hversion
  cases hkind : Kind.ofByte? ((bs.drop 6).headD 0) with
  | none =>
    simp only [hsum, hmagic, hversion, hkind, ne_eq, not_true_eq_false, if_false, throw, throwThe,
      MonadExceptOf.throw, reduceCtorEq, false_and, and_false]
  | some k =>
    simp only [hsum, hmagic, hversion, hkind, ne_eq, not_true_eq_false, if_false, pure, Except.pure,
      Except.ok.injEq, Option.some.injEq, Header.mk.injEq, true_and, eq_comm]

/-- A header is read back. -/
theorem header_sealed (offset : Nat) (kind : Kind) (lsn : Lsn) {length : Nat}
    (hlength : length < payloadLimit) :
    header offset (sealed (covered kind lsn length)) = .ok ⟨kind, lsn, length⟩ := by
  have hstored : storedChecksum ((sealed (covered kind lsn length)).drop coveredSize) =
      Checksum.crc32 (covered kind lsn length) := by
    rw [sealed, List.drop_left' (length_covered ..)]
    have := storedChecksum_ofChecksum (Checksum.crc32 (covered kind lsn length)) []
    rwa [List.append_nil] at this
  have htake : (sealed (covered kind lsn length)).take coveredSize = covered kind lsn length :=
    List.take_left' (length_covered ..)
  have hlsn : Bytes.toNatLE (Bytes.ofNatLE 8 lsn.toNat) = lsn.toNat :=
    Payload.toNatLE_ofNatLE_of_lt (show lsn.val.toNat < Bytes.capacity 8 from lsn.val.toNat_lt)
  have hlen : Bytes.toNatLE (Bytes.ofNatLE 4 length) = length :=
    Payload.toNatLE_ofNatLE_of_lt hlength
  rw [header_eq_ok_iff, hstored, htake, sealed, covered_eq]
  generalize ofChecksum _ = crc
  refine ⟨rfl, rfl, rfl, Kind.ofByte?_eq_some_iff.2 rfl, ?_, ?_⟩
  · show lsn = .ofNat (Bytes.toNatLE (((Bytes.ofNatLE 8 lsn.toNat ++ Bytes.ofNatLE 4 length) ++
      crc).take 8))
    rw [List.append_assoc, List.take_left' (Bytes.length_ofNatLE ..), hlsn, Lsn.ofNat_toNat]
  · show length = Bytes.toNatLE ((((Bytes.ofNatLE 8 lsn.toNat ++ Bytes.ofNatLE 4 length) ++
      crc).drop 8).take 4)
    rw [List.append_assoc, List.drop_left' (Bytes.length_ofNatLE ..),
      List.take_left' (Bytes.length_ofNatLE ..), hlen]

/-- A header that can be read is the one that would have been written. -/
theorem eq_sealed_of_header {offset : Nat} {bs : Bytes} {h : Header}
    (hsize : bs.length = headerSize) (hread : header offset bs = .ok h) :
    bs = sealed (covered h.kind h.lsn h.length) ∧ h.length < payloadLimit := by
  obtain ⟨hsum, hmagic, hversion, hkind, hlsn, hlength⟩ := header_eq_ok_iff.1 hread
  have hchunk (start n : Nat) (hle : start + n ≤ headerSize) :
      Bytes.ofNatLE n (Bytes.toNatLE ((bs.drop start).take n)) = (bs.drop start).take n ∧
        ((bs.drop start).take n).length = n := by
    have hlen : ((bs.drop start).take n).length = n := by
      rw [List.length_take, List.length_drop, hsize]
      omega
    refine ⟨?_, hlen⟩
    have := Bytes.ofNatLE_toNatLE ((bs.drop start).take n)
    rwa [hlen] at this
  have hlt : h.length < payloadLimit := by
    have := Bytes.toNatLE_lt ((bs.drop 15).take 4)
    rwa [(hchunk 15 4 (by decide)).2, ← hlength] at this
  refine ⟨?_, hlt⟩
  have hcovered : bs.take coveredSize = covered h.kind h.lsn h.length := by
    have hbyte : (bs.drop 6).take 1 = [h.kind.toByte] := by
      rw [Kind.ofByte?_eq_some_iff] at hkind
      have hlen := (hchunk 6 1 (by decide)).2
      rw [← hkind]
      cases hdrop : bs.drop 6 with
      | nil => rw [hdrop] at hlen; cases hlen
      | cons b rest => rfl
    have hword : Bytes.toNatLE ((bs.drop 7).take 8) < UInt64.size := by
      have := Bytes.toNatLE_lt ((bs.drop 7).take 8)
      rwa [(hchunk 7 8 (by decide)).2] at this
    have hsplit : bs.take coveredSize = bs.take 4 ++ (bs.drop 4).take 2 ++ (bs.drop 6).take 1 ++
        (bs.drop 7).take 8 ++ (bs.drop 15).take 4 := by
      rw [show coveredSize = 4 + 2 + 1 + 8 + 4 from rfl]
      simp only [List.take_add, List.append_assoc]
    rw [hsplit, hmagic, hbyte, ← (hchunk 4 2 (by decide)).1, hversion,
      ← (hchunk 7 8 (by decide)).1, ← (hchunk 15 4 (by decide)).1, ← hlength, hlsn, covered,
      Lsn.toNat_ofNat hword]
  have hchecksum : bs.drop coveredSize = ofChecksum (Checksum.crc32 (bs.take coveredSize)) := by
    rw [← hsum, ofChecksum_storedChecksum]
    rw [List.length_drop, hsize]
    rfl
  rw [← List.take_append_drop coveredSize bs, hchecksum, hcovered, sealed]

/-! ## Bodies -/

/-- What it takes to read a payload and its checksum. -/
theorem body_eq_ok_iff {offset : Nat} {last : Lsn} {h : Header} {head bs : Bytes} {r : Record} :
    body offset last h head bs = .ok r ↔
      storedChecksum (bs.drop h.length) = Checksum.crc32 (head ++ bs.take h.length) ∧
        last < h.lsn ∧ r.lsn = h.lsn ∧ Payload.decode h.kind (bs.take h.length) = .ok r.entry := by
  obtain ⟨lsn, entry⟩ := r
  unfold body
  by_cases hsum : storedChecksum (bs.drop h.length) ≠
      Checksum.crc32 (head ++ bs.take h.length)
  · simp [hsum, throw, throwThe, MonadExceptOf.throw, bind, Except.bind]
  rw [Decidable.not_not] at hsum
  by_cases hlsn : h.lsn ≤ last
  · have hnot : ¬last < h.lsn := fun hlt => Lsn.not_le.2 hlt hlsn
    simp [hsum, hlsn, hnot, throw, throwThe, MonadExceptOf.throw, bind, Except.bind]
  have hlt := Lsn.not_le.1 hlsn
  cases hentry : Payload.decode h.kind (bs.take h.length) with
  | error =>
    simp only [hsum, hlsn, hentry, ne_eq, not_true_eq_false, if_false, bind, Except.bind,
      reduceCtorEq, and_false]
  | ok e =>
    simp only [hsum, hlsn, hlt, hentry, ne_eq, not_true_eq_false, if_false, bind, Except.bind, pure,
      Except.pure, Except.ok.injEq, Record.mk.injEq, true_and, eq_comm]

/-! ## Frames -/

theorem ofRecord_eq_ok_iff {r : Record} {frame : Bytes} :
    ofRecord r = .ok frame ↔ ∃ payload, Payload.ofEntry r.entry = .ok payload ∧
      payload.length < payloadLimit ∧ frame = ofPayload r.entry.kind r.lsn payload := by
  unfold ofRecord
  cases hpayload : Payload.ofEntry r.entry with
  | error => simp [bind, Except.bind]
  | ok payload =>
    by_cases hlt : payload.length < payloadLimit
    · simp [hlt, bind, Except.bind, pure, Except.pure, eq_comm]
    · simp [hlt, bind, Except.bind]

theorem ofPayload_eq (kind : Kind) (lsn : Lsn) (payload : Bytes) :
    ofPayload kind lsn payload = sealed (covered kind lsn payload.length) ++ (payload ++
      ofChecksum (Checksum.crc32 (sealed (covered kind lsn payload.length) ++ payload))) :=
  List.append_assoc ..

@[simp] theorem length_head (kind : Kind) (lsn : Lsn) (length : Nat) :
    (sealed (covered kind lsn length)).length = headerSize := by
  rw [length_sealed, length_covered]
  rfl

theorem length_ofPayload (kind : Kind) (lsn : Lsn) (payload : Bytes) :
    (ofPayload kind lsn payload).length = headerSize + (payload.length + checksumSize) := by
  rw [ofPayload_eq, List.length_append, length_head, List.length_append, length_ofChecksum]

/-- A frame is not empty. -/
theorem length_pos_of_ofRecord {r : Record} {frame : Bytes} (h : ofRecord r = .ok frame) :
    0 < frame.length := by
  obtain ⟨payload, -, -, rfl⟩ := ofRecord_eq_ok_iff.1 h
  rw [length_ofPayload, headerSize]
  omega

/-! ### Reading the front of a log -/

section Read

variable {offset : Nat} {last : Lsn} {head : Bytes} (hhead : head.length = headerSize)

include hhead

/-- A header that is refused is damage. -/
theorem read_of_header {e : Error} (h : header offset head = .error e) (rest : Bytes) :
    read offset last (head ++ rest) = .damaged e := by
  have hne : ¬(head ++ rest).isEmpty = true := by
    rw [List.isEmpty_iff, List.append_eq_nil_iff]
    rintro ⟨rfl, -⟩
    cases hhead
  unfold read
  rw [if_neg hne]
  dsimp only
  rw [List.take_left' hhead, if_neg (by omega), h]

/-- Behind a header, the payload and the checksum decide. -/
theorem read_of_body {h : Header} (hheader : header offset head = .ok h) {tail : Bytes}
    (htail : tail.length = h.length + checksumSize) (rest : Bytes) :
    read offset last (head ++ (tail ++ rest)) =
      match body offset last h head tail with
      | .error e => .damaged e
      | .ok r => .record r (headerSize + (h.length + checksumSize)) := by
  have hne : ¬(head ++ (tail ++ rest)).isEmpty = true := by
    rw [List.isEmpty_iff, List.append_eq_nil_iff]
    rintro ⟨rfl, -⟩
    cases hhead
  unfold read
  rw [if_neg hne]
  dsimp only
  rw [List.take_left' hhead, if_neg (by omega), hheader]
  dsimp only
  rw [List.drop_left' hhead]
  cases hbody : body offset last h head tail <;>
    rw [List.take_left' htail, if_neg (by omega), hbody]

end Read

/-- A frame is read back, whatever follows. -/
theorem read_ofRecord {r : Record} {frame : Bytes} (h : ofRecord r = .ok frame) {last : Lsn}
    (hlast : last < r.lsn) (offset : Nat) (rest : Bytes) :
    read offset last (frame ++ rest) = .record r frame.length := by
  obtain ⟨payload, hpayload, hlt, rfl⟩ := ofRecord_eq_ok_iff.1 h
  rw [length_ofPayload, ofPayload_eq, List.append_assoc]
  have hhead := length_head r.entry.kind r.lsn payload.length
  have hheader := header_sealed offset r.entry.kind r.lsn hlt
  generalize sealed (covered r.entry.kind r.lsn payload.length) = head at hhead hheader
  have hbody : body offset last ⟨r.entry.kind, r.lsn, payload.length⟩ head
      (payload ++ ofChecksum (Checksum.crc32 (head ++ payload))) = .ok r := by
    rw [body_eq_ok_iff, List.drop_left, List.take_left]
    have hstored := storedChecksum_ofChecksum (Checksum.crc32 (head ++ payload)) []
    rw [List.append_nil] at hstored
    exact ⟨hstored, hlast, rfl, Payload.decode_ofEntry hpayload⟩
  rw [read_of_body hhead hheader (by simp), hbody]

/-- A frame that can be read is the one that would have been written. -/
theorem ofRecord_of_read {offset size : Nat} {last : Lsn} {bs : Bytes} {r : Record}
    (h : read offset last bs = .record r size) :
    last < r.lsn ∧ ∃ frame, ofRecord r = .ok frame ∧ size = frame.length ∧
      bs = frame ++ bs.drop size := by
  unfold read at h
  split at h
  · cases h
  dsimp only at h
  split at h
  · cases h
  next hhead =>
  split at h
  · cases h
  next hd hheader =>
  split at h
  · cases h
  next htail =>
  split at h
  · cases h
  next r' hbody =>
  cases h
  have hsize : (bs.take headerSize).length = headerSize := by
    have := List.length_take_le headerSize bs
    omega
  have htailSize : ((bs.drop headerSize).take (hd.length + checksumSize)).length =
      hd.length + checksumSize := by
    have := List.length_take_le (hd.length + checksumSize) (bs.drop headerSize)
    omega
  obtain ⟨heq, hlt⟩ := eq_sealed_of_header hsize hheader
  obtain ⟨hsum, hlast, hlsn, hdecode⟩ := body_eq_ok_iff.1 hbody
  obtain ⟨hkind, hpayload⟩ := Payload.ofEntry_of_decode hdecode
  have hsplit : bs = bs.take headerSize ++ ((bs.drop headerSize).take (hd.length + checksumSize) ++
      bs.drop (headerSize + (hd.length + checksumSize))) := by
    rw [← List.drop_drop, List.take_append_drop, List.take_append_drop]
  generalize htaken : (bs.drop headerSize).take (hd.length + checksumSize) = tail at *
  have hlen : (tail.take hd.length).length = hd.length := by
    rw [List.length_take]
    omega
  have hchecksum : tail.drop hd.length =
      ofChecksum (Checksum.crc32 (bs.take headerSize ++ tail.take hd.length)) := by
    rw [← hsum, ofChecksum_storedChecksum]
    rw [List.length_drop]
    omega
  refine ⟨by rw [hlsn]; exact hlast, ofPayload hd.kind hd.lsn (tail.take hd.length), ?_, ?_, ?_⟩
  · rw [ofRecord_eq_ok_iff, hkind, hlsn]
    exact ⟨_, hpayload, by rwa [hlen], rfl⟩
  · rw [length_ofPayload, hlen]
  · rw [ofPayload_eq, hlen, ← heq, ← hchecksum, List.take_append_drop, List.append_assoc]
    exact hsplit

theorem eq_nil_of_read {offset : Nat} {last : Lsn} {bs : Bytes}
    (h : read offset last bs = .finished) : bs = [] := by
  unfold read at h
  split at h
  · next hnil => exact List.isEmpty_iff.1 hnil
  dsimp only at h
  split at h
  · cases h
  split at h
  · cases h
  split at h
  · cases h
  split at h <;> cases h

@[simp] theorem read_nil (offset : Nat) (last : Lsn) : read offset last [] = .finished := rfl

/-- A frame that is cut short reads as torn. -/
theorem read_take {r : Record} {frame : Bytes} (h : ofRecord r = .ok frame) {k : Nat} (hpos : 0 < k)
    (hk : k < frame.length) (offset : Nat) (last : Lsn) :
    read offset last (frame.take k) = .torn := by
  obtain ⟨payload, -, hlt, rfl⟩ := ofRecord_eq_ok_iff.1 h
  have hlen := length_head r.entry.kind r.lsn payload.length
  have hheader := header_sealed offset r.entry.kind r.lsn hlt
  rw [length_ofPayload] at hk
  have hne : ¬((ofPayload r.entry.kind r.lsn payload).take k).isEmpty = true := by
    rw [List.isEmpty_iff, List.take_eq_nil_iff, ← List.length_eq_zero_iff, length_ofPayload,
      headerSize]
    omega
  unfold read
  rw [if_neg hne]
  dsimp only
  split
  · rfl
  next hhead =>
  have hle : headerSize ≤ k := by
    rw [List.length_take, List.length_take] at hhead
    omega
  rw [List.take_take, Nat.min_eq_left hle, ofPayload_eq, List.take_left' hlen, hheader]
  dsimp only
  rw [if_pos]
  simp only [List.length_take, List.length_drop, List.length_append, length_ofChecksum, hlen]
  omega

end WalStore.Frame

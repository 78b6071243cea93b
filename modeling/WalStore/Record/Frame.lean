import WalStore.Checksum
import WalStore.Record.Payload

/-!
# Frames

A record in the log is a frame: a header of 23 bytes, the payload, and a checksum over both.
The header is the magic bytes, the version, the kind, the position, the payload's length and a
checksum over these. Because the header has a checksum of its own, a damaged length is seen as
damage and never as a frame that the end of the log cut short.

`read` looks at the front of what is left of a log and says which of four things stands there:
nothing, a frame cut short, damage, or a record.
-/

namespace WalStore.Frame

/-- The four bytes `SLOG`. -/
def magic : Bytes := [0x53, 0x4C, 0x4F, 0x47]

/-- The version written, and the only one that is read. -/
def version : Nat := 1

/-- The bytes in front of the payload. -/
def headerSize : Nat := 23

/-- How much of the header its checksum covers. -/
def coveredSize : Nat := 19

/-- The bytes behind the payload. -/
def checksumSize : Nat := 4

/-- Payloads of this length or more have no frame. -/
def payloadLimit : Nat := UInt32.size

/-! ## Writing -/

/-- A checksum as it is written. -/
def ofChecksum (crc : UInt32) : Bytes := .ofNatLE checksumSize crc.toNat

/-- The part of the header that its checksum covers. -/
def covered (kind : Kind) (lsn : Lsn) (length : Nat) : Bytes :=
  magic ++ .ofNatLE 2 version ++ [kind.toByte] ++ .ofNatLE 8 lsn.toNat ++ .ofNatLE 4 length

/-- `bs` and its checksum. -/
def sealed (bs : Bytes) : Bytes := bs ++ ofChecksum (Checksum.crc32 bs)

/-- The frame of a payload. -/
def ofPayload (kind : Kind) (lsn : Lsn) (payload : Bytes) : Bytes :=
  sealed (sealed (covered kind lsn payload.length) ++ payload)

/-- The frame of a record. -/
def ofRecord (r : Record) : Except Error Bytes := do
  let payload ← Payload.ofEntry r.entry
  if payload.length < payloadLimit then return ofPayload r.entry.kind r.lsn payload
  else .error (.invalidOperation .payloadTooLong)

/-! ## Reading -/

/-- What stands at the front of the rest of a log. -/
inductive Front where
  /-- Nothing. -/
  | finished
  /-- The beginning of a frame that is not all there. -/
  | torn
  | damaged (error : Error)
  /-- A record, and the size of its frame. -/
  | record (r : Record) (size : Nat)
  deriving DecidableEq

/-- Reads the checksum in front of `bs`. -/
def storedChecksum (bs : Bytes) : UInt32 := .ofNat (Bytes.toNatLE (bs.take checksumSize))

/-- The fields of a header whose checksum holds. -/
structure Header where
  kind : Kind
  lsn : Lsn
  /-- Length of the payload. -/
  length : Nat

/-- Reads a header of full length that starts at `offset`. -/
def header (offset : Nat) (bs : Bytes) : Except Error Header := do
  let stored := storedChecksum (bs.drop coveredSize)
  let computed := Checksum.crc32 (bs.take coveredSize)
  if stored ≠ computed then throw (.checksumMismatch offset stored computed)
  if bs.take 4 ≠ magic then throw (.corruption (.badMagic offset))
  let found := Bytes.toNatLE ((bs.drop 4).take 2)
  if found ≠ version then throw (.corruption (.unsupportedVersion found offset))
  let kindByte := (bs.drop 6).headD 0
  match Kind.ofByte? kindByte with
  | none => throw (.corruption (.unknownKind kindByte offset))
  | some kind =>
    return ⟨kind, .ofNat (Bytes.toNatLE ((bs.drop 7).take 8)),
      Bytes.toNatLE ((bs.drop 15).take 4)⟩

/-- Reads the payload and the checksum behind the header `head`, whose fields are `h`. -/
def body (offset : Nat) (last : Lsn) (h : Header) (head bs : Bytes) : Except Error Record := do
  let payload := bs.take h.length
  let stored := storedChecksum (bs.drop h.length)
  let computed := Checksum.crc32 (head ++ payload)
  if stored ≠ computed then throw (.checksumMismatch offset stored computed)
  if h.lsn ≤ last then throw (.corruption (.outOfOrder h.lsn offset last))
  let entry ← Payload.decode h.kind payload
  return ⟨h.lsn, entry⟩

/-- Reads the front of `bs`, the rest of a log from `offset` on, after a record at `last`. -/
def read (offset : Nat) (last : Lsn) (bs : Bytes) : Front :=
  if bs.isEmpty then .finished
  else
    let head := bs.take headerSize
    if head.length < headerSize then .torn
    else
      match header offset head with
      | .error e => .damaged e
      | .ok h =>
        let size := h.length + checksumSize
        let tail := (bs.drop headerSize).take size
        if tail.length < size then .torn
        else
          match body offset last h head tail with
          | .error e => .damaged e
          | .ok r => .record r (headerSize + size)

theorem size_le_of_read {offset size : Nat} {last : Lsn} {bs : Bytes} {r : Record}
    (h : read offset last bs = .record r size) :
    headerSize + checksumSize ≤ size ∧ size ≤ bs.length := by
  unfold read at h
  split at h
  · cases h
  · dsimp only at h
    split at h
    · cases h
    · split at h
      · cases h
      · split at h
        · cases h
        · split at h
          · cases h
          · next hhead _ hd _ htail _ _ _ =>
            cases h
            simp only [List.length_take, List.length_drop, headerSize, checksumSize]
              at hhead htail ⊢
            omega

end WalStore.Frame

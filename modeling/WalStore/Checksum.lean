import WalStore.Bytes

/-!
# CRC-32

The checksum of the reflected polynomial `0xEDB88320`, with an all-ones start value and a final
inversion. It is a left fold over the bytes (`update_append`), so a checksum over a header and a
payload is the checksum over their concatenation.
-/

namespace WalStore.Checksum

/-- The reversed generator polynomial. -/
def polynomial : UInt32 := 0xEDB88320

/-- Divides one bit off the register. -/
def shift (crc : UInt32) : UInt32 :=
  if crc &&& 1 = 1 then (crc >>> 1) ^^^ polynomial else crc >>> 1

/-- Feeds one byte, lowest bit first. -/
def step (crc : UInt32) (b : UInt8) : UInt32 :=
  shift <| shift <| shift <| shift <| shift <| shift <| shift <| shift (crc ^^^ b.toUInt32)

/-- Feeds bytes one after another. -/
def update (crc : UInt32) (bs : Bytes) : UInt32 := bs.foldl step crc

/-- The checksum of some bytes. -/
def crc32 (bs : Bytes) : UInt32 := update 0xFFFFFFFF bs ^^^ 0xFFFFFFFF

theorem update_append (crc : UInt32) (bs cs : Bytes) :
    update crc (bs ++ cs) = update (update crc bs) cs := List.foldl_append

/-- The check value of the standard: the checksum of the digits `1` to `9`. -/
example : crc32 [0x31, 0x32, 0x33, 0x34, 0x35, 0x36, 0x37, 0x38, 0x39] = 0xCBF43926 := by
  decide +kernel

end WalStore.Checksum

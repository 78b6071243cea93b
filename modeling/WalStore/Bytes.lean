/-!
# Byte strings

Keys, values and everything a store holds are lists of bytes, ordered lexicographically.
Numbers travel little-endian in a fixed width: `toNatLE_ofNatLE` reads back what was written,
`ofNatLE_toNatLE` writes back what was read.
-/

namespace WalStore

abbrev Bytes := List UInt8

namespace Bytes

/-- The `width` little-endian bytes of `n`; what does not fit is dropped. -/
def ofNatLE : Nat → Nat → Bytes
  | 0, _ => []
  | width + 1, n => UInt8.ofNat (n % 256) :: ofNatLE width (n / 256)

/-- The number with the given little-endian bytes. -/
def toNatLE : Bytes → Nat
  | [] => 0
  | b :: bs => b.toNat + 256 * toNatLE bs

@[simp] theorem length_ofNatLE (width n : Nat) : (ofNatLE width n).length = width := by
  induction width generalizing n with
  | zero => rfl
  | succ width ih => simp [ofNatLE, ih]

/-- How many numbers fit in so many bytes. -/
def capacity : Nat → Nat
  | 0 => 1
  | width + 1 => 256 * capacity width

theorem toNatLE_ofNatLE (width n : Nat) : toNatLE (ofNatLE width n) = n % capacity width := by
  induction width generalizing n with
  | zero => simp [ofNatLE, toNatLE, capacity, Nat.mod_one]
  | succ width ih =>
    have h : (UInt8.ofNat (n % 256)).toNat = n % 256 :=
      UInt8.toNat_ofNat_of_lt' (Nat.mod_lt n (by decide))
    rw [ofNatLE, toNatLE, ih, h, capacity, Nat.mod_mul]

theorem toNatLE_lt (bs : Bytes) : toNatLE bs < capacity bs.length := by
  induction bs with
  | nil => simp [toNatLE, capacity]
  | cons b bs ih =>
    have hb : b.toNat < 256 := b.toNat_lt
    rw [toNatLE, List.length_cons, capacity]
    omega

theorem ofNatLE_toNatLE (bs : Bytes) : ofNatLE bs.length (toNatLE bs) = bs := by
  induction bs with
  | nil => rfl
  | cons b bs ih =>
    have hb : b.toNat < 256 := b.toNat_lt
    rw [List.length_cons, ofNatLE, toNatLE]
    have h₁ : (b.toNat + 256 * toNatLE bs) % 256 = b.toNat := by omega
    have h₂ : (b.toNat + 256 * toNatLE bs) / 256 = toNatLE bs := by omega
    rw [h₁, h₂, ih, UInt8.ofNat_toNat]

/-- The UTF-8 bytes of a text. -/
def ofText (s : String) : Bytes := s.toUTF8.data.toList

/-- The text whose UTF-8 bytes these are, if they are well-formed UTF-8. -/
def toText? (bs : Bytes) : Option String := String.fromUTF8? ⟨bs.toArray⟩

/-! ## Hexadecimal digits -/

/-- Two lower-case hexadecimal digits. -/
def hexByte (b : UInt8) : String :=
  String.ofList [Nat.digitChar (b.toNat / 16), Nat.digitChar (b.toNat % 16)]

/-- The bytes in lower-case hexadecimal digits. -/
def toHex (bs : Bytes) : String := String.join (bs.map hexByte)

/-- What a lower-case hexadecimal digit stands for. -/
def hexValue (c : Char) : Nat := if c.isDigit then c.toNat - 48 else c.toNat - 87

/-- The bytes that pairs of lower-case hexadecimal digits stand for. -/
def ofHexDigits : List Char → Bytes
  | a :: b :: rest => .ofNat (16 * hexValue a + hexValue b) :: ofHexDigits rest
  | _ => []

def ofHex (s : String) : Bytes := ofHexDigits s.toList

end Bytes
end WalStore

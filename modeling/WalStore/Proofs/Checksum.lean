import Mathlib.Logic.Function.Basic
import WalStore.Checksum

/-!
# The checksum notices a changed byte

**Main result (`crc32_set_ne`).** Two byte strings that differ in a single byte have different
checksums, however long they are.

Dividing one bit off the register can be undone: the generator has its highest bit set, so the
highest bit of the result tells which bit went off (`shift_injective`). Feeding a byte is therefore
injective both in the register and in the byte, and a difference that got into the register stays
there whatever is fed afterwards.
-/

namespace WalStore.Checksum

/-! ## One bit -/

theorem and_one_eq_one_iff (crc : UInt32) : crc &&& 1 = 1 ↔ crc.toBitVec.getLsbD 0 = true := by
  have hand : (crc &&& 1).toBitVec = (BitVec.ofBool (crc.toBitVec.getLsbD 0)).setWidth 32 := by
    rw [UInt32.toBitVec_and]
    exact BitVec.and_one_eq_setWidth_ofBool_getLsbD
  rw [← UInt32.toBitVec_inj, hand]
  cases crc.toBitVec.getLsbD 0 <;> decide

theorem toBitVec_shift (crc : UInt32) : (shift crc).toBitVec =
    if crc.toBitVec.getLsbD 0 then (crc.toBitVec >>> 1) ^^^ polynomial.toBitVec
    else crc.toBitVec >>> 1 := by
  unfold shift
  by_cases hlow : crc.toBitVec.getLsbD 0 = true
  · rw [if_pos ((and_one_eq_one_iff crc).2 hlow), if_pos hlow]
    simp
  · rw [if_neg (mt (and_one_eq_one_iff crc).1 hlow), if_neg hlow]
    simp

/-- The highest bit tells which bit went off. -/
theorem getLsbD_shift (crc : UInt32) :
    (shift crc).toBitVec.getLsbD 31 = crc.toBitVec.getLsbD 0 := by
  have hpolynomial : polynomial.toBitVec.getLsbD 31 = true := by decide
  have htop : (crc.toBitVec >>> 1).getLsbD 31 = false := by simp
  rw [toBitVec_shift]
  cases hlow : crc.toBitVec.getLsbD 0 with
  | false => rw [if_neg Bool.false_ne_true, htop]
  | true => rw [if_pos rfl, BitVec.getLsbD_xor, htop, hpolynomial, Bool.false_xor]

theorem shift_injective : Function.Injective shift := by
  intro a b h
  have hlow : a.toBitVec.getLsbD 0 = b.toBitVec.getLsbD 0 := by
    rw [← getLsbD_shift, ← getLsbD_shift, h]
  have hhigh : a.toBitVec >>> 1 = b.toBitVec >>> 1 := by
    have heq := congrArg UInt32.toBitVec h
    rw [toBitVec_shift, toBitVec_shift, hlow] at heq
    split at heq
    · exact BitVec.xor_left_inj polynomial.toBitVec |>.1 heq
    · exact heq
  apply UInt32.toBitVec_inj.1
  apply BitVec.eq_of_getLsbD_eq
  intro i _
  cases i with
  | zero => exact hlow
  | succ i =>
    have hbit := congrArg (·.getLsbD i) hhigh
    simpa [BitVec.getLsbD_ushiftRight, Nat.add_comm] using hbit

/-! ## Bytes -/

theorem eq_of_xor_eq {a b c : UInt32} (h : a ^^^ c = b ^^^ c) : a = b := by
  have hcancel := congrArg (· ^^^ c) h
  simpa [UInt32.xor_assoc] using hcancel

theorem step_eq_step_iff {crc crc' : UInt32} {b b' : UInt8} :
    step crc b = step crc' b' ↔ crc ^^^ b.toUInt32 = crc' ^^^ b'.toUInt32 := by
  unfold step
  simp only [shift_injective.eq_iff]

/-- The register remembers what it was. -/
theorem step_injective (b : UInt8) : Function.Injective (step · b) := by
  intro crc crc' h
  exact eq_of_xor_eq (step_eq_step_iff.1 h)

/-- The register tells which byte was fed. -/
theorem step_ne {b b' : UInt8} (h : b ≠ b') (crc : UInt32) : step crc b ≠ step crc b' := by
  intro heq
  have hxor := step_eq_step_iff.1 heq
  rw [UInt32.xor_comm crc, UInt32.xor_comm crc] at hxor
  have hword := congrArg UInt32.toNat (eq_of_xor_eq hxor)
  rw [UInt8.toNat_toUInt32, UInt8.toNat_toUInt32] at hword
  exact h (UInt8.toNat_inj.1 hword)

theorem update_injective (bs : Bytes) : Function.Injective (update · bs) := by
  induction bs with
  | nil => exact fun _ _ h => h
  | cons b bs ih =>
    intro crc crc' h
    exact step_injective b (ih h)

theorem crc32_ne {b b' : UInt8} (h : b ≠ b') (front back : Bytes) :
    crc32 (front ++ b :: back) ≠ crc32 (front ++ b' :: back) := by
  intro heq
  have hregister := eq_of_xor_eq heq
  rw [update_append, update_append] at hregister
  exact step_ne h _ (update_injective back hregister)

/-- **A changed byte changes the checksum.** -/
theorem crc32_set_ne {bs : Bytes} {i : Nat} (hi : i < bs.length) {b : UInt8} (hb : bs[i] ≠ b) :
    crc32 (bs.set i b) ≠ crc32 bs := by
  have hset : bs.set i b = bs.take i ++ b :: bs.drop (i + 1) := by
    rw [List.set_eq_take_append_cons_drop, if_pos hi]
  have hbs : bs.take i ++ bs[i] :: bs.drop (i + 1) = bs := by
    rw [List.getElem_cons_drop hi, List.take_append_drop]
  have hne := crc32_ne hb.symm (bs.take i) (bs.drop (i + 1))
  rwa [hbs, ← hset] at hne

end WalStore.Checksum

import WalStore.Ident

/-!
# Arithmetic of identifiers

Positions and ids as the numbers they stand for. Stepping to the next one is adding one as long as
the word does not overflow.
-/

namespace WalStore

namespace Lsn

theorem lt_iff {a b : Lsn} : a < b ↔ a.toNat < b.toNat := UInt64.lt_iff_toNat_lt

theorem le_iff {a b : Lsn} : a ≤ b ↔ a.toNat ≤ b.toNat := UInt64.le_iff_toNat_le

theorem not_le {a b : Lsn} : ¬a ≤ b ↔ b < a := by
  rw [le_iff, lt_iff, Nat.not_le]

theorem not_lt {a b : Lsn} : ¬a < b ↔ b ≤ a := by
  rw [le_iff, lt_iff, Nat.not_lt]

theorem le_refl (a : Lsn) : a ≤ a := le_iff.2 (Nat.le_refl _)

theorem le_trans {a b c : Lsn} (h : a ≤ b) (h' : b ≤ c) : a ≤ c :=
  le_iff.2 (Nat.le_trans (le_iff.1 h) (le_iff.1 h'))

theorem lt_trans {a b c : Lsn} (h : a < b) (h' : b < c) : a < c :=
  lt_iff.2 (Nat.lt_trans (lt_iff.1 h) (lt_iff.1 h'))

theorem lt_of_le_of_lt {a b c : Lsn} (h : a ≤ b) (h' : b < c) : a < c :=
  lt_iff.2 (Nat.lt_of_le_of_lt (le_iff.1 h) (lt_iff.1 h'))

@[simp] theorem toNat_zero : zero.toNat = 0 := rfl

theorem ofNat_toNat (l : Lsn) : ofNat l.toNat = l := by
  rw [ofNat, toNat, UInt64.ofNat_toNat]

theorem toNat_ofNat {n : Nat} (h : n < UInt64.size) : (ofNat n).toNat = n :=
  UInt64.toNat_ofNat_of_lt' h

theorem toNat_next {l : Lsn} (h : l.toNat + 1 < UInt64.size) : l.next.toNat = l.toNat + 1 := by
  rw [next, toNat, UInt64.toNat_add]
  exact Nat.mod_eq_of_lt h

theorem toNat_next_le (l : Lsn) : l.next.toNat ≤ l.toNat + 1 := by
  rw [next, toNat, UInt64.toNat_add]
  exact Nat.mod_le _ _

theorem lt_next {l : Lsn} (h : l.toNat + 1 < UInt64.size) : l < l.next := by
  rw [lt_iff, toNat_next h]
  exact Nat.lt_succ_self _

end Lsn

namespace TxnId

theorem compare_eq_lt_iff {a b : TxnId} : compare a b = .lt ↔ a < b :=
  compareOfLessAndEq_eq_lt

theorem le_iff {a b : TxnId} : a ≤ b ↔ a.toNat ≤ b.toNat := UInt64.le_iff_toNat_le

theorem max_eq_right {a b : TxnId} (h : a.toNat ≤ b.toNat) : max a b = b := if_pos (le_iff.2 h)

theorem max_eq_left {a b : TxnId} (h : b.toNat < a.toNat) : max a b = a :=
  if_neg fun hle => Nat.not_lt.2 (le_iff.1 hle) h

theorem toNat_inj {a b : TxnId} : a.toNat = b.toNat ↔ a = b := by
  cases a
  cases b
  simp [toNat, UInt64.toNat_inj]

theorem toNat_max (a b : TxnId) : (max a b).toNat = max a.toNat b.toNat := by
  by_cases h : a.toNat ≤ b.toNat
  · rw [max_eq_right h, Nat.max_eq_right h]
  · rw [max_eq_left (Nat.lt_of_not_le h), Nat.max_eq_left (Nat.le_of_not_le h)]

theorem max_comm (a b : TxnId) : max a b = max b a := by
  rw [← toNat_inj, toNat_max, toNat_max, Nat.max_comm]

theorem max_right_comm (a b c : TxnId) : max (max a b) c = max (max a c) b := by
  simp only [← toNat_inj, toNat_max, Nat.max_assoc, Nat.max_comm b.toNat]

theorem toNat_next {t : TxnId} (h : t.toNat + 1 < UInt64.size) : t.next.toNat = t.toNat + 1 := by
  rw [next, toNat, UInt64.toNat_add]
  exact Nat.mod_eq_of_lt h

/-- How far this id is behind `base`. Counting goes on from zero when the word overflows. -/
def since (base t : TxnId) : Nat := (t.val - base.val).toNat

@[simp] theorem since_self (base : TxnId) : base.since base = 0 := by
  rw [since, UInt64.sub_self]
  rfl

@[simp] theorem since_zero (t : TxnId) : since ⟨0⟩ t = t.toNat := by
  rw [since, UInt64.sub_zero, toNat]

theorem since_next {base t : TxnId} (h : base.since t + 1 < UInt64.size) :
    base.since t.next = base.since t + 1 := by
  have hnext : t.next.val - base.val = t.val - base.val + 1 := by
    rw [next, UInt64.sub_eq_add_neg, UInt64.sub_eq_add_neg, UInt64.add_assoc, UInt64.add_assoc,
      UInt64.add_comm 1]
  rw [since, hnext, UInt64.toNat_add]
  exact Nat.mod_eq_of_lt h

end TxnId
end WalStore

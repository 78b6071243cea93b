import WalStore.Text
import Mathlib.Tactic.SplitIfs

/-!
# Runs of characters and decimal digits

A run of characters is taken as far as it goes and no further if what is behind it stops it. The
digits that a number is written in are such a run; they stand for the number, and only zero starts
with a zero.
-/

namespace WalStore.Text

/-! ## Runs of characters -/

/-- A run of characters that pass ends in front of these. -/
def Stops (p : Char → Bool) (l : List Char) : Prop := ∀ c ∈ l.head?, p c = false

section Stops

variable {p : Char → Bool} {run rest : List Char}

theorem stops_nil : Stops p [] := fun _ h => nomatch h

theorem stops_cons {c : Char} (h : p c = false) (rest : List Char) : Stops p (c :: rest) :=
  fun _ hc => Option.some.inj hc ▸ h

theorem takeWhile_run (hrun : ∀ c ∈ run, p c = true) (hrest : Stops p rest) :
    (run ++ rest).takeWhile p = run := by
  rw [List.takeWhile_append_of_pos hrun]
  cases rest with
  | nil => simp
  | cons c rest => simp [hrest c rfl]

theorem dropWhile_run (hrun : ∀ c ∈ run, p c = true) (hrest : Stops p rest) :
    (run ++ rest).dropWhile p = rest := by
  rw [List.dropWhile_append_of_pos hrun]
  cases rest with
  | nil => rfl
  | cons c rest => simp [hrest c rfl]

end Stops

/-! ## Digits -/

theorem isDigit_of_mem_toDigits {n : Nat} {c : Char} (h : c ∈ Nat.toDigits 10 n) :
    c.isDigit = true := Nat.isDigit_of_mem_toDigits (by decide) (by decide) h

theorem decimal_toDigits (n : Nat) : Text.decimal (Nat.toDigits 10 n) = n :=
  Nat.ofDigitChars_toDigits (by decide) (by decide)

/-- Nothing but a digit, such as a sign, comes first. -/
theorem toDigits_append_ne_cons {n : Nat} {c : Char} {l rest : List Char} (h : c.isDigit = false) :
    Nat.toDigits 10 n ++ l ≠ c :: rest := by
  obtain ⟨d, digits, hdigits⟩ :=
    List.exists_cons_of_ne_nil (Nat.toDigits_ne_nil (n := n) (b := 10))
  have hd : d.isDigit = true :=
    isDigit_of_mem_toDigits (n := n) (hdigits ▸ List.mem_cons_self)
  rw [hdigits, List.cons_append]
  rintro ⟨⟩
  rw [h] at hd
  cases hd

theorem toDigits_ne_cons {n : Nat} {c : Char} {rest : List Char} (h : c.isDigit = false) :
    Nat.toDigits 10 n ≠ c :: rest := by
  rw [← List.append_nil (Nat.toDigits 10 n)]
  exact toDigits_append_ne_cons h

/-- Only zero starts with a zero. -/
theorem head?_toDigits {n : Nat} (h : n ≠ 0) : (Nat.toDigits 10 n).head? ≠ some '0' := by
  induction n using Nat.strongRecOn with
  | ind n ih =>
    rw [Nat.toDigits_eq_if (by decide)]
    split_ifs with hlt
    · have hvalue : n.digitChar.toNat = 48 + n := Nat.toNat_digitChar_of_lt_ten hlt
      intro heq
      rw [List.head?_cons, Option.some.injEq] at heq
      rw [heq, show '0'.toNat = 48 from rfl] at hvalue
      omega
    · have hhead := ih (n / 10) (by omega) (by omega)
      obtain ⟨c, rest, heq⟩ :=
        List.exists_cons_of_ne_nil (Nat.toDigits_ne_nil (n := n / 10) (b := 10))
      rw [heq] at hhead ⊢
      exact hhead

end WalStore.Text

import WalStore.Json.Number
import WalStore.Proofs.Text.Decimal

/-!
# Numbers are read as written

A number is read from the word it is written as (`ofWord?_toWord`) if the characters of its fraction
are digits. A whole number of 64 bits is in the range of doubles (`isFinite_ofNat`).
-/

namespace WalStore.Json.Number

open Text

/-! ## Whole digits -/

theorem whole?_toDigits (n : Nat) : whole? (Nat.toDigits 10 n) = some n := by
  have hdecimal := decimal_toDigits n
  unfold whole?
  split
  · next h => exact absurd h Nat.toDigits_ne_nil
  · next h =>
    rw [h] at hdecimal
    rw [← hdecimal]
    rfl
  · next rest hne h =>
    by_cases hn : n = 0
    · rw [hn, Nat.toDigits_zero] at h
      cases h
      exact absurd rfl hne
    · exact absurd (by rw [h]; rfl) (head?_toDigits hn)
  · rw [hdecimal]

/-! ## Words -/

/-- The characters of the fraction are digits. -/
def IsWritten (n : Number) : Prop := ∀ c ∈ n.fraction, c.isDigit = true

theorem isWritten_ofNat (n : Nat) : (ofNat n).IsWritten := fun _ h => nomatch h

theorem exponent?_toDigits (n : Nat) : exponent? (Nat.toDigits 10 n) = some (n : Int) := by
  have hall : (Nat.toDigits 10 n).all Char.isDigit = true :=
    List.all_eq_true.2 fun _ => isDigit_of_mem_toDigits
  unfold exponent?
  split
  next negative digits hsign =>
  split at hsign
  · next h => exact absurd h (toDigits_ne_cons rfl)
  · next h => exact absurd h (toDigits_ne_cons rfl)
  · cases hsign
    simp [hall, decimal_toDigits, Nat.toDigits_ne_nil]

theorem exponent?_negative (n : Nat) : exponent? ('-' :: Nat.toDigits 10 n) = some (-n : Int) := by
  have hall : (Nat.toDigits 10 n).all Char.isDigit = true :=
    List.all_eq_true.2 fun _ => isDigit_of_mem_toDigits
  simp [exponent?, hall, decimal_toDigits, Nat.toDigits_ne_nil]

theorem scale?_exponentWord (e : Option Int) : scale? (exponentWord e) = some e := by
  match e with
  | none => rfl
  | some (.ofNat n) =>
    simp [exponentWord, scale?, exponent?_toDigits]
  | some (.negSucc n) =>
    simp [exponentWord, scale?, exponent?_negative]
    omega

theorem stops_exponentWord (e : Option Int) : Stops Char.isDigit (exponentWord e) := by
  match e with
  | none => exact stops_nil
  | some (.ofNat n) => exact stops_cons rfl _
  | some (.negSucc n) => exact stops_cons rfl _

/-- What is written behind the whole digits. -/
def tailWord (n : Number) : List Char :=
  (if n.fraction.isEmpty then [] else '.' :: n.fraction) ++ exponentWord n.exponent

theorem toWord_eq (n : Number) :
    n.toWord = (if n.negative then ['-'] else []) ++ (Nat.toDigits 10 n.whole ++ n.tailWord) := by
  simp [toWord, tailWord]

theorem stops_tailWord (n : Number) : Stops Char.isDigit n.tailWord := by
  rw [tailWord]
  split_ifs
  · exact stops_exponentWord _
  · exact stops_cons rfl _

theorem tail?_exponentWord (e : Option Int) : tail? (exponentWord e) = some ([], e) := by
  have hscale : tail? (exponentWord e) = (scale? (exponentWord e)).map ([], ·) := by
    match e with
    | none | some (.ofNat n) | some (.negSucc n) => rfl
  rw [hscale, scale?_exponentWord]
  rfl

theorem tail?_tailWord {n : Number} (h : n.IsWritten) :
    tail? n.tailWord = some (n.fraction, n.exponent) := by
  rw [tailWord]
  split_ifs with hempty
  · rw [List.isEmpty_iff.1 hempty]
    exact tail?_exponentWord n.exponent
  · rw [List.cons_append, tail?, takeWhile_run h (stops_exponentWord _),
      dropWhile_run h (stops_exponentWord _), scale?_exponentWord]
    simp [hempty]

/-- A number is read from its word. -/
theorem ofWord?_toWord {n : Number} (h : n.IsWritten) : ofWord? n.toWord = some n := by
  have htake : (Nat.toDigits 10 n.whole ++ n.tailWord).takeWhile Char.isDigit =
      Nat.toDigits 10 n.whole :=
    takeWhile_run (fun _ => isDigit_of_mem_toDigits) n.stops_tailWord
  have hdrop : (Nat.toDigits 10 n.whole ++ n.tailWord).dropWhile Char.isDigit = n.tailWord :=
    dropWhile_run (fun _ => isDigit_of_mem_toDigits) n.stops_tailWord
  obtain ⟨negative, whole, fraction, exponent⟩ := n
  cases negative with
  | true =>
    rw [toWord_eq]
    simp only [ofWord?, if_true, List.cons_append, List.nil_append]
    rw [htake, hdrop, whole?_toDigits, tail?_tailWord h]
    rfl
  | false =>
    rw [toWord_eq, if_neg Bool.false_ne_true, List.nil_append]
    unfold ofWord?
    split
    next negative word hsign =>
    split at hsign
    · next h => exact absurd h (toDigits_append_ne_cons rfl)
    · cases hsign
      rw [htake, hdrop, whole?_toDigits, tail?_tailWord h]
      rfl

/-! ## Range -/

theorem fill_eq (significand : Nat) (digits : List Char)
    (h : Nat.ofDigitChars 10 digits significand < UInt64.size) :
    fill significand digits = (Nat.ofDigitChars 10 digits significand, digits.length) := by
  have hle (digits : List Char) (significand : Nat) :
      significand ≤ Nat.ofDigitChars 10 digits significand := by
    induction digits generalizing significand with
    | nil => exact Nat.le_refl _
    | cons c digits ih =>
      rw [Nat.ofDigitChars_cons]
      exact Nat.le_trans (by omega) (ih _)
  induction digits generalizing significand with
  | nil => rfl
  | cons c digits ih =>
    have hcons : Nat.ofDigitChars 10 (c :: digits) significand =
        Nat.ofDigitChars 10 digits (10 * significand + Text.digitValue c) := rfl
    rw [hcons] at h ⊢
    rw [fill, if_pos (Nat.lt_of_le_of_lt (hle digits _) h), ih _ h]
    rfl

/-- A whole number of 64 bits needs no power of ten. -/
theorem isFinite_ofNat {n : Nat} (h : n < UInt64.size) : (ofNat n).isFinite = true := by
  have hvalue : Nat.ofDigitChars 10 (Nat.toDigits 10 n) 0 = n := decimal_toDigits n
  have hfill : fill 0 (Nat.toDigits 10 n) = (n, (Nat.toDigits 10 n).length) := by
    rw [fill_eq 0 _ (by rwa [hvalue]), hvalue]
  simp [isFinite, ofNat, hfill, fill]

end WalStore.Json.Number

import WalStore.Json.Token
import WalStore.Proofs.Json.Number

/-!
# Texts and words are scanned as written

What a scanner between two tokens does with a text in quotes, with a word that ends where the
characters of words end, and with white space: it goes on behind it, between two tokens again, with
the token added (`tokensFrom?_quote`, `tokensFrom?_word`, `tokensFrom?_space`).
-/

namespace WalStore.Json

open Text (Stops)

namespace Scanner

/-- The tokens of a text whose front the scanner has behind it. -/
def tokensFrom? (s : Scanner) (chars : List Char) : Option (List Token) :=
  (chars.foldlM step s).bind finish?

variable {s : Scanner} {ts : List Token} {c : Char} {rest : List Char}

theorem tokensFrom?_nil : s.tokensFrom? [] = s.finish? := rfl

theorem tokensFrom?_cons (s' : Scanner) (h : s.step c = some s') :
    s.tokensFrom? (c :: rest) = s'.tokensFrom? rest := by
  rw [tokensFrom?, List.foldlM_cons, h]
  rfl

/-! ## White space and words -/

theorem tokensFrom?_space {spaces : List Char} (h : ∀ c ∈ spaces, isSpace c = true) :
    tokensFrom? ⟨ts, .between⟩ (spaces ++ rest) = tokensFrom? ⟨ts, .between⟩ rest := by
  induction spaces with
  | nil => rfl
  | cons c spaces ih =>
    rw [List.forall_mem_cons] at h
    have hstep : step ⟨ts, .between⟩ c = some ⟨ts, .between⟩ := if_pos h.1
    rw [List.cons_append, tokensFrom?_cons _ hstep, ih h.2]

theorem step_of_isWordChar (h : isWordChar c = true) :
    step ⟨ts, .between⟩ c = some ⟨ts, .word [c]⟩ := by
  have hspace : isSpace c = false := by
    refine Bool.eq_false_iff.2 fun hspace => ?_
    simp only [isSpace, Bool.or_eq_true, decide_eq_true_eq] at hspace
    rcases hspace with ((rfl | rfl) | rfl) | rfl <;> cases h
  have hquote : c ≠ '"' := by
    rintro rfl
    cases h
  simp [step, enter, hspace, hquote, h]

/-- A word goes on as long as its characters do. -/
theorem tokensFrom?_wordChars {word before : List Char} (h : ∀ c ∈ word, isWordChar c = true) :
    tokensFrom? ⟨ts, .word before⟩ (word ++ rest) =
      tokensFrom? ⟨ts, .word (word.reverse ++ before)⟩ rest := by
  induction word generalizing before with
  | nil => rfl
  | cons c word ih =>
    rw [List.forall_mem_cons] at h
    have hstep : step ⟨ts, .word before⟩ c = some ⟨ts, .word (c :: before)⟩ := if_pos h.1
    rw [List.cons_append, tokensFrom?_cons _ hstep, ih h.2]
    simp

/-- Where no character of a word follows, a word that is a token has ended. -/
theorem tokensFrom?_ended {before : List Char} {t : Token}
    (h : Token.ofWord? before.reverse = some t) (hrest : Stops isWordChar rest) :
    tokensFrom? ⟨ts, .word before⟩ rest = tokensFrom? ⟨t :: ts, .between⟩ rest := by
  cases rest with
  | nil => simp [tokensFrom?_nil, finish?, h]
  | cons c rest =>
    -- The character that ends the word is then looked at as any between two tokens.
    have hstep : step ⟨ts, .word before⟩ c = step ⟨t :: ts, .between⟩ c := by
      simp [step, hrest c rfl, h]
    rw [tokensFrom?, tokensFrom?, List.foldlM_cons, List.foldlM_cons, hstep]

theorem tokensFrom?_word {word : List Char} {t : Token} (hne : word ≠ [])
    (hword : ∀ c ∈ word, isWordChar c = true) (htoken : Token.ofWord? word = some t)
    (hrest : Stops isWordChar rest) :
    tokensFrom? ⟨ts, .between⟩ (word ++ rest) = tokensFrom? ⟨t :: ts, .between⟩ rest := by
  obtain ⟨c, word, rfl⟩ := List.exists_cons_of_ne_nil hne
  rw [List.forall_mem_cons] at hword
  rw [List.cons_append, tokensFrom?_cons _ (step_of_isWordChar hword.1),
    tokensFrom?_wordChars hword.2, tokensFrom?_ended (by simpa using htoken) hrest]

end Scanner

/-! ## Numbers -/

theorem isWordChar_of_isDigit {c : Char} (h : c.isDigit = true) : isWordChar c = true := by
  simp [isWordChar, Char.isAlphanum, h]

namespace Number

variable {n : Number}

theorem isWordChar_of_mem_toWord (h : n.IsWritten) : ∀ c ∈ n.toWord, isWordChar c = true := by
  have hdigits (m : Nat) : ∀ c ∈ Nat.toDigits 10 m, isWordChar c = true :=
    fun c hc => isWordChar_of_isDigit (Text.isDigit_of_mem_toDigits hc)
  have hexponent : ∀ c ∈ exponentWord n.exponent, isWordChar c = true := by
    match n.exponent with
    | none => exact fun _ hc => nomatch hc
    | some (.ofNat m) => exact List.forall_mem_cons.2 ⟨rfl, hdigits m⟩
    | some (.negSucc m) =>
      exact List.forall_mem_cons.2 ⟨rfl, List.forall_mem_cons.2 ⟨rfl, hdigits (m + 1)⟩⟩
  have hfraction : ∀ c ∈ '.' :: n.fraction, isWordChar c = true :=
    List.forall_mem_cons.2 ⟨rfl, fun c hc => isWordChar_of_isDigit (h c hc)⟩
  rw [toWord_eq, tailWord]
  simp only [List.forall_mem_append]
  refine ⟨?_, hdigits _, ?_, hexponent⟩
  · split_ifs
    · simp [isWordChar]
    · simp
  · split_ifs
    · simp
    · exact hfraction

theorem toWord_ne_nil : n.toWord ≠ [] := by
  simp [toWord_eq, Nat.toDigits_ne_nil]

/-- The word of a number is not a name. -/
theorem token_toWord (h : n.IsWritten) : Token.ofWord? n.toWord = some (.number n) := by
  have hread := ofWord?_toWord h
  have hne {word : List Char} (hword : ofWord? word = none) : n.toWord ≠ word := by
    rintro rfl
    rw [hread] at hword
    cases hword
  rw [Token.ofWord?, if_neg (hne rfl), if_neg (hne rfl), if_neg (hne rfl), hread]
  rfl

end Number

/-! ## Texts -/

/-- The piece stands for the character, whatever follows. -/
def Piece.Is (p : Piece) (c : Char) : Prop :=
  ∀ rest, Piece.join (p :: rest) = (Piece.join rest).map (c :: ·)

theorem Piece.is_char (c : Char) : (char c).Is c := fun _ => rfl

theorem Piece.is_unit {c : Char} (h : isControl c = true) : (unit c.toNat).Is c := by
  have hlt : c.toNat < 0x20 := by simpa [isControl] using h
  have hhigh : isHigh c.toNat = false := by simp [isHigh]; omega
  have hlow : isLow c.toNat = false := by simp [isLow]; omega
  intro rest
  rcases rest with _ | ⟨_ | low, rest⟩ <;> simp [join, hhigh, hlow, Char.ofNat_toNat]

theorem hexValue?_digitChar {n : Nat} (h : n < 16) : hexValue? (Nat.digitChar n) = some n := by
  have hall : ∀ n < 16, hexValue? (Nat.digitChar n) = some n := by decide
  exact hall n h

/-- A character is escaped by a letter, by its code, or not at all. -/
theorem escape_cases (c : Char) :
    (∃ letter, letter ≠ 'u' ∧ unescape? letter = some c ∧ escape c = ['\\', letter]) ∨
    (isControl c = true ∧ escape c =
      ['\\', 'u', '0', '0', Nat.digitChar (c.toNat / 16), Nat.digitChar (c.toNat % 16)]) ∨
    (c ≠ '"' ∧ c ≠ '\\' ∧ isControl c = false ∧ escape c = [c]) := by
  by_cases hletter : c ∈ ['"', '\\', '\x08', '\x0c', '\n', '\r', '\t']
  · left
    simp only [List.mem_cons, List.not_mem_nil, or_false] at hletter
    rcases hletter with rfl | rfl | rfl | rfl | rfl | rfl | rfl <;>
      exact ⟨_, by decide, rfl, rfl⟩
  · right
    simp only [List.mem_cons, List.not_mem_nil, or_false, not_or] at hletter
    cases hcontrol : isControl c <;> simp [escape, hletter, hcontrol]

namespace Scanner

variable (ts : List Token) (before : List Piece)

/-- A letter behind a backslash. -/
theorem tokensFrom?_letter {letter c : Char} (hu : letter ≠ 'u') (h : unescape? letter = some c)
    (rest : List Char) :
    tokensFrom? ⟨ts, .text before⟩ ('\\' :: letter :: rest) =
      tokensFrom? ⟨ts, .text (.char c :: before)⟩ rest := by
  have hstep : step ⟨ts, .escape before⟩ letter = some ⟨ts, .text (.char c :: before)⟩ := by
    simp [step, hu, h]
  exact (tokensFrom?_cons ⟨ts, .escape before⟩ rfl).trans (tokensFrom?_cons _ hstep)

/-- A code of two digits behind two zeros. -/
theorem tokensFrom?_code {high low : Nat} (hhigh : high < 16) (hlow : low < 16)
    (rest : List Char) :
    tokensFrom? ⟨ts, .text before⟩
        ('\\' :: 'u' :: '0' :: '0' :: Nat.digitChar high :: Nat.digitChar low :: rest) =
      tokensFrom? ⟨ts, .text (.unit (16 * high + low) :: before)⟩ rest := by
  have hzeros : tokensFrom? ⟨ts, .text before⟩
      ('\\' :: 'u' :: '0' :: '0' :: Nat.digitChar high :: Nat.digitChar low :: rest) =
      tokensFrom? ⟨ts, .code before 0 1⟩ (Nat.digitChar high :: Nat.digitChar low :: rest) := rfl
  have hfirst : step ⟨ts, .code before 0 1⟩ (Nat.digitChar high) =
      some ⟨ts, .code before high 0⟩ := by
    simp [step, hexValue?_digitChar hhigh]
  have hsecond : step ⟨ts, .code before high 0⟩ (Nat.digitChar low) =
      some ⟨ts, .text (.unit (16 * high + low) :: before)⟩ := by
    simp [step, hexValue?_digitChar hlow]
  rw [hzeros, tokensFrom?_cons _ hfirst, tokensFrom?_cons _ hsecond]

/-- A character is read as it is written. -/
theorem tokensFrom?_escape (c : Char) (rest : List Char) :
    ∃ p : Piece, p.Is c ∧ tokensFrom? ⟨ts, .text before⟩ (escape c ++ rest) =
      tokensFrom? ⟨ts, .text (p :: before)⟩ rest := by
  rcases escape_cases c with
    ⟨letter, hu, hletter, heq⟩ | ⟨hcontrol, heq⟩ | ⟨hquote, hslash, hcontrol, heq⟩
  · rw [heq]
    exact ⟨_, Piece.is_char c, tokensFrom?_letter ts before hu hletter rest⟩
  · have hlt : c.toNat < 0x20 := by simpa [isControl] using hcontrol
    have hhigh : c.toNat / 16 < 16 := by omega
    have hread := tokensFrom?_code ts before hhigh (Nat.mod_lt c.toNat (by decide)) rest
    rw [Nat.div_add_mod] at hread
    rw [heq]
    exact ⟨_, Piece.is_unit hcontrol, hread⟩
  · have hstep : step ⟨ts, .text before⟩ c = some ⟨ts, .text (.char c :: before)⟩ := by
      simp [step, hquote, hslash, hcontrol]
    rw [heq]
    exact ⟨_, Piece.is_char c, tokensFrom?_cons _ hstep⟩

theorem tokensFrom?_escapes (l rest : List Char) :
    ∃ pieces, Piece.join pieces = some l ∧
      tokensFrom? ⟨ts, .text before⟩ (l.flatMap escape ++ rest) =
        tokensFrom? ⟨ts, .text (pieces.reverse ++ before)⟩ rest := by
  induction l generalizing before with
  | nil => exact ⟨[], rfl, rfl⟩
  | cons c l ih =>
    obtain ⟨p, hp, hread⟩ := tokensFrom?_escape ts before c (l.flatMap escape ++ rest)
    obtain ⟨pieces, hpieces, hrest⟩ := ih (p :: before)
    refine ⟨p :: pieces, by rw [hp, hpieces]; rfl, ?_⟩
    rw [List.flatMap_cons, List.append_assoc, hread, hrest]
    simp

/-- A text is read as it is quoted. -/
theorem tokensFrom?_quote (s : String) (rest : List Char) :
    tokensFrom? ⟨ts, .between⟩ (quote s ++ rest) =
      tokensFrom? ⟨.text (some s) :: ts, .between⟩ rest := by
  obtain ⟨pieces, hpieces, hread⟩ := tokensFrom?_escapes ts [] s.toList ('"' :: rest)
  have hopen : tokensFrom? ⟨ts, .between⟩ (quote s ++ rest) =
      tokensFrom? ⟨ts, .text []⟩ (s.toList.flatMap escape ++ '"' :: rest) := by
    rw [quote, List.append_assoc]
    rfl
  have hclose : step ⟨ts, .text (pieces.reverse ++ [])⟩ '"' =
      some ⟨.text (some s) :: ts, .between⟩ := by
    simp [step, Token.ofPieces, hpieces]
  rw [hopen, hread, tokensFrom?_cons _ hclose]

end Scanner
end WalStore.Json

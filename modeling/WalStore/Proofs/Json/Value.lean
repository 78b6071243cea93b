import WalStore.Json
import WalStore.Proofs.Json.Token

/-!
# Values are read as written

**Theorem (`ofText?_pretty`).** A value is what its text is read as, however deep it nests and
whatever its texts hold, provided that the characters behind the points of its numbers are digits.

Both directions go by the tokens of the value (`Value.tokens`): the scanner cuts the text of the
value into them (`tokensFrom?_chars`) and the reader folds them into the value
(`valueFrom?_tokens`). Each says what is done with the value in front of anything that may follow,
so that it can be used for the values inside another.
-/

namespace WalStore.Json.Value

/-! ## Tokens of a value -/

mutual

def tokens : Value → List Token
  | null => [.null]
  | bool b => [.bool b]
  | number n => [.number n]
  | text s => [.text s]
  | array [] => [.openArray, .closeArray]
  | array (v :: rest) => .openArray :: v.tokens ++ itemTokens rest ++ [.closeArray]
  | object [] => [.openObject, .closeObject]
  | object ((s, v) :: rest) =>
    .openObject :: .text s :: .colon :: v.tokens ++ memberTokens rest ++ [.closeObject]

/-- The tokens of the further elements of an array. -/
def itemTokens : List Value → List Token
  | [] => []
  | v :: rest => .comma :: v.tokens ++ itemTokens rest

/-- The tokens of the further members of an object. -/
def memberTokens : List (Option String × Value) → List Token
  | [] => []
  | (s, v) :: rest => .comma :: .text s :: .colon :: v.tokens ++ memberTokens rest

end

theorem number_mem_itemTokens {n : Number} {vs : List Value} :
    Token.number n ∈ itemTokens vs ↔ ∃ v ∈ vs, Token.number n ∈ v.tokens := by
  induction vs with
  | nil => simp [itemTokens]
  | cons v vs ih => simp [itemTokens, ih]

theorem number_mem_memberTokens {n : Number} {ms : List (Option String × Value)} :
    Token.number n ∈ memberTokens ms ↔ ∃ m ∈ ms, Token.number n ∈ m.2.tokens := by
  induction ms with
  | nil => simp [memberTokens]
  | cons m ms ih => simp [memberTokens, ih]

/-- The characters behind the points of all numbers are digits. -/
def IsWritten (v : Value) : Prop := ∀ n, .number n ∈ v.tokens → n.IsWritten

theorem isWritten_null : null.IsWritten := by simp [IsWritten, tokens]

theorem isWritten_ofNat (n : Nat) : (ofNat n).IsWritten := by
  simp [IsWritten, tokens, ofNat, Number.isWritten_ofNat]

theorem isWritten_ofString (s : String) : (ofString s).IsWritten := by
  simp [IsWritten, tokens, ofString]

theorem isWritten_ofOption {α : Type} {f : α → Value} (h : ∀ a, (f a).IsWritten) (o : Option α) :
    (ofOption f o).IsWritten := by
  cases o with
  | none => exact isWritten_null
  | some a => exact h a

theorem isWritten_array {vs : List Value} (h : ∀ v ∈ vs, v.IsWritten) : (array vs).IsWritten := by
  cases vs with
  | nil => simp [IsWritten, tokens]
  | cons v vs =>
    intro n hn
    have hmem : Token.number n ∈ itemTokens (v :: vs) := by simpa [tokens, itemTokens] using hn
    obtain ⟨v', hv', hn'⟩ := number_mem_itemTokens.1 hmem
    exact h v' hv' n hn'

theorem isWritten_object {ms : List (Option String × Value)} (h : ∀ m ∈ ms, m.2.IsWritten) :
    (object ms).IsWritten := by
  cases ms with
  | nil => simp [IsWritten, tokens]
  | cons m ms =>
    intro n hn
    have hmem : Token.number n ∈ memberTokens (m :: ms) := by simpa [tokens, memberTokens] using hn
    obtain ⟨m', hm', hn'⟩ := number_mem_memberTokens.1 hmem
    exact h m' hm' n hn'

/-! ## Reading -/

namespace Reader

/-- The value of the tokens of which the reader has the front behind it. -/
def valueFrom? (r : Reader) (tokens : List Token) : Option Value :=
  (tokens.foldlM step r).bind finish?

theorem valueFrom?_cons {r : Reader} {t : Token} (r' : Reader) (h : r.step t = some r')
    (rest : List Token) : r.valueFrom? (t :: rest) = r'.valueFrom? rest := by
  rw [valueFrom?, List.foldlM_cons, h]
  rfl

/-- A value that is the first of an array is read as any other. -/
theorem valueFrom?_items (v : Value) (holes : List Hole) (rest : List Token) :
    (items holes).valueFrom? (v.tokens ++ rest) =
      (value (.item [] :: holes)).valueFrom? (v.tokens ++ rest) := by
  match v with
  | null | bool _ | number _ | text _ | array [] | array (_ :: _) | object []
  | object ((_, _) :: _) => rfl

mutual

theorem valueFrom?_tokens (v : Value) (holes : List Hole) (rest : List Token) :
    (value holes).valueFrom? (v.tokens ++ rest) = (ended v holes).valueFrom? rest := by
  match v with
  | null | bool _ | number _ | text _ | array [] | object [] => rfl
  | array (v :: vs) =>
    rw [tokens]
    simp only [List.cons_append, List.append_assoc, List.nil_append]
    rw [valueFrom?_cons (items holes) rfl, valueFrom?_items, valueFrom?_tokens v]
    exact valueFrom?_itemTokens v [] vs holes rest
  | object ((s, v) :: ms) =>
    rw [tokens]
    simp only [List.cons_append, List.append_assoc, List.nil_append]
    rw [valueFrom?_cons (name [] holes) rfl, valueFrom?_cons (colon [] s holes) rfl,
      valueFrom?_cons (value (.member [] s :: holes)) rfl, valueFrom?_tokens v]
    exact valueFrom?_memberTokens s v [] ms holes rest

/-- Further elements and the bracket behind them end an array. -/
theorem valueFrom?_itemTokens (v : Value) (before vs : List Value) (holes : List Hole)
    (rest : List Token) :
    (ended v (.item before :: holes)).valueFrom? (itemTokens vs ++ .closeArray :: rest) =
      (ended (.array (before.reverse ++ v :: vs)) holes).valueFrom? rest := by
  match vs with
  | [] =>
    rw [← List.reverse_cons]
    exact valueFrom?_cons _ rfl rest
  | v' :: vs =>
    rw [itemTokens]
    simp only [List.cons_append, List.append_assoc]
    rw [valueFrom?_cons (value (.item (v :: before) :: holes)) rfl, valueFrom?_tokens v',
      valueFrom?_itemTokens v' (v :: before) vs]
    simp

/-- Further members and the brace behind them end an object. -/
theorem valueFrom?_memberTokens (s : Option String) (v : Value)
    (before ms : List (Option String × Value)) (holes : List Hole) (rest : List Token) :
    (ended v (.member before s :: holes)).valueFrom? (memberTokens ms ++ .closeObject :: rest) =
      (ended (.object (before.reverse ++ (s, v) :: ms)) holes).valueFrom? rest := by
  match ms with
  | [] =>
    rw [← List.reverse_cons]
    exact valueFrom?_cons _ rfl rest
  | (s', v') :: ms =>
    rw [memberTokens]
    simp only [List.cons_append, List.append_assoc]
    rw [valueFrom?_cons (name ((s, v) :: before) holes) rfl,
      valueFrom?_cons (colon ((s, v) :: before) s' holes) rfl,
      valueFrom?_cons (value (.member ((s, v) :: before) s' :: holes)) rfl,
      valueFrom?_tokens v', valueFrom?_memberTokens s' v' ((s, v) :: before) ms]
    simp

end

end Reader

/-- A value is what its tokens are folded into. -/
theorem ofTokens?_tokens (v : Value) : ofTokens? v.tokens = some v := by
  have hread := Reader.valueFrom?_tokens v [] []
  rw [List.append_nil] at hread
  exact hread

/-! ## Scanning -/

section Scanner

open Scanner
open Text (Stops stops_nil stops_cons)

variable {ts : List Token} {rest : List Char}

theorem tokensFrom?_line (depth : Nat) :
    tokensFrom? ⟨ts, .between⟩ (line depth ++ rest) = tokensFrom? ⟨ts, .between⟩ rest := by
  refine tokensFrom?_space (List.forall_mem_cons.2 ⟨rfl, fun c hc => ?_⟩)
  rw [List.eq_of_mem_replicate hc]
  rfl

theorem tokensFrom?_textChars (s : Option String) (rest : List Char) :
    tokensFrom? ⟨ts, .between⟩ (textChars s ++ rest) =
      tokensFrom? ⟨.text s :: ts, .between⟩ rest := by
  cases s with
  | none => rfl
  | some s => exact tokensFrom?_quote ts s rest

/-- The name of a member and the colon behind it. -/
theorem tokensFrom?_name (s : Option String) (rest : List Char) :
    tokensFrom? ⟨ts, .between⟩ (textChars s ++ ':' :: ' ' :: rest) =
      tokensFrom? ⟨.colon :: .text s :: ts, .between⟩ rest := by
  rw [tokensFrom?_textChars]
  rfl

theorem stops_line (depth : Nat) (rest : List Char) : Stops isWordChar (line depth ++ rest) :=
  stops_cons rfl _

theorem stops_itemChars (depth : Nat) (vs : List Value) (hrest : Stops isWordChar rest) :
    Stops isWordChar (itemChars depth vs ++ rest) := by
  cases vs with
  | nil => exact hrest
  | cons v vs => exact stops_cons rfl _

theorem stops_memberChars (depth : Nat) (ms : List (Option String × Value))
    (hrest : Stops isWordChar rest) : Stops isWordChar (memberChars depth ms ++ rest) := by
  cases ms with
  | nil => exact hrest
  | cons m ms => exact stops_cons rfl _

mutual

theorem tokensFrom?_chars (v : Value) (depth : Nat) (hv : v.IsWritten) (ts : List Token)
    (rest : List Char) (hrest : Stops isWordChar rest) :
    tokensFrom? ⟨ts, .between⟩ (v.chars depth ++ rest) =
      tokensFrom? ⟨v.tokens.reverse ++ ts, .between⟩ rest := by
  match v with
  | null | bool true | bool false =>
    rw [chars]
    exact tokensFrom?_word (List.cons_ne_nil _ _) (List.all_eq_true.1 rfl) rfl hrest
  | number n =>
    have hn : n.IsWritten := hv n (by simp [tokens])
    exact tokensFrom?_word n.toWord_ne_nil (n.isWordChar_of_mem_toWord hn) (n.token_toWord hn) hrest
  | text s => exact tokensFrom?_textChars s rest
  | array [] | object [] => rfl
  | array (v :: vs) =>
    rw [chars]
    simp only [List.cons_append, List.append_assoc, List.nil_append]
    rw [tokensFrom?_cons ⟨.openArray :: ts, .between⟩ rfl, tokensFrom?_line,
      tokensFrom?_chars v (depth + 1) (fun n hn => hv n (by simp [tokens, hn])) _ _
        (stops_itemChars _ _ (stops_line _ _)),
      tokensFrom?_itemChars vs (depth + 1) (fun n hn => hv n (by simp [tokens, hn])) _ _
        (stops_line _ _),
      tokensFrom?_line]
    refine (tokensFrom?_cons _ rfl).trans ?_
    simp [tokens]
  | object ((s, v) :: ms) =>
    rw [chars]
    simp only [List.cons_append, List.append_assoc, List.nil_append]
    rw [tokensFrom?_cons ⟨.openObject :: ts, .between⟩ rfl, tokensFrom?_line,
      tokensFrom?_name,
      tokensFrom?_chars v (depth + 1) (fun n hn => hv n (by simp [tokens, hn])) _ _
        (stops_memberChars _ _ (stops_line _ _)),
      tokensFrom?_memberChars ms (depth + 1) (fun n hn => hv n (by simp [tokens, hn])) _ _
        (stops_line _ _),
      tokensFrom?_line]
    refine (tokensFrom?_cons _ rfl).trans ?_
    simp [tokens]

theorem tokensFrom?_itemChars (vs : List Value) (depth : Nat)
    (hvs : ∀ n, .number n ∈ itemTokens vs → n.IsWritten) (ts : List Token) (rest : List Char)
    (hrest : Stops isWordChar rest) :
    tokensFrom? ⟨ts, .between⟩ (itemChars depth vs ++ rest) =
      tokensFrom? ⟨(itemTokens vs).reverse ++ ts, .between⟩ rest := by
  match vs with
  | [] => rfl
  | v :: vs =>
    rw [itemChars]
    simp only [List.cons_append, List.append_assoc]
    rw [tokensFrom?_cons ⟨.comma :: ts, .between⟩ rfl, tokensFrom?_line,
      tokensFrom?_chars v depth (fun n hn => hvs n (by simp [itemTokens, hn])) _ _
        (stops_itemChars _ _ hrest),
      tokensFrom?_itemChars vs depth (fun n hn => hvs n (by simp [itemTokens, hn])) _ _ hrest]
    simp [itemTokens]

theorem tokensFrom?_memberChars (ms : List (Option String × Value)) (depth : Nat)
    (hms : ∀ n, .number n ∈ memberTokens ms → n.IsWritten) (ts : List Token) (rest : List Char)
    (hrest : Stops isWordChar rest) :
    tokensFrom? ⟨ts, .between⟩ (memberChars depth ms ++ rest) =
      tokensFrom? ⟨(memberTokens ms).reverse ++ ts, .between⟩ rest := by
  match ms with
  | [] => rfl
  | (s, v) :: ms =>
    rw [memberChars]
    simp only [List.cons_append, List.append_assoc, List.nil_append]
    rw [tokensFrom?_cons ⟨.comma :: ts, .between⟩ rfl, tokensFrom?_line, tokensFrom?_name,
      tokensFrom?_chars v depth (fun n hn => hms n (by simp [memberTokens, hn])) _ _
        (stops_memberChars _ _ hrest),
      tokensFrom?_memberChars ms depth (fun n hn => hms n (by simp [memberTokens, hn])) _ _ hrest]
    simp [memberTokens]

end

/-- The text of a value is cut into the tokens of the value. -/
theorem tokens?_chars {v : Value} (hv : v.IsWritten) :
    tokens? (v.chars 0) = some v.tokens := by
  have hscan := tokensFrom?_chars v 0 hv [] [] stops_nil
  rw [List.append_nil, List.append_nil, tokensFrom?_nil] at hscan
  exact hscan.trans (congrArg some v.tokens.reverse_reverse)

end Scanner

/-- A value is read as it is written. -/
theorem ofText?_pretty {v : Value} (hv : v.IsWritten) : ofText? v.pretty = some v := by
  rw [ofText?, pretty, String.toList_ofList, tokens?_chars hv]
  exact ofTokens?_tokens v

end WalStore.Json.Value

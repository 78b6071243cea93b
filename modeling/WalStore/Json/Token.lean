import WalStore.Json.Number
import WalStore.Json.Text

/-!
# Tokens of JSON

A text is cut into marks, texts, numbers and names by one pass over its characters. A word is
the longest run of characters that a number or a name may hold, so two words never touch.

White space is the space, the tab, the line feed and the carriage return.
-/

namespace WalStore.Json

/-- The pieces that values are made of. -/
inductive Token where
  | openArray
  | closeArray
  | openObject
  | closeObject
  | comma
  | colon
  | null
  | bool (b : Bool)
  | number (n : Number)
  /-- A text, absent if it has no value. -/
  | text (s : Option String)
  deriving DecidableEq

namespace Token

/-- The marks, which are single characters. -/
def mark? : Char → Option Token
  | '[' => some openArray
  | ']' => some closeArray
  | '\x7b' => some openObject
  | '\x7d' => some closeObject
  | ',' => some comma
  | ':' => some colon
  | _ => none

/-- What a word stands for, if it is one of the three constants or a number. -/
def ofWord? (word : List Char) : Option Token :=
  if word = ['n', 'u', 'l', 'l'] then some null
  else if word = ['t', 'r', 'u', 'e'] then some (bool true)
  else if word = ['f', 'a', 'l', 's', 'e'] then some (bool false)
  else (Number.ofWord? word).map number

/-- A text from its pieces; without a value if these have none. -/
def ofPieces (pieces : List Piece) : Token := text ((Piece.join pieces).map String.ofList)

end Token

/-- What may stand between tokens. -/
def isSpace (c : Char) : Bool := c = ' ' || c = '\t' || c = '\n' || c = '\r'

/-- What words are made of. -/
def isWordChar (c : Char) : Bool := c.isAlphanum || c = '+' || c = '-' || c = '.'

/-! ## One pass -/

/-- What a character stands in. Lists have their last element first. -/
inductive Scanner.Place where
  | between
  | word (before : List Char)
  | text (before : List Piece)
  /-- Behind a backslash. -/
  | escape (before : List Piece)
  /-- Behind `\u` and some digits; `due` more are needed after the next. -/
  | code (before : List Piece) (digits due : Nat)

/-- How far a text has been cut into tokens. -/
structure Scanner where
  /-- The tokens so far, last first. -/
  tokens : List Token
  place : Scanner.Place

namespace Scanner

def start : Scanner := ⟨[], .between⟩

/-- A character between two tokens. -/
def enter (tokens : List Token) (c : Char) : Option Scanner :=
  if isSpace c then some ⟨tokens, .between⟩
  else if c = '"' then some ⟨tokens, .text []⟩
  else if isWordChar c then some ⟨tokens, .word [c]⟩
  else (Token.mark? c).map fun t => ⟨t :: tokens, .between⟩

/-- Reads one character, unless no token goes on with it. -/
def step (s : Scanner) (c : Char) : Option Scanner :=
  match s.place with
  | .between => enter s.tokens c
  | .word before =>
    if isWordChar c then some { s with place := .word (c :: before) }
    else (Token.ofWord? before.reverse).bind fun t => enter (t :: s.tokens) c
  | .text before =>
    if c = '"' then some ⟨.ofPieces before.reverse :: s.tokens, .between⟩
    else if c = '\\' then some { s with place := .escape before }
    else if isControl c then none
    else some { s with place := .text (.char c :: before) }
  | .escape before =>
    if c = 'u' then some { s with place := .code before 0 3 }
    else (unescape? c).map fun c => { s with place := .text (.char c :: before) }
  | .code before digits due =>
    (hexValue? c).map fun d =>
      let digits := 16 * digits + d
      { s with
        place := match due with
          | 0 => .text (.unit digits :: before)
          | due + 1 => .code before digits due }

/-- The tokens, if none is left open. -/
def finish? (s : Scanner) : Option (List Token) :=
  match s.place with
  | .between => some s.tokens.reverse
  | .word before => (Token.ofWord? before.reverse).map fun t => (t :: s.tokens).reverse
  | _ => none

end Scanner

/-- The tokens of a text. -/
def tokens? (chars : List Char) : Option (List Token) :=
  (chars.foldlM Scanner.step .start).bind Scanner.finish?

end WalStore.Json

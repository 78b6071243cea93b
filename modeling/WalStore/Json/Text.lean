/-!
# Texts in JSON

Between double quotes a character stands for itself or is escaped. An escape with a code gives
a unit of UTF-16, so a character beyond U+FFFF is a pair of such escapes, and half a pair is a
text without a value.

**Writing.** Only quotes, backslashes and the controls below U+0020 are escaped. The controls
with an escape of their own use it, the others their code.
-/

namespace WalStore.Json

/-- A character, or a unit of UTF-16 given by its code. -/
inductive Piece where
  | char (c : Char)
  | unit (code : Nat)
  deriving DecidableEq

namespace Piece

/-- The first half of a pair. -/
def isHigh (code : Nat) : Bool := 0xD800 ≤ code && code < 0xDC00

/-- The second half of a pair. -/
def isLow (code : Nat) : Bool := 0xDC00 ≤ code && code < 0xE000

/-- The characters that pieces stand for. Half a pair stands for none. -/
def join : List Piece → Option (List Char)
  | [] => some []
  | char c :: rest => (join rest).map (c :: ·)
  | unit high :: unit low :: rest =>
    if isHigh high && isLow low then
      (join rest).map (.ofNat (0x10000 + 0x400 * (high - 0xD800) + (low - 0xDC00)) :: ·)
    else if isHigh high || isLow high then none
    else (join (unit low :: rest)).map (.ofNat high :: ·)
  | unit code :: rest =>
    if isHigh code || isLow code then none else (join rest).map (.ofNat code :: ·)

end Piece

/-! ## Escapes -/

/-- The character that a letter behind a backslash stands for. -/
def unescape? : Char → Option Char
  | '"' => some '"'
  | '\\' => some '\\'
  | '/' => some '/'
  | 'b' => some '\x08'
  | 'f' => some '\x0c'
  | 'n' => some '\n'
  | 'r' => some '\r'
  | 't' => some '\t'
  | _ => none

/-- Characters that never stand for themselves between quotes, besides quote and backslash. -/
def isControl (c : Char) : Bool := c.toNat < 0x20

/-- What a hexadecimal digit stands for, in either case. -/
def hexValue? (c : Char) : Option Nat :=
  if c.isDigit then some (c.toNat - '0'.toNat)
  else if 'a' ≤ c ∧ c ≤ 'f' then some (c.toNat - 'a'.toNat + 10)
  else if 'A' ≤ c ∧ c ≤ 'F' then some (c.toNat - 'A'.toNat + 10)
  else none

/-- How a character is written between quotes. -/
def escape (c : Char) : List Char :=
  if c = '"' then ['\\', '"']
  else if c = '\\' then ['\\', '\\']
  else if c = '\x08' then ['\\', 'b']
  else if c = '\x0c' then ['\\', 'f']
  else if c = '\n' then ['\\', 'n']
  else if c = '\r' then ['\\', 'r']
  else if c = '\t' then ['\\', 't']
  else if isControl c then
    ['\\', 'u', '0', '0', Nat.digitChar (c.toNat / 16), Nat.digitChar (c.toNat % 16)]
  else [c]

/-- A text between quotes. -/
def quote (s : String) : List Char := '"' :: s.toList.flatMap escape ++ ['"']

end WalStore.Json

import WalStore.Rounding
import WalStore.Text.Hidden

/-!
# Texts

What settings and messages need of texts: white space and trimming, numbers in decimal digits,
doubles with a fixed number of places, and texts in quotes.
-/

namespace WalStore.Text

/-! ## White space -/

/-- The property `White_Space`, as ranges of code points. Zero-width characters such as U+200B and
U+FEFF do not have it. -/
def blankRanges : List (Nat × Nat) :=
  [(0x09, 0x0D), (0x20, 0x20), (0x85, 0x85), (0xA0, 0xA0), (0x1680, 0x1680), (0x2000, 0x200A),
    (0x2028, 0x2029), (0x202F, 0x202F), (0x205F, 0x205F), (0x3000, 0x3000)]

/-- Whether a character is white space. -/
def isBlank (c : Char) : Bool := inRanges blankRanges c

/-- Without the blanks at either end. -/
def trim (cs : List Char) : List Char :=
  ((cs.dropWhile isBlank).reverse.dropWhile isBlank).reverse

/-! ## Decimal digits

Signs, blanks and digits of other scripts are not read here. -/

/-- What one ASCII digit stands for. -/
def digitValue (c : Char) : Nat := c.toNat - '0'.toNat

/-- The number that decimal digits stand for. -/
def decimal (digits : List Char) : Nat := digits.foldl (fun n c => 10 * n + digitValue c) 0

/-! ## Fixed places

The double is taken exactly, and a value half-way between two decimals goes to the one whose last
digit is even. -/

/-- The numerator and denominator of a finite double that is not negative. -/
def ratio (x : Float) : Nat × Nat :=
  let bits := x.toBits.toNat
  let exponent := (bits >>> 52) % 2048
  let fraction := bits % (1 <<< 52)
  let significand := if exponent = 0 then fraction else (1 <<< 52) + fraction
  (significand <<< (exponent - 1075), 1 <<< (1075 - max exponent 1))

/-- The digits of `n`, of which so many stand behind the point. -/
def placesText (places n : Nat) : String :=
  let unit := Nat.pow 10 places
  let digits := Nat.toDigits 10 (n % unit)
  toString (n / unit) ++ "." ++
    String.ofList (List.replicate (places - digits.length) '0' ++ digits)

/-- A double that is not negative, with a fixed number of places. -/
def fixed (places : Nat) (x : Float) : String :=
  let (num, den) := ratio x
  placesText places (roundDiv (num * Nat.pow 10 places) den)

/-! ## Quotes

Quotes and backslashes get a backslash, four control characters have short forms, and every other
character that would not show is written by its code point. -/

/-- Lower-case hexadecimal digits without padding. -/
def hex (n : Nat) : List Char := Nat.toDigits 16 n

/-- How a character is written between quotes. -/
def escape (c : Char) : List Char :=
  if c = '"' then ['\\', '"']
  else if c = '\\' then ['\\', '\\']
  else if c = '\t' then ['\\', 't']
  else if c = '\n' then ['\\', 'n']
  else if c = '\r' then ['\\', 'r']
  else if c.toNat = 0 then ['\\', '0']
  else if isHidden c then ['\\', 'u', '\x7b'] ++ hex c.toNat ++ ['\x7d']
  else [c]

/-- A text between quotes, as messages show it. -/
def quote (s : String) : String := String.ofList ('"' :: s.toList.flatMap escape ++ ['"'])

end WalStore.Text

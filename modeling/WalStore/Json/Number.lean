import WalStore.Text

/-!
# Numbers in JSON

A number is kept as it is written: a sign, whole digits without leading zeros, a fraction and an
exponent. So a whole number is told apart from an equal one with a point or an exponent, and no
digit is lost.
-/

namespace WalStore.Json

/-- A number, as it is written. -/
structure Number where
  negative : Bool
  whole : Nat
  /-- The digits behind the point; a point needs at least one. -/
  fraction : List Char
  exponent : Option Int
  deriving DecidableEq

namespace Number

/-- A natural number, in its digits alone. -/
def ofNat (n : Nat) : Number := ⟨false, n, [], none⟩

/-- The value of a number that is written as digits only. -/
def toNat? (n : Number) : Option Nat :=
  if n = ofNat n.whole then some n.whole else none

/-! ## Reading -/

/-- Whole digits: zero stands alone, and no other number starts with it. -/
def whole? (digits : List Char) : Option Nat :=
  match digits with
  | [] => none
  | ['0'] => some 0
  | '0' :: _ => none
  | _ => some (Text.decimal digits)

/-- An exponent behind its mark, with or without a sign. -/
def exponent? (word : List Char) : Option Int :=
  let (negative, digits) := match word with
    | '-' :: rest => (true, rest)
    | '+' :: rest => (false, rest)
    | rest => (false, rest)
  if digits.isEmpty || !digits.all Char.isDigit then none
  else if negative then some (-(Text.decimal digits : Int))
  else some (Text.decimal digits)

/-- What follows the fraction: nothing, or an exponent. -/
def scale? : List Char → Option (Option Int)
  | [] => some none
  | mark :: rest => if mark = 'e' ∨ mark = 'E' then (exponent? rest).map some else none

/-- What follows the whole digits. -/
def tail? : List Char → Option (List Char × Option Int)
  | '.' :: rest =>
    let digits := rest.takeWhile Char.isDigit
    if digits.isEmpty then none
    else (scale? (rest.dropWhile Char.isDigit)).map (digits, ·)
  | rest => (scale? rest).map ([], ·)

/-- The number that a word is, all of it. -/
def ofWord? (word : List Char) : Option Number := do
  let (negative, word) := match word with
    | '-' :: rest => (true, rest)
    | rest => (false, rest)
  let whole ← whole? (word.takeWhile Char.isDigit)
  let (fraction, exponent) ← tail? (word.dropWhile Char.isDigit)
  return ⟨negative, whole, fraction, exponent⟩

/-! ## Writing -/

/-- The exponent behind its mark, if there is one. -/
def exponentWord : Option Int → List Char
  | none => []
  | some (.ofNat n) => 'e' :: Nat.toDigits 10 n
  | some (.negSucc n) => 'e' :: '-' :: Nat.toDigits 10 (n + 1)

/-- The characters of a number. -/
def toWord (n : Number) : List Char :=
  (if n.negative then ['-'] else []) ++ Nat.toDigits 10 n.whole ++
    (if n.fraction.isEmpty then [] else '.' :: n.fraction) ++ exponentWord n.exponent

/-! ## Range -/

/-- Appends digits to a significand as long as it fits in 64 bits, and counts them. -/
def fill (significand : Nat) : List Char → Nat × Nat
  | [] => (significand, 0)
  | c :: rest =>
    let longer := 10 * significand + Text.digitValue c
    if longer < UInt64.size then
      let (filled, taken) := fill longer rest
      (filled, taken + 1)
    else (significand, 0)

/-- Whether a significand times a power of ten stays in the range of doubles, where both are
rounded before they are multiplied. -/
def reaches (significand exponent : Nat) : Bool :=
  roundDouble (roundDouble significand * roundDouble (Nat.pow 10 exponent)) < doubleLimit

/-- Whether doubles reach as far as the number. Its leading digits, up to 64 bits of them,
count, and the others only move the point. -/
def isFinite (n : Number) : Bool :=
  let digits := Nat.toDigits 10 n.whole
  let (significand, taken) := fill 0 digits
  let (significand, places) := fill significand n.fraction
  let exponent : Int := (digits.length - taken : Nat) - places + n.exponent.getD 0
  significand = 0 || exponent ≤ 0 || (exponent ≤ 308 && reaches significand exponent.toNat)

end Number
end WalStore.Json

/-!
# Lengths of time and instants

Both count nanoseconds: a duration from zero, an instant from the moment the clock started.
A duration is written in the largest unit that gives it a whole part, with the exact fraction
and no trailing zeros: `1.5s`, `50ms`, `1.001µs`, `0ns`.
-/

namespace WalStore

/-- A length of time in nanoseconds. -/
abbrev Duration := Nat

/-- A moment, in nanoseconds since the clock started. -/
abbrev Instant := Nat

namespace Duration

def microsecond : Duration := 1000

def millisecond : Duration := 1000 * microsecond

def second : Duration := 1000 * millisecond

def minute : Duration := 60 * second

/-- The last `places` digits of `n`, without trailing zeros. -/
def fraction (places n : Nat) : List Char :=
  let digits := Nat.toDigits 10 n
  let padded := List.replicate (places - digits.length) '0' ++ digits
  (padded.reverse.dropWhile (· = '0')).reverse

/-- `d` in units whose length in nanoseconds is a one with so many zeros. -/
def decimal (places : Nat) (d : Duration) : String :=
  let unit := Nat.pow 10 places
  let whole := toString (d / unit)
  match fraction places (d % unit) with
  | [] => whole
  | digits => whole ++ "." ++ String.ofList digits

/-- The duration in the largest unit that it reaches, with as many places as it needs. -/
def text (d : Duration) : String :=
  if second ≤ d then decimal 9 d ++ "s"
  else if millisecond ≤ d then decimal 6 d ++ "ms"
  else if microsecond ≤ d then decimal 3 d ++ "µs"
  else decimal 0 d ++ "ns"

/-- The text of a limit that may be absent. -/
def optionText : Option Duration → String
  | none => "None"
  | some d => "Some(" ++ text d ++ ")"

end Duration

namespace Instant

/-- Instants at or after this one cannot be represented. -/
def horizon : Instant := UInt64.size / 2 * Duration.second

/-- The instant `d` after `t`, if there is one. -/
def after? (t : Instant) (d : Duration) : Option Instant :=
  if t + d < horizon then some (t + d) else none

end Instant
end WalStore

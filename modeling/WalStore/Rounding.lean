/-!
# Rounding

Rounding to the nearest, where a value half-way between two goes to the even one, as doubles are
rounded. Everything is exact arithmetic on natural numbers.
-/

namespace WalStore

/-- The natural number nearest to `num / den`, the even one of two. -/
def roundDiv (num den : Nat) : Nat :=
  let q := num / den
  let twice := 2 * (num % den)
  if den < twice ∨ (twice = den ∧ q % 2 = 1) then q + 1 else q

/-- The number nearest to `n` that has at most so many significant bits. -/
def roundBits (bits n : Nat) : Nat :=
  let excess := n.log2 + 1 - bits
  roundDiv n (1 <<< excess) <<< excess

/-- The double nearest to `n`, as long as it is in range. -/
def roundDouble (n : Nat) : Nat := roundBits 53 n

/-- Numbers from here on are out of the range of doubles. -/
def doubleLimit : Nat := 1 <<< 1024

end WalStore

import WalStore.Bytes

/-!
# Random draws

What is drawn depends on a seed, which each draw replaces. Nothing here is secret: the draws
only have to spread over what can be drawn.
-/

namespace WalStore

/-- A computation that draws from the state of a generator. -/
abbrev Draw := StateM UInt64

namespace Draw

variable {α : Type}

/-- Spreads the bits of a word. -/
def mix (z : UInt64) : UInt64 :=
  let z := (z ^^^ (z >>> 30)) * 0xbf58476d1ce4e5b9
  let z := (z ^^^ (z >>> 27)) * 0x94d049bb133111eb
  z ^^^ (z >>> 31)

/-- A word. The state steps through all words before it repeats. -/
def word : Draw UInt64 := do
  let state := (← get) + 0x9e3779b97f4a7c15
  set state
  return mix state

/-- A number below `n`, which has to be positive. -/
def below (n : Nat) : Draw Nat := return (← word).toNat % n

/-- True in `part` of `whole` cases. -/
def chance (part whole : Nat) : Draw Bool := return (← below whole) < part

/-- One draw after another. -/
def times (n : Nat) (draw : Draw α) : Draw (List α) := (List.replicate n draw).mapM id

/-- So many bytes, each drawn by itself. -/
def bytes (n : Nat) : Draw Bytes := times n (return UInt8.ofNat (← below 256))

/-- What is drawn from a first seed. -/
def value (draw : Draw α) : α := (draw.run 0).1

end Draw
end WalStore

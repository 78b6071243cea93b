import WalStore.Json.Token

/-!
# JSON

Values, how they are read and how they are written. Reading accepts exactly one value with
nothing but white space around it. Writing puts every element on a line of its own, indented by
two spaces for each container around it.

**Reading.** Tokens are folded into a value by a machine that keeps the places still to be
filled. A text or a number without a value of its own is read all the same, so that a reader of
the value decides whether it may stand there (`Value.isSound`).
-/

namespace WalStore.Json

/-- A JSON value. Numbers and the members of an object are kept as they are written. -/
inductive Value where
  | null
  | bool (b : Bool)
  | number (n : Number)
  /-- A text, absent if it has no value. -/
  | text (s : Option String)
  | array (items : List Value)
  | object (members : List (Option String × Value))

namespace Value

def ofNat (n : Nat) : Value := number (.ofNat n)

def ofString (s : String) : Value := text (some s)

/-- Nothing is written as null. -/
def ofOption {α : Type} (f : α → Value) : Option α → Value
  | none => null
  | some a => f a

/-- The value as a natural number, if it is one. -/
def toNat? : Value → Option Nat
  | number n => n.toNat?
  | _ => none

/-- The value as a text, if it is one. -/
def toString? : Value → Option String
  | text s => s
  | _ => none

/-- The elements of the value, if it is an array. -/
def items? : Value → Option (List Value)
  | array items => some items
  | _ => none

/-! ## Soundness -/

mutual

/-- Whether every text has a value, every number fits a double and containers nest at most
`depth` deep. -/
def isSound (depth : Nat) : Value → Bool
  | null | bool _ => true
  | number n => n.isFinite
  | text s => s.isSome
  | array items => depth ≠ 0 && areSound (depth - 1) items
  | object members => depth ≠ 0 && membersSound (depth - 1) members

/-- Whether each of some elements is sound. -/
def areSound (depth : Nat) : List Value → Bool
  | [] => true
  | v :: rest => v.isSound depth && areSound depth rest

/-- Whether each of some members is sound and has a name. -/
def membersSound (depth : Nat) : List (Option String × Value) → Bool
  | [] => true
  | (name, v) :: rest => name.isSome && v.isSound depth && membersSound depth rest

end

/-! ## Reading -/

/-- A place for a value inside a container, with what stands before it, last first. -/
inductive Hole where
  | item (before : List Value)
  | member (before : List (Option String × Value)) (name : Option String)

/-- What may follow, inside the open containers, innermost first. -/
inductive Reader where
  | value (holes : List Hole)
  /-- Behind an opening bracket. -/
  | items (holes : List Hole)
  /-- Behind an opening brace or a comma in an object. -/
  | name (before : List (Option String × Value)) (holes : List Hole)
  | colon (before : List (Option String × Value)) (name : Option String) (holes : List Hole)
  /-- Behind a value. -/
  | ended (v : Value) (holes : List Hole)

namespace Reader

/-- A token where a value has to follow. -/
def enter (holes : List Hole) : Token → Option Reader
  | .null => some (.ended .null holes)
  | .bool b => some (.ended (.bool b) holes)
  | .number n => some (.ended (.number n) holes)
  | .text s => some (.ended (.text s) holes)
  | .openArray => some (.items holes)
  | .openObject => some (.name [] holes)
  | _ => none

/-- Reads one token, unless no value goes on with it. -/
def step : Reader → Token → Option Reader
  | value holes, t => enter holes t
  | items holes, .closeArray => some (ended (.array []) holes)
  | items holes, t => enter (.item [] :: holes) t
  | name [] holes, .closeObject => some (ended (.object []) holes)
  | name before holes, .text s => some (colon before s holes)
  | colon before s holes, .colon => some (value (.member before s :: holes))
  | ended v (.item before :: holes), .comma => some (value (.item (v :: before) :: holes))
  | ended v (.item before :: holes), .closeArray =>
    some (ended (.array (v :: before).reverse) holes)
  | ended v (.member before s :: holes), .comma => some (name ((s, v) :: before) holes)
  | ended v (.member before s :: holes), .closeObject =>
    some (ended (.object ((s, v) :: before).reverse) holes)
  | _, _ => none

/-- The value, if one has ended and nothing is open. -/
def finish? : Reader → Option Value
  | ended v [] => some v
  | _ => none

end Reader

/-- The one value that all of the tokens make up. -/
def ofTokens? (tokens : List Token) : Option Value :=
  (tokens.foldlM Reader.step (.value [])).bind Reader.finish?

/-- The value a text is. -/
def ofText? (s : String) : Option Value := (tokens? s.toList).bind ofTokens?

/-! ## Writing -/

/-- A new line inside `depth` containers. -/
def line (depth : Nat) : List Char := '\n' :: List.replicate (2 * depth) ' '

/-- A text in quotes. One without a value is written as half a pair, which is read as such. -/
def textChars : Option String → List Char
  | some s => quote s
  | none => ['"', '\\', 'u', 'd', '8', '0', '0', '"']

mutual

/-- A value that starts inside `depth` containers. -/
def chars (depth : Nat) : Value → List Char
  | null => ['n', 'u', 'l', 'l']
  | bool true => ['t', 'r', 'u', 'e']
  | bool false => ['f', 'a', 'l', 's', 'e']
  | number n => n.toWord
  | text s => textChars s
  | array [] => ['[', ']']
  | array (v :: rest) =>
    '[' :: line (depth + 1) ++ v.chars (depth + 1) ++ itemChars (depth + 1) rest ++ line depth ++
      [']']
  | object [] => ['\x7b', '\x7d']
  | object ((s, v) :: rest) =>
    '\x7b' :: line (depth + 1) ++ textChars s ++ [':', ' '] ++ v.chars (depth + 1) ++
      memberChars (depth + 1) rest ++ line depth ++ ['\x7d']

/-- The further elements of an array. -/
def itemChars (depth : Nat) : List Value → List Char
  | [] => []
  | v :: rest => ',' :: line depth ++ v.chars depth ++ itemChars depth rest

/-- The further members of an object. -/
def memberChars (depth : Nat) : List (Option String × Value) → List Char
  | [] => []
  | (s, v) :: rest =>
    ',' :: line depth ++ textChars s ++ [':', ' '] ++ v.chars depth ++ memberChars depth rest

end

/-- The text of a value. -/
def pretty (v : Value) : String := String.ofList (v.chars 0)

end Value
end WalStore.Json

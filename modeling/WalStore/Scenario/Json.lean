import WalStore.Scenario
import WalStore.Json

/-!
# Scenarios in JSON

A scenario is an object with the fields `name`, `entries`, `up_to` and `expected`, and an entry
an object with the field `kind` and those of its kind. Either may be an array of the same fields
in the same order instead. A position to stop at and the value of a delete may be left out or
null.

**Strictness.** A field that is known may be given once, and its value has to be of its type.
Other fields are passed over: next to the four fields above whatever JSON allows, inside an
entry only values that are sound.
-/

namespace WalStore.Scenario

open Json (Value)

/-! ## Fields -/

/-- The value of a field of an object, which may be missing but not be given twice. -/
def field? (members : List (Option String × Value)) (name : String) : Option (Option Value) :=
  match members.filter (·.1 = some name) with
  | [] => some none
  | [(_, v)] => some (some v)
  | _ => none

/-- The values of fields given in order, of which the last may be missing. -/
def inOrder? (names : List String) (items : List Value) : Option (List (Option Value)) :=
  if items.length ≤ names.length then
    some (items.map some ++ List.replicate (names.length - items.length) none)
  else none

/-- A field that may be missing or null. -/
def optional? {α : Type} (f : Value → Option α) : Option Value → Option (Option α)
  | none | some .null => some none
  | some v => (f v).map some

/-- A number of 64 bits. -/
def word? (v : Value) : Option UInt64 := do
  let n ← v.toNat?
  if n < UInt64.size then return .ofNat n else none

/-- An id, which is a number. -/
def txn? (v : Value) : Option TxnId := (word? v).map .mk

/-- A position, which is a number. -/
def lsn? (v : Value) : Option Lsn := (word? v).map .mk

/-! ## Entries -/

/-- What the field `kind` has for a kind. -/
def kindName : Kind → String
  | .put => "put"
  | .delete => "delete"
  | .txnPut => "txn_put"
  | .txnDelete => "txn_delete"
  | .commit => "commit"
  | .abort => "abort"

/-- Every kind of entry. -/
def kinds : List Kind := [.put, .delete, .txnPut, .txnDelete, .commit, .abort]

/-- The kind that the field `kind` names. -/
def kindOfName? (name : String) : Option Kind := kinds.find? (kindName · = name)

/-- The fields of a kind of entry. -/
def fieldsOf : Kind → List String
  | .put | .delete => ["key", "value"]
  | .txnPut | .txnDelete => ["txn", "key", "value"]
  | .commit | .abort => ["txn"]

namespace Line

/-- The kind of a line. -/
def kind : Line → Kind
  | put .. => .put
  | delete .. => .delete
  | txnPut .. => .txnPut
  | txnDelete .. => .txnDelete
  | commit _ => .commit
  | abort _ => .abort

/-- An id as it is written. -/
def txnValue (t : TxnId) : Value := .ofNat t.toNat

/-- The values of the fields of a line. -/
def values : Line → List Value
  | put key value => [.ofString key, .ofString value]
  | delete key value => [.ofString key, .ofOption .ofString value]
  | txnPut txn key value => [txnValue txn, .ofString key, .ofString value]
  | txnDelete txn key value => [txnValue txn, .ofString key, .ofOption .ofString value]
  | commit txn => [txnValue txn]
  | abort txn => [txnValue txn]

/-- The line of a kind whose fields have these values. -/
def ofValues? : Kind → List (Option Value) → Option Line
  | .put, [key, value] => return put (← (← key).toString?) (← (← value).toString?)
  | .delete, [key, value] =>
    return delete (← (← key).toString?) (← optional? Value.toString? value)
  | .txnPut, [txn, key, value] =>
    return txnPut (← txn? (← txn)) (← (← key).toString?) (← (← value).toString?)
  | .txnDelete, [txn, key, value] =>
    return txnDelete (← txn? (← txn)) (← (← key).toString?) (← optional? Value.toString? value)
  | .commit, [txn] => return commit (← txn? (← txn))
  | .abort, [txn] => return abort (← txn? (← txn))
  | _, _ => none

/-- How deep containers may nest in an entry. -/
def maxDepth : Nat := 125

/-- The kind that a value names, which has to be a text. -/
def kind? (v : Value) : Option Kind := v.toString?.bind kindOfName?

/-- The line that a value is. An object says its kind in a field, an array at its front. -/
def ofJson? (v : Value) : Option Line :=
  if !v.isSound maxDepth then none
  else
    match v with
    | .object members => do
      let kind ← kind? (← (← field? members "kind"))
      ofValues? kind (← (fieldsOf kind).mapM (field? members))
    | .array (first :: rest) => do
      let kind ← kind? first
      ofValues? kind (← inOrder? (fieldsOf kind) rest)
    | _ => none

/-- A line as an object with its kind in front. -/
def toJson (l : Line) : Value :=
  .object (("kind", .ofString (kindName l.kind)) :: (fieldsOf l.kind).zip l.values |>.map
    fun (name, v) => (some name, v))

end Line

/-! ## Scenarios -/

/-- The fields of a scenario, in the order in which they are written. -/
def fieldNames : List String := ["name", "entries", "up_to", "expected"]

/-- A key and a value, which are an array of two texts. -/
def pair? (v : Value) : Option (String × String) := do
  match ← v.items? with
  | [key, value] => return (← key.toString?, ← value.toString?)
  | _ => none

/-- The scenario whose fields have these values. -/
def ofValues? : List (Option Value) → Option Scenario
  | [name, entries, upTo, expected] =>
    return {
      name := ← (← name).toString?
      lines := ← (← (← entries).items?).mapM Line.ofJson?
      upTo := ← optional? lsn? upTo
      expected := ← (← (← expected).items?).mapM pair? }
  | _ => none

/-- The scenario that a value is. Every member of an object needs a name, known or not. -/
def ofJson? : Value → Option Scenario
  | .object members =>
    if members.all (·.1.isSome) then (fieldNames.mapM (field? members)).bind ofValues?
    else none
  | .array items => (inOrder? fieldNames items).bind ofValues?
  | _ => none

/-- The scenario that a text is in JSON. -/
def ofText? (s : String) : Option Scenario := (Value.ofText? s).bind ofJson?

/-- The values of the fields of a scenario, in their order. -/
def values (s : Scenario) : List Value :=
  [.ofString s.name, .array (s.lines.map Line.toJson), .ofOption (.ofNat ∘ Lsn.toNat) s.upTo,
    .array (s.expected.map fun (key, value) => .array [.ofString key, .ofString value])]

/-- A scenario as an object. -/
def toJson (s : Scenario) : Value :=
  .object ((fieldNames.zip s.values).map fun (name, v) => (some name, v))

/-- The scenario in JSON. -/
def text (s : Scenario) : String := s.toJson.pretty

end WalStore.Scenario

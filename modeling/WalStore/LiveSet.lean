import WalStore.SortedMap
import WalStore.Bytes

/-!
# Live records

The key-value pairs a consistent reader sees. A key may hold several values, also equal ones;
they stand oldest first. Keys without values are not kept, and the number of pairs is carried
along and not counted.

**Well-formed by origin.** Nothing about `Raw` keeps groups from being empty, or the number from
being another. A live set is what inserts and removals lead to from nothing (`Raw.Reached`).
-/

namespace WalStore

/-- `vs` without its first `v`, or without its first value, if there is one to lose. -/
def withoutFirst? (vs : List Bytes) : Option Bytes → Option (List Bytes)
  | some v => if v ∈ vs then some (vs.erase v) else none
  | none =>
    match vs with
    | [] => none
    | _ :: rest => some rest

/-! ## Groups and a number -/

/-- Values in groups under their keys, and the number of all of them. -/
structure LiveSet.Raw where
  groups : SortedMap Bytes (List Bytes)
  size : Nat
  deriving DecidableEq

namespace LiveSet.Raw

/-- Puts a value behind the others of its key. -/
def insert (s : Raw) (key value : Bytes) : Raw :=
  ⟨s.groups.insert key (s.groups.getD key [] ++ [value]), s.size + 1⟩

/-- Removes the first `value` under `key`, or the first of all its values, and with the last
value of a key the group. Answers whether there was one. -/
def remove (s : Raw) (key : Bytes) (value : Option Bytes) : Raw × Bool :=
  match withoutFirst? (s.groups.getD key []) value with
  | some [] => (⟨s.groups.erase key, s.size - 1⟩, true)
  | some rest => (⟨s.groups.insert key rest, s.size - 1⟩, true)
  | none => (s, false)

/-- What inserts and removals lead to from nothing. -/
inductive Reached : Raw → Prop
  | empty : Reached ⟨∅, 0⟩
  | insert {s : Raw} (key value : Bytes) : Reached s → Reached (s.insert key value)
  | remove {s : Raw} (key : Bytes) (value : Option Bytes) :
    Reached s → Reached (s.remove key value).1

end LiveSet.Raw

/-- Groups and a number that inserts and removals have led to. -/
structure LiveSet extends LiveSet.Raw where
  reached : toRaw.Reached
  deriving DecidableEq

namespace LiveSet

def empty : LiveSet := ⟨⟨∅, 0⟩, .empty⟩

instance : EmptyCollection LiveSet := ⟨empty⟩

instance : Inhabited LiveSet := ⟨empty⟩

/-! ## Views -/

/-- The values under `key`, oldest first. -/
def values (s : LiveSet) (key : Bytes) : List Bytes := s.groups.getD key []

/-- Whether a pair is live at least once. -/
def contains (s : LiveSet) (key value : Bytes) : Bool := value ∈ s.values key

/-- Whether any value of a key is live. -/
def containsKey (s : LiveSet) (key : Bytes) : Bool := s.groups.contains key

/-- Every pair, in key order and oldest first under a key. -/
def pairs (s : LiveSet) : List (Bytes × Bytes) :=
  s.groups.entries.flatMap fun e => e.2.map (e.1, ·)

def isEmpty (s : LiveSet) : Bool := s.size = 0

/-! ## Changes -/

/-- Adds a pair behind the others of its key. -/
def insert (s : LiveSet) (key value : Bytes) : LiveSet :=
  ⟨s.toRaw.insert key value, .insert key value s.reached⟩

/-- Removes the first `value` under `key`, or the first of all its values. Answers whether there
was one. -/
def remove (s : LiveSet) (key : Bytes) (value : Option Bytes) : LiveSet × Bool :=
  let removed := s.toRaw.remove key value
  (⟨removed.1, .remove key value s.reached⟩, removed.2)

/-- The set that some pairs make up, where the values of a key are in the order of the list. -/
def ofPairs (pairs : List (Bytes × Bytes)) : LiveSet :=
  pairs.foldl (fun s p => s.insert p.1 p.2) ∅

/-! ## What the changes do -/

@[simp] theorem values_empty (key : Bytes) : (∅ : LiveSet).values key = [] := rfl

theorem values_insert (s : LiveSet) (key key' value : Bytes) :
    (s.insert key value).values key' =
      if key' = key then s.values key ++ [value] else s.values key' := by
  simp only [insert, Raw.insert, values, SortedMap.getD, SortedMap.get?_insert]
  split <;> rfl

end LiveSet
end WalStore

/-!
# Sorted maps and sets

Finite maps and sets kept as lists in strictly ascending key order. The order is part of the
type, so two maps are equal exactly when they agree at every key (`SortedMap.ext_get?`), and
listing one always gives the same answer.

**Lookups.** `get?_insert` and `get?_erase` describe every operation through `get?`; nothing
else about the lists is needed to reason about a map. Sets have `mem_insert` and `mem_erase`.
-/

namespace WalStore

open Std

/-! ## Maps -/

/-- A finite map whose entries stand in strictly ascending key order. -/
structure SortedMap (κ ν : Type) [Ord κ] where
  entries : List (κ × ν)
  sorted : entries.Pairwise fun a b => compare a.1 b.1 = .lt
  deriving DecidableEq

namespace SortedMap

section Lists

variable {κ ν : Type} [Ord κ]

/-- The value in the first entry whose key compares equal to `k`. -/
def find? (k : κ) : List (κ × ν) → Option ν
  | [] => none
  | (k', v) :: rest => if compare k k' = .eq then some v else find? k rest

/-- Puts `(k, v)` in front of the first larger key, in place of an equal one. -/
def place (k : κ) (v : ν) : List (κ × ν) → List (κ × ν)
  | [] => [(k, v)]
  | (k', v') :: rest =>
    match compare k k' with
    | .lt => (k, v) :: (k', v') :: rest
    | .eq => (k, v) :: rest
    | .gt => (k', v') :: place k v rest

theorem mem_place {k : κ} {v : ν} {e : κ × ν} {l : List (κ × ν)} (h : e ∈ place k v l) :
    e = (k, v) ∨ e ∈ l := by
  induction l with
  | nil => simpa [place] using h
  | cons hd rest ih =>
    obtain ⟨k', v'⟩ := hd
    simp only [place] at h
    split at h <;> grind

theorem pairwise_place [TransOrd κ] [LawfulEqOrd κ] (k : κ) (v : ν) {l : List (κ × ν)}
    (h : l.Pairwise fun a b => compare a.1 b.1 = .lt) :
    (place k v l).Pairwise fun a b => compare a.1 b.1 = .lt := by
  induction l with
  | nil => simp [place]
  | cons hd rest ih =>
    obtain ⟨k', v'⟩ := hd
    obtain ⟨hhd, hrest⟩ := List.pairwise_cons.1 h
    simp only [place]
    split
    · next hlt =>
      refine List.pairwise_cons.2 ⟨fun e he => ?_, h⟩
      rcases List.mem_cons.1 he with rfl | he
      · exact hlt
      · exact TransCmp.lt_trans hlt (hhd e he)
    · next heq =>
      cases LawfulEqCmp.eq_of_compare heq
      exact List.pairwise_cons.2 ⟨hhd, hrest⟩
    · next hgt =>
      refine List.pairwise_cons.2 ⟨fun e he => ?_, ih hrest⟩
      rcases mem_place he with rfl | he
      · exact OrientedCmp.lt_of_gt hgt
      · exact hhd e he

theorem find?_place [LawfulEqOrd κ] [DecidableEq κ] (k k' : κ) (v : ν) (l : List (κ × ν)) :
    find? k' (place k v l) = if k' = k then some v else find? k' l := by
  have heq {a b : κ} : compare a b = .eq ↔ a = b :=
    ⟨LawfulEqCmp.eq_of_compare, fun h => h ▸ ReflCmp.compare_self⟩
  induction l with
  | nil => simp [place, find?, heq]
  | cons hd rest ih =>
    obtain ⟨k₁, v₁⟩ := hd
    simp only [place]
    split
    · simp [find?, heq]
    · next h =>
      cases heq.1 h
      by_cases h : k' = k <;> simp [find?, h]
    · next hgt =>
      have hk : ¬k = k₁ := fun h => by subst h; simp at hgt
      by_cases h : k' = k
      · subst h
        simp [find?, heq, hk, ih]
      · simp [find?, ih, h]

theorem find?_eq_some_iff [LawfulEqOrd κ] {l : List (κ × ν)}
    (h : l.Pairwise fun a b => compare a.1 b.1 = .lt) {k : κ} {v : ν} :
    find? k l = some v ↔ (k, v) ∈ l := by
  induction l with
  | nil => simp [find?]
  | cons hd rest ih =>
    obtain ⟨k₁, v₁⟩ := hd
    obtain ⟨hhd, hrest⟩ := List.pairwise_cons.1 h
    by_cases hk : compare k k₁ = .eq
    · cases LawfulEqCmp.eq_of_compare hk
      simp only [find?, hk, if_true, Option.some.injEq, List.mem_cons, Prod.mk.injEq, true_and]
      constructor
      · exact fun h => .inl h.symm
      · rintro (h | h)
        · exact h.symm
        · have := hhd _ h
          simp at this
    · have hne : k ≠ k₁ := fun h => hk (h ▸ ReflCmp.compare_self)
      simp [find?, hk, hne, ih hrest]

/-- Two strictly ascending lists with the same members are the same list. -/
theorem eq_of_mem_iff [TransOrd κ] {α : Type} {f : α → κ} {l₁ l₂ : List α}
    (h₁ : l₁.Pairwise fun a b => compare (f a) (f b) = .lt)
    (h₂ : l₂.Pairwise fun a b => compare (f a) (f b) = .lt)
    (h : ∀ a, a ∈ l₁ ↔ a ∈ l₂) : l₁ = l₂ := by
  have asymm {a b : α} (hab : compare (f a) (f b) = .lt) : compare (f b) (f a) ≠ .lt := by
    rw [OrientedCmp.gt_of_lt hab]
    simp
  have irrefl {a : α} : compare (f a) (f a) ≠ .lt := by simp
  induction l₁ generalizing l₂ with
  | nil =>
    cases l₂ with
    | nil => rfl
    | cons b l₂ => simpa using (h b).2 (List.mem_cons_self ..)
  | cons a l₁ ih =>
    cases l₂ with
    | nil => simpa using (h a).1 (List.mem_cons_self ..)
    | cons b l₂ =>
      obtain ⟨ha, h₁'⟩ := List.pairwise_cons.1 h₁
      obtain ⟨hb, h₂'⟩ := List.pairwise_cons.1 h₂
      have hab : a = b := by
        rcases List.mem_cons.1 ((h a).1 (List.mem_cons_self ..)) with e | hal
        · exact e
        · rcases List.mem_cons.1 ((h b).2 (List.mem_cons_self ..)) with e | hbl
          · exact e.symm
          · exact absurd (hb a hal) (asymm (ha b hbl))
      subst hab
      congr 1
      refine ih h₁' h₂' fun c => ⟨fun hc => ?_, fun hc => ?_⟩
      · rcases List.mem_cons.1 ((h c).1 (List.mem_cons_of_mem _ hc)) with rfl | hc'
        · exact absurd (ha _ hc) irrefl
        · exact hc'
      · rcases List.mem_cons.1 ((h c).2 (List.mem_cons_of_mem _ hc)) with rfl | hc'
        · exact absurd (hb _ hc) irrefl
        · exact hc'

end Lists

section Basic

variable {κ ν : Type} [Ord κ]

def empty : SortedMap κ ν := ⟨[], .nil⟩

instance : EmptyCollection (SortedMap κ ν) := ⟨empty⟩

instance : Inhabited (SortedMap κ ν) := ⟨empty⟩

/-- The keys, ascending. -/
def keys (m : SortedMap κ ν) : List κ := m.entries.map (·.1)

/-- The values, in the order of their keys. -/
def values (m : SortedMap κ ν) : List ν := m.entries.map (·.2)

/-- The number of keys. -/
def size (m : SortedMap κ ν) : Nat := m.entries.length

def isEmpty (m : SortedMap κ ν) : Bool := m.entries.isEmpty

/-- The value at a key, if there is one. -/
def get? (m : SortedMap κ ν) (k : κ) : Option ν := find? k m.entries

/-- The value at a key, or a fallback. -/
def getD (m : SortedMap κ ν) (k : κ) (fallback : ν) : ν := (m.get? k).getD fallback

/-- Whether a key has a value. -/
def contains (m : SortedMap κ ν) (k : κ) : Bool := (m.get? k).isSome

/-- The sum of a measure over the values. -/
def total (m : SortedMap κ ν) (measure : ν → Nat) : Nat :=
  m.entries.foldr (fun e n => measure e.2 + n) 0

/-- Takes a key away, if it is there. -/
def erase (m : SortedMap κ ν) (k : κ) : SortedMap κ ν :=
  ⟨m.entries.filter fun e => compare k e.1 ≠ .eq, m.sorted.filter _⟩

/-- Every value is changed by `f`, the keys stay. -/
def mapValues {ν' : Type} (m : SortedMap κ ν) (f : ν → ν') : SortedMap κ ν' :=
  ⟨m.entries.map fun e => (e.1, f e.2), List.pairwise_map.2 m.sorted⟩

/-- The entries whose value is `some` under `f`. -/
def filterMapValues {ν' : Type} (m : SortedMap κ ν) (f : ν → Option ν') : SortedMap κ ν' :=
  ⟨m.entries.filterMap fun e => (f e.2).map (e.1, ·),
    List.pairwise_filterMap.2 <| m.sorted.imp fun {a b} h x hx y hy => by
      obtain ⟨_, _, rfl⟩ := Option.map_eq_some_iff.1 hx
      obtain ⟨_, _, rfl⟩ := Option.map_eq_some_iff.1 hy
      exact h⟩

@[simp] theorem get?_empty (k : κ) : (∅ : SortedMap κ ν).get? k = none := rfl

theorem get?_eq_some_iff [LawfulEqOrd κ] {m : SortedMap κ ν} {k : κ} {v : ν} :
    m.get? k = some v ↔ (k, v) ∈ m.entries := find?_eq_some_iff m.sorted

theorem get?_erase [LawfulEqOrd κ] [DecidableEq κ] (m : SortedMap κ ν) (k k' : κ) :
    (m.erase k).get? k' = if k' = k then none else m.get? k' := by
  have heq {a b : κ} : compare a b = .eq ↔ a = b :=
    ⟨LawfulEqCmp.eq_of_compare, fun h => h ▸ ReflCmp.compare_self⟩
  apply Option.ext
  intro v
  rw [get?_eq_some_iff]
  by_cases h : k' = k
  · simp [erase, h]
  · simp [erase, h, get?_eq_some_iff, heq, Ne.symm h]

theorem mem_keys_iff [LawfulEqOrd κ] {m : SortedMap κ ν} {k : κ} :
    k ∈ m.keys ↔ (m.get? k).isSome := by
  simp only [keys, List.mem_map, Prod.exists, exists_and_right, exists_eq_right,
    Option.isSome_iff_exists, get?_eq_some_iff]

end Basic

section Lookups

variable {κ ν : Type} [Ord κ] [TransOrd κ] [LawfulEqOrd κ]

/-- Gives a key a value, in place of the one it has. -/
def insert (m : SortedMap κ ν) (k : κ) (v : ν) : SortedMap κ ν :=
  ⟨place k v m.entries, pairwise_place k v m.sorted⟩

/-- The map with the given entries; of those with one key the last stays. -/
def ofList (l : List (κ × ν)) : SortedMap κ ν := l.foldl (fun m e => m.insert e.1 e.2) ∅

theorem get?_insert [DecidableEq κ] (m : SortedMap κ ν) (k k' : κ) (v : ν) :
    (m.insert k v).get? k' = if k' = k then some v else m.get? k' :=
  find?_place k k' v m.entries

/-- Maps are equal when they agree at every key. -/
theorem ext_get? {m₁ m₂ : SortedMap κ ν} (h : ∀ k, m₁.get? k = m₂.get? k) : m₁ = m₂ := by
  have : m₁.entries = m₂.entries := by
    refine eq_of_mem_iff m₁.sorted m₂.sorted fun e => ?_
    rw [← get?_eq_some_iff (m := m₁), ← get?_eq_some_iff (m := m₂), h]
  cases m₁
  cases m₂
  simp_all

end Lookups

end SortedMap

/-! ## Sets -/

/-- A finite set whose elements stand in strictly ascending order. -/
structure SortedSet (α : Type) [Ord α] where
  toList : List α
  sorted : toList.Pairwise fun a b => compare a b = .lt
  deriving DecidableEq

namespace SortedSet

section Basic

variable {α : Type} [Ord α]

def empty : SortedSet α := ⟨[], .nil⟩

instance : EmptyCollection (SortedSet α) := ⟨empty⟩

instance : Inhabited (SortedSet α) := ⟨empty⟩

instance : Membership α (SortedSet α) := ⟨fun s a => a ∈ s.toList⟩

instance [DecidableEq α] (a : α) (s : SortedSet α) : Decidable (a ∈ s) :=
  inferInstanceAs (Decidable (a ∈ s.toList))

/-- The number of elements. -/
def size (s : SortedSet α) : Nat := s.toList.length

def isEmpty (s : SortedSet α) : Bool := s.toList.isEmpty

/-- The elements that pass a test. -/
def filter (s : SortedSet α) (p : α → Bool) : SortedSet α := ⟨s.toList.filter p, s.sorted.filter _⟩

/-- Takes an element away, if it is there. -/
def erase (s : SortedSet α) (a : α) : SortedSet α := s.filter fun b => compare a b ≠ .eq

/-- Puts `a` in front of the first larger element, unless it is there already. -/
def place (a : α) : List α → List α
  | [] => [a]
  | b :: rest =>
    match compare a b with
    | .lt => a :: b :: rest
    | .eq => b :: rest
    | .gt => b :: place a rest

theorem mem_place [LawfulEqOrd α] {a b : α} {l : List α} : b ∈ place a l ↔ b = a ∨ b ∈ l := by
  induction l with
  | nil => simp [place]
  | cons c rest ih =>
    simp only [place]
    split
    · simp
    · next heq =>
      cases LawfulEqCmp.eq_of_compare heq
      simp
    · grind

theorem pairwise_place [TransOrd α] [LawfulEqOrd α] (a : α) {l : List α}
    (h : l.Pairwise fun a b => compare a b = .lt) :
    (place a l).Pairwise fun a b => compare a b = .lt := by
  induction l with
  | nil => simp [place]
  | cons b rest ih =>
    obtain ⟨hb, hrest⟩ := List.pairwise_cons.1 h
    simp only [place]
    split
    · next hlt =>
      refine List.pairwise_cons.2 ⟨fun e he => ?_, h⟩
      rcases List.mem_cons.1 he with rfl | he
      · exact hlt
      · exact TransCmp.lt_trans hlt (hb e he)
    · exact h
    · next hgt =>
      refine List.pairwise_cons.2 ⟨fun e he => ?_, ih hrest⟩
      rcases mem_place.1 he with rfl | he
      · exact OrientedCmp.lt_of_gt hgt
      · exact hb e he

@[simp] theorem not_mem_empty {a : α} : ¬a ∈ (∅ : SortedSet α) := fun h => nomatch h

theorem mem_filter {s : SortedSet α} {p : α → Bool} {a : α} :
    a ∈ s.filter p ↔ a ∈ s ∧ p a = true := List.mem_filter

theorem mem_erase [LawfulEqOrd α] {s : SortedSet α} {a b : α} : b ∈ s.erase a ↔ b ≠ a ∧ b ∈ s := by
  have heq : compare a b = .eq ↔ b = a :=
    ⟨fun h => (LawfulEqCmp.eq_of_compare h).symm, fun h => h ▸ ReflCmp.compare_self⟩
  rw [erase, mem_filter]
  simp only [decide_eq_true_eq, ne_eq, heq]
  exact and_comm

/-- Sets are equal when they have the same elements. -/
theorem ext_mem [TransOrd α] {s₁ s₂ : SortedSet α} (h : ∀ a, a ∈ s₁ ↔ a ∈ s₂) : s₁ = s₂ := by
  have : s₁.toList = s₂.toList := SortedMap.eq_of_mem_iff (f := id) s₁.sorted s₂.sorted h
  cases s₁
  cases s₂
  simp_all

end Basic

section Insertion

variable {α : Type} [Ord α] [TransOrd α] [LawfulEqOrd α]

/-- Adds an element, unless it is there. -/
def insert (s : SortedSet α) (a : α) : SortedSet α := ⟨place a s.toList, pairwise_place a s.sorted⟩

/-- The elements of a list, each of them once. -/
def ofList (l : List α) : SortedSet α := l.foldl insert ∅

theorem mem_insert {s : SortedSet α} {a b : α} : b ∈ s.insert a ↔ b = a ∨ b ∈ s := mem_place

end Insertion

end SortedSet
end WalStore

import WalStore.Proofs.SortedMap

/-!
# Sums over sorted maps

What a key adds to a sum over the values of a map (`share`) determines the sum: maps in which every
key has the same share have the same sum (`total_congr`), and if only one key has another share, the
sums differ by just that (`total_exchange`).
-/

namespace WalStore.SortedMap

open Std

variable {κ ν : Type} [Ord κ]

/-- What a key adds to the sum of a measure over the values. -/
def share (m : SortedMap κ ν) (measure : ν → Nat) (k : κ) : Nat := (m.get? k).elim 0 measure

theorem total_add (m : SortedMap κ ν) (f g : ν → Nat) :
    m.total (fun v => f v + g v) = m.total f + m.total g := by
  unfold total
  induction m.entries with
  | nil => rfl
  | cons e l ih =>
    simp only [List.foldr_cons, ih]
    omega

theorem total_one (m : SortedMap κ ν) : m.total (fun _ => 1) = m.size := by
  unfold total size
  induction m.entries with
  | nil => rfl
  | cons e l ih => rw [List.foldr_cons, ih, List.length_cons, Nat.add_comm]

section Lawful

variable [TransOrd κ] [LawfulEqOrd κ] [DecidableEq κ] {m m' : SortedMap κ ν} {f f' : ν → Nat}

omit [TransOrd κ] [DecidableEq κ] in
theorem foldr_filter_of_mem {l : List (κ × ν)}
    (h : l.Pairwise fun a b => compare a.1 b.1 = .lt) {k : κ} {v : ν} (hmem : (k, v) ∈ l) :
    l.foldr (fun e n => f e.2 + n) 0 =
      f v + (l.filter fun e => compare k e.1 ≠ .eq).foldr (fun e n => f e.2 + n) 0 := by
  induction l with
  | nil => cases hmem
  | cons e l ih =>
    obtain ⟨hfirst, hrest⟩ := List.pairwise_cons.1 h
    rw [List.foldr_cons]
    rcases List.mem_cons.1 hmem with rfl | hmem
    · have hkept : l.filter (fun e => compare k e.1 ≠ .eq) = l :=
        List.filter_eq_self.2 fun e he => by simp [hfirst e he]
      rw [List.filter_cons_of_neg (by simp), hkept]
    · have hne : compare k e.1 ≠ .eq := fun heq => by
        have hlt := hfirst _ hmem
        rw [LawfulEqCmp.eq_of_compare heq] at hlt
        simp at hlt
      rw [List.filter_cons_of_pos (by simpa using hne), List.foldr_cons, ih hrest hmem]
      omega

/-- A sum is the share of a key, and the sum without this key. -/
theorem total_eq_share_add (m : SortedMap κ ν) (f : ν → Nat) (k : κ) :
    m.total f = m.share f k + (m.erase k).total f := by
  unfold share
  cases hget : m.get? k with
  | none => rw [erase_of_none hget, Option.elim_none, Nat.zero_add]
  | some v => exact foldr_filter_of_mem m.sorted (get?_eq_some_iff.1 hget)

omit [TransOrd κ] in
theorem share_erase (m : SortedMap κ ν) (f : ν → Nat) (k k' : κ) :
    (m.erase k).share f k' = if k' = k then 0 else m.share f k' := by
  rw [share, get?_erase]
  split <;> rfl

/-- Sums are equal if every key has the same share of both. -/
theorem total_congr (h : ∀ k, m.share f k = m'.share f' k) : m.total f = m'.total f' := by
  -- One key after another is taken out of both maps.
  generalize hsize : m.size + m'.size = n
  induction n using Nat.strongRecOn generalizing m m' with
  | ind n ih =>
    have hless (k : κ) (hsmaller : (m.erase k).size + (m'.erase k).size < n) :
        m.total f = m'.total f' := by
      rw [total_eq_share_add m f k, total_eq_share_add m' f' k, h k]
      refine congrArg _ (ih _ hsmaller (fun k' => ?_) rfl)
      rw [share_erase, share_erase, h k']
    cases hentries : m.entries with
    | cons e l =>
      have hget : m.get? e.1 = some e.2 :=
        get?_eq_some_iff.2 (hentries ▸ List.mem_cons_self)
      have hsmaller := size_erase_of_some hget
      have hother := size_erase_le m' e.1
      exact hless e.1 (by omega)
    | nil =>
      cases hentries' : m'.entries with
      | cons e l =>
        have hget : m'.get? e.1 = some e.2 :=
          get?_eq_some_iff.2 (hentries' ▸ List.mem_cons_self)
        have hsmaller := size_erase_of_some hget
        have hother := size_erase_le m e.1
        exact hless e.1 (by omega)
      | nil => rw [total, total, hentries, hentries']; rfl

/-- If only one key has another share, the sums differ by its shares. -/
theorem total_exchange {x : κ} (h : ∀ k, k ≠ x → m.share f k = m'.share f' k) :
    m.total f + m'.share f' x = m'.total f' + m.share f x := by
  have hrest : (m.erase x).total f = (m'.erase x).total f' := by
    refine total_congr fun k => ?_
    rw [share_erase, share_erase]
    split
    · rfl
    · next hne => exact h k hne
  rw [total_eq_share_add m f x, total_eq_share_add m' f' x, hrest]
  omega

end Lawful

end WalStore.SortedMap

import WalStore.Pending
import WalStore.Proofs.LiveSet

/-!
# What pending work changes

Work changes no key that it has no insert and no delete for (`values_commitInto`), and no work at
all leaves a key as it is committed (`view_empty`).
-/

namespace WalStore

namespace Pending

/-- The work has an insert or a delete for the key. -/
def Touches (p : Pending) (key : Bytes) : Prop :=
  (∃ value, (key, value) ∈ p.inserts) ∨ ∃ value, (key, value) ∈ p.deletes

theorem not_touches_empty (key : Bytes) : ¬(∅ : Pending).Touches key := by
  rintro (⟨value, h⟩ | ⟨value, h⟩) <;> exact SortedSet.not_mem_empty h

theorem Touches.of_insert {p : Pending} {key key' value : Bytes}
    (h : (p.insert key' value).Touches key) : key = key' ∨ p.Touches key := by
  rcases h with ⟨v, hv⟩ | hdeletes
  · rcases SortedSet.mem_insert.1 hv with heq | hmem
    · exact .inl (congrArg Prod.fst heq)
    · exact .inr (.inl ⟨v, hmem⟩)
  · exact .inr (.inr hdeletes)

theorem Touches.of_delete {p : Pending} {key key' : Bytes} {value : Option Bytes}
    (h : (p.delete key' value).Touches key) : key = key' ∨ p.Touches key := by
  rcases h with hinserts | ⟨v, hv⟩
  · exact .inr (.inl hinserts)
  · rcases SortedSet.mem_insert.1 hv with heq | hmem
    · exact .inl (congrArg Prod.fst heq)
    · exact .inr (.inr ⟨v, hmem⟩)

/-- What is left over of inserts and deletes has been among them. -/
theorem mem_foldl_settle (deletes : List (Bytes × Option Bytes)) (n : Net) :
    (∀ p ∈ (deletes.foldl Net.settle n).inserts, p ∈ n.inserts) ∧
      ∀ d ∈ (deletes.foldl Net.settle n).deletes, d ∈ n.deletes ∨ d ∈ deletes := by
  induction deletes generalizing n with
  | nil => exact ⟨fun p hp => hp, fun d hd => .inl hd⟩
  | cons delete deletes ih =>
    obtain ⟨hinserts, hdeletes⟩ := ih (n.settle delete)
    have hsettle : (∀ p ∈ (n.settle delete).inserts, p ∈ n.inserts) ∧
        ∀ d ∈ (n.settle delete).deletes, d ∈ n.deletes ∨ d = delete := by
      unfold Net.settle
      split
      · exact ⟨fun p hp => (SortedSet.mem_erase.1 hp).2, fun d hd => .inl hd⟩
      · exact ⟨fun p hp => hp, fun d hd => by simpa using hd⟩
    refine ⟨fun p hp => hsettle.1 p (hinserts p hp), fun d hd => ?_⟩
    rcases hdeletes d hd with hd | hd
    · rcases hsettle.2 d hd with hd | rfl
      · exact .inl hd
      · exact .inr List.mem_cons_self
    · exact .inr (List.mem_cons_of_mem delete hd)

theorem values_foldl_delete_of_ne {key : Bytes} (deletes : List (Bytes × Option Bytes))
    (a : Applied) (h : ∀ d ∈ deletes, key ≠ d.1) :
    (deletes.foldl Applied.delete a).live.values key = a.live.values key := by
  induction deletes generalizing a with
  | nil => rfl
  | cons d deletes ih =>
    rw [List.foldl_cons, ih _ fun d' hd' => h d' (List.mem_cons_of_mem d hd')]
    have hremove := a.live.values_remove_of_ne (h d List.mem_cons_self) d.2
    unfold Applied.delete
    split <;> next heq => rwa [heq] at hremove

/-- A commit changes only keys that the work touches. -/
theorem values_commitInto {p : Pending} {key : Bytes} (h : ¬p.Touches key) (live : LiveSet) :
    (p.commitInto live).live.values key = live.values key := by
  obtain ⟨hinserts, hdeletes⟩ := mem_foldl_settle p.choosing ⟨p.inserts, []⟩
  have hchoosing (d : Bytes × Option Bytes) (hd : d ∈ p.choosing) : d ∈ p.deletes := by
    simp only [choosing, List.mem_append, List.mem_filter] at hd
    exact hd.elim And.left And.left
  unfold commitInto
  dsimp only
  rw [values_foldl_delete_of_ne, LiveSet.values_foldl_insert_of_ne]
  · rintro ⟨k, v⟩ hp rfl
    exact h (.inl ⟨v, hinserts _ hp⟩)
  · rintro ⟨k, v⟩ hd rfl
    exact h (.inr ⟨v, hchoosing _ ((hdeletes _ hd).resolve_left List.not_mem_nil)⟩)

end Pending
end WalStore

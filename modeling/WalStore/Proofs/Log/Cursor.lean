import WalStore.Log.Cursor
import WalStore.Proofs.Log.Holds

/-!
# A cursor finds what a scan finds

Reading a frame piece by piece is reading it at once, and no piece lies outside the store
(`front_eq`). So going on answers the records of a scan, then its damage if there is any, and then
nothing any more (`steps_ofStore`).
-/

namespace WalStore

theorem Store.readAt_eq_ok {s : Store} {offset length : Nat} (h : offset + length ≤ s.size) :
    s.readAt offset length = .ok ((s.toList.drop offset).take length) := by
  rw [readAt, if_pos h, toList]
  simp

/-- A scan as the answers to `n` steps: its records, its error if it met one, and nothing from
then on. -/
def Scan.answers (s : Scan) (n : Nat) : List Cursor.Answer :=
  s.items.map (fun item => some (.ok item)) ++
    match s.error?, n - s.items.length with
    | some e, n + 1 => some (.error e) :: List.replicate n none
    | _, n => List.replicate n none

theorem Scan.answers_cons (s : Scan) (item : Nat × Record) (n : Nat) :
    { s with items := item :: s.items }.answers (n + 1) = some (.ok item) :: s.answers n := by
  simp only [answers, List.map_cons, List.cons_append, List.length_cons, Nat.add_sub_add_right,
    error?]

theorem Scan.answers_of_undamaged {s : Scan} (h : s.error? = none) (n : Nat) :
    s.answers n = s.items.map (fun item => some (.ok item)) ++
      List.replicate (n - s.items.length) none := by
  rw [answers, h]

namespace Cursor

variable {c : Cursor}

open WalStore.Frame (headerSize checksumSize)

theorem front_eq (h : c.offset ≤ c.store.size) :
    c.front = Frame.read c.offset c.last (c.store.toList.drop c.offset) := by
  have hlength : (c.store.toList.drop c.offset).length = c.store.size - c.offset := by
    rw [List.length_drop, Store.length_toList]
  unfold front Frame.read
  dsimp only
  by_cases hnone : c.store.size - c.offset = 0
  · have hnil : c.store.toList.drop c.offset = [] :=
      List.eq_nil_of_length_eq_zero (hlength.trans hnone)
    rw [if_pos hnone, hnil]
    rfl
  have hsome : (c.store.toList.drop c.offset).isEmpty = false := by
    rw [← Bool.not_eq_true, List.isEmpty_iff, ← List.length_eq_zero_iff, hlength]
    exact hnone
  rw [if_neg hnone, hsome, if_neg Bool.false_ne_true, List.length_take, hlength]
  by_cases hhead : c.store.size - c.offset < headerSize
  · rw [if_pos hhead, if_pos (by omega)]
  rw [if_neg hhead, if_neg (by omega), Store.readAt_eq_ok (by omega)]
  dsimp only
  cases Frame.header c.offset ((c.store.toList.drop c.offset).take headerSize) with
  | error e => rfl
  | ok head =>
    dsimp only
    rw [List.length_take, List.length_drop, hlength]
    by_cases htail : c.store.size - c.offset - headerSize < head.length + checksumSize
    · rw [if_pos htail, if_pos (by omega)]
    · rw [Store.readAt_eq_ok (by omega), List.drop_drop]
      exact (if_neg htail).trans (if_neg (by omega)).symm

/-! ## Steps -/

theorem steps_of_finished (h : c.finished = true) (n : Nat) :
    c.steps n = (c, List.replicate n none) := by
  induction n with
  | zero => rfl
  | succ n ih =>
    have hnext : c.next = (c, none) := by rw [next, if_pos h]
    rw [steps, hnext]
    dsimp only
    rw [ih]
    rfl

theorem steps_of_next {c' : Cursor} {answer : Answer} (h : c.next = (c', answer)) (n : Nat) :
    c.steps (n + 1) = ((c'.steps n).1, answer :: (c'.steps n).2) := by
  rw [steps, h]

/-- Nothing comes after the step at which a cursor stops. -/
theorem steps_of_stop {c' : Cursor} {answer : Answer} (h : c.next = (c', answer))
    (hstop : c'.finished = true) (n : Nat) :
    c.steps (n + 1) = (c', answer :: List.replicate n none) := by
  rw [steps_of_next h, steps_of_finished hstop]

/-- A cursor that has stopped where a scan ended. -/
def stopped (store : Store) (s : Scan) : Cursor := ⟨store, s.validEnd, s.lastLsn, s.isTorn, true⟩

/-- A cursor that has not stopped answers what a scan from there on finds. -/
theorem steps_eq_go {store : Store} {offset : Nat} {last : Lsn} {bs : Bytes} {n : Nat}
    (hbs : store.toList.drop offset = bs) (hle : offset ≤ store.size)
    (hn : (Scan.go offset last bs).items.length < n) :
    (⟨store, offset, last, false, false⟩ : Cursor).steps n =
      (stopped store (Scan.go offset last bs), (Scan.go offset last bs).answers n) := by
  have hfront (offset : Nat) (last : Lsn) (hle : offset ≤ store.size) :
      (⟨store, offset, last, false, false⟩ : Cursor).front =
        Frame.read offset last (store.toList.drop offset) := front_eq hle
  obtain ⟨n, rfl⟩ : ∃ m, n = m + 1 := Nat.exists_eq_add_one.2 (by omega)
  induction offset, last, bs using Scan.go.induct generalizing n with
  | case1 offset last bs hread =>
    rw [Scan.go_of_finished hread]
    exact steps_of_stop (by rw [next, hfront _ _ hle, hbs, hread]; rfl) rfl n
  | case2 offset last bs hread =>
    rw [Scan.go_of_torn hread]
    exact steps_of_stop (by rw [next, hfront _ _ hle, hbs, hread]; rfl) rfl n
  | case3 offset last bs e hread =>
    rw [Scan.go_of_damaged hread]
    exact steps_of_stop (by rw [next, hfront _ _ hle, hbs, hread]; rfl) rfl n
  | case4 offset last bs r size hread ih =>
    have hsize := (Frame.size_le_of_read hread).2
    rw [← hbs, List.length_drop, Store.length_toList] at hsize
    have hrest : store.toList.drop (offset + size) = bs.drop size := by
      rw [← hbs, List.drop_drop]
    have hnext : (⟨store, offset, last, false, false⟩ : Cursor).next =
        (⟨store, offset + size, r.lsn, false, false⟩, some (.ok (offset, r))) := by
      rw [next, hfront _ _ hle, hbs, hread]
      rfl
    rw [Scan.go_of_record hread, List.length_cons] at hn
    obtain ⟨n, rfl⟩ : ∃ m, n = m + 1 := Nat.exists_eq_add_one.2 (by omega)
    rw [Scan.go_of_record hread, steps_of_next hnext, ih hrest (by omega) n (by omega)]
    exact Prod.ext rfl (Scan.answers_cons _ _ _).symm

/-- **A cursor over a store finds what a scan of it finds**, and stops where the scan ended. -/
theorem steps_ofStore {store : Store} {n : Nat}
    (hn : (Scan.ofBytes store.toList).items.length < n) : (ofStore store).steps n =
      (stopped store (Scan.ofBytes store.toList), (Scan.ofBytes store.toList).answers n) :=
  steps_eq_go rfl (Nat.zero_le _) hn

end Cursor
end WalStore

import Mathlib.Data.List.Basic
import WalStore.Latency
import WalStore.Proofs.SortedMap

/-!
# Operations that nest

When no two clients are at work at once, the operations under way lie within one another: the last
to start is the first to end. The tracker then works as a stack (`Nests`), and what it finds
overlapping when an operation ends is what that operation lies within (`Nests.finish`).

An operation that lies within no other never causes a dump (`Nests.finish_nil`). One that lies
within another may (`Nests.finish_singleton`), although nobody else is at work.
-/

namespace WalStore

open Std

/-! ## The greatest key -/

namespace SortedMap

variable {κ ν : Type} [Ord κ] [TransOrd κ] [LawfulEqOrd κ] {m : SortedMap κ ν} {k : κ} {v : ν}

omit [LawfulEqOrd κ] in
theorem place_of_forall_lt {l : List (κ × ν)} (h : ∀ e ∈ l, compare e.1 k = .lt) :
    place k v l = l ++ [(k, v)] := by
  induction l with
  | nil => rfl
  | cons e l ih =>
    obtain ⟨hfirst, hrest⟩ := List.forall_mem_cons.1 h
    rw [place, OrientedCmp.gt_of_lt hfirst]
    exact congrArg (e :: ·) (ih hrest)

/-- An entry with a key greater than all comes last. -/
theorem entries_insert_of_forall_lt (h : ∀ e ∈ m.entries, compare e.1 k = .lt) :
    (m.insert k v).entries = m.entries ++ [(k, v)] := place_of_forall_lt h

/-- Erasing the last entry. -/
theorem entries_erase_of_eq_append {l : List (κ × ν)} (h : m.entries = l ++ [(k, v)]) :
    (m.erase k).entries = l := by
  have hsorted := m.sorted
  rw [h, List.pairwise_append] at hsorted
  have hkept : l.filter (fun e => compare k e.1 ≠ .eq) = l := by
    refine List.filter_eq_self.2 fun e he => decide_eq_true ?_
    have hlt := hsorted.2.2 e he (k, v) List.mem_cons_self
    rw [OrientedCmp.gt_of_lt hlt]
    exact fun heq => nomatch heq
  show m.entries.filter (fun e => compare k e.1 ≠ .eq) = l
  rw [h, List.filter_append, hkept, List.filter_cons_of_neg (by simp), List.filter_nil,
    List.append_nil]

end SortedMap

namespace Latency.Tracker

/-! ## Nesting -/

/-- Just the given operations are under way, and each began after those before it. -/
structure Nests (t : Tracker) (tickets : List Ticket) : Prop where
  entries : t.inFlight.entries = tickets.map fun x => (x.id, x)
  lt : ∀ x ∈ tickets, x.id < t.nextTicket

theorem nests_fresh (settings : Settings) : (fresh settings).Nests [] :=
  ⟨rfl, fun _ h => nomatch h⟩

variable {t : Tracker} {tickets : List Ticket} {ticket : Ticket}

/-- An operation that starts lies within those under way. -/
theorem Nests.start (h : t.Nests tickets) (now : Instant) (kind : OpKind) :
    (t.start now kind).1.Nests (tickets ++ [(t.start now kind).2]) where
  entries := by
    rw [List.map_append, ← h.entries]
    refine SortedMap.entries_insert_of_forall_lt fun e he => ?_
    rw [h.entries] at he
    obtain ⟨x, hx, rfl⟩ := List.mem_map.1 he
    exact Nat.compare_eq_lt.2 (h.lt x hx)
  lt x hx := by
    rcases List.mem_append.1 hx with hx | hx
    · exact Nat.lt_succ_of_lt (h.lt x hx)
    · rw [List.mem_singleton.1 hx]
      exact Nat.lt_succ_self _

/-! ## The end of the innermost operation -/

/-- What lies around an operation and has been slow already, longest first. -/
def around (settings : Settings) (now : Instant) (tickets : List Ticket) : List Overlap :=
  ((tickets.map fun x => Overlap.mk x.kind (now - x.started)).filter
    (settings.slow ≤ ·.elapsed)).mergeSort fun a b =>
      b.elapsed < a.elapsed || (a.elapsed = b.elapsed && a.kind.rank ≤ b.kind.rank)

theorem around_nil (settings : Settings) (now : Instant) : around settings now [] = [] := by
  rw [around, List.map_nil, List.filter_nil, List.mergeSort_nil]

theorem around_singleton (settings : Settings) (now : Instant) (x : Ticket) :
    around settings now [x] =
      if settings.slow ≤ now - x.started then [⟨x.kind, now - x.started⟩] else [] := by
  rw [around, List.map_singleton, List.filter_singleton]
  by_cases hslow : settings.slow ≤ now - x.started
  · simp [hslow]
  · simp [hslow]

/-- The operation with the ticket ends here in a dump, which finds `overlapping`. -/
structure Dumps (t : Tracker) (now : Instant) (ticket : Ticket) (overlapping : List Overlap)
    (d : Dump) : Prop where
  slow : t.settings.slow ≤ now - ticket.started
  room : t.dumps.length < t.settings.maxDumps
  enough : t.settings.threshold ≤ overlapping.length
  trigger : d.trigger = ticket.kind
  duration : d.duration = now - ticket.started
  overlapping : d.overlapping = overlapping

theorem settings_finish (t : Tracker) (now : Instant) (ticket : Ticket) :
    (t.finish now ticket).1.settings = t.settings := by
  unfold finish
  dsimp only
  split <;> rfl

/-- When the innermost operation ends, the others are left, and they are what it overlaps. -/
theorem Nests.finish (h : t.Nests (tickets ++ [ticket])) (now : Instant) :
    (t.finish now ticket).1.Nests tickets ∧
      ((t.finish now ticket).1.dumps = t.dumps ∨
        ∃ d, (t.finish now ticket).1.dumps = t.dumps ++ [d] ∧
          t.Dumps now ticket (around t.settings now tickets) d) := by
  have hentries : (t.inFlight.erase ticket.id).entries = tickets.map fun x => (x.id, x) :=
    SortedMap.entries_erase_of_eq_append (h.entries.trans (List.map_append ..))
  have hlt (x : Ticket) (hx : x ∈ tickets) : x.id < t.nextTicket :=
    h.lt x (List.mem_append_left _ hx)
  have hoverlaps (samples : SortedMap OpKind Samples) :
      ({ t with inFlight := t.inFlight.erase ticket.id, samples } : Tracker).slowOverlaps now =
        around t.settings now tickets := by
    rw [slowOverlaps, SortedMap.values, hentries, List.map_map, List.map_map]
    rfl
  unfold Tracker.finish
  dsimp only
  rw [hoverlaps]
  split
  · exact ⟨⟨hentries, hlt⟩, .inl rfl⟩
  · next hdumps =>
    simp only [Bool.or_eq_true, decide_eq_true_eq, not_or, Nat.not_lt, Nat.not_le] at hdumps
    obtain ⟨⟨hslow, hroom⟩, henough⟩ := hdumps
    exact ⟨⟨hentries, hlt⟩, .inr ⟨_, rfl, hslow, hroom, henough, rfl, rfl, rfl⟩⟩

/-- An operation that lies within no other causes no dump. -/
theorem Nests.finish_nil (h : t.Nests [ticket]) (hpositive : 0 < t.settings.threshold)
    (now : Instant) :
    (t.finish now ticket).1.Nests [] ∧ (t.finish now ticket).1.dumps = t.dumps := by
  obtain ⟨hnests, hdumps | ⟨d, -, hdump⟩⟩ := Nests.finish (show t.Nests ([] ++ [ticket]) from h) now
  · exact ⟨hnests, hdumps⟩
  · have henough := hdump.enough
    rw [around_nil, List.length_nil] at henough
    omega

/-- An operation that lies within one other, and in nothing else, causes a dump only if one
operation is enough for that, and the dump finds the other. -/
theorem Nests.finish_singleton {outer : Ticket} (h : t.Nests [outer, ticket])
    (hpositive : 0 < t.settings.threshold) (now : Instant) :
    (t.finish now ticket).1.Nests [outer] ∧
      ((t.finish now ticket).1.dumps = t.dumps ∨
        ∃ d, (t.finish now ticket).1.dumps = t.dumps ++ [d] ∧ t.settings.threshold = 1 ∧
          t.Dumps now ticket [⟨outer.kind, now - outer.started⟩] d) := by
  obtain ⟨hnests, hdumps | ⟨d, hdumps, hdump⟩⟩ :=
    Nests.finish (show t.Nests ([outer] ++ [ticket]) from h) now
  · exact ⟨hnests, .inl hdumps⟩
  · have henough := hdump.enough
    rw [around_singleton] at henough hdump
    split at henough
    · next hslow =>
      rw [if_pos hslow] at hdump
      have hone : t.settings.threshold ≤ 1 := henough
      exact ⟨hnests, .inr ⟨d, hdumps, by omega, hdump⟩⟩
    · have hnone : t.settings.threshold ≤ 0 := henough
      omega

end Latency.Tracker
end WalStore

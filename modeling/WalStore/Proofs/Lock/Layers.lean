import Mathlib.Data.List.ReduceOption
import WalStore.Proofs.Lock.Overdue

/-!
# Layered timeouts

The timeouts of a wait are set by the environment, by the transaction and by the request. Narrowing
one layer by the next leaves the smallest positive timeout of all (`Timeout.smallest?`), so each
deadline of a wait is the end of that one (`Layers.endsAt_lock`, `Layers.endsAt_txn`), and a layer
that is set to a positive timeout, or to a shorter one, moves no deadline to a later instant
(`Layers.Tightens.noLater`).

**Expiry.** The instant to wake up at, the deadline that is found to have passed, and the timeout
that is reported go together (`Deadlines.isSome_expired?_iff`, `Deadlines.expired?_eq_lock_iff`). A
deadline that has passed stays the one that passed first (`Deadlines.expired?_of_le`).
-/

namespace WalStore

/-! ## The smallest timeout -/

namespace Timeout

variable {timeouts timeouts' : List (Option Duration)} {t outer inner : Option Duration}
  {d : Duration}

/-- The smallest positive timeout that is set. -/
def smallest? (timeouts : List (Option Duration)) : Option Duration :=
  (timeouts.reduceOption.filter (0 < ·)).min?

theorem smallest?_eq_some_iff :
    smallest? timeouts = some d ↔
      0 < d ∧ some d ∈ timeouts ∧ ∀ d', some d' ∈ timeouts → 0 < d' → d ≤ d' := by
  simp only [smallest?, List.min?_eq_some_iff, List.mem_filter, List.reduceOption_mem_iff,
    decide_eq_true_eq]
  constructor
  · exact fun ⟨⟨hmem, hpos⟩, hle⟩ => ⟨hpos, hmem, fun d' hmem' hpos' => hle d' ⟨hmem', hpos'⟩⟩
  · exact fun ⟨hpos, hmem, hle⟩ => ⟨⟨hmem, hpos⟩, fun d' h => hle d' h.1 h.2⟩

/-- Where a positive timeout is set, the smallest is no longer. -/
theorem exists_smallest?_le (hmem : some d ∈ timeouts) (hpos : 0 < d) :
    ∃ d' ≤ d, smallest? timeouts = some d' := by
  cases hsmallest : smallest? timeouts with
  | some d' => exact ⟨d', (smallest?_eq_some_iff.1 hsmallest).2.2 d hmem hpos, rfl⟩
  | none =>
    rw [smallest?, List.min?_eq_none_iff, List.filter_eq_nil_iff] at hsmallest
    exact absurd (decide_eq_true hpos) (hsmallest d (List.reduceOption_mem_iff.2 hmem))

/-- What is a positive timeout that is set, and no longer than any other, is the smallest. -/
theorem eq_smallest? (hset : ∀ d, t = some d → 0 < d ∧ some d ∈ timeouts)
    (hle : ∀ d, some d ∈ timeouts → 0 < d → ∃ d' ≤ d, t = some d') : t = smallest? timeouts := by
  cases t with
  | some d =>
    obtain ⟨hpos, hmem⟩ := hset d rfl
    refine (smallest?_eq_some_iff.2 ⟨hpos, hmem, fun d' hmem' hpos' => ?_⟩).symm
    obtain ⟨d'', hd'', heq⟩ := hle d' hmem' hpos'
    cases heq
    exact hd''
  | none =>
    refine (Option.eq_none_iff_forall_ne_some.2 fun d hd => ?_).symm
    obtain ⟨hpos, hmem, -⟩ := smallest?_eq_some_iff.1 hd
    obtain ⟨_, _, hnone⟩ := hle d hmem hpos
    cases hnone

theorem bounded_eq_some_iff : bounded t = some d ↔ t = some d ∧ 0 < d := by
  rw [bounded, Option.filter_eq_some_iff, decide_eq_true_eq, Nat.pos_iff_ne_zero]

theorem bounded_eq_smallest? : bounded t = smallest? [t] := by
  refine eq_smallest? (fun d hd => ?_) fun d hmem hpos => ?_
  · obtain ⟨rfl, hpos⟩ := bounded_eq_some_iff.1 hd
    exact ⟨hpos, List.mem_singleton_self _⟩
  · exact ⟨d, le_rfl, bounded_eq_some_iff.2 ⟨(List.mem_singleton.1 hmem).symm, hpos⟩⟩

/-- What narrowing leaves is set at one of the layers. -/
theorem set_of_narrow (h : narrow outer inner = some d) :
    0 < d ∧ (outer = some d ∨ inner = some d) := by
  unfold narrow at h
  cases ho : bounded outer with
  | none =>
    cases hi : bounded inner with
    | none =>
      rw [ho, hi] at h
      cases h
    | some i =>
      obtain ⟨rfl, hipos⟩ := bounded_eq_some_iff.1 hi
      rw [ho, hi] at h
      cases h
      exact ⟨hipos, .inr rfl⟩
  | some o =>
    obtain ⟨rfl, hopos⟩ := bounded_eq_some_iff.1 ho
    cases hi : bounded inner with
    | none =>
      rw [ho, hi] at h
      cases h
      exact ⟨hopos, .inl rfl⟩
    | some i =>
      obtain ⟨rfl, hipos⟩ := bounded_eq_some_iff.1 hi
      rw [ho, hi] at h
      cases h
      exact ⟨lt_min hopos hipos, (min_choice o i).imp (congrArg some ·.symm) (congrArg some ·.symm)⟩

/-- Narrowing leaves nothing longer than what is set. -/
theorem exists_narrow_le (h : outer = some d ∨ inner = some d) (hpos : 0 < d) :
    ∃ d' ≤ d, narrow outer inner = some d' := by
  unfold narrow
  rcases h with rfl | rfl <;> rw [bounded_eq_some_iff.2 ⟨rfl, hpos⟩]
  · cases bounded inner with
    | none => exact ⟨d, le_rfl, rfl⟩
    | some i => exact ⟨min d i, min_le_left d i, rfl⟩
  · cases bounded outer with
    | none => exact ⟨d, le_rfl, rfl⟩
    | some o => exact ⟨min o d, min_le_right o d, rfl⟩

/-- **Narrowing takes the smallest timeout.** -/
theorem narrow_smallest? : narrow (smallest? timeouts) inner = smallest? (timeouts ++ [inner]) := by
  refine eq_smallest? (fun d hd => ?_) fun d hmem hpos => ?_
  · obtain ⟨hpos, hset | rfl⟩ := set_of_narrow hd
    · exact ⟨hpos, List.mem_append_left _ (smallest?_eq_some_iff.1 hset).2.1⟩
    · exact ⟨hpos, List.mem_append_right _ (List.mem_singleton_self _)⟩
  · rcases List.mem_append.1 hmem with hmem | hmem
    · obtain ⟨d', hle, hd'⟩ := exists_smallest?_le hmem hpos
      obtain ⟨d'', hle', hd''⟩ := exists_narrow_le (.inl hd') (smallest?_eq_some_iff.1 hd').1
      exact ⟨d'', hle'.trans hle, hd''⟩
    · exact exists_narrow_le (.inr (List.mem_singleton.1 hmem).symm) hpos

/-- The layer is left as it is, or set to a positive timeout no longer than the one it had. -/
def Tightens (old new : Option Duration) : Prop :=
  new = old ∨ ∃ d, new = some d ∧ 0 < d ∧ ∀ d', old = some d' → 0 < d' → d ≤ d'

theorem exists_smallest?_le_of_tightens (h : List.Forall₂ Tightens timeouts timeouts')
    (hd : smallest? timeouts = some d) : ∃ d' ≤ d, smallest? timeouts' = some d' := by
  obtain ⟨hpos, hmem, -⟩ := smallest?_eq_some_iff.1 hd
  obtain ⟨new, hnew, htightens⟩ : ∃ new ∈ timeouts', Tightens (some d) new := by
    clear hd
    induction h with
    | nil => cases hmem
    | cons hhead _ ih =>
      rcases List.mem_cons.1 hmem with rfl | hmem
      · exact ⟨_, List.mem_cons_self, hhead⟩
      · obtain ⟨new, hnew, htightens⟩ := ih hmem
        exact ⟨new, List.mem_cons_of_mem _ hnew, htightens⟩
  rcases htightens with rfl | ⟨e, rfl, hepos, hle⟩
  · exact exists_smallest?_le hnew hpos
  · obtain ⟨d', hd', hsmallest⟩ := exists_smallest?_le hnew hepos
    exact ⟨d', hd'.trans (hle d rfl hpos), hsmallest⟩

end Timeout

/-! ## Layers -/

/-- The timeouts set for a wait: by the environment, by the transaction and by the request. -/
structure Layers where
  environment : Timeouts
  transaction : Timeouts
  request : Option Duration
  deriving DecidableEq

namespace Layers

variable {l l' : Layers} {started start : Instant}

def lockTimeouts (l : Layers) : List (Option Duration) :=
  [l.environment.lock, l.transaction.lock, l.request]

/-- A request cannot set the timeout of its transaction. -/
def txnTimeouts (l : Layers) : List (Option Duration) := [l.environment.txn, l.transaction.txn]

/-- The timeouts that a transaction begins with. -/
def ofTransaction (l : Layers) : Timeouts :=
  (Timeouts.outermost l.environment.lock l.environment.txn).narrowed l.transaction.lock
    l.transaction.txn

/-- The deadlines of a wait that starts at `start` in a transaction begun at `started`. -/
def deadlines (l : Layers) (started start : Instant) : Deadlines :=
  .starting start (l.ofTransaction.ofRequest l.request) started l.ofTransaction.txn

theorem txn_ofTransaction : l.ofTransaction.txn = Timeout.smallest? l.txnTimeouts := by
  change Timeout.narrow (Timeout.bounded l.environment.txn) l.transaction.txn = _
  rw [Timeout.bounded_eq_smallest?, Timeout.narrow_smallest?]
  rfl

theorem ofRequest_ofTransaction :
    l.ofTransaction.ofRequest l.request = Timeout.smallest? l.lockTimeouts := by
  change Timeout.narrow
    (Timeout.narrow (Timeout.bounded l.environment.lock) l.transaction.lock) l.request = _
  rw [Timeout.bounded_eq_smallest?, Timeout.narrow_smallest?, Timeout.narrow_smallest?]
  rfl

end Layers

/-! ## Deadlines -/

/-- The deadline is the end of the smallest positive one of the timeouts, counted from `start`.
There is none if no timeout is positive, or if that instant cannot be represented. -/
def EndsAt (start : Instant) (timeouts : List (Option Duration)) (deadline : Option Deadline) :
    Prop :=
  ∀ x, deadline = some x ↔
    Timeout.smallest? timeouts = some x.limit ∧ x.due = start + x.limit ∧ x.due < Instant.horizon

theorem Deadline.after?_of_pos (start : Instant) {limit : Duration} (hpos : 0 < limit) :
    Deadline.after? start (some limit) =
      if start + limit < Instant.horizon then some ⟨start + limit, limit⟩ else none := by
  have hbounded : Timeout.bounded (some limit) = some limit :=
    Timeout.bounded_eq_some_iff.2 ⟨rfl, hpos⟩
  simp only [Deadline.after?, hbounded, Instant.after?, bind, Option.bind]
  by_cases hlt : start + limit < Instant.horizon
  · rw [if_pos hlt, if_pos hlt]
    rfl
  · rw [if_neg hlt, if_neg hlt]

theorem endsAt_after? (start : Instant) (timeouts : List (Option Duration)) :
    EndsAt start timeouts (Deadline.after? start (Timeout.smallest? timeouts)) := by
  rintro ⟨due, limit⟩
  cases hsmallest : Timeout.smallest? timeouts with
  | none => exact iff_of_false nofun nofun
  | some smallest =>
    rw [Deadline.after?_of_pos start (Timeout.smallest?_eq_some_iff.1 hsmallest).1,
      Option.some.injEq]
    dsimp only
    constructor
    · intro h
      split at h
      · next hlt =>
        cases h
        exact ⟨rfl, rfl, hlt⟩
      · cases h
    · rintro ⟨rfl, rfl, hlt⟩
      exact if_pos hlt

/-- What holds of such a deadline, in terms of the timeouts. -/
theorem EndsAt.exists_iff {start : Instant} {timeouts : List (Option Duration)}
    {deadline : Option Deadline} (h : EndsAt start timeouts deadline) {limit : Duration}
    {P : Instant → Prop} :
    (∃ x, deadline = some x ∧ x.limit = limit ∧ P x.due) ↔
      Timeout.smallest? timeouts = some limit ∧ start + limit < Instant.horizon ∧
        P (start + limit) := by
  constructor
  · rintro ⟨x, hx, rfl, hP⟩
    obtain ⟨hsmallest, hdue, hlt⟩ := (h x).1 hx
    rw [hdue] at hlt hP
    exact ⟨hsmallest, hlt, hP⟩
  · exact fun ⟨hsmallest, hlt, hP⟩ =>
      ⟨⟨start + limit, limit⟩, (h _).2 ⟨hsmallest, rfl, hlt⟩, rfl, hP⟩

/-- Where there was a deadline there is one, at that instant or earlier. -/
def NoLater (old new : Option Deadline) : Prop :=
  ∀ x, old = some x → ∃ y, new = some y ∧ y.due ≤ x.due

theorem EndsAt.noLater {start : Instant} {timeouts timeouts' : List (Option Duration)}
    {old new : Option Deadline} (hold : EndsAt start timeouts old)
    (hnew : EndsAt start timeouts' new) (h : List.Forall₂ Timeout.Tightens timeouts timeouts') :
    NoLater old new := by
  intro x hx
  obtain ⟨hsmallest, hdue, hlt⟩ := (hold x).1 hx
  obtain ⟨limit, hle, hsmallest'⟩ := Timeout.exists_smallest?_le_of_tightens h hsmallest
  have hearlier : start + limit ≤ x.due := by
    rw [hdue]
    exact Nat.add_le_add_left hle start
  exact ⟨⟨start + limit, limit⟩, (hnew _).2 ⟨hsmallest', rfl, hearlier.trans_lt hlt⟩, hearlier⟩

namespace Layers

variable {l l' : Layers}

theorem endsAt_lock (l : Layers) (started start : Instant) :
    EndsAt start l.lockTimeouts (l.deadlines started start).lock := by
  have hends := endsAt_after? start l.lockTimeouts
  rwa [← ofRequest_ofTransaction] at hends

theorem endsAt_txn (l : Layers) (started start : Instant) :
    EndsAt started l.txnTimeouts (l.deadlines started start).txn := by
  have hends := endsAt_after? started l.txnTimeouts
  rwa [← txn_ofTransaction] at hends

/-- Each layer is left as it is, or set to a positive timeout no longer than the one it had. -/
structure Tightens (l l' : Layers) : Prop where
  environmentLock : Timeout.Tightens l.environment.lock l'.environment.lock
  environmentTxn : Timeout.Tightens l.environment.txn l'.environment.txn
  transactionLock : Timeout.Tightens l.transaction.lock l'.transaction.lock
  transactionTxn : Timeout.Tightens l.transaction.txn l'.transaction.txn
  request : Timeout.Tightens l.request l'.request

theorem Tightens.noLater (h : l.Tightens l') (started start : Instant) :
    NoLater (l.deadlines started start).lock (l'.deadlines started start).lock ∧
      NoLater (l.deadlines started start).txn (l'.deadlines started start).txn :=
  ⟨(l.endsAt_lock started start).noLater (l'.endsAt_lock started start)
      (.cons h.environmentLock (.cons h.transactionLock (.cons h.request .nil))),
    (l.endsAt_txn started start).noLater (l'.endsAt_txn started start)
      (.cons h.environmentTxn (.cons h.transactionTxn .nil))⟩

end Layers

/-! ## Expiry -/

namespace Deadlines

variable {d : Deadlines} {now later : Instant} {limit : Duration} {e : Expiry}

theorem isSome_expired?_iff :
    (d.expired? now).isSome = true ↔ ∃ due, d.next? = some due ∧ due ≤ now := by
  rw [Option.isSome_iff_ne_none, ne_eq, expired?_eq_none_iff]
  simp only [not_forall, not_lt, exists_prop]

/-- The lock timeout counts if it has passed, and earlier than the end of the transaction's time. -/
theorem expired?_eq_lock_iff :
    d.expired? now = some (.lock limit) ↔
      ∃ l, d.lock = some l ∧ l.limit = limit ∧ l.due ≤ now ∧
        ∀ t, d.txn = some t → l.due < t.due := by
  obtain ⟨lock, txn⟩ := d
  cases lock with
  | none =>
    cases txn with
    | none => simp [expired?]
    | some t => by_cases ht : t.due ≤ now <;> simp [expired?, Option.filter_some, ht]
  | some l =>
    cases txn with
    | none => by_cases hl : l.due ≤ now <;> simp [expired?, Option.filter_some, hl]
    | some t =>
      by_cases hl : l.due ≤ now
      · by_cases hfirst : l.due < t.due
        · by_cases ht : t.due ≤ now <;> simp [expired?, Option.filter_some, hl, ht, hfirst]
        · have ht : t.due ≤ now := (not_lt.1 hfirst).trans hl
          simp [expired?, Option.filter_some, hl, ht, hfirst]
      · by_cases ht : t.due ≤ now <;> simp [expired?, Option.filter_some, hl, ht]

/-- **What has passed first stays first.** -/
theorem expired?_of_le (hle : now ≤ later) (h : d.expired? now = some e) :
    d.expired? later = some e := by
  cases e with
  | lock limit =>
    obtain ⟨l, hl, hlimit, hdue, hfirst⟩ := expired?_eq_lock_iff.1 h
    exact expired?_eq_lock_iff.2 ⟨l, hl, hlimit, hdue.trans hle, hfirst⟩
  | txn limit =>
    obtain ⟨t, ht, hlimit, hdue, hfirst⟩ := expired?_eq_txn_iff.1 h
    exact expired?_eq_txn_iff.2 ⟨t, ht, hlimit, hdue.trans hle, hfirst⟩

end Deadlines

namespace Layers

variable (l : Layers) (started start now : Instant) (limit : Duration)

/-- What is reported as a lock timeout is the smallest one set. -/
theorem expired?_eq_lock_iff :
    (l.deadlines started start).expired? now = some (.lock limit) ↔
      Timeout.smallest? l.lockTimeouts = some limit ∧ start + limit < Instant.horizon ∧
        start + limit ≤ now ∧
        ∀ t, (l.deadlines started start).txn = some t → start + limit < t.due := by
  rw [Deadlines.expired?_eq_lock_iff]
  exact (l.endsAt_lock started start).exists_iff
    (P := fun due => due ≤ now ∧ ∀ t, (l.deadlines started start).txn = some t → due < t.due)

/-- What is reported as a transaction timeout is the smallest one set. -/
theorem expired?_eq_txn_iff :
    (l.deadlines started start).expired? now = some (.txn limit) ↔
      Timeout.smallest? l.txnTimeouts = some limit ∧ started + limit < Instant.horizon ∧
        started + limit ≤ now ∧
        ∀ x, (l.deadlines started start).lock = some x → started + limit ≤ x.due := by
  rw [Deadlines.expired?_eq_txn_iff]
  exact (l.endsAt_txn started start).exists_iff
    (P := fun due => due ≤ now ∧ ∀ x, (l.deadlines started start).lock = some x → due ≤ x.due)

end Layers
end WalStore

import WalStore.Proofs.Lock.Waits
import WalStore.Proofs.Lock.Wakeup

/-!
# Grants and the time of a transaction

**Theorem (`granted_in_time`).** A request whose transaction's time is over is not granted a new
lock, unless its own lock timeout had passed before that: it fails, or its owner holds enough
already. This is so for a call that looks for the first time and for one that has waited, whatever
has happened to the lock manager since it started and however late it looks.

**Why the lock timeout is excepted.** A look takes the deadline that passed first for the one that
counts (`Deadlines.expired?_eq_txn_iff`), and a lock timeout alone does not keep a request from
being granted. A request that looks after both deadlines, the lock timeout's first, is therefore
granted when its turn has come, although its transaction's time is over (`exists_granted_late`).
-/

namespace WalStore

open Monitor

/-- The end of the transaction's time counts if it has passed, and the lock timeout had not passed
before. -/
theorem Deadlines.expired?_eq_txn_iff {d : Deadlines} {now : Instant} {limit : Duration} :
    d.expired? now = some (.txn limit) ↔
      ∃ t, d.txn = some t ∧ t.limit = limit ∧ t.due ≤ now ∧
        ∀ l, d.lock = some l → t.due ≤ l.due := by
  obtain ⟨lock, txn⟩ := d
  cases txn with
  | none =>
    cases lock with
    | none => simp [expired?]
    | some l => by_cases hl : l.due ≤ now <;> simp [expired?, Option.filter_some, hl]
  | some t =>
    cases lock with
    | none => by_cases ht : t.due ≤ now <;> simp [expired?, Option.filter_some, ht]
    | some l =>
      by_cases ht : t.due ≤ now
      · by_cases hfirst : l.due < t.due
        · have hl : l.due ≤ now := hfirst.le.trans ht
          simp [expired?, Option.filter_some, ht, hl, hfirst]
        · have hle : t.due ≤ l.due := not_lt.1 hfirst
          by_cases hl : l.due ≤ now <;>
            simp [expired?, Option.filter_some, ht, hl, hfirst, hle]
      · by_cases hl : l.due ≤ now <;> simp [expired?, Option.filter_some, ht, hl]

namespace LockState

variable {sight : Sight} {s : LockState} {look : RequestLook} {r : LockRequest} {t : Deadline}

theorem timeIsOver_iff (ht : r.deadlines.txn = some t) :
    timeIsOver sight r ↔ t.due ≤ sight.now ∧ ∀ l, r.deadlines.lock = some l → t.due ≤ l.due := by
  simp only [timeIsOver, Deadlines.expired?_eq_txn_iff, ht, Option.some.injEq]
  constructor
  · rintro ⟨_, _, rfl, -, hdue, hlock⟩
    exact ⟨hdue, hlock⟩
  · rintro ⟨hdue, hlock⟩
    exact ⟨t.limit, t, rfl, rfl, hdue, hlock⟩

/-- What a look at `now` of the request `r` comes to when its transaction's time ends at `t`: no
result, or the one given. -/
structure InTime (t : Deadline) (r : LockRequest) (now : Instant) (table : LockTable)
    (outcome : Option Outcome) : Prop where
  /-- A new lock is granted before the time is over, or after a lock timeout that passed earlier. -/
  granted : ∀ g : Grant, outcome = some (.ok g) → g.isNew = true →
    now < t.due ∨ ∃ l, r.deadlines.lock = some l ∧ l.due < t.due
  /-- Once the time is over the request waits no longer. -/
  returns : t.due ≤ now → outcome ≠ none
  /-- Unless a lock timeout passed earlier, it fails, or its owner holds enough already. -/
  fails : t.due ≤ now → (∀ l, r.deadlines.lock = some l → t.due ≤ l.due) →
    (∃ e, outcome = some (.error e)) ∨
      outcome = some (.ok .alreadyHeld) ∧ table.Holds r.txn r.resource r.mode

theorem inTime_of_error (e : Error) (now : Instant) (table : LockTable) :
    InTime t r now table (some (.error e)) where
  granted _ h := nomatch h
  returns _ := nofun
  fails _ _ := .inl ⟨e, rfl⟩

/-- A request whose time is not over may be granted, and may wait if no deadline has passed. -/
theorem inTime_of_not_over (table : LockTable) (ht : r.deadlines.txn = some t)
    (hover : ¬timeIsOver sight r) {outcome : Option Outcome}
    (hwaits : outcome = none → r.deadlines.expired? sight.now = none) :
    InTime t r sight.now table outcome := by
  rw [timeIsOver_iff ht, not_and] at hover
  refine ⟨fun g _ _ => ?_, fun hdue hnone => ?_, fun hdue hlock => absurd hlock (hover hdue)⟩
  · by_cases hdue : t.due ≤ sight.now
    · exact .inr (by simpa using hover hdue)
    · exact .inl (not_le.1 hdue)
  · have hnext : ∃ due, r.deadlines.next? = some due ∧ due ≤ t.due := by
      rw [Deadlines.next?, ht]
      cases r.deadlines.lock <;> simp
    obtain ⟨due, hsome, hle⟩ := hnext
    have hlt := Deadlines.expired?_eq_none_iff.1 (hwaits hnone) due hsome
    exact absurd (hle.trans hdue) (not_le.2 hlt)

theorem Attempt.inTime {queued : Bool} {w : Waiting} (h : Attempt queued sight w s look)
    (ht : w.request.deadlines.txn = some t) (table : LockTable) :
    InTime t w.request sight.now table look.fate.result? := by
  cases h with
  | victim => exact inTime_of_error _ _ table
  | fail => exact inTime_of_error _ _ table
  | grant _ htime => exact inTime_of_not_over table ht htime nofun
  | stay _ _ htime =>
    refine inTime_of_not_over table ht ?_ fun _ => htime
    rintro ⟨limit, hlimit⟩
    rw [htime] at hlimit
    cases hlimit

theorem Arrival.inTime (h : Arrival sight r s look) (ht : r.deadlines.txn = some t) :
    InTime t r sight.now s.table look.fate.result? := by
  cases h with
  | held hheld hcovers =>
    refine ⟨fun g hresult hnew => ?_, fun _ => nofun, fun _ _ => .inr ⟨rfl, _, hheld, hcovers⟩⟩
    cases hresult
    cases hnew
  | attempt _ hattempt => exact hattempt.inTime ht s.table

end LockState

namespace LockManager

/-- **No new lock for a transaction whose time is over**, unless the request's lock timeout passed
before that. Otherwise a request that looks at the end of its transaction's time, or at any time
after it, fails or has an owner that holds enough already. -/
theorem granted_in_time (detection : Bool) {events : List Event} {call i : Nat} {r : LockRequest}
    {e : Event} {now : Instant} (hlooks : LooksNext (fresh detection) events call r i e now)
    {t : Deadline} (ht : r.deadlines.txn = some t) :
    LockState.InTime t r now ((fresh detection).run events).shared.table
      (((fresh detection).run events).outcome? e) := by
  obtain ⟨cancelled, look, houtcome, hlook⟩ := hlooks.exists_look
  rw [houtcome]
  rcases hlook with harrival | ⟨w, rfl, hattempt⟩
  · exact harrival.inTime ht
  · exact hattempt.inTime ht _

/-- An owner reads a resource, and two others ask for it: one to write, with a lock timeout, and
behind it one to read. The writer's timeout passes, and it gives up. -/
def waitsOut (deadlines : Deadlines) : List Event :=
  [.acquire 0 0 none ⟨⟨1⟩, ⟨[1]⟩, .read, .unbounded⟩,
    .acquire 0 1 none ⟨⟨2⟩, ⟨[1]⟩, .write, ⟨some ⟨5, 5⟩, none⟩⟩,
    .acquire 0 2 none ⟨⟨3⟩, ⟨[1]⟩, .read, deadlines⟩, .wake 1, .recheck 20 1]

/-- The reader behind the writer, if it is asleep all the time. -/
theorem waits_waitsOut {deadlines : Deadlines} (hasleep : ∀ n ∈ [3, 4, 5],
      (((fresh true).run ((waitsOut deadlines).take n)).sleepers.get? 2).isSome = true) :
    (fresh true).Waits (waitsOut deadlines) 2 2 ⟨⟨3⟩, ⟨[1]⟩, .read, deadlines⟩ where
  start := ⟨0, none, rfl⟩
  alone j hj := match j, hj with
    | 3, _ | 4, _ => nofun
    | _ + 5, _ => nofun
  asleep n hn hlength := by
    have hlt : n ≤ 5 := hlength
    have hmem : n ∈ [3, 4, 5] := by
      simp only [List.mem_cons]
      omega
    exact hasleep n hmem

/-- Woken by the writer that gave up, the reader would be granted its lock, but the time of its
transaction is over. -/
theorem granted_in_time_waitsOut :
    let r : LockRequest := ⟨⟨3⟩, ⟨[1]⟩, .read, ⟨none, some ⟨10, 10⟩⟩⟩
    let m := (fresh true).run (waitsOut r.deadlines)
    LooksNext (fresh true) (waitsOut r.deadlines) 2 r 2 (.recheck 20 2) 20 ∧
      ∃ e, m.outcome? (.recheck 20 2) = some (.error e) := by
  intro r m
  have hlooks : LooksNext (fresh true) (waitsOut r.deadlines) 2 r 2 (.recheck 20 2) 20 :=
    .again (s := ⟨⟨r, 0⟩, none, true⟩) (waits_waitsOut (by decide +kernel)) (by decide +kernel) rfl
  refine ⟨hlooks, ?_⟩
  rcases (granted_in_time true hlooks rfl).fails (by decide) nofun with hfails | ⟨hheld, -⟩
  · exact hfails
  · exact absurd hheld (by decide +kernel)

/-- **A lock that is granted late.** With a lock timeout that passed earlier still, the same reader
is granted its lock after the time of its transaction is over, and it held none before. -/
theorem exists_granted_late : ∃ events call r i e now t g,
    LooksNext (fresh true) events call r i e now ∧ r.deadlines.txn = some t ∧ t.due ≤ now ∧
      ((fresh true).run events).outcome? e = some (.ok g) ∧ g.isNew = true ∧
      (((fresh true).run events).shared.table.lock r.resource).isHolder r.txn = false := by
  let r : LockRequest := ⟨⟨3⟩, ⟨[1]⟩, .read, ⟨some ⟨5, 5⟩, some ⟨10, 10⟩⟩⟩
  exact ⟨waitsOut r.deadlines, 2, r, 2, .recheck 20 2, 20, ⟨10, 10⟩, .afterWait 20,
    .again (s := ⟨⟨r, 0⟩, none, true⟩) (waits_waitsOut (by decide +kernel)) (by decide +kernel) rfl,
    rfl, by decide, by decide +kernel, rfl, by decide +kernel⟩

end LockManager
end WalStore

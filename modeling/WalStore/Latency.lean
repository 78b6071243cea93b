import WalStore.Error
import WalStore.SortedMap

/-!
# Latencies

How long operations take, by kind, and a record of moments of contention. A slow operation alone
is no contention: a dump is taken when an operation ends that was slow and enough others are
still under way that have been slow already.

**Statistics.** Count, sum and extremes cover every operation; the percentiles cover a window of
the latest.
-/

namespace WalStore

/-- What an operation does. -/
inductive OpKind where
  | put
  | delete
  | get
  | commit
  | abort
  | lockWait
  deriving DecidableEq, Inhabited

namespace OpKind

open Std

/-- The place of a kind in the order of kinds. -/
def rank : OpKind → Nat
  | put => 0
  | delete => 1
  | get => 2
  | commit => 3
  | abort => 4
  | lockWait => 5

/-- The name by which a kind is shown. -/
def text : OpKind → String
  | put => "Put"
  | delete => "Delete"
  | get => "Get"
  | commit => "Commit"
  | abort => "Abort"
  | lockWait => "LockWait"

/-- The kind that a name stands for. -/
def ofText? (name : String) : Option OpKind :=
  [put, delete, get, commit, abort, lockWait].find? (text · = name)

instance : Ord OpKind := ⟨fun a b => compare a.rank b.rank⟩

instance : TransOrd OpKind := inferInstanceAs (TransCmp (compareOn OpKind.rank))

instance : LawfulEqOrd OpKind where
  eq_of_compare {a b} h := by
    have h : compare a.rank b.rank = .eq := h
    have h : a.rank = b.rank := LawfulEqCmp.eq_of_compare h
    cases a <;> cases b <;> first | rfl | cases h

end OpKind

namespace Latency

/-! ## Settings -/

/-- When a tracker takes a dump, and how much it keeps. -/
structure Settings where
  /-- How many others have to be slow for a dump. -/
  threshold : Nat
  /-- From how long on an operation is slow. -/
  slow : Duration
  maxDumps : Nat
  /-- How many latest operations the percentiles cover. -/
  capacity : Nat
  deriving DecidableEq

namespace Settings

/-- The settings of a tracker unless others are given. -/
def standard : Settings := ⟨8, 100 * Duration.millisecond, 5, 1024⟩

instance : Inhabited Settings := ⟨standard⟩

/-- The threshold is set by this name, and refused under it. -/
def thresholdName : String := "stow.tracker.concurrency_threshold"

/-- The size of the window is set by this name, and refused under it. -/
def capacityName : String := "stow.tracker.sample_capacity"

/-- Neither the threshold nor the window may be zero; a tracker that takes no dumps is allowed. -/
def validate (s : Settings) : Except Error Unit :=
  if s.threshold = 0 then .error (.invalidSetting thresholdName .notPositive)
  else if s.capacity = 0 then .error (.invalidSetting capacityName .notPositive)
  else .ok ()

/-- The settings as debugging output shows them. -/
def describe (s : Settings) : String :=
  "TrackerConfig \x7b concurrency_threshold: " ++ toString s.threshold ++ ", min_duration: " ++
    s.slow.text ++ ", max_dumps: " ++ toString s.maxDumps ++ ", sample_capacity: " ++
    toString s.capacity ++ " \x7d"

end Settings

/-! ## Statistics -/

/-- What is kept of the operations of one kind. -/
structure Samples where
  count : Nat
  total : Duration
  least : Duration
  greatest : Duration
  /-- The latest durations, oldest first. -/
  window : List Duration
  deriving DecidableEq, Inhabited

/-- What is told about the operations of one kind. -/
structure Stats where
  count : Nat
  total : Duration
  least : Duration
  greatest : Duration
  mean : Duration
  p50 : Duration
  p95 : Duration
  p99 : Duration
  deriving DecidableEq

/-- The statistics under the names they are told by. -/
def Stats.figures (s : Stats) : List (String × Nat) :=
  [("count", s.count), ("total", s.total), ("min", s.least), ("max", s.greatest),
    ("mean", s.mean), ("p50", s.p50), ("p95", s.p95), ("p99", s.p99)]

namespace Samples

/-- No operation has ended. -/
def empty : Samples := ⟨0, 0, 0, 0, []⟩

/-- The last `capacity` elements. -/
def latest (capacity : Nat) (l : List Duration) : List Duration := l.drop (l.length - capacity)

/-- One more operation has ended. The window drops the oldest duration once it is full. -/
def add (s : Samples) (capacity : Nat) (d : Duration) : Samples where
  count := s.count + 1
  total := s.total + d
  least := if s.count = 0 then d else min s.least d
  greatest := max s.greatest d
  window := latest capacity (s.window ++ [d])

/-- The element of a sorted list that so many thousandths of it stand in front of. -/
def perMille (sorted : List Duration) (share : Nat) : Duration :=
  sorted.getD (min (sorted.length * share / 1000) (sorted.length - 1)) 0

/-- The mean is exact down to the nanosecond and kept in 64 bits. -/
def stats (s : Samples) : Stats :=
  let sorted := s.window.mergeSort
  { count := s.count
    total := s.total
    least := s.least
    greatest := s.greatest
    mean := s.total / max s.count 1 % UInt64.size
    p50 := perMille sorted 500
    p95 := perMille sorted 950
    p99 := perMille sorted 990 }

end Samples

/-! ## The tracker -/

/-- An operation under way. -/
structure Ticket where
  id : Nat
  kind : OpKind
  started : Instant
  deriving DecidableEq, Inhabited

/-- An operation that was under way for some time. -/
structure Overlap where
  kind : OpKind
  elapsed : Duration
  deriving DecidableEq

/-- A moment of contention. -/
structure Dump where
  /-- The kind of the operation that ended. -/
  trigger : OpKind
  duration : Duration
  /-- The slow operations still under way, longest first. -/
  overlapping : List Overlap
  /-- The statistics at that moment, by kind. -/
  stats : List (OpKind × Stats)
  deriving DecidableEq

/-- The operations under way, and what is kept of those that have ended. -/
structure Tracker where
  settings : Settings
  nextTicket : Nat
  /-- The operations under way, by ticket number. -/
  inFlight : SortedMap Nat Ticket
  samples : SortedMap OpKind Samples
  dumps : List Dump
  deriving DecidableEq

namespace Tracker

/-- A tracker under settings that need not be valid. -/
def fresh (settings : Settings) : Tracker := ⟨settings, 0, ∅, ∅, []⟩

/-- A tracker that is new, if its settings are valid. -/
def ofSettings (settings : Settings) : Except Error Tracker := do
  settings.validate
  return fresh settings

/-- An operation begins. Its ticket has a number of its own. -/
def start (t : Tracker) (now : Instant) (kind : OpKind) : Tracker × Ticket :=
  let ticket := ⟨t.nextTicket, kind, now⟩
  ({ t with nextTicket := t.nextTicket + 1, inFlight := t.inFlight.insert ticket.id ticket },
    ticket)

/-- The statistics of every kind that an operation of has ended. -/
def allStats (t : Tracker) : List (OpKind × Stats) :=
  t.samples.entries.map fun e => (e.1, e.2.stats)

/-- The statistics of a kind; none before an operation of it has ended. -/
def stats? (t : Tracker) (kind : OpKind) : Option Stats := (t.samples.get? kind).map (·.stats)

/-- The slow operations under way, longest first and by kind among equals. -/
def slowOverlaps (t : Tracker) (now : Instant) : List Overlap :=
  let all := t.inFlight.values.map fun f => Overlap.mk f.kind (now - f.started)
  (all.filter (t.settings.slow ≤ ·.elapsed)).mergeSort fun a b =>
    b.elapsed < a.elapsed || (a.elapsed = b.elapsed && a.kind.rank ≤ b.kind.rank)

/-- An operation ends: its duration is recorded, and a dump taken if this is contention. -/
def finish (t : Tracker) (now : Instant) (ticket : Ticket) : Tracker × Duration :=
  let duration := now - ticket.started
  let samples := (t.samples.getD ticket.kind .empty).add t.settings.capacity duration
  let t := { t with
    inFlight := t.inFlight.erase ticket.id
    samples := t.samples.insert ticket.kind samples }
  let overlapping := t.slowOverlaps now
  if duration < t.settings.slow || t.settings.maxDumps ≤ t.dumps.length ||
      overlapping.length < t.settings.threshold then (t, duration)
  else
    ({ t with dumps := t.dumps ++ [⟨ticket.kind, duration, overlapping, t.allStats⟩] }, duration)

/-- The tracker as debugging output shows it. -/
def describe (t : Tracker) : String :=
  "LatencyTracker \x7b config: " ++ t.settings.describe ++ ", .. \x7d"

end Tracker
end Latency
end WalStore

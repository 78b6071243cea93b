import WalStore.Latency

/-!
# Sessions with a tracker

Operations that are timed by a clock, under names. Time stands still but for `advance` and
`time`.
-/

namespace WalStore.Latency

/-- A tracker and a clock, and the tickets of the operations under way by name. -/
structure Session where
  tracker : Tracker
  now : Instant
  tickets : SortedMap String Ticket

namespace Session

/-- A session at time zero, if the settings are valid. -/
def ofSettings (settings : Settings) : Except Error Session :=
  (Tracker.ofSettings settings).map fun tracker => ⟨tracker, 0, ∅⟩

def advance (s : Session) (length : Duration) : Session := { s with now := s.now + length }

/-- Begins an operation under a name. -/
def start (s : Session) (kind : OpKind) (name : String) : Session :=
  let (tracker, ticket) := s.tracker.start s.now kind
  { s with tracker, tickets := s.tickets.insert name ticket }

/-- Ends the operation with a name, if there is one, and answers how long it took. -/
def finish (s : Session) (name : String) : Session × Option Duration :=
  match s.tickets.get? name with
  | none => (s, none)
  | some ticket =>
    let (tracker, duration) := s.tracker.finish s.now ticket
    ({ s with tracker, tickets := s.tickets.erase name }, some duration)

/-- An operation that takes so long while all else stands still. -/
def time (s : Session) (kind : OpKind) (length : Duration) : Session × Duration :=
  let (tracker, ticket) := s.tracker.start s.now kind
  let now := s.now + length
  let (tracker, duration) := tracker.finish now ticket
  ({ s with tracker, now }, duration)

end Session
end WalStore.Latency

import WalStore.Monitor

/-!
# Sessions

A session runs a monitor one step at a time. Steps are numbered, and a call has the number of
the step that starts it. After each step every woken call looks again until all sleep, so a
report can say what became of the step's own call and which earlier calls returned meanwhile.

Time stands still but for `advance`. Tokens have names, each of which stands for one token.
-/

namespace WalStore.Monitor

variable {σ κ ω ρ β : Type}

/-- The calls that returned during a step. -/
structure Report (ρ : Type) where
  /-- The result of the step's own call. -/
  own : Option ρ
  /-- The results of earlier calls, by number. -/
  others : List (Nat × ρ)

def Report.ofResults (step : Nat) (results : List (Nat × ρ)) : Report ρ where
  own := (results.find? (·.1 = step)).map (·.2)
  others := (results.filter (·.1 ≠ step)).mergeSort fun a b => a.1 ≤ b.1

/-- A monitor and a clock, and what the numbers and names of a session stand for. -/
structure Session (σ ω : Type) where
  monitor : Monitor σ ω
  now : Instant
  /-- The number of the next step. -/
  step : Nat
  /-- The names of tokens, at their numbers. -/
  names : List String

namespace Session

def ofState (shared : σ) : Session σ ω := ⟨.ofState shared, 0, 0, []⟩

/-- The token with a name. -/
def token (s : Session σ ω) (name : String) : Session σ ω × TokenId :=
  match s.names.idxOf? name with
  | some i => (s, ⟨i⟩)
  | none => ({ s with names := s.names ++ [name] }, ⟨s.names.length⟩)

/-- The calls asleep. -/
def blocked (s : Session σ ω) : List Nat := s.monitor.sleepers.keys

/-- Ends a step: all calls come to rest. -/
def rest (d : Discipline σ κ ω ρ) (s : Session σ ω) (results : List (Nat × ρ)) :
    Session σ ω × Report ρ :=
  let (monitor, more) := s.monitor.settle d s.now
  ({ s with monitor, step := s.step + 1 }, .ofResults s.step (results ++ more))

/-- A step that starts a call. -/
def enter (d : Discipline σ κ ω ρ) (s : Session σ ω) (token : Option TokenId) (request : κ) :
    Session σ ω × Report ρ :=
  let (monitor, result) := s.monitor.enter d s.now s.step token request
  ({ s with monitor }).rest d (result.toList.map (s.step, ·))

/-- A step that acts on the shared state. -/
def act (d : Discipline σ κ ω ρ) (s : Session σ ω) (change : σ → Change σ β) :
    Session σ ω × β × Report ρ :=
  let (monitor, answer) := s.monitor.act change
  let (s, report) := ({ s with monitor }).rest d []
  (s, answer, report)

/-- A step that cancels a token. -/
def cancel (d : Discipline σ κ ω ρ) (s : Session σ ω) (token : TokenId) : Session σ ω × Report ρ :=
  ({ s with monitor := s.monitor.cancel token }).rest d []

/-- A step during which time passes. -/
def advance (d : Discipline σ κ ω ρ) (s : Session σ ω) (length : Duration) :
    Session σ ω × Report ρ :=
  let now := s.now + length
  let (monitor, results) := s.monitor.elapse d now
  ({ s with monitor, now }).rest d results

end Session
end WalStore.Monitor

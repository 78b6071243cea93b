import WalStore.Proofs.Monitor.Tokens

/-!
# The world around a monitor

Time and cancellations are not part of a monitor, so a `World` adds a clock and the cancellations
under way. A cancellation raises a flag, then looks at the wakers of the token, and then runs each
of them, and anything may happen in between. When time moves on, the waits end that are to end by
then. Calls are numbered in the order in which they start.

**What a move does.** A move is the look of one call, an action on the shared state, or it wakes
calls at most (`Effect`). So a call that is asleep after it has been asleep before, or has just
looked (`Origin`).

**Results.** A call remembers what it has seen in its first look as long as it sleeps, where the
discipline has it so (`Setting.Remembers`). So what it answers depends on its first look and on its
last one alone (`Looks.result`).
-/

namespace WalStore.Monitor

variable {σ κ ω ρ α β : Type}

/-- An action whose answer nobody asks for. -/
def Change.unanswered (c : Change σ β) : Change σ Unit := ⟨c.state, (), c.notify⟩

/-- What calls and actions do to a state, and when the wait of a call ends. -/
structure Setting (σ κ ω ρ α : Type) where
  discipline : Discipline σ κ ω ρ
  perform : α → σ → Change σ Unit
  due? : ω → Option Instant

/-- Wakes the calls of which `p` holds. -/
def wakeWhere (m : Monitor σ ω) (p : Sleeper ω → Bool) : Monitor σ ω :=
  { m with sleepers := m.sleepers.mapValues fun s => s.nudged (p s) }

structure World (σ ω : Type) where
  monitor : Monitor σ ω
  now : Instant
  /-- How many calls have started; the next one has this number. -/
  calls : Nat
  /-- The tokens raised by cancellations that have not looked at the wakers yet. -/
  raised : List TokenId
  /-- How many wakers have still to run. -/
  wakers : Nat

/-- Something that happens in the world. -/
inductive Move (κ α : Type) where
  /-- A call starts: its first look. -/
  | enter (token : Option TokenId) (request : κ)
  /-- A call that has been woken looks again. -/
  | recheck (call : Nat)
  | act (action : α)
  /-- A cancellation starts: it raises the token's flag. -/
  | raise (token : TokenId)
  /-- A cancellation looks at the token's wakers. -/
  | collect (token : TokenId)
  /-- One of the wakers runs. -/
  | notify
  /-- A call is woken for no reason. -/
  | wake (call : Nat)
  /-- Time moves on, and the waits end that are to end by then. -/
  | pass (now : Instant)
  deriving DecidableEq

namespace World

/-- A world in which no call has started. -/
def fresh (shared : σ) (now : Instant) : World σ ω := ⟨.ofState shared, now, 0, [], 0⟩

/-- What a call with this token sees when it looks. -/
def sight (w : World σ ω) (token : Option TokenId) : Sight := w.monitor.sight w.now token

def asleep? (w : World σ ω) (call : Nat) : Option (Sleeper ω) := w.monitor.sleepers.get? call

variable (E : Setting σ κ ω ρ α)

def step (w : World σ ω) : Move κ α → World σ ω
  | .enter token request =>
    { w with
      monitor := (w.monitor.enter E.discipline w.now w.calls token request).1
      calls := w.calls + 1 }
  | .recheck call => { w with monitor := (w.monitor.recheck E.discipline w.now call).1 }
  | .act action => { w with monitor := (w.monitor.act (E.perform action)).1 }
  | .raise token => { w with monitor := w.monitor.raise token, raised := token :: w.raised }
  | .collect token =>
    if token ∈ w.raised then
      { w with
        raised := w.raised.erase token
        wakers := w.wakers + (w.monitor.token token).wakers.length }
    else w
  | .notify => { w with monitor := w.monitor.wakeAll, wakers := w.wakers - 1 }
  | .wake call => { w with monitor := w.monitor.wake call }
  | .pass now =>
    { w with monitor := w.monitor.wakeWhere fun s => (E.due? s.memory).any (· ≤ now), now }

/-- The result of the call that looks in a move, if it returns. -/
def outcome? (w : World σ ω) : Move κ α → Option ρ
  | .enter token request => (w.monitor.enter E.discipline w.now w.calls token request).2
  | .recheck call => (w.monitor.recheck E.discipline w.now call).2
  | .act _ | .raise _ | .collect _ | .notify | .wake _ | .pass _ => none

def run (w : World σ ω) (moves : List (Move κ α)) : World σ ω := moves.foldl (step E) w

/-- These calls look again one after another. -/
def rechecked (w : World σ ω) (calls : List Nat) : World σ ω := w.run E (calls.map .recheck)

/-- The results of the calls that look again one after another, by number. -/
def recheckResults (w : World σ ω) : List Nat → List (Nat × ρ)
  | [] => []
  | call :: calls =>
    ((w.outcome? E (.recheck call)).map (call, ·)).toList ++
      (w.step E (.recheck call)).recheckResults calls

/-- Nothing is under way: whoever was woken has looked again, and every cancellation is over. -/
structure Quiescent (w : World σ ω) : Prop where
  quiet : w.monitor.isQuiet = true
  raised : w.raised = []
  wakers : w.wakers = 0

variable {E}

theorem run_cons (w : World σ ω) (move : Move κ α) (moves : List (Move κ α)) :
    w.run E (move :: moves) = (w.step E move).run E moves := rfl

theorem run_append (w : World σ ω) (moves moves' : List (Move κ α)) :
    w.run E (moves ++ moves') = (w.run E moves).run E moves' := List.foldl_append

@[simp] theorem rechecked_nil (w : World σ ω) : w.rechecked E [] = w := rfl

theorem rechecked_cons (w : World σ ω) (call : Nat) (calls : List Nat) :
    w.rechecked E (call :: calls) = (w.step E (.recheck call)).rechecked E calls := rfl

/-! ## What a move does -/

/-- `w'` is `w` after `call` has looked: only this call changes other than by being woken. -/
structure Looked (w : World σ ω) (call : Nat) (registration : Option (TokenId × Nat))
    (look : Look σ ω ρ) (w' : World σ ω) : Prop where
  shared : w'.monitor.shared = look.state
  sleepers : ∀ c, w'.asleep? c = if c = call then look.fate.sleeper? registration
    else (w.asleep? c).map (·.nudged look.notify)
  size : w'.monitor.sleepers.size =
    (w.monitor.sleepers.erase call).size + if look.fate.result?.isSome then 0 else 1

/-- `w'` is `w` but for calls that have been woken. -/
structure Nudged (w : World σ ω) (nudge : Nat → Bool) (w' : World σ ω) : Prop where
  sleepers : ∀ c, w'.asleep? c = (w.asleep? c).map (·.nudged (nudge c))
  size : w'.monitor.sleepers.size = w.monitor.sleepers.size
  calls : w'.calls = w.calls

variable (E) in
/-- Every move is a look, an action, or wakes calls at most. -/
inductive Effect (w : World σ ω) : Move κ α → World σ ω → Prop
  | arrive {token : Option TokenId} {request : κ} {registration : Option (TokenId × Nat)}
      {look : Look σ ω ρ} {w' : World σ ω} (htoken : registration.map (·.1) = token)
      (hlook : look = E.discipline.arrive (w.sight token) request w.monitor.shared)
      (hlooked : w.Looked w.calls registration look w') (hcalls : w'.calls = w.calls + 1) :
      Effect w (.enter token request) w'
  | again {call : Nat} {s : Sleeper ω} {look : Look σ ω ρ} {w' : World σ ω}
      (hget : w.asleep? call = some s) (hwoken : s.woken = true)
      (hlook : look =
        E.discipline.again (w.sight (s.token.map (·.1))) s.memory w.monitor.shared)
      (hlooked : w.Looked call s.token look w') (hcalls : w'.calls = w.calls) :
      Effect w (.recheck call) w'
  | act {action : α} {w' : World σ ω}
      (hshared : w'.monitor.shared = (E.perform action w.monitor.shared).state)
      (hnudged : w.Nudged (fun _ => (E.perform action w.monitor.shared).notify) w') :
      Effect w (.act action) w'
  | wake {move : Move κ α} {w' : World σ ω} (nudge : Nat → Bool)
      (hmove : ∀ action, move ≠ .act action)
      (hshared : w'.monitor.shared = w.monitor.shared) (hnudged : w.Nudged nudge w') :
      Effect w move w'

end World

theorem Fate.result?_eq_some_iff {fate : Fate ω ρ} {result : ρ} :
    fate.result? = some result ↔ fate = .returns result := by
  cases fate <;> simp [result?]

theorem size_wakeIf (m : Monitor σ ω) (notify : Bool) :
    (m.wakeIf notify).sleepers.size = m.sleepers.size := by
  cases notify with
  | false => rfl
  | true => exact List.length_map ..

theorem size_afterLook (m : Monitor σ ω) (call : Nat) (registration : Option (TokenId × Nat))
    (look : Look σ ω ρ) :
    (m.afterLook call registration look).1.sleepers.size =
      (m.sleepers.erase call).size + if look.fate.result?.isSome then 0 else 1 := by
  have hothers := size_wakeIf
    ({ m with shared := look.state, sleepers := m.sleepers.erase call } : Monitor σ ω) look.notify
  unfold afterLook
  cases look.fate with
  | returns result =>
    simp only [sleepers_deregister]
    exact hothers
  | sleeps memory =>
    have hnone : (({ m with shared := look.state, sleepers := m.sleepers.erase call } :
        Monitor σ ω).wakeIf look.notify).sleepers.get? call = none := by
      rw [get?_wakeIf, SortedMap.get?_erase, if_pos rfl]
      rfl
    exact (SortedMap.size_insert_of_none hnone _).trans (congrArg (· + 1) hothers)

theorem size_wake (m : Monitor σ ω) (call : Nat) :
    (m.wake call).sleepers.size = m.sleepers.size := by
  unfold wake
  cases hget : m.sleepers.get? call with
  | none => rfl
  | some s => exact SortedMap.size_insert_of_some hget _

theorem isCancelled_register (m : Monitor σ ω) (token token' : Option TokenId) :
    (m.register token).1.isCancelled token' = m.isCancelled token' := by
  cases token' with
  | none => rfl
  | some t => exact m.cancelled_register t token

theorem fst_register (m : Monitor σ ω) (token : Option TokenId) :
    (m.register token).2.map (·.1) = token := by
  cases token <;> rfl

theorem get?_wakeWhere (m : Monitor σ ω) (p : Sleeper ω → Bool) (call : Nat) :
    (m.wakeWhere p).sleepers.get? call = (m.sleepers.get? call).map fun s => s.nudged (p s) :=
  SortedMap.get?_mapValues ..

namespace World

variable {E : Setting σ κ ω ρ α} (w : World σ ω)

theorem looked_afterLook {m : Monitor σ ω} (hsleepers : m.sleepers = w.monitor.sleepers)
    (call : Nat) (registration : Option (TokenId × Nat)) (look : Look σ ω ρ) (w' : World σ ω)
    (hafter : w'.monitor = (m.afterLook call registration look).1) :
    w.Looked call registration look w' where
  shared := by rw [hafter, shared_afterLook]
  sleepers c := by rw [asleep?, asleep?, hafter, get?_afterLook, hsleepers]
  size := by rw [hafter, size_afterLook, hsleepers]

theorem looked_enter (token : Option TokenId) (request : κ) :
    let look := E.discipline.arrive (w.sight token) request w.monitor.shared
    w.Looked w.calls (w.monitor.register token).2 look (w.step E (.enter token request)) ∧
      w.outcome? E (.enter token request) = look.fate.result? := by
  have heq : w.monitor.enter E.discipline w.now w.calls token request =
      (w.monitor.register token).1.afterLook w.calls (w.monitor.register token).2
        (E.discipline.arrive (w.sight token) request w.monitor.shared) := by
    rw [enter_eq, sight, Monitor.sight, Monitor.sight, isCancelled_register]
  exact ⟨w.looked_afterLook (sleepers_register w.monitor token) w.calls _ _ _
      (congrArg Prod.fst heq), (congrArg Prod.snd heq).trans (result_afterLook ..)⟩

variable (E) in
/-- A recheck does nothing, or it is the look of a call that has been woken. -/
theorem recheck_cases (call : Nat) :
    (∀ s, w.asleep? call = some s → s.woken = false) ∧
        w.step E (.recheck call) = w ∧ w.outcome? E (.recheck call) = none ∨
      ∃ s, w.asleep? call = some s ∧ s.woken = true ∧
        let look := E.discipline.again (w.sight (s.token.map (·.1))) s.memory w.monitor.shared
        w.Looked call s.token look (w.step E (.recheck call)) ∧
          w.outcome? E (.recheck call) = look.fate.result? := by
  have hrests (hsame : w.monitor.recheck E.discipline w.now call = (w.monitor, none)) :
      w.step E (.recheck call) = w ∧ w.outcome? E (.recheck call) = none :=
    ⟨by rw [step, hsame], by rw [outcome?, hsame]⟩
  cases hget : w.asleep? call with
  | none =>
    refine .inl ⟨nofun, hrests ?_⟩
    rw [recheck, show w.monitor.sleepers.get? call = none from hget]
  | some s =>
    by_cases hwoken : s.woken = true
    · have heq := recheck_of_woken E.discipline w.now hget hwoken
      exact .inr ⟨s, rfl, hwoken, w.looked_afterLook rfl call s.token _ _ (congrArg Prod.fst heq),
        (congrArg Prod.snd heq).trans (result_afterLook ..)⟩
    · refine .inl ⟨fun s' hs' => ?_, hrests ?_⟩
      · cases hs'
        exact Bool.eq_false_iff.2 hwoken
      · rw [recheck, show w.monitor.sleepers.get? call = some s from hget]
        exact if_neg hwoken

theorem nudged_refl : w.Nudged (fun _ => false) w where
  sleepers c := by simp
  size := rfl
  calls := rfl

variable (E) in
/-- Time that moves on wakes the calls whose waits end. -/
theorem nudged_pass (now : Instant) :
    w.Nudged (fun c => (w.asleep? c).any fun s => (E.due? s.memory).any (· ≤ now))
      (w.step E (.pass now)) where
  sleepers c := by
    change (w.monitor.wakeWhere _).sleepers.get? c = _
    rw [get?_wakeWhere, asleep?]
    cases w.monitor.sleepers.get? c <;> rfl
  size := List.length_map ..
  calls := rfl

variable (E) in
theorem nudged_collect (token : TokenId) :
    w.Nudged (fun _ => false) (w.step E (.collect token)) ∧
      (w.step E (.collect token)).monitor = w.monitor := by
  rw [step]
  split <;> exact ⟨⟨w.nudged_refl.sleepers, rfl, rfl⟩, rfl⟩

theorem step_effect (move : Move κ α) : Effect E w move (w.step E move) := by
  cases move with
  | enter token request =>
    exact .arrive (w.monitor.fst_register token) rfl (w.looked_enter token request).1 rfl
  | recheck call =>
    rcases w.recheck_cases E call with ⟨-, hstep, -⟩ | ⟨s, hget, hwoken, hlooked, -⟩
    · rw [hstep]
      exact .wake _ nofun rfl w.nudged_refl
    · exact .again hget hwoken rfl hlooked rfl
  | act action =>
    exact .act (shared_act w.monitor (E.perform action))
      ⟨fun c => get?_act w.monitor c (E.perform action), size_wakeIf _ _, rfl⟩
  | raise token => exact .wake _ nofun rfl ⟨w.nudged_refl.sleepers, rfl, rfl⟩
  | collect token =>
    obtain ⟨hnudged, hsame⟩ := w.nudged_collect E token
    exact .wake _ nofun (congrArg shared hsame) hnudged
  | notify =>
    exact .wake _ nofun (shared_wakeIf _ true) ⟨fun c => get?_wakeIf w.monitor true c,
      size_wakeIf _ true, rfl⟩
  | wake call =>
    exact .wake _ nofun (shared_wake w.monitor call)
      ⟨fun c => get?_wake w.monitor call c, size_wake w.monitor call, rfl⟩
  | pass now => exact .wake _ nofun rfl (w.nudged_pass E now)

/-- What every look and every action keeps of the shared state holds after a run. -/
theorem shared_run {P : σ → Prop}
    (harrive : ∀ sight request s, P s → P (E.discipline.arrive sight request s).state)
    (hagain : ∀ sight memory s, P s → P (E.discipline.again sight memory s).state)
    (hact : ∀ action s, P s → P (E.perform action s).state) (moves : List (Move κ α))
    (h : P w.monitor.shared) : P (w.run E moves).monitor.shared := by
  induction moves generalizing w with
  | nil => exact h
  | cons move moves ih =>
    refine ih (w.step E move) ?_
    cases w.step_effect (E := E) move with
    | arrive _ hlook hlooked => exact hlooked.shared ▸ hlook ▸ harrive _ _ _ h
    | again _ _ hlook hlooked => exact hlooked.shared ▸ hlook ▸ hagain _ _ _ h
    | act hshared => exact hshared ▸ hact _ _ h
    | wake _ _ hshared => exact hshared ▸ h

variable (E) in
/-- Where a call comes from that is asleep after a move. -/
inductive Origin (w : World σ ω) (move : Move κ α) (call : Nat) : Sleeper ω → Prop
  | slept {s : Sleeper ω} (notify : Bool) (hget : w.asleep? call = some s) :
      Origin w move call (s.nudged notify)
  | arrives {token : Option TokenId} {request : κ} {memory : ω}
      {registration : Option (TokenId × Nat)} (hmove : move = .enter token request)
      (hcall : call = w.calls) (htoken : registration.map (·.1) = token)
      (hfate : (E.discipline.arrive (w.sight token) request w.monitor.shared).fate =
        .sleeps memory) : Origin w move call ⟨memory, registration, false⟩
  | again {s : Sleeper ω} {memory : ω} (hget : w.asleep? call = some s)
      (hfate : (E.discipline.again (w.sight (s.token.map (·.1))) s.memory w.monitor.shared).fate =
        .sleeps memory) : Origin w move call ⟨memory, s.token, false⟩

variable {w} in
theorem origin_step {move : Move κ α} {call : Nat} {s' : Sleeper ω}
    (hget' : (w.step E move).asleep? call = some s') : w.Origin E move call s' := by
  have hslept {notify : Bool} (hnudged : (w.asleep? call).map (·.nudged notify) = some s') :
      w.Origin E move call s' := by
    obtain ⟨s, hs, rfl⟩ := Option.map_eq_some_iff.1 hnudged
    exact .slept notify hs
  cases w.step_effect (E := E) move with
  | @arrive _ _ _ look _ htoken hlook hlooked =>
    rw [hlooked.sleepers] at hget'
    split at hget'
    · next hcall =>
      cases hfate : look.fate with
      | returns result =>
        rw [hfate] at hget'
        cases hget'
      | sleeps memory =>
        rw [hfate] at hget'
        cases hget'
        exact .arrives rfl hcall htoken (hlook ▸ hfate)
    · exact hslept hget'
  | @again _ s look _ hget _ hlook hlooked =>
    rw [hlooked.sleepers] at hget'
    split at hget'
    · next hcall =>
      cases hfate : look.fate with
      | returns result =>
        rw [hfate] at hget'
        cases hget'
      | sleeps memory =>
        rw [hfate] at hget'
        cases hget'
        exact .again (hcall ▸ hget) (hlook ▸ hfate)
    · exact hslept hget'
  | act _ hnudged => exact hslept (hnudged.sleepers call ▸ hget')
  | wake _ _ _ hnudged => exact hslept (hnudged.sleepers call ▸ hget')

/-! ## Numbers -/

/-- The numbers of the calls asleep are not given again. -/
def Numbered (w : World σ ω) : Prop := ∀ c s, w.asleep? c = some s → c < w.calls

theorem calls_le_step (move : Move κ α) : w.calls ≤ (w.step E move).calls := by
  cases w.step_effect (E := E) move with
  | arrive _ _ _ hcalls => exact hcalls ▸ Nat.le_succ _
  | again _ _ _ _ hcalls => exact Nat.le_of_eq hcalls.symm
  | act _ hnudged => exact Nat.le_of_eq hnudged.calls.symm
  | wake _ _ _ hnudged => exact Nat.le_of_eq hnudged.calls.symm

variable {w} in
theorem Numbered.step (h : w.Numbered) (move : Move κ α) : (w.step E move).Numbered := by
  intro c s' hget'
  have hle := w.calls_le_step (E := E) move
  cases origin_step hget' with
  | slept _ hget => exact Nat.lt_of_lt_of_le (h c _ hget) hle
  | again hget => exact Nat.lt_of_lt_of_le (h c _ hget) hle
  | arrives hmove hcall =>
    subst hmove hcall
    exact Nat.lt_succ_self _

end World

/-! ## Calls since their start -/

/-- A call remembers the same thing as long as it sleeps. -/
def Setting.Remembers (E : Setting σ κ ω ρ α) : Prop :=
  ∀ {sight memory s memory'}, (E.discipline.again sight memory s).fate = .sleeps memory' →
    memory' = memory

namespace World

variable {E : Setting σ κ ω ρ α} {w : World σ ω}

variable (E) in
/-- In `move`, which comes after `moves`, a call looks that starts with `request` after `before`. -/
inductive Looks (w : World σ ω) (before : List (Move κ α)) (request : κ) :
    List (Move κ α) → Move κ α → Prop
  | first (token : Option TokenId) : Looks w before request before (.enter token request)
  | again (token : Option TokenId) (after : List (Move κ α)) :
      Looks w before request (before ++ .enter token request :: after)
        (.recheck (w.run E before).calls)

/-- A call asleep was asleep before, if it is not the one that starts. -/
theorem memory_step (hE : E.Remembers) {move : Move κ α} {call : Nat} (hcall : call < w.calls)
    {s' : Sleeper ω} (hget : (w.step E move).asleep? call = some s') :
    ∃ s, w.asleep? call = some s ∧ s'.memory = s.memory ∧
      s'.token.map (·.1) = s.token.map (·.1) := by
  cases origin_step hget with
  | slept _ hold => exact ⟨_, hold, rfl, rfl⟩
  | again hold hfate => exact ⟨_, hold, hE hfate, rfl⟩
  | arrives _ hself => exact absurd hself (Nat.ne_of_lt hcall)

/-- A call asleep still remembers what it has seen in its first look. -/
theorem arrive_of_asleep (hE : E.Remembers) {token : Option TokenId} {request : κ}
    {after : List (Move κ α)} {s : Sleeper ω}
    (hget : ((w.step E (.enter token request)).run E after).asleep? w.calls = some s) :
    (E.discipline.arrive (w.sight token) request w.monitor.shared).fate = .sleeps s.memory ∧
      s.token.map (·.1) = token := by
  have hstart {s : Sleeper ω} (hget : (w.step E (.enter token request)).asleep? w.calls = some s) :
      (E.discipline.arrive (w.sight token) request w.monitor.shared).fate = .sleeps s.memory ∧
        s.token.map (·.1) = token := by
    rw [(w.looked_enter token request).1.sleepers, if_pos rfl] at hget
    cases hfate : (E.discipline.arrive (w.sight token) request w.monitor.shared).fate with
    | returns result =>
      rw [hfate] at hget
      cases hget
    | sleeps memory =>
      rw [hfate] at hget
      cases hget
      exact ⟨rfl, w.monitor.fst_register token⟩
  have hcalls : w.calls < (w.step E (.enter token request)).calls := Nat.lt_succ_self _
  generalize w.step E (.enter token request) = v at hget hstart hcalls
  induction after generalizing v with
  | nil => exact hstart hget
  | cons move after ih =>
    refine ih (v.step E move) hget (fun hs' => ?_)
      (Nat.lt_of_lt_of_le hcalls (v.calls_le_step move))
    obtain ⟨s, hs, hmemory, htoken⟩ := memory_step hE hcalls hs'
    rw [hmemory, htoken]
    exact hstart hs

variable (E) in
/-- In the run, this call has started with `request`, at `began`. -/
def Started (w : World σ ω) (moves : List (Move κ α)) (call : Nat) (token : Option TokenId)
    (request : κ) (began : Instant) : Prop :=
  ∃ before after, moves = before ++ .enter token request :: after ∧
    (w.run E before).calls = call ∧ (w.run E before).now = began

/-- Whoever is asleep has been so all along, or has started. -/
theorem asleep_run {moves : List (Move κ α)} {call : Nat} {s' : Sleeper ω}
    (hget : (w.run E moves).asleep? call = some s') :
    (∃ s, w.asleep? call = some s) ∨
      ∃ token request began, w.Started E moves call token request began := by
  induction moves generalizing w with
  | nil => exact .inl ⟨s', hget⟩
  | cons move moves ih =>
    rcases ih hget with ⟨s, hs⟩ | ⟨token, request, began, before, after, rfl, hcall, hnow⟩
    · cases origin_step hs with
      | slept _ hold => exact .inl ⟨_, hold⟩
      | again hold => exact .inl ⟨_, hold⟩
      | @arrives token request _ _ hmove hcall =>
        subst hmove hcall
        exact .inr ⟨token, request, w.now, [], moves, rfl, rfl, rfl⟩
    · exact .inr ⟨token, request, began, move :: before, after, rfl, hcall, hnow⟩

/-- A call asleep wakes up for good only by looking again. -/
theorem returns_of_step {move : Move κ α} {call : Nat} (hcall : call < w.calls)
    (hget : (w.asleep? call).isSome) (hgone : (w.step E move).asleep? call = none) :
    move = .recheck call ∧ (w.outcome? E move).isSome := by
  obtain ⟨s, hs⟩ := Option.isSome_iff_exists.1 hget
  have hnudged {nudge : Nat → Bool} (hnudged : w.Nudged nudge (w.step E move)) : False := by
    rw [hnudged.sleepers, hs] at hgone
    cases hgone
  cases w.step_effect (E := E) move with
  | arrive _ _ hlooked =>
    rw [hlooked.sleepers, if_neg (Nat.ne_of_lt hcall), hs] at hgone
    cases hgone
  | @again c =>
    rcases w.recheck_cases E c with ⟨-, hstep, -⟩ | ⟨t, -, -, hlooked, houtcome⟩
    · rw [hstep, hs] at hgone
      cases hgone
    · rw [hlooked.sleepers] at hgone
      split at hgone
      · next hself =>
        rw [houtcome, hself]
        generalize E.discipline.again _ _ _ = look at hgone ⊢
        cases hfate : look.fate with
        | returns result => exact ⟨rfl, rfl⟩
        | sleeps memory =>
          rw [hfate] at hgone
          cases hgone
      · rw [hs] at hgone
        cases hgone
  | act _ h => exact (hnudged h).elim
  | wake _ _ _ h => exact (hnudged h).elim

theorem returns_of_run {moves : List (Move κ α)} {call : Nat} (hcall : call < w.calls)
    (hget : (w.asleep? call).isSome) :
    ((w.run E moves).asleep? call).isSome ∨
      ∃ before after, moves = before ++ .recheck call :: after ∧
        ((w.run E before).asleep? call).isSome ∧
          ((w.run E before).outcome? E (.recheck call)).isSome := by
  induction moves generalizing w with
  | nil => exact .inl hget
  | cons move moves ih =>
    cases hstays : (w.step E move).asleep? call with
    | none =>
      obtain ⟨rfl, houtcome⟩ := returns_of_step hcall hget hstays
      exact .inr ⟨[], moves, rfl, hget, houtcome⟩
    | some s =>
      rcases ih (Nat.lt_of_lt_of_le hcall (w.calls_le_step move)) (Option.isSome_of_mem hstays) with
        hasleep | ⟨before, after, rfl, hlast, houtcome⟩
      · exact .inl hasleep
      · exact .inr ⟨move :: before, after, rfl, hlast, houtcome⟩

/-- What a call remembers that has started in a run and is asleep after it. -/
theorem Started.arrive (hE : E.Remembers) {moves : List (Move κ α)} {call : Nat}
    {token : Option TokenId} {request : κ} {began : Instant}
    (h : w.Started E moves call token request began) {s : Sleeper ω}
    (hget : (w.run E moves).asleep? call = some s) :
    s.token.map (·.1) = token ∧ ∃ before after, moves = before ++ .enter token request :: after ∧
      (E.discipline.arrive ⟨began, (w.run E before).monitor.isCancelled token⟩ request
        (w.run E before).monitor.shared).fate = .sleeps s.memory := by
  obtain ⟨before, after, rfl, rfl, rfl⟩ := h
  rw [run_append, run_cons] at hget
  obtain ⟨harrive, htoken⟩ := arrive_of_asleep hE hget
  exact ⟨htoken, before, after, rfl, harrive⟩

theorem result_of_outcome? {w : World σ ω} {call : Nat} {result : ρ}
    (houtcome : w.outcome? E (.recheck call) = some result) :
    ∃ s, w.asleep? call = some s ∧ s.woken = true ∧
      (E.discipline.again (w.sight (s.token.map (·.1))) s.memory w.monitor.shared).fate =
        .returns result := by
  rcases w.recheck_cases E call with ⟨-, -, hnone⟩ | ⟨s, hget, hwoken, -, hresult⟩
  · rw [hnone] at houtcome
    cases houtcome
  · rw [hresult] at houtcome
    exact ⟨s, hget, hwoken, Fate.result?_eq_some_iff.1 houtcome⟩

/-- Where a result comes from: from the first look of a call, or from a later one, at which the call
still remembers what it has seen in the first. -/
theorem Looks.result (hE : E.Remembers) {before moves : List (Move κ α)} {request : κ}
    {move : Move κ α} (hlooks : w.Looks E before request moves move) {result : ρ}
    (houtcome : (w.run E moves).outcome? E move = some result) :
    ∃ token, (moves = before ∧
        (E.discipline.arrive ((w.run E before).sight token) request
          (w.run E before).monitor.shared).fate = .returns result) ∨
      ∃ memory, (E.discipline.arrive ((w.run E before).sight token) request
          (w.run E before).monitor.shared).fate = .sleeps memory ∧
        (E.discipline.again ((w.run E moves).sight token) memory
          (w.run E moves).monitor.shared).fate = .returns result := by
  cases hlooks with
  | first token =>
    rw [((w.run E before).looked_enter token request).2] at houtcome
    exact ⟨token, .inl ⟨rfl, Fate.result?_eq_some_iff.1 houtcome⟩⟩
  | again token after =>
    obtain ⟨s, hget, -, hreturns⟩ := result_of_outcome? houtcome
    rw [run_append, run_cons] at hget
    obtain ⟨harrive, htoken⟩ := arrive_of_asleep hE hget
    exact ⟨token, .inr ⟨s.memory, harrive, htoken ▸ hreturns⟩⟩

end World
end WalStore.Monitor

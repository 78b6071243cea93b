import WalStore.Gate
import WalStore.Proofs.Monitor.Attended

/-!
# The gate in a world

What a look at the gate comes to (`answer?_eq_none_iff` and the lemmas after it), and what the gate
and the calls asleep on it have in common in every run (`Kept`): the gate counts exactly the calls
that are asleep on it, and a call that rests has not been abandoned and needs more keys than there
are.

**Why no key is missed.** A call that falls asleep has seen that there are too few keys. Only
putting a new key makes them more, and that wakes all calls asleep, as the gate knows that there are
some.
-/

namespace WalStore.Gate

open Monitor

section Looks

variable {κ ν : Type} [Ord κ] {g : Gate κ ν} {sight : Sight} {w : SizeWaiting}

/-! ## Looks -/

theorem isUp_iff {deadline : Option Instant} {now : Instant} :
    deadline.any (· ≤ now) = true ↔ ∃ due, deadline = some due ∧ due ≤ now := by
  simp [Option.any_eq_true]

theorem answer?_eq_none_iff : g.answer? sight w = none ↔
    g.generation = w.generation ∧ g.size < w.need ∧ sight.cancelled = false ∧
      ∀ due, w.deadline = some due → sight.now < due := by
  have htime : (∀ due, w.deadline = some due → sight.now < due) ↔
      ¬w.deadline.any (· ≤ sight.now) = true := by
    rw [isUp_iff]
    grind
  rw [htime]
  unfold answer?
  grind

theorem answer?_eq_true_iff : g.answer? sight w = some (.ok true) ↔
    g.generation = w.generation ∧ w.need ≤ g.size := by
  unfold answer?
  grind

theorem answer?_eq_false_iff : g.answer? sight w = some (.ok false) ↔
    g.generation = w.generation ∧ g.size < w.need ∧ sight.cancelled = false ∧
      ∃ due, w.deadline = some due ∧ due ≤ sight.now := by
  rw [← isUp_iff]
  unfold answer?
  grind

theorem answer?_eq_abandoned_iff {cause : String} :
    g.answer? sight w = some (.error (.waitAbandoned cause)) ↔
      g.generation ≠ w.generation ∧ g.lastCause = cause := by
  unfold answer?
  grind

/-- What a call remembers that starts to wait. -/
def waiting (g : Gate κ ν) (sight : Sight) (r : SizeWait) : SizeWaiting :=
  ⟨r.need, r.timeout.bind (Instant.after? sight.now), g.generation⟩

variable {r : SizeWait}

/-- The first look of a call. -/
inductive Arrival (g : Gate κ ν) (sight : Sight) (r : SizeWait) :
    Look (Gate κ ν) SizeWaiting (Except Error Bool) → Prop
  | refused {cause : String} (habandoned : g.abandoned = some cause) :
      Arrival g sight r ⟨g, .returns (.error (.waitAbandoned cause)), false⟩
  | answered {result : Except Error Bool} (habandoned : g.abandoned = none)
      (hanswer : g.answer? sight (g.waiting sight r) = some result) :
      Arrival g sight r ⟨g, .returns result, false⟩
  | waits (habandoned : g.abandoned = none)
      (hanswer : g.answer? sight (g.waiting sight r) = none) :
      Arrival g sight r
        ⟨{ g with waiters := g.waiters + 1 }, .sleeps (g.waiting sight r), false⟩

theorem arrive_spec (g : Gate κ ν) (sight : Sight) (r : SizeWait) :
    Arrival g sight r (g.arrive sight r) := by
  unfold arrive
  split
  · next cause habandoned => exact .refused habandoned
  · next habandoned =>
    dsimp only
    split
    · next result hanswer => exact .answered habandoned hanswer
    · next hanswer => exact .waits habandoned hanswer

/-- A look of a call that has waited. -/
inductive Return (g : Gate κ ν) (sight : Sight) (w : SizeWaiting) :
    Look (Gate κ ν) SizeWaiting (Except Error Bool) → Prop
  | answered {result : Except Error Bool} (hanswer : g.answer? sight w = some result) :
      Return g sight w ⟨{ g with waiters := g.waiters - 1 }, .returns result, false⟩
  | waits (hanswer : g.answer? sight w = none) : Return g sight w ⟨g, .sleeps w, false⟩

theorem again_spec (g : Gate κ ν) (sight : Sight) (w : SizeWaiting) :
    Return g sight w (g.again sight w) := by
  unfold again
  cases hanswer : g.answer? sight w with
  | some result => exact .answered hanswer
  | none => exact .waits hanswer

variable {look : Look (Gate κ ν) SizeWaiting (Except Error Bool)} {memory : SizeWaiting}

theorem Arrival.sleeps (h : Arrival g sight r look) (hfate : look.fate = .sleeps memory) :
    memory = g.waiting sight r ∧ g.abandoned = none ∧ g.answer? sight memory = none := by
  cases h with
  | refused => cases hfate
  | answered => cases hfate
  | waits habandoned hanswer =>
    cases hfate
    exact ⟨rfl, habandoned, hanswer⟩

theorem Arrival.returns (h : Arrival g sight r look) {result : Except Error Bool}
    (hfate : look.fate = .returns result) :
    (∃ cause, g.abandoned = some cause ∧ result = .error (.waitAbandoned cause)) ∨
      g.abandoned = none ∧ g.answer? sight (g.waiting sight r) = some result := by
  cases h with
  | refused habandoned =>
    cases hfate
    exact .inl ⟨_, habandoned, rfl⟩
  | answered habandoned hanswer =>
    cases hfate
    exact .inr ⟨habandoned, hanswer⟩
  | waits => cases hfate

theorem Return.sleeps (h : Return g sight w look) (hfate : look.fate = .sleeps memory) :
    memory = w ∧ g.answer? sight w = none := by
  cases h with
  | answered => cases hfate
  | waits hanswer =>
    cases hfate
    exact ⟨rfl, hanswer⟩

theorem Return.returns_iff (h : Return g sight w look) {result : Except Error Bool} :
    look.fate = .returns result ↔ g.answer? sight w = some result := by
  cases h with
  | answered hanswer => simp [hanswer]
  | waits hanswer => simp [hanswer]

theorem Arrival.need_le (h : Arrival g sight r look) (hfate : look.fate = .returns (.ok true)) :
    r.need ≤ g.size := by
  rcases h.returns hfate with ⟨_, -, heq⟩ | ⟨-, hanswer⟩
  · cases heq
  · exact (answer?_eq_true_iff.1 hanswer).2

theorem Return.need_le (h : Return g sight w look) (hfate : look.fate = .returns (.ok true)) :
    w.need ≤ g.size :=
  (answer?_eq_true_iff.1 (h.returns_iff.1 hfate)).2

/-- The gate is as before, but for the count. -/
structure Like (g g' : Gate κ ν) : Prop where
  entries : g'.entries = g.entries
  generation : g'.generation = g.generation
  abandoned : g'.abandoned = g.abandoned
  lastCause : g'.lastCause = g.lastCause

theorem Like.refl (g : Gate κ ν) : Like g g := ⟨rfl, rfl, rfl, rfl⟩

theorem Like.trans {g g' g'' : Gate κ ν} (h : Like g g') (h' : Like g' g'') : Like g g'' :=
  ⟨h'.entries.trans h.entries, h'.generation.trans h.generation, h'.abandoned.trans h.abandoned,
    h'.lastCause.trans h.lastCause⟩

theorem Like.answer? {g g' : Gate κ ν} (h : Like g g') (sight : Sight) (w : SizeWaiting) :
    g'.answer? sight w = g.answer? sight w := by
  rw [Gate.answer?, Gate.answer?, size, size, h.entries, h.generation, h.lastCause]

/-- A look changes nothing but the count, and wakes nobody. -/
structure Spares (g : Gate κ ν) (look : Look (Gate κ ν) SizeWaiting (Except Error Bool)) :
    Prop where
  like : Like g look.state
  quiet : look.notify = false

theorem Arrival.spares (h : Arrival g sight r look) : g.Spares look := by
  cases h <;> exact ⟨⟨rfl, rfl, rfl, rfl⟩, rfl⟩

theorem Return.spares (h : Return g sight w look) : g.Spares look := by
  cases h <;> exact ⟨⟨rfl, rfl, rfl, rfl⟩, rfl⟩

theorem Arrival.waiters (h : Arrival g sight r look) :
    look.state.waiters = g.waiters + if look.fate.result?.isSome then 0 else 1 := by
  cases h <;> rfl

theorem Return.waiters (h : Return g sight w look) (hpos : 0 < g.waiters) :
    look.state.waiters + 1 = g.waiters + if look.fate.result?.isSome then 0 else 1 := by
  cases h with
  | answered => exact Nat.sub_add_cancel hpos
  | waits => rfl

end Looks

/-! ## Worlds -/

/-- Something that happens to the gate. -/
inductive Action (κ ν : Type) where
  | put (key : κ) (value : ν)
  | remove (key : κ)
  | clear
  | abandon (cause : String)
  | reset
  deriving DecidableEq

abbrev World (κ ν : Type) [Ord κ] := Monitor.World (Gate κ ν) SizeWaiting

abbrev Move (κ ν : Type) := Monitor.Move SizeWait (Action κ ν)

section Causes

variable {κ ν : Type}

/-- The cause given in a move that abandons the gate. -/
def cause? : Move κ ν → Option String
  | .act (.abandon cause) => some cause
  | .act (.put ..) | .act (.remove _) | .act .clear | .act .reset => none
  | .enter .. | .recheck _ | .raise _ | .collect _ | .notify | .wake _ | .pass _ => none

/-- The causes of all abandonments, one after another. -/
def causes (moves : List (Move κ ν)) : List String := moves.filterMap cause?

theorem causes_append (moves moves' : List (Move κ ν)) :
    causes (moves ++ moves') = causes moves ++ causes moves' := List.filterMap_append

end Causes

section Actions

variable {κ ν : Type} [Ord κ] [Std.TransOrd κ] [Std.LawfulEqOrd κ]

def Action.perform : Action κ ν → Gate κ ν → Change (Gate κ ν) Unit
  | put key value, g => (Gate.put key value g).unanswered
  | remove key, g => (Gate.remove key g).unanswered
  | clear, g => Gate.clear g
  | abandon cause, g => Gate.abandon cause g
  | reset, g => Gate.reset g

variable (κ ν) in
/-- A gate, what happens to it, and the calls that wait on it. -/
def setting : Setting (Gate κ ν) SizeWait SizeWaiting (Except Error Bool) (Action κ ν) where
  discipline := discipline
  perform := Action.perform
  due? := (·.deadline)

theorem attentive_setting : (setting κ ν).Attentive where
  arrive hfate := by
    obtain ⟨-, -, hanswer⟩ := (arrive_spec _ _ _).sleeps hfate
    exact (answer?_eq_none_iff.1 hanswer).2.2
  again hfate := by
    obtain ⟨rfl, hanswer⟩ := (again_spec _ _ _).sleeps hfate
    exact (answer?_eq_none_iff.1 hanswer).2.2

theorem remembers_setting : (setting κ ν).Remembers :=
  fun hfate => ((again_spec _ _ _).sleeps hfate).1

/-! ## What the gate knows of the calls asleep -/

/-- An action lets the calls that rest wait on, unless it wakes them. -/
theorem Action.keeps (action : Action κ ν) (g : Gate κ ν) :
    (action.perform g).state.waiters = g.waiters ∧
      ((action.perform g).notify = false → 0 < g.waiters →
        (action.perform g).state.generation = g.generation ∧
          (action.perform g).state.size ≤ g.size) := by
  classical
  cases action with
  | put key value =>
    refine ⟨rfl, fun hquiet hwaiters => ⟨rfl, ?_⟩⟩
    cases hold : g.entries.get? key with
    | none =>
      change ((g.entries.get? key).isNone && decide (0 < g.waiters)) = false at hquiet
      simp [hold, Nat.not_le.2 hwaiters] at hquiet
    | some old => exact Nat.le_of_eq (SortedMap.size_insert_of_some hold value)
  | remove key => exact ⟨rfl, fun _ _ => ⟨rfl, SortedMap.size_erase_le ..⟩⟩
  | clear => exact ⟨rfl, fun _ _ => ⟨rfl, Nat.zero_le _⟩⟩
  | abandon cause => exact ⟨rfl, nofun⟩
  | reset => exact ⟨rfl, fun _ _ => ⟨rfl, Nat.le_refl _⟩⟩

/-! ## Abandonments -/

theorem shared_step_act (w : World κ ν) (action : Action κ ν) :
    (w.step (setting κ ν) (.act action)).monitor.shared =
      (action.perform w.monitor.shared).state :=
  shared_act w.monitor (action.perform)

/-- Only actions change more than the count. -/
theorem like_step (w : World κ ν) {move : Move κ ν} (hmove : ∀ action, move ≠ .act action) :
    Like w.monitor.shared (w.step (setting κ ν) move).monitor.shared := by
  cases w.step_effect (E := setting κ ν) move with
  | arrive _ hlook hlooked =>
    rw [hlooked.shared, hlook]
    exact (arrive_spec ..).spares.like
  | again _ _ hlook hlooked =>
    rw [hlooked.shared, hlook]
    exact (again_spec ..).spares.like
  | @act action => exact absurd rfl (hmove action)
  | wake _ _ hshared => exact hshared ▸ .refl _

/-- Each abandonment starts a generation, and leaves its cause. -/
theorem generation_step (w : World κ ν) (move : Move κ ν) :
    (w.step (setting κ ν) move).monitor.shared.generation =
        w.monitor.shared.generation + (causes [move]).length ∧
      (w.step (setting κ ν) move).monitor.shared.lastCause =
        (causes [move]).getLast?.getD w.monitor.shared.lastCause := by
  have hlike (hmove : ∀ action, move ≠ .act action) := like_step w hmove
  cases move with
  | act action =>
    rw [shared_step_act]
    cases action <;> exact ⟨rfl, rfl⟩
  | _ => exact ⟨(hlike nofun).generation, (hlike nofun).lastCause⟩

theorem generation_run (w : World κ ν) (moves : List (Move κ ν)) :
    (w.run (setting κ ν) moves).monitor.shared.generation =
        w.monitor.shared.generation + (causes moves).length ∧
      (w.run (setting κ ν) moves).monitor.shared.lastCause =
        (causes moves).getLast?.getD w.monitor.shared.lastCause := by
  induction moves generalizing w with
  | nil => exact ⟨rfl, rfl⟩
  | cons move moves ih =>
    obtain ⟨hgeneration, hcause⟩ := generation_step w move
    obtain ⟨hgenerations, hcauses⟩ := ih (w.step (setting κ ν) move)
    rw [show causes (move :: moves) = causes [move] ++ causes moves from
      causes_append [move] moves, World.run_cons, hgenerations, hcauses, hgeneration, hcause,
      List.length_append, List.getLast?_append, Nat.add_assoc]
    refine ⟨rfl, ?_⟩
    cases (causes moves).getLast? <;> rfl

end Actions

section Kept

variable {κ ν : Type} [Ord κ] {w w' : World κ ν}

/-- The gate counts the calls asleep, and those that rest wait for more keys than there are. -/
structure Kept (w : World κ ν) : Prop where
  waiters : w.monitor.shared.waiters = w.monitor.sleepers.size
  resting : ∀ c s, w.asleep? c = some s → s.woken = false →
    w.monitor.shared.generation = s.memory.generation ∧
      w.monitor.shared.size < s.memory.need

theorem kept_fresh {g : Gate κ ν} (hidle : g.waiters = 0) (start : Instant) :
    Kept (.fresh g start) where
  waiters := hidle
  resting _ _ h := nomatch h

theorem size_erase_of_asleep {c : Nat} {s : Sleeper SizeWaiting} (hget : w.asleep? c = some s) :
    (w.monitor.sleepers.erase c).size + 1 = w.monitor.sleepers.size :=
  SortedMap.size_erase_of_some hget

theorem Kept.looked (h : Kept w) {call : Nat} {registration : Option (TokenId × Nat)}
    {look : Look (Gate κ ν) SizeWaiting (Except Error Bool)}
    (hlooked : w.Looked call registration look w') (hspares : w.monitor.shared.Spares look)
    (hwaiters : look.state.waiters = (w.monitor.sleepers.erase call).size +
      if look.fate.result?.isSome then 0 else 1)
    (hsleeps : ∀ memory, look.fate = .sleeps memory →
      ∃ sight, w.monitor.shared.answer? sight memory = none) : Kept w' := by
  refine ⟨by rw [hlooked.shared, hlooked.size, hwaiters], fun c s' hget hrests => ?_⟩
  rw [hlooked.shared, hspares.like.generation, size, hspares.like.entries]
  rw [hlooked.sleepers] at hget
  split at hget
  · cases hfate : look.fate with
    | returns result =>
      rw [hfate] at hget
      cases hget
    | sleeps memory =>
      obtain ⟨sight, hanswer⟩ := hsleeps memory hfate
      rw [hfate] at hget
      cases hget
      obtain ⟨hgeneration, hneed, -⟩ := answer?_eq_none_iff.1 hanswer
      exact ⟨hgeneration, hneed⟩
  · obtain ⟨s, hs, rfl⟩ := Option.map_eq_some_iff.1 hget
    exact h.resting c s hs (Bool.or_eq_false_iff.1 hrests).1

theorem asleep?_calls_of_numbered (h : w.Numbered) : w.asleep? w.calls = none := by
  cases hget : w.asleep? w.calls with
  | none => rfl
  | some s => exact absurd (h _ s hget) (Nat.lt_irrefl _)

variable [Std.TransOrd κ] [Std.LawfulEqOrd κ]

theorem Kept.step (h : Kept w) (hnumbered : w.Numbered) (move : Move κ ν) :
    Kept (w.step (setting κ ν) move) := by
  have hnudged {nudge : Nat → Bool} (hnudged : w.Nudged nudge (w.step (setting κ ν) move))
      (hwaiters : (w.step (setting κ ν) move).monitor.shared.waiters =
        w.monitor.shared.waiters)
      (hresting : ∀ c s, w.asleep? c = some s → nudge c = false →
        (w.step (setting κ ν) move).monitor.shared.generation = w.monitor.shared.generation ∧
          (w.step (setting κ ν) move).monitor.shared.size ≤ w.monitor.shared.size) :
      Kept (w.step (setting κ ν) move) := by
    refine ⟨by rw [hwaiters, hnudged.size, h.waiters], fun c s' hget hrests => ?_⟩
    rw [hnudged.sleepers] at hget
    obtain ⟨s, hs, rfl⟩ := Option.map_eq_some_iff.1 hget
    obtain ⟨hrested, hnudge⟩ := Bool.or_eq_false_iff.1 hrests
    obtain ⟨hgeneration, hsize⟩ := hresting c s hs hnudge
    obtain ⟨hgeneration', hneed⟩ := h.resting c s hs hrested
    exact ⟨hgeneration.trans hgeneration', Nat.lt_of_le_of_lt hsize hneed⟩
  cases w.step_effect (E := setting κ ν) move with
  | @arrive token request _ look w' _ hlook hlooked _ =>
    have harrival : Arrival w.monitor.shared (w.sight token) request look :=
      hlook ▸ arrive_spec ..
    have herase := SortedMap.erase_of_none (asleep?_calls_of_numbered hnumbered)
    refine h.looked hlooked harrival.spares ?_ fun memory hfate =>
      ⟨_, (harrival.sleeps hfate).2.2⟩
    rw [harrival.waiters, h.waiters, herase]
  | @again c s look w' hget _ hlook hlooked _ =>
    have hreturn : Return w.monitor.shared (w.sight (s.token.map (·.1))) s.memory look :=
      hlook ▸ again_spec ..
    have herase := size_erase_of_asleep hget
    refine h.looked hlooked hreturn.spares ?_ fun memory hfate => ?_
    · have hpos : 0 < w.monitor.shared.waiters := by
        rw [h.waiters]
        omega
      have := hreturn.waiters hpos
      have := h.waiters
      omega
    · obtain ⟨rfl, hanswer⟩ := hreturn.sleeps hfate
      exact ⟨_, hanswer⟩
  | @act action w' hshared hnudged' =>
    obtain ⟨hwaiters, hkeeps⟩ := action.keeps w.monitor.shared
    refine hnudged hnudged' (by rw [hshared]; exact hwaiters) fun c s hget hquiet => ?_
    have hpos : 0 < w.monitor.shared.waiters := by
      have := size_erase_of_asleep hget
      rw [h.waiters]
      omega
    rw [hshared]
    exact hkeeps hquiet hpos
  | wake nudge _ hshared hnudged' =>
    refine hnudged hnudged' (by rw [hshared]) fun _ _ _ _ => ?_
    rw [hshared]
    exact ⟨rfl, Nat.le_refl _⟩

/-- All that is known of a gate and the calls asleep on it. -/
structure Sound (w : World κ ν) : Prop where
  attended : w.Attended (setting κ ν)
  kept : Kept w

theorem sound_fresh {g : Gate κ ν} (hidle : g.waiters = 0) (start : Instant) :
    Sound (.fresh g start) :=
  ⟨World.attended_fresh g start, kept_fresh hidle start⟩

theorem Sound.run (h : Sound w) (moves : List (Move κ ν)) :
    Sound (w.run (setting κ ν) moves) := by
  induction moves generalizing w with
  | nil => exact h
  | cons move moves ih =>
    exact ih ⟨h.attended.run attentive_setting [move], h.kept.step h.attended.numbered move⟩

end Kept
end WalStore.Gate

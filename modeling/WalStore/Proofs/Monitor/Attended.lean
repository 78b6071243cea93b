import WalStore.Proofs.Monitor.World

/-!
# Calls that rest

**Theorem (`Attended.of_quiescent`).** In a world where nothing is under way whoever is asleep has
time left and a token that is not cancelled.

A call falls asleep only before its wait ends and with its token's flag down (`Setting.Attentive`).
When its time comes it is woken. And a flag that is raised later is raised by a cancellation that
will find its waker, as the call is registered before it looks (`Monitor.Registered`).
-/

namespace WalStore.Monitor

variable {σ κ ω ρ α : Type}

namespace World

/-- The call has no deadline that has come, and no token that is cancelled, unless a cancellation
is still about to wake it. -/
structure Patient (E : Setting σ κ ω ρ α) (w : World σ ω) (s : Sleeper ω) : Prop where
  timed : ∀ due, E.due? s.memory = some due → w.now < due
  heard : ∀ t, s.token.map (·.1) = some t → (w.monitor.token t).cancelled = true →
    t ∈ w.raised ∨ 0 < w.wakers

end World

/-- A call falls asleep only before its wait ends and with its token's flag down. -/
structure Setting.Attentive (E : Setting σ κ ω ρ α) : Prop where
  arrive : ∀ {sight request s memory}, (E.discipline.arrive sight request s).fate = .sleeps memory →
    sight.cancelled = false ∧ ∀ due, E.due? memory = some due → sight.now < due
  again : ∀ {sight memory s memory'}, (E.discipline.again sight memory s).fate = .sleeps memory' →
    sight.cancelled = false ∧ ∀ due, E.due? memory' = some due → sight.now < due

namespace World

variable {E : Setting σ κ ω ρ α} {w w' : World σ ω}

theorem registered_step (h : w.monitor.Registered) (move : Move κ α) :
    (w.step E move).monitor.Registered := by
  cases move with
  | enter token request => exact h.enter E.discipline w.now w.calls token request
  | recheck call => exact h.recheck E.discipline w.now call
  | act action =>
    refine h.nudged (fun c => get?_act w.monitor c (E.perform action)) fun t => ?_
    rw [step, token_act]
    exact ⟨rfl, rfl⟩
  | raise token =>
    refine h.nudged (fun c => w.nudged_refl.sleepers c) fun t => ?_
    rw [step, token_raise]
    split
    · next ht => rw [ht]; exact ⟨rfl, rfl⟩
    · exact ⟨rfl, rfl⟩
  | collect token => rwa [(w.nudged_collect E token).2]
  | notify => exact h.nudged (fun c => get?_wakeIf w.monitor true c) fun t => ⟨rfl, rfl⟩
  | wake call =>
    refine h.nudged (fun c => get?_wake w.monitor call c) fun t => ?_
    rw [step, token_wake]
    exact ⟨rfl, rfl⟩
  | pass now => exact h.nudged (w.nudged_pass E now).sleepers fun t => ⟨rfl, rfl⟩

/-- Only a cancellation raises a flag. -/
theorem cancelled_step (w : World σ ω) {move : Move κ α} (hmove : ∀ t, move ≠ .raise t)
    (t : TokenId) :
    ((w.step E move).monitor.token t).cancelled = (w.monitor.token t).cancelled := by
  cases move with
  | enter token request =>
    rw [step, enter_eq, cancelled_afterLook, cancelled_register]
  | recheck call =>
    rw [step]
    rcases w.monitor.recheck_cases call E.discipline w.now with heq | ⟨s, -, -, heq⟩
    · rw [heq]
    · rw [heq, cancelled_afterLook]
  | act action => rw [step, token_act]
  | raise t => exact absurd rfl (hmove t)
  | collect token => rw [(w.nudged_collect E token).2]
  | notify => rfl
  | wake call => rw [step, token_wake]
  | pass now => rfl

theorem isCancelled_step (w : World σ ω) {move : Move κ α} (hmove : ∀ t, move ≠ .raise t)
    (token : Option TokenId) :
    (w.step E move).monitor.isCancelled token = w.monitor.isCancelled token := by
  cases token with
  | none => rfl
  | some t => exact w.cancelled_step hmove t

/-! ### Patience -/

/-- All calls that rest are patient. -/
def Calm (E : Setting σ κ ω ρ α) (w : World σ ω) : Prop :=
  ∀ c s, w.asleep? c = some s → s.woken = false → w.Patient E s

theorem Calm.nudged (h : w.Calm E) {nudge : Nat → Bool} (hnudged : w.Nudged nudge w')
    (hpatient : ∀ c s, w.asleep? c = some s → nudge c = false → w.Patient E s → w'.Patient E s) :
    w'.Calm E := by
  intro c s' hget hrests
  rw [hnudged.sleepers] at hget
  obtain ⟨s, hs, rfl⟩ := Option.map_eq_some_iff.1 hget
  obtain ⟨hrested, hnudge⟩ := Bool.or_eq_false_iff.1 hrests
  obtain ⟨htimed, hheard⟩ := hpatient c s hs hnudge (h c s hs hrested)
  exact ⟨htimed, hheard⟩

/-- The clock, the flags and the cancellations under way are as before. -/
structure Unmoved (w w' : World σ ω) : Prop where
  now : w'.now = w.now
  raised : w'.raised = w.raised
  wakers : w'.wakers = w.wakers
  flags : ∀ t, (w'.monitor.token t).cancelled = (w.monitor.token t).cancelled

theorem Patient.of_unmoved {s : Sleeper ω} (h : w.Patient E s) (hunmoved : w.Unmoved w') :
    w'.Patient E s := by
  refine ⟨fun due hdue => hunmoved.now ▸ h.timed due hdue, fun t ht hflag => ?_⟩
  rw [hunmoved.raised, hunmoved.wakers]
  exact h.heard t ht ((hunmoved.flags t).symm.trans hflag)

/-- A call looks that falls asleep only in time and with its token's flag down. -/
theorem Calm.looked (h : w.Calm E) (hunmoved : w.Unmoved w') {call : Nat}
    {registration : Option (TokenId × Nat)} {look : Look σ ω ρ}
    (hlooked : w.Looked call registration look w')
    (hfate : ∀ memory, look.fate = .sleeps memory →
      (w.sight (registration.map (·.1))).cancelled = false ∧
        ∀ due, E.due? memory = some due → w.now < due) : w'.Calm E := by
  intro c s' hget hrests
  rw [hlooked.sleepers] at hget
  split at hget
  · cases hsleeps : look.fate with
    | returns result =>
      rw [hsleeps] at hget
      cases hget
    | sleeps memory =>
      rw [hsleeps] at hget
      cases hget
      obtain ⟨hdown, htime⟩ := hfate memory hsleeps
      refine ⟨fun due hdue => hunmoved.now ▸ htime due hdue, fun t ht hflag => ?_⟩
      change registration.map (·.1) = some t at ht
      rw [ht] at hdown
      cases hdown.symm.trans ((hunmoved.flags t).symm.trans hflag)
  · obtain ⟨s, hs, rfl⟩ := Option.map_eq_some_iff.1 hget
    obtain ⟨htimed, hheard⟩ := (h c s hs (Bool.or_eq_false_iff.1 hrests).1).of_unmoved hunmoved
    exact ⟨htimed, hheard⟩

/-- Whoever is registered is among the wakers that a cancellation finds. -/
theorem Calm.collect (h : w.Calm E) (hregistered : w.monitor.Registered) (token : TokenId) :
    (w.step E (.collect token)).Calm E := by
  refine h.nudged (w.nudged_collect E token).1 fun c s hget _ hpatient => ?_
  rw [step]
  split
  · refine ⟨hpatient.timed, fun t ht hflag => ?_⟩
    rcases hpatient.heard t ht hflag with hmem | hpos
    · by_cases hself : t = token
      · obtain ⟨⟨t', id⟩, hs, rfl⟩ := Option.map_eq_some_iff.1 ht
        have hwakers := List.length_pos_iff.2 (hregistered.wakers_ne_nil hget hs)
        subst hself
        exact .inr (by dsimp only at hwakers ⊢; omega)
      · exact .inl ((List.mem_erase_of_ne hself).2 hmem)
    · exact .inr (Nat.lt_of_lt_of_le hpos (Nat.le_add_right ..))
  · exact hpatient

theorem Calm.pass (h : w.Calm E) (now : Instant) : (w.step E (.pass now)).Calm E := by
  refine h.nudged (w.nudged_pass E now) fun c s hget hnudge hpatient =>
    ⟨fun due hdue => ?_, hpatient.heard⟩
  rw [hget, Option.any_some, hdue, Option.any_some, decide_eq_false_iff_not] at hnudge
  exact Nat.lt_of_not_le hnudge

theorem Calm.step (h : w.Calm E) (hE : E.Attentive) (hregistered : w.monitor.Registered)
    (move : Move κ α) : (w.step E move).Calm E := by
  have hflags {move : Move κ α} (hmove : ∀ t, move ≠ .raise t) := w.cancelled_step (E := E) hmove
  cases move with
  | enter token request =>
    refine h.looked ⟨rfl, rfl, rfl, hflags nofun⟩ (w.looked_enter token request).1
      fun memory hfate => ?_
    rw [fst_register]
    exact hE.arrive hfate
  | recheck call =>
    rcases w.recheck_cases E call with ⟨-, hstep, -⟩ | ⟨s, -, -, hlooked, -⟩
    · rwa [hstep]
    · exact h.looked ⟨rfl, rfl, rfl, hflags nofun⟩ hlooked fun memory hfate => hE.again hfate
  | act action =>
    cases w.step_effect (E := E) (.act action) with
    | act _ hnudged =>
      exact h.nudged hnudged fun c s _ _ hpatient =>
        hpatient.of_unmoved ⟨rfl, rfl, rfl, hflags nofun⟩
    | wake _ hmove => exact absurd rfl (hmove action)
  | raise token =>
    refine h.nudged ⟨w.nudged_refl.sleepers, rfl, rfl⟩ fun c s _ _ hpatient =>
      ⟨hpatient.timed, fun t ht hflag => ?_⟩
    by_cases hself : t = token
    · exact .inl (hself ▸ List.mem_cons_self)
    · have hsame := token_raise w.monitor token t
      rw [if_neg hself] at hsame
      exact (hpatient.heard t ht (hsame ▸ hflag)).imp_left (List.mem_cons_of_mem token)
  | collect token => exact h.collect hregistered token
  | notify =>
    intro c s' hget hrests
    rw [show (w.step E .notify).asleep? c = _ from get?_wakeIf w.monitor true c] at hget
    obtain ⟨s, -, rfl⟩ := Option.map_eq_some_iff.1 hget
    cases (Bool.or_eq_false_iff.1 hrests).2
  | wake call =>
    exact h.nudged ⟨fun c => get?_wake w.monitor call c, size_wake w.monitor call, rfl⟩
      fun c s _ _ hpatient => hpatient.of_unmoved ⟨rfl, rfl, rfl, hflags nofun⟩
  | pass now => exact h.pass now

/-! ## Runs -/

/-- What is known of the calls asleep: each has a number and a registration of its own, and those
that rest are patient. -/
structure Attended (E : Setting σ κ ω ρ α) (w : World σ ω) : Prop where
  numbered : w.Numbered
  registered : w.monitor.Registered
  calm : w.Calm E

theorem attended_fresh (shared : σ) (now : Instant) :
    (fresh shared now : World σ ω).Attended E where
  numbered _ _ h := nomatch h
  registered := registered_ofState _
  calm _ _ h := nomatch h

theorem Attended.run (h : w.Attended E) (hE : E.Attentive) (moves : List (Move κ α)) :
    (w.run E moves).Attended E := by
  induction moves generalizing w with
  | nil => exact h
  | cons move moves ih =>
    exact ih ⟨h.numbered.step move, registered_step h.registered move,
      h.calm.step hE h.registered move⟩

/-- Once the cancellations are over, a patient call has a token that is not cancelled. -/
theorem Patient.uncancelled {s : Sleeper ω} (h : w.Patient E s) (hraised : w.raised = [])
    (hwakers : w.wakers = 0) : w.monitor.isCancelled (s.token.map (·.1)) = false := by
  cases htoken : s.token.map (·.1) with
  | none => rfl
  | some t =>
    refine Bool.eq_false_iff.2 fun hflag => ?_
    rcases h.heard t htoken hflag with hmem | hpos
    · rw [hraised] at hmem
      cases hmem
    · rw [hwakers] at hpos
      cases hpos

/-- **Whoever rests has time left and a token that is not cancelled**, when nothing is under way. -/
theorem Attended.of_quiescent (h : w.Attended E) (hquiescent : w.Quiescent) {c : Nat}
    {s : Sleeper ω} (hget : w.asleep? c = some s) :
    s.woken = false ∧ w.monitor.isCancelled (s.token.map (·.1)) = false ∧
      ∀ due, E.due? s.memory = some due → w.now < due := by
  have hrests := isQuiet_iff.1 hquiescent.quiet c s hget
  have hpatient := h.calm c s hget hrests
  exact ⟨hrests, hpatient.uncancelled hquiescent.raised hquiescent.wakers, hpatient.timed⟩

end World

end WalStore.Monitor

import WalStore.Proofs.Gate.Recheck

/-!
# Abandoning the gate

**Theorem (`abandoned_run`).** A wait that is under way when the gate is abandoned gives up,
whatever happens before it looks again, and with the cause of the latest abandonment since it began;
and no other wait gives up later. A wait that begins while the gate is abandoned is refused at once
with the cause that stands (`standing`), so after a reset only later abandonments count.

A call remembers the generation in which it began, and each abandonment starts a new one. So when it
looks again the generations differ exactly if there has been an abandonment since, and then the
cause kept by the gate is the latest one.
-/

namespace WalStore.Gate

open Monitor

section Standing

variable {κ ν : Type}

/-- Why new waits are refused after a move. -/
def stand (current : Option String) : Move κ ν → Option String
  | .act (.abandon cause) => some cause
  | .act .reset => none
  | .act (.put ..) | .act (.remove _) | .act .clear => current
  | .enter .. | .recheck _ | .raise _ | .collect _ | .notify | .wake _ | .pass _ => current

/-- Why new waits are refused: the cause of the latest abandonment, unless there has been a reset
since. -/
def standing (current : Option String) (moves : List (Move κ ν)) : Option String :=
  moves.foldl stand current

/-- After a reset only abandonments that follow it count. -/
theorem standing_reset (current : Option String) (earlier between : List (Move κ ν)) :
    standing current (earlier ++ .act .reset :: between) = standing none between := by
  rw [standing, List.foldl_append, List.foldl_cons]
  rfl

/-- The cause that stands is the latest one, or it has been there from the beginning. -/
theorem last_cause_of_standing {current : Option String} {moves : List (Move κ ν)} {cause : String}
    (hstands : standing current moves = some cause) :
    (causes moves).getLast?.or current = some cause := by
  induction moves generalizing current with
  | nil => exact hstands
  | cons move moves ih =>
    have hlater : (causes moves).getLast?.or (stand current move) = some cause := ih hstands
    rw [show causes (move :: moves) = causes [move] ++ causes moves from
      causes_append [move] moves, List.getLast?_append, Option.or_assoc]
    cases hlast : (causes moves).getLast? with
    | some latest => rwa [hlast] at hlater
    | none =>
      rw [hlast] at hlater
      cases move with
      | act action =>
        cases action with
        | reset => cases hlater
        | _ => exact hlater
      | _ => exact hlater

end Standing

variable {κ ν : Type} [Ord κ] [Std.TransOrd κ] [Std.LawfulEqOrd κ] {w : World κ ν}

/-! ## Waits that begin -/

theorem standing_run (w : World κ ν) (moves : List (Move κ ν)) :
    (w.run (setting κ ν) moves).monitor.shared.abandoned =
      standing w.monitor.shared.abandoned moves := by
  induction moves generalizing w with
  | nil => rfl
  | cons move moves ih =>
    rw [World.run_cons, ih, standing, standing, List.foldl_cons]
    congr 1
    have hlike (hmove : ∀ action, move ≠ .act action) := (like_step w hmove).abandoned
    cases move with
    | act action =>
      rw [shared_step_act]
      cases action <;> rfl
    | _ => exact hlike nofun

theorem outcome_enter (w : World κ ν) (token : Option TokenId) (request : SizeWait)
    (cause : String) :
    w.outcome? (setting κ ν) (.enter token request) = some (.error (.waitAbandoned cause)) ↔
      w.monitor.shared.abandoned = some cause := by
  rw [(w.looked_enter token request).2, Fate.result?_eq_some_iff]
  have harrival := arrive_spec w.monitor.shared (w.sight token) request
  change (w.monitor.shared.arrive (w.sight token) request).fate = _ ↔ _
  constructor
  · intro hreturns
    rcases harrival.returns hreturns with ⟨_, habandoned, heq⟩ | ⟨-, hanswer⟩
    · cases heq
      exact habandoned
    · exact absurd rfl (answer?_eq_abandoned_iff.1 hanswer).1
  · intro habandoned
    rw [arrive, habandoned]

/-- A wait that is refused does not block. -/
theorem asleep_enter {token : Option TokenId} {request : SizeWait}
    (habandoned : w.monitor.shared.abandoned ≠ none) :
    (w.step (setting κ ν) (.enter token request)).asleep? w.calls = none := by
  cases hget : (w.step (setting κ ν) (.enter token request)).asleep? w.calls with
  | none => rfl
  | some s =>
    have hstill : ((w.step (setting κ ν) (.enter token request)).run (setting κ ν) []).asleep?
        w.calls = some s := hget
    have hsleeps := (World.arrive_of_asleep remembers_setting hstill).1
    exact absurd ((arrive_spec ..).sleeps hsleeps).2.1 habandoned

/-! ## Waits under way -/

/-- A later look fails with the latest cause since the call began, and only if there is one. -/
theorem outcome_recheck {token : Option TokenId} {request : SizeWait} {after : List (Move κ ν)}
    (h : Sound ((w.step (setting κ ν) (.enter token request)).run (setting κ ν) after))
    (cause : String) :
    ((w.step (setting κ ν) (.enter token request)).run (setting κ ν) after).outcome? (setting κ ν)
        (.recheck w.calls) = some (.error (.waitAbandoned cause)) ↔
      (((w.step (setting κ ν) (.enter token request)).run (setting κ ν) after).asleep?
        w.calls).isSome = true ∧ (causes after).getLast? = some cause := by
  obtain ⟨hgeneration, hcause⟩ := generation_run w (.enter token request :: after)
  rw [World.run_cons, show causes (.enter token request :: after) = causes after from rfl]
    at hgeneration hcause
  rw [(recheck_spec _ _).2]
  cases hget : ((w.step (setting κ ν) (.enter token request)).run (setting κ ν) after).asleep?
      w.calls with
  | none => simp
  | some s =>
    have hsleeps := (World.arrive_of_asleep remembers_setting hget).1
    obtain ⟨hmemory, -⟩ := (arrive_spec ..).sleeps hsleeps
    have hbegan : s.memory.generation = w.monitor.shared.generation := by rw [hmemory, waiting]
    have hverdict : verdict? ((w.step (setting κ ν) (.enter token request)).run (setting κ ν) after)
        s = some (.error (.waitAbandoned cause)) ↔ (causes after).getLast? = some cause := by
      rw [verdict?, answer?_eq_abandoned_iff, hgeneration, hcause, hbegan]
      cases hlast : (causes after).getLast? with
      | none => simp [List.getLast?_eq_none_iff.1 hlast]
      | some latest =>
        have hsome : causes after ≠ [] := fun hnil => by simp [hnil] at hlast
        simp [hsome]
    have hwoken (hlast : (causes after).getLast? = some cause) : s.woken = true := by
      refine (Bool.eq_false_or_eq_true _).resolve_right fun hrests => ?_
      have hsame := (h.kept.resting _ s hget hrests).1
      rw [hgeneration, hbegan] at hsame
      simp [List.eq_nil_of_length_eq_zero (Nat.left_eq_add.1 hsame.symm)] at hlast
    constructor
    · rintro ⟨s', hs', -, hanswer⟩
      cases hs'
      exact ⟨rfl, hverdict.1 hanswer⟩
    · rintro ⟨-, hlast⟩
      exact ⟨s, rfl, hwoken hlast, hverdict.2 hlast⟩

/-- Whoever is asleep when the gate is abandoned is still asleep, or has given up since. -/
theorem gives_up (h : Sound w) {token : Option TokenId} {request : SizeWait}
    {during since : List (Move κ ν)} {cause : String}
    (hasleep : (((w.step (setting κ ν) (.enter token request)).run (setting κ ν)
      during).asleep? w.calls).isSome) :
    let began := w.step (setting κ ν) (.enter token request)
    ((began.run (setting κ ν) (during ++ .act (.abandon cause) :: since)).asleep?
        w.calls).isSome ∨
      ∃ sooner later latest, since = sooner ++ .recheck w.calls :: later ∧
        (causes (during ++ .act (.abandon cause) :: sooner)).getLast? = some latest ∧
        (began.run (setting κ ν) (during ++ .act (.abandon cause) :: sooner)).outcome?
          (setting κ ν) (.recheck w.calls) = some (.error (.waitAbandoned latest)) := by
  intro began
  have hsound (moves : List (Move κ ν)) : Sound (began.run (setting κ ν) moves) :=
    (h.run [.enter token request]).run moves
  obtain ⟨s, hs⟩ := Option.isSome_iff_exists.1 hasleep
  have hcall := (hsound during).attended.numbered _ s hs
  rw [World.run_append]
  refine (World.returns_of_run hcall hasleep).imp_right ?_
  rintro ⟨before, later, hsince, hlast, -⟩
  cases before with
  | nil => cases hsince
  | cons move sooner =>
    cases hsince
    obtain ⟨latest, hlatest⟩ : ∃ latest,
        (causes (during ++ .act (.abandon cause) :: sooner)).getLast? = some latest := by
      rw [causes_append, show causes (.act (.abandon cause) :: sooner) = cause :: causes sooner from
        rfl, List.getLast?_append, List.getLast?_cons]
      exact ⟨_, rfl⟩
    refine ⟨sooner, later, latest, rfl, hlatest,
      (outcome_recheck (hsound _) latest).2 ⟨?_, hlatest⟩⟩
    rwa [← World.run_append] at hlast

/-- **Abandoning the gate reaches every wait under way, and no other.** -/
theorem abandoned_run {g : Gate κ ν} (hidle : g.waiters = 0) (start : Instant)
    (before after : List (Move κ ν)) (token : Option TokenId) (request : SizeWait) :
    let w : World κ ν := World.run (setting κ ν) (.fresh g start) before
    let began := w.step (setting κ ν) (.enter token request)
    let v := began.run (setting κ ν) after
    (∀ cause, w.outcome? (setting κ ν) (.enter token request) =
        some (.error (.waitAbandoned cause)) ↔ standing g.abandoned before = some cause) ∧
    (standing g.abandoned before ≠ none → began.asleep? w.calls = none) ∧
    (∀ cause, v.outcome? (setting κ ν) (.recheck w.calls) =
        some (.error (.waitAbandoned cause)) ↔
      (v.asleep? w.calls).isSome ∧ (causes after).getLast? = some cause) ∧
    (∀ during cause since, after = during ++ .act (.abandon cause) :: since →
      ((began.run (setting κ ν) during).asleep? w.calls).isSome →
        (v.asleep? w.calls).isSome ∨
          ∃ sooner later latest, since = sooner ++ .recheck w.calls :: later ∧
            (causes (during ++ .act (.abandon cause) :: sooner)).getLast? = some latest ∧
            (began.run (setting κ ν) (during ++ .act (.abandon cause) :: sooner)).outcome?
              (setting κ ν) (.recheck w.calls) = some (.error (.waitAbandoned latest))) ∧
    (∀ earlier between cause, before = earlier ++ .act .reset :: between →
      w.outcome? (setting κ ν) (.enter token request) = some (.error (.waitAbandoned cause)) →
        (causes between).getLast? = some cause) := by
  intro w began v
  have hsound : Sound w := (sound_fresh hidle start).run before
  have hstanding : w.monitor.shared.abandoned = standing g.abandoned before :=
    standing_run (.fresh g start) before
  refine ⟨fun cause => ?_, fun hstands => asleep_enter (hstanding ▸ hstands), fun cause => ?_,
    ?_, ?_⟩
  · rw [outcome_enter, hstanding]
  · exact outcome_recheck ((hsound.run [.enter token request]).run after) cause
  · rintro during cause since rfl hasleep
    exact gives_up hsound hasleep
  · rintro earlier between cause rfl hrefused
    rw [outcome_enter, hstanding, standing_reset] at hrefused
    have hlast := last_cause_of_standing hrefused
    rwa [Option.or_none] at hlast

/-- Abandoned twice, the threshold reached, the token cancelled and the gate reset: the call gives
up with the second cause. -/
theorem abandoned_run_twice :
    let began : World Nat Unit := World.run (setting Nat Unit) (.fresh .empty 0)
      [.enter (some ⟨7⟩) ⟨1, none⟩]
    let v := began.run (setting Nat Unit) [.act (.abandon "first"), .act (.put 5 ()), .raise ⟨7⟩,
      .act .reset, .act (.abandon "second"), .act .reset]
    v.outcome? (setting Nat Unit) (.recheck 0) = some (.error (.waitAbandoned "second")) := by
  intro began v
  obtain ⟨-, -, hlater, -⟩ := abandoned_run (rfl : (.empty : Gate Nat Unit).waiters = 0) 0 []
    [.act (.abandon "first"), .act (.put 5 ()), .raise ⟨7⟩, .act .reset, .act (.abandon "second"),
      .act .reset] (some ⟨7⟩) ⟨1, none⟩
  exact (hlater "second").2 ⟨by decide +kernel, rfl⟩

end WalStore.Gate

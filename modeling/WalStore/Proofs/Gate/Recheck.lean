import WalStore.Proofs.Gate

/-!
# Rechecks at the gate

The look of a woken call changes nothing at the gate but the count, and wakes nobody. So rechecks do
not disturb each other: what becomes of a call is known before they begin (`relook`), and neither
their order nor their number matters as long as every woken call has its turn.
-/

namespace WalStore.Gate

open Monitor

variable {κ ν : Type} [Ord κ]

/-- What a call asleep is answered if it looks now. -/
def verdict? (w : World κ ν) (s : Sleeper SizeWaiting) : Option (Except Error Bool) :=
  w.monitor.shared.answer? (w.sight (s.token.map (·.1))) s.memory

/-- What becomes of a call asleep by rechecks. -/
def relook (w : World κ ν) (s : Sleeper SizeWaiting) : Option (Sleeper SizeWaiting) :=
  if s.woken then if (verdict? w s).isSome then none else some { s with woken := false }
  else some s

/-- Calls see the same in both worlds. -/
structure SeesSame (w v : World κ ν) : Prop where
  like : Like w.monitor.shared v.monitor.shared
  unmoved : w.Unmoved v

variable {w v : World κ ν}

theorem SeesSame.isCancelled (h : SeesSame w v) (token : Option TokenId) :
    v.monitor.isCancelled token = w.monitor.isCancelled token := by
  cases token with
  | none => rfl
  | some t => exact h.unmoved.flags t

theorem SeesSame.verdict? (h : SeesSame w v) (s : Sleeper SizeWaiting) :
    verdict? v s = verdict? w s := by
  rw [Gate.verdict?, Gate.verdict?, h.like.answer?, World.sight, World.sight, Monitor.sight,
    Monitor.sight, h.unmoved.now, h.isCancelled]

theorem SeesSame.relook (h : SeesSame w v) : relook v = relook w :=
  funext fun s => by rw [Gate.relook, Gate.relook, h.verdict?]

/-- A second recheck does nothing. -/
theorem relook_relook (w : World κ ν) (s : Sleeper SizeWaiting) :
    (relook w s).bind (relook w) = relook w s := by
  unfold relook
  grind

theorem woken_relook {s s' : Sleeper SizeWaiting} (h : relook w s = some s') :
    s'.woken = false ∧ s'.memory = s.memory ∧ s'.token = s.token := by
  unfold relook at h
  grind

theorem isSome_relook {s : Sleeper SizeWaiting} :
    (relook w s).isSome = true ↔ s.woken = false ∨ verdict? w s = none := by
  unfold relook
  grind [Option.isSome_eq_false_iff, Option.isNone_iff_eq_none]

theorem Return.sleeper? {g : Gate κ ν} {sight : Sight} {memory : SizeWaiting}
    {look : Look (Gate κ ν) SizeWaiting (Except Error Bool)} (h : Return g sight memory look)
    (token : Option (TokenId × Nat)) : look.fate.sleeper? token =
      if (g.answer? sight memory).isSome then none else some ⟨memory, token, false⟩ := by
  cases h with
  | answered hanswer =>
    rw [hanswer]
    rfl
  | waits hanswer =>
    rw [hanswer]
    rfl

variable [Std.TransOrd κ] [Std.LawfulEqOrd κ]

theorem sees_recheck (w : World κ ν) (call : Nat) :
    SeesSame w (w.step (setting κ ν) (.recheck call)) :=
  ⟨like_step w nofun, rfl, rfl, rfl, w.cancelled_step nofun⟩

theorem recheck_spec (w : World κ ν) (call : Nat) :
    (∀ c, (w.step (setting κ ν) (.recheck call)).asleep? c =
        if c = call then (w.asleep? c).bind (relook w) else w.asleep? c) ∧
      ∀ result, w.outcome? (setting κ ν) (.recheck call) = some result ↔
        ∃ s, w.asleep? call = some s ∧ s.woken = true ∧ verdict? w s = some result := by
  rcases w.recheck_cases (setting κ ν) call with
    ⟨hrests, hstep, hnone⟩ | ⟨s, hget, hwoken, hlooked, houtcome⟩
  · rw [hstep, hnone]
    refine ⟨fun c => ?_, fun result => ⟨nofun, ?_⟩⟩
    · split
      · next hc =>
        cases hget : w.asleep? c with
        | none => rfl
        | some s => simp [relook, hrests s (hc ▸ hget)]
      · rfl
    · rintro ⟨s, hget, hwoken, -⟩
      rw [hrests s hget] at hwoken
      cases hwoken
  · generalize hlook : (setting κ ν).discipline.again _ _ _ = look at hlooked houtcome
    have hreturn : Return w.monitor.shared (w.sight (s.token.map (·.1))) s.memory look :=
      hlook ▸ again_spec ..
    refine ⟨fun c => ?_, fun result => ?_⟩
    · rw [hlooked.sleepers]
      split
      · next hc =>
        rw [hc, hget, Option.bind_some, relook, if_pos hwoken, hreturn.sleeper?, verdict?]
      · rw [hreturn.spares.quiet]
        simp
    · rw [houtcome, Fate.result?_eq_some_iff, hreturn.returns_iff, ← verdict?, hget]
      simp [hwoken]

theorem sees_rechecks (w : World κ ν) (calls : List Nat) :
    SeesSame w (w.rechecked (setting κ ν) calls) := by
  induction calls generalizing w with
  | nil => exact ⟨.refl _, rfl, rfl, rfl, fun _ => rfl⟩
  | cons call calls ih =>
    obtain ⟨hlike, hnow, hraised, hwakers, hflags⟩ := sees_recheck w call
    obtain ⟨hlike', hnow', hraised', hwakers', hflags'⟩ := ih (w.step (setting κ ν) (.recheck call))
    exact ⟨hlike.trans hlike', hnow'.trans hnow, hraised'.trans hraised, hwakers'.trans hwakers,
      fun t => (hflags' t).trans (hflags t)⟩

theorem rechecks_spec (w : World κ ν) (calls : List Nat) :
    (∀ c, (w.rechecked (setting κ ν) calls).asleep? c =
        if c ∈ calls then (w.asleep? c).bind (relook w) else w.asleep? c) ∧
      ∀ c result, (c, result) ∈ w.recheckResults (setting κ ν) calls ↔
        c ∈ calls ∧ ∃ s, w.asleep? c = some s ∧ s.woken = true ∧ verdict? w s = some result := by
  induction calls generalizing w with
  | nil => exact ⟨fun c => by simp, by simp [World.recheckResults]⟩
  | cons call calls ih =>
    have hsame := sees_recheck w call
    obtain ⟨hasleep, houtcome⟩ := recheck_spec w call
    obtain ⟨hasleeps, hresults⟩ := ih (w.step (setting κ ν) (.recheck call))
    refine ⟨fun c => ?_, fun c result => ?_⟩
    · rw [World.rechecked_cons, hasleeps, hasleep, hsame.relook]
      by_cases hself : c = call
      · cases w.asleep? c <;> simp [hself, relook_relook]
      · simp [hself]
    · have hhead : (c, result) ∈ ((w.outcome? (setting κ ν) (.recheck call)).map (call, ·)).toList ↔
          c = call ∧ ∃ s, w.asleep? c = some s ∧ s.woken = true ∧ verdict? w s = some result := by
        rw [Option.mem_toList, Option.map_eq_some_iff]
        constructor
        · rintro ⟨_, hlook, heq⟩
          cases heq
          exact ⟨rfl, (houtcome _).1 hlook⟩
        · rintro ⟨rfl, hlook⟩
          exact ⟨_, (houtcome _).2 hlook, rfl⟩
      rw [World.recheckResults, List.mem_append, hhead, hresults, hasleep]
      simp only [hsame.verdict?]
      by_cases hself : c = call
      · have hlater (s : Sleeper SizeWaiting) (hget : (w.asleep? c).bind (relook w) = some s) :
            s.woken = false := by
          obtain ⟨_, -, hrelook⟩ := Option.bind_eq_some_iff.1 hget
          exact (woken_relook hrelook).1
        simp only [List.mem_cons, hself, true_and, true_or]
        refine or_iff_left ?_
        rintro ⟨-, s, hget, hwoken, -⟩
        rw [hlater s (hself ▸ hget)] at hwoken
        cases hwoken
      · simp [hself]

/-! ## Quiet after rechecks -/

/-- All woken calls have looked again. -/
theorem asleep_of_quiet {calls : List Nat}
    (hquiet : (w.rechecked (setting κ ν) calls).monitor.isQuiet = true) (c : Nat) :
    (w.rechecked (setting κ ν) calls).asleep? c = (w.asleep? c).bind (relook w) := by
  have hasleep := (rechecks_spec w calls).1 c
  by_cases hmem : c ∈ calls
  · rw [hasleep, if_pos hmem]
  · rw [if_neg hmem] at hasleep
    rw [hasleep]
    cases hget : w.asleep? c with
    | none => rfl
    | some s =>
      have hrests := isQuiet_iff.1 hquiet c s (hasleep.trans hget)
      simp [relook, hrests]

theorem mem_results_of_quiet {calls : List Nat}
    (hquiet : (w.rechecked (setting κ ν) calls).monitor.isQuiet = true) (c : Nat)
    (result : Except Error Bool) : (c, result) ∈ w.recheckResults (setting κ ν) calls ↔
      ∃ s, w.asleep? c = some s ∧ s.woken = true ∧ verdict? w s = some result := by
  obtain ⟨hasleep, hresults⟩ := rechecks_spec w calls
  rw [hresults, and_iff_right_iff_imp]
  rintro ⟨s, hget, hwoken, -⟩
  by_cases hmem : c ∈ calls
  · exact hmem
  · have hstill := hasleep c
    rw [if_neg hmem, hget] at hstill
    rw [isQuiet_iff.1 hquiet c s hstill] at hwoken
    cases hwoken

/-- When all calls asleep have had their turn, all is quiet. -/
theorem exists_quiet (w : World κ ν) :
    ∃ calls : List Nat, (w.rechecked (setting κ ν) calls).monitor.isQuiet = true := by
  refine ⟨w.monitor.sleepers.keys, isQuiet_iff.2 fun c s hget => ?_⟩
  have hasleep := (rechecks_spec w w.monitor.sleepers.keys).1 c
  rw [World.asleep?, hget] at hasleep
  split at hasleep
  · obtain ⟨_, -, hrelook⟩ := Option.bind_eq_some_iff.1 hasleep.symm
    exact (woken_relook hrelook).1
  · next hmem =>
    exact absurd (SortedMap.mem_keys_iff.2 (Option.isSome_of_mem hasleep.symm)) hmem

end WalStore.Gate
